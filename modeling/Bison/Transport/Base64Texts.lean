import Bison.Transport.Base64

/-!
# The texts that base64_decode accepts

`base64_decode` looks at the shape of a text and not at the bits that its last group has to spare,
so that it accepts more than `base64_encode` produces.

- `IsText`: groups of four characters of the alphabet, the last one or two of all padding.
- `SpareBitsZero`: the bits of the last group that no byte has.
- `base64_accepts`: **main result**, decoding undoes encoding, accepts the texts of this shape and
  no others, and encoding undoes it exactly where the spare bits are zero.
- `base64_spare_bits`: a text with spare bits is accepted.
-/

namespace Bison

/-- The value of a character of the alphabet. -/
def charValue (c : UInt8) : Nat := kBase64Chars.idxOf c

/-- The shape of an encoded text. -/
structure IsText (text : List UInt8) : Prop where
  groups : text.length % 4 = 0
  chars : ∃ body pad, text = body ++ List.replicate pad padChar ∧ pad ≤ 2 ∧
    ∀ c ∈ body, c ∈ kBase64Chars

/-- With padding, the last character before it has bits that no byte of the group has: two for each
character of padding. -/
def SpareBitsZero (text : List UInt8) : Prop :=
  ∀ body c pad, text = body ++ c :: List.replicate pad padChar → c ∈ kBase64Chars →
    charValue c % 4 ^ pad = 0

/-! ## Characters -/

theorem padChar_not_mem : padChar ∉ kBase64Chars := by decide

theorem ne_padChar {c : UInt8} (hc : c ∈ kBase64Chars) : c ≠ padChar :=
  fun h => padChar_not_mem (h ▸ hc)

theorem charValue_lt {c : UInt8} (hc : c ∈ kBase64Chars) : charValue c < 64 :=
  List.idxOf_lt_length_iff.2 hc

theorem char_charValue {c : UInt8} (hc : c ∈ kBase64Chars) :
    kBase64Chars.getD (charValue c) 0 = c := by
  have hlt : charValue c < kBase64Chars.length := List.idxOf_lt_length_iff.2 hc
  rw [List.getD_eq_getElem?_getD, List.getElem?_eq_getElem hlt]
  exact List.getElem_idxOf hlt

theorem charValue_char {v : Nat} (hv : v < 64) : charValue (kBase64Chars.getD v 0) = v := by
  have hall : ∀ v < 64, charValue (kBase64Chars.getD v 0) = v := by decide +kernel
  exact hall v hv

/-- The table covers the alphabet. -/
theorem toNat_mem_chars {c : UInt8} (hc : c ∈ kBase64Chars) : 43 ≤ c.toNat ∧ c.toNat < 43 + 80 := by
  have hall : (kBase64Chars.all fun c => decide (43 ≤ c.toNat ∧ c.toNat < 43 + 80)) = true := by
    decide +kernel
  exact of_decide_eq_true (List.all_eq_true.1 hall c hc)

/-- What the table says of a character. -/
theorem decodeTable_mem {c : UInt8} (hpad : c ≠ padChar) :
    (c.toNat < 43 ∨ c.toNat ≥ 43 + 80 ∨ decodeTable.getD (c.toNat - 43) (-1) < 0) ↔
      c ∉ kBase64Chars := by
  have htable : ∀ i < 80, UInt8.ofNat (43 + i) ≠ padChar →
      (decodeTable.getD i (-1) < 0 ↔ UInt8.ofNat (43 + i) ∉ kBase64Chars) := by decide +kernel
  by_cases hlow : c.toNat < 43
  · exact iff_of_true (.inl hlow) fun hc => hlow.not_ge (toNat_mem_chars hc).1
  by_cases hhigh : c.toNat ≥ 43 + 80
  · exact iff_of_true (.inr (.inl hhigh)) fun hc => hhigh.not_gt (toNat_mem_chars hc).2
  have h := htable (c.toNat - 43) (by omega)
  rw [Nat.add_sub_cancel' (not_lt.1 hlow), UInt8.ofNat_toNat] at h
  rw [← h hpad, or_iff_right hlow, or_iff_right hhigh]

/-- One character of a group: padding, or of the alphabet and before all padding. -/
theorem decodeChar_eq (vals : List Nat) (pad : Nat) (c : UInt8) :
    decodeChar (vals, pad) c =
      if c = padChar then some (vals ++ [0], pad + 1)
      else if c ∈ kBase64Chars ∧ pad = 0 then some (vals ++ [charValue c], 0)
      else none := by
  by_cases hpad : c = padChar
  · rw [if_pos hpad, hpad, decodeChar_pad]
  · rw [if_neg hpad]
    by_cases hc : c ∈ kBase64Chars
    · cases pad with
      | zero =>
        rw [if_pos ⟨hc, rfl⟩]
        have hvalue := decodeChar_value (charValue_lt hc) vals
        rwa [char_charValue hc] at hvalue
      | succ pad =>
        have hin : ¬ (c.toNat < 43 ∨ c.toNat ≥ 43 + 80 ∨
            decodeTable.getD (c.toNat - 43) (-1) < 0) :=
          fun h => (decodeTable_mem hpad).1 h hc
        rw [if_neg fun h => Nat.succ_ne_zero pad h.2, decodeChar, if_neg hpad, if_neg hin,
          if_pos (Nat.succ_pos pad)]
    · rw [if_neg fun h => hc h.1, decodeChar, if_neg hpad, if_pos ((decodeTable_mem hpad).2 hc)]

theorem decodeChar_cases {vals : List Nat} {pad : Nat} {c : UInt8} {seen : List Nat × Nat}
    (h : decodeChar (vals, pad) c = some seen) :
    (c = padChar ∧ seen = (vals ++ [0], pad + 1)) ∨
      (c ∈ kBase64Chars ∧ pad = 0 ∧ seen = (vals ++ [charValue c], 0)) := by
  rw [decodeChar_eq] at h
  split_ifs at h with hpad hc
  · exact .inl ⟨hpad, (Option.some.inj h).symm⟩
  · exact .inr ⟨hc.1, hc.2, (Option.some.inj h).symm⟩

/-! ## Groups -/

/-- The values of a group and its padding. -/
def groupOf (c₀ c₁ c₂ c₃ : UInt8) : Option (List Nat × Nat) :=
  [c₀, c₁, c₂, c₃].foldlM decodeChar ([], 0)

/-- The three shapes of a group. -/
inductive Group : UInt8 → UInt8 → UInt8 → UInt8 → List Nat → Nat → Prop where
  | full {c₀ c₁ c₂ c₃} (h₀ : c₀ ∈ kBase64Chars) (h₁ : c₁ ∈ kBase64Chars) (h₂ : c₂ ∈ kBase64Chars)
    (h₃ : c₃ ∈ kBase64Chars) :
    Group c₀ c₁ c₂ c₃ [charValue c₀, charValue c₁, charValue c₂, charValue c₃] 0
  | two {c₀ c₁ c₂} (h₀ : c₀ ∈ kBase64Chars) (h₁ : c₁ ∈ kBase64Chars) (h₂ : c₂ ∈ kBase64Chars) :
    Group c₀ c₁ c₂ padChar [charValue c₀, charValue c₁, charValue c₂, 0] 1
  | one {c₀ c₁} (h₀ : c₀ ∈ kBase64Chars) (h₁ : c₁ ∈ kBase64Chars) :
    Group c₀ c₁ padChar padChar [charValue c₀, charValue c₁, 0, 0] 2

theorem groupOf_iff {c₀ c₁ c₂ c₃ : UInt8} {vals : List Nat} {pad : Nat} (hpad : pad ≤ 2) :
    groupOf c₀ c₁ c₂ c₃ = some (vals, pad) ↔ Group c₀ c₁ c₂ c₃ vals pad := by
  constructor
  · intro h
    unfold groupOf at h
    simp only [List.foldlM_cons, List.foldlM_nil, Option.bind_eq_bind, Option.bind_eq_some_iff] at h
    obtain ⟨_, h₀, _, h₁, _, h₂, _, h₃, h⟩ := h
    cases h
    rcases decodeChar_cases h₀ with ⟨rfl, rfl⟩ | ⟨hc₀, -, rfl⟩
    · -- padding up to the end of the group
      rcases decodeChar_cases h₁ with ⟨rfl, rfl⟩ | ⟨-, hzero, -⟩
      · rcases decodeChar_cases h₂ with ⟨rfl, rfl⟩ | ⟨-, hzero, -⟩
        · rcases decodeChar_cases h₃ with ⟨rfl, heq⟩ | ⟨-, hzero, -⟩
          · cases heq
            omega
          · cases hzero
        · cases hzero
      · cases hzero
    · rcases decodeChar_cases h₁ with ⟨rfl, rfl⟩ | ⟨hc₁, -, rfl⟩
      · rcases decodeChar_cases h₂ with ⟨rfl, rfl⟩ | ⟨-, hzero, -⟩
        · rcases decodeChar_cases h₃ with ⟨rfl, heq⟩ | ⟨-, hzero, -⟩
          · cases heq
            omega
          · cases hzero
        · cases hzero
      · rcases decodeChar_cases h₂ with ⟨rfl, rfl⟩ | ⟨hc₂, -, rfl⟩
        · rcases decodeChar_cases h₃ with ⟨rfl, heq⟩ | ⟨-, hzero, -⟩
          · cases heq
            exact .one hc₀ hc₁
          · cases hzero
        · rcases decodeChar_cases h₃ with ⟨rfl, heq⟩ | ⟨hc₃, -, heq⟩
          · cases heq
            exact .two hc₀ hc₁ hc₂
          · cases heq
            exact .full hc₀ hc₁ hc₂ hc₃
  · intro h
    unfold groupOf
    cases h with
    | full h₀ h₁ h₂ h₃ =>
      simp [decodeChar_eq, ne_padChar h₀, ne_padChar h₁, ne_padChar h₂, ne_padChar h₃, h₀, h₁, h₂,
        h₃]
    | two h₀ h₁ h₂ => simp [decodeChar_eq, ne_padChar h₀, ne_padChar h₁, ne_padChar h₂, h₀, h₁, h₂]
    | one h₀ h₁ => simp [decodeChar_eq, ne_padChar h₀, ne_padChar h₁, h₀, h₁]

/-- The groups of a text: all but the last one are full. -/
inductive Grouped : List UInt8 → Prop where
  | nil : Grouped []
  | last {c₀ c₁ c₂ c₃ vals pad} (h : Group c₀ c₁ c₂ c₃ vals pad) : Grouped [c₀, c₁, c₂, c₃]
  | more {c₀ c₁ c₂ c₃ rest vals} (h : Group c₀ c₁ c₂ c₃ vals 0) (hrest : Grouped rest) :
    Grouped (c₀ :: c₁ :: c₂ :: c₃ :: rest)

theorem Group.pad_le {c₀ c₁ c₂ c₃ : UInt8} {vals : List Nat} {pad : Nat}
    (h : Group c₀ c₁ c₂ c₃ vals pad) : pad ≤ 2 := by
  cases h <;> decide

/-- A text with a group in front. -/
theorem decodeGroups_group {c₀ c₁ c₂ c₃ : UInt8} {rest : List UInt8} {vals : List Nat} {pad : Nat}
    (h : Group c₀ c₁ c₂ c₃ vals pad) (hpad : pad = 0 ∨ rest = []) :
    decodeGroups (c₀ :: c₁ :: c₂ :: c₃ :: rest) =
      (decodeGroups rest).map (groupBytes vals pad ++ ·) := by
  have hle := h.pad_le
  refine decodeGroups_cons ((groupOf_iff hle).2 h) ?_
  rintro (hgt | ⟨hpos, hne⟩)
  · omega
  · rcases hpad with rfl | rfl
    · exact Nat.lt_irrefl 0 hpos
    · exact hne rfl

theorem length_group (c₀ c₁ c₂ c₃ : UInt8) (rest : List UInt8) :
    (c₀ :: c₁ :: c₂ :: c₃ :: rest).length % 4 = rest.length % 4 := by
  simp only [List.length_cons]
  omega

/-- An accepted text has a group in front. -/
theorem group_of_decodeGroups {c₀ c₁ c₂ c₃ : UInt8} {rest : List UInt8}
    (h : (decodeGroups (c₀ :: c₁ :: c₂ :: c₃ :: rest)).isSome) :
    ∃ vals pad, Group c₀ c₁ c₂ c₃ vals pad ∧ (pad = 0 ∨ rest = []) ∧
      (decodeGroups rest).isSome := by
  rw [decodeGroups] at h
  change ((groupOf c₀ c₁ c₂ c₃).bind _).isSome = true at h
  rw [Option.isSome_bind, Option.any_eq_true] at h
  obtain ⟨⟨vals, pad⟩, hgroup, h⟩ := h
  dsimp only at h
  split_ifs at h with hbad
  · cases h
  · rw [not_or, not_and, not_not] at hbad
    obtain ⟨hle, hlast⟩ := hbad
    refine ⟨vals, pad, (groupOf_iff (by omega)).1 hgroup, ?_, ?_⟩
    · exact (Nat.eq_zero_or_pos pad).imp_right hlast
    · cases hrest : decodeGroups rest with
      | none =>
        rw [hrest] at h
        cases h
      | some bytes => rfl

/-- Exactly the grouped texts are accepted. -/
theorem decodeGroups_isSome_iff : ∀ {text : List UInt8}, text.length % 4 = 0 →
    ((decodeGroups text).isSome ↔ Grouped text)
  | [], _ => iff_of_true rfl .nil
  | [_], h | [_, _], h | [_, _, _], h => by cases h
  | c₀ :: c₁ :: c₂ :: c₃ :: rest, h => by
    have ih := decodeGroups_isSome_iff ((length_group c₀ c₁ c₂ c₃ rest).symm.trans h)
    constructor
    · intro hsome
      obtain ⟨vals, pad, hgroup, hpad, hrest⟩ := group_of_decodeGroups hsome
      rcases hpad with rfl | rfl
      · exact .more hgroup (ih.1 hrest)
      · exact .last hgroup
    · intro hgrouped
      cases hgrouped with
      | last hgroup =>
        rw [decodeGroups_group hgroup (.inr rfl)]
        rfl
      | more hgroup hrest =>
        rw [decodeGroups_group hgroup (.inl rfl), Option.isSome_map]
        exact ih.2 hrest

theorem Group.chars {c₀ c₁ c₂ c₃ : UInt8} {vals : List Nat} {pad : Nat}
    (h : Group c₀ c₁ c₂ c₃ vals pad) : ∃ body, [c₀, c₁, c₂, c₃] =
      body ++ List.replicate pad padChar ∧ ∀ c ∈ body, c ∈ kBase64Chars := by
  cases h with
  | full h₀ h₁ h₂ h₃ => exact ⟨[c₀, c₁, c₂, c₃], rfl, by simp [h₀, h₁, h₂, h₃]⟩
  | two h₀ h₁ h₂ => exact ⟨[c₀, c₁, c₂], rfl, by simp [h₀, h₁, h₂]⟩
  | one h₀ h₁ => exact ⟨[c₀, c₁], rfl, by simp [h₀, h₁]⟩

theorem Grouped.isText {text : List UInt8} (h : Grouped text) : IsText text := by
  induction h with
  | nil => exact ⟨rfl, [], 0, rfl, Nat.zero_le _, by simp⟩
  | last h =>
    obtain ⟨body, hbody, hchars⟩ := h.chars
    exact ⟨by simp, body, _, hbody, h.pad_le, hchars⟩
  | more h hrest ih =>
    obtain ⟨hlength, body, pad, rfl, hpad, hchars⟩ := ih
    obtain ⟨front, hfront, hchars'⟩ := h.chars
    refine ⟨(length_group ..).trans hlength, front ++ body, pad, ?_, hpad, ?_⟩
    · rw [List.append_assoc]
      rw [List.replicate_zero, List.append_nil] at hfront
      rw [← hfront]
      rfl
    · intro c hc
      exact (List.mem_append.1 hc).elim (hchars' c) (hchars c)

theorem IsText.grouped : ∀ {text : List UInt8}, IsText text → Grouped text
  | [], _ => .nil
  | [_], h | [_, _], h | [_, _, _], h => by cases h.groups
  | c₀ :: c₁ :: c₂ :: c₃ :: rest, h => by
    obtain ⟨hlength, body, pad, htext, hpad, hchars⟩ := h
    have hsize := congrArg List.length htext
    simp only [List.length_cons, List.length_append, List.length_replicate] at hsize
    rw [length_group] at hlength
    match body, htext, hchars, hsize with
    | [], _, _, hsize | [_], _, _, hsize =>
      simp only [List.length_cons, List.length_nil] at hsize
      omega
    | [b₀, b₁], htext, hchars, hsize =>
      obtain rfl : pad = 2 := by
        simp only [List.length_cons, List.length_nil] at hsize
        omega
      cases htext
      exact .last (.one (hchars _ (by simp)) (hchars _ (by simp)))
    | [b₀, b₁, b₂], htext, hchars, hsize =>
      simp only [List.length_cons, List.length_nil] at hsize
      obtain rfl : pad = 1 := by omega
      cases htext
      exact .last (.two (hchars _ (by simp)) (hchars _ (by simp)) (hchars _ (by simp)))
    | b₀ :: b₁ :: b₂ :: b₃ :: body, htext, hchars, hsize =>
      cases htext
      refine .more (.full (hchars _ (by simp)) (hchars _ (by simp)) (hchars _ (by simp))
        (hchars _ (by simp))) (IsText.grouped ⟨hlength, body, pad, rfl, hpad, ?_⟩)
      exact fun c hc => hchars c (by simp [hc])

theorem isText_iff_grouped {text : List UInt8} : IsText text ↔ Grouped text :=
  ⟨IsText.grouped, Grouped.isText⟩

/-- `base64_decode` accepts the texts of this shape. -/
theorem base64Decode_isSome_iff (text : List UInt8) :
    (base64Decode text).isSome ↔ IsText text := by
  unfold base64Decode
  split_ifs with hempty hlength
  · rw [List.isEmpty_iff] at hempty
    exact iff_of_true rfl (hempty ▸ Grouped.nil.isText)
  · exact iff_of_false (by simp) fun h => hlength h.groups
  · rw [isText_iff_grouped]
    exact decodeGroups_isSome_iff (not_not.1 hlength)

/-! ## Spare bits -/

/-- The last character before the padding is found. -/
theorem trailing_unique {body body' : List UInt8} {c c' : UInt8} (hc : c ≠ padChar)
    (hc' : c' ≠ padChar) {pad pad' : Nat} (h : body ++ c :: List.replicate pad padChar =
      body' ++ c' :: List.replicate pad' padChar) : c = c' ∧ pad = pad' := by
  induction pad generalizing pad' with
  | zero =>
    cases pad' with
    | zero => exact ⟨List.singleton_inj.1 (List.append_inj' h rfl).2, rfl⟩
    | succ pad' =>
      rw [List.replicate_succ', ← List.cons_append, ← List.append_assoc] at h
      exact (hc (List.singleton_inj.1 (List.append_inj' h rfl).2)).elim
  | succ pad ih =>
    cases pad' with
    | zero =>
      rw [List.replicate_succ', ← List.cons_append, ← List.append_assoc] at h
      exact (hc' (List.singleton_inj.1 (List.append_inj' h rfl).2).symm).elim
    | succ pad' =>
      rw [List.replicate_succ', List.replicate_succ', ← List.cons_append, ← List.cons_append,
        ← List.append_assoc, ← List.append_assoc] at h
      obtain ⟨hc, hpad⟩ := ih (List.append_inj' h rfl).1
      exact ⟨hc, congrArg _ hpad⟩

/-- Where the last character before the padding is known. -/
theorem spareBitsZero_iff {text body : List UInt8} {c : UInt8} {pad : Nat}
    (h : text = body ++ c :: List.replicate pad padChar) (hc : c ∈ kBase64Chars) :
    SpareBitsZero text ↔ charValue c % 4 ^ pad = 0 := by
  constructor
  · exact fun hspare => hspare body c pad h hc
  · intro hzero body' c' pad' h' hc'
    obtain ⟨rfl, rfl⟩ := trailing_unique (ne_padChar hc) (ne_padChar hc') (h.symm.trans h')
    exact hzero

/-- A text that is not empty has such a character. -/
theorem IsText.last {text : List UInt8} (h : IsText text) (hne : text ≠ []) : ∃ body c pad,
    text = body ++ c :: List.replicate pad padChar ∧ c ∈ kBase64Chars := by
  obtain ⟨hlength, body, pad, rfl, hpad, hchars⟩ := h
  rcases List.eq_nil_or_concat body with rfl | ⟨front, c, rfl⟩
  · rw [List.nil_append, List.length_replicate] at hlength
    obtain rfl : pad = 0 := by omega
    exact (hne rfl).elim
  · exact ⟨front, c, pad, by simp, hchars c (by simp)⟩

theorem charValue_base64Char (n shift : Nat) :
    charValue (base64Char n shift) = n / 2 ^ shift % 64 := by
  rw [base64Char_eq, charValue_char (Nat.mod_lt _ (by decide))]

/-- Encoded texts have no spare bits set. -/
theorem base64Encode_spareBitsZero (bytes : List UInt8) : SpareBitsZero (base64Encode bytes) := by
  fun_induction base64Encode bytes with
  | case1 =>
    intro body c pad h
    cases body <;> cases h
  | case2 a n =>
    have htext : [base64Char n 18, base64Char n 12, padChar, padChar] =
        [base64Char n 18] ++ base64Char n 12 :: List.replicate 2 padChar := rfl
    rw [spareBitsZero_iff htext (base64Char_mem n 12), charValue_base64Char]
    have hn : n = a.toNat * 65536 := Nat.shiftLeft_eq _ _
    omega
  | case3 a b n =>
    have htext : [base64Char n 18, base64Char n 12, base64Char n 6, padChar] =
        [base64Char n 18, base64Char n 12] ++ base64Char n 6 :: List.replicate 1 padChar := rfl
    rw [spareBitsZero_iff htext (base64Char_mem n 6), charValue_base64Char]
    have hn : n = a.toNat * 65536 + b.toNat * 256 + 0 := by
      rw [← threeBytes b.toNat_lt (by decide : (0 : Nat) < 256), Nat.or_zero]
    omega
  | case4 a b c rest n ih =>
    by_cases hne : base64Encode rest = []
    · have htext : base64Char n 18 :: base64Char n 12 :: base64Char n 6 :: base64Char n 0 ::
          base64Encode rest = [base64Char n 18, base64Char n 12, base64Char n 6] ++
            base64Char n 0 :: List.replicate 0 padChar := by rw [hne]; rfl
      rw [spareBitsZero_iff htext (base64Char_mem n 0)]
      exact Nat.mod_one _
    · -- the rest has the last character
      have hisText : IsText (base64Encode rest) := by
        rw [← base64Decode_isSome_iff, base64Decode_encode]
        rfl
      obtain ⟨body, c, pad, htext, hc⟩ := hisText.last hne
      have hmore : base64Char n 18 :: base64Char n 12 :: base64Char n 6 :: base64Char n 0 ::
          base64Encode rest = (base64Char n 18 :: base64Char n 12 :: base64Char n 6 ::
            base64Char n 0 :: body) ++ c :: List.replicate pad padChar := by rw [htext]; rfl
      rw [spareBitsZero_iff hmore hc]
      exact (spareBitsZero_iff htext hc).1 ih

/-- The character at a place of a group of known bits. -/
theorem base64Char_of {c : UInt8} (hc : c ∈ kBase64Chars) {n shift : Nat}
    (h : n / 2 ^ shift % 64 = charValue c) : base64Char n shift = c := by
  rw [base64Char_eq, h, char_charValue hc]

/-- The byte of a number below 256. -/
theorem toNat_ofNat_lt {n : Nat} (h : n < 256) : (UInt8.ofNat n).toNat = n :=
  UInt8.toNat_ofNat_of_lt' h

/-- Three bytes for each full group. -/
theorem base64Encode_full {c₀ c₁ c₂ c₃ : UInt8} (h₀ : c₀ ∈ kBase64Chars) (h₁ : c₁ ∈ kBase64Chars)
    (h₂ : c₂ ∈ kBase64Chars) (h₃ : c₃ ∈ kBase64Chars) : ∃ a b c, ∀ rest,
    base64Encode (a :: b :: c :: rest) = c₀ :: c₁ :: c₂ :: c₃ :: base64Encode rest := by
  have hv₀ := charValue_lt h₀
  have hv₁ := charValue_lt h₁
  have hv₂ := charValue_lt h₂
  have hv₃ := charValue_lt h₃
  obtain ⟨n, hn⟩ : ∃ n, n = charValue c₀ * 262144 + charValue c₁ * 4096 + charValue c₂ * 64 +
    charValue c₃ := ⟨_, rfl⟩
  refine ⟨UInt8.ofNat (n / 65536), UInt8.ofNat (n / 256 % 256), UInt8.ofNat (n % 256),
    fun rest => ?_⟩
  have hbits : (UInt8.ofNat (n / 65536)).toNat <<< 16 |||
      (UInt8.ofNat (n / 256 % 256)).toNat <<< 8 ||| (UInt8.ofNat (n % 256)).toNat = n := by
    rw [toNat_ofNat_lt (by omega), toNat_ofNat_lt (by omega), toNat_ofNat_lt (by omega),
      threeBytes (by omega) (by omega)]
    omega
  rw [base64Encode, hbits, base64Char_of h₀ (by omega), base64Char_of h₁ (by omega),
    base64Char_of h₂ (by omega), base64Char_of h₃ (by omega)]

/-- Two bytes for a group with one character of padding. -/
theorem base64Encode_two {c₀ c₁ c₂ : UInt8} (h₀ : c₀ ∈ kBase64Chars) (h₁ : c₁ ∈ kBase64Chars)
    (h₂ : c₂ ∈ kBase64Chars) (hspare : charValue c₂ % 4 = 0) : ∃ a b,
    base64Encode [a, b] = [c₀, c₁, c₂, padChar] := by
  have hv₀ := charValue_lt h₀
  have hv₁ := charValue_lt h₁
  have hv₂ := charValue_lt h₂
  obtain ⟨n, hn⟩ : ∃ n, n = charValue c₀ * 262144 + charValue c₁ * 4096 + charValue c₂ * 64 :=
    ⟨_, rfl⟩
  refine ⟨UInt8.ofNat (n / 65536), UInt8.ofNat (n / 256 % 256), ?_⟩
  have hbits : (UInt8.ofNat (n / 65536)).toNat <<< 16 |||
      (UInt8.ofNat (n / 256 % 256)).toNat <<< 8 = n := by
    rw [toNat_ofNat_lt (by omega), toNat_ofNat_lt (by omega), ← Nat.or_zero (_ ||| _),
      threeBytes (by omega) (by decide)]
    omega
  rw [base64Encode, hbits, base64Char_of h₀ (by omega), base64Char_of h₁ (by omega),
    base64Char_of h₂ (by omega)]

/-- One byte for a group with two. -/
theorem base64Encode_one {c₀ c₁ : UInt8} (h₀ : c₀ ∈ kBase64Chars) (h₁ : c₁ ∈ kBase64Chars)
    (hspare : charValue c₁ % 16 = 0) : ∃ a, base64Encode [a] = [c₀, c₁, padChar, padChar] := by
  have hv₀ := charValue_lt h₀
  have hv₁ := charValue_lt h₁
  obtain ⟨n, hn⟩ : ∃ n, n = charValue c₀ * 262144 + charValue c₁ * 4096 := ⟨_, rfl⟩
  refine ⟨UInt8.ofNat (n / 65536), ?_⟩
  have hbits : (UInt8.ofNat (n / 65536)).toNat <<< 16 = n := by
    rw [toNat_ofNat_lt (by omega), Nat.shiftLeft_eq]
    omega
  rw [base64Encode, hbits, base64Char_of h₀ (by omega), base64Char_of h₁ (by omega)]

/-- Without spare bits set, a text is what some bytes are encoded as. -/
theorem Grouped.encodes {text : List UInt8} (h : Grouped text) (hspare : SpareBitsZero text) :
    ∃ bytes, base64Encode bytes = text := by
  induction h with
  | nil => exact ⟨[], rfl⟩
  | last h =>
    cases h with
    | full h₀ h₁ h₂ h₃ =>
      obtain ⟨a, b, c, hencode⟩ := base64Encode_full h₀ h₁ h₂ h₃
      exact ⟨[a, b, c], hencode []⟩
    | two h₀ h₁ h₂ =>
      have hzero := hspare [_, _] _ 1 rfl h₂
      obtain ⟨a, b, hencode⟩ := base64Encode_two h₀ h₁ h₂ hzero
      exact ⟨[a, b], hencode⟩
    | one h₀ h₁ =>
      have hzero := hspare [_] _ 2 rfl h₁
      obtain ⟨a, hencode⟩ := base64Encode_one h₀ h₁ hzero
      exact ⟨[a], hencode⟩
  | @more c₀ c₁ c₂ c₃ rest vals h hrest ih =>
    obtain ⟨bytes, rfl⟩ := ih fun body c pad htext hc =>
      hspare (c₀ :: c₁ :: c₂ :: c₃ :: body) c pad (by rw [htext]; rfl) hc
    cases h with
    | full h₀ h₁ h₂ h₃ =>
      obtain ⟨a, b, c, hencode⟩ := base64Encode_full h₀ h₁ h₂ h₃
      exact ⟨a :: b :: c :: bytes, hencode bytes⟩

/-- **Main result**: decoding undoes encoding, exactly the texts of the shape are accepted, and
encoding undoes decoding exactly where the spare bits are zero. -/
theorem base64_accepts : (∀ bytes, base64Decode (base64Encode bytes) = some bytes) ∧
    (∀ text, (base64Decode text).isSome ↔ IsText text) ∧
    ∀ text bytes, base64Decode text = some bytes →
      (base64Encode bytes = text ↔ SpareBitsZero text) := by
  refine ⟨base64Decode_encode, base64Decode_isSome_iff, fun text bytes h => ⟨?_, fun hspare => ?_⟩⟩
  · rintro rfl
    exact base64Encode_spareBitsZero bytes
  · have htext : IsText text := (base64Decode_isSome_iff text).1 (h ▸ rfl)
    obtain ⟨bytes', rfl⟩ := htext.grouped.encodes hspare
    rw [base64Decode_encode] at h
    cases h
    rfl

theorem base64_accepts_byte : base64Decode [81, 81, 61, 61] = some [65] ∧
    (base64Encode [65] = [81, 81, 61, 61] ↔ SpareBitsZero [81, 81, 61, 61]) :=
  have h : base64Decode [81, 81, 61, 61] = some [65] := by decide +kernel
  ⟨h, base64_accepts.2.2 _ _ h⟩

/-- The text `QR==` is accepted, which nothing is encoded as: the byte of `QQ==` comes of it. -/
theorem base64_spare_bits : ¬ ∀ text, (base64Decode text).isSome → ∃ bytes,
    base64Encode bytes = text := by
  intro h
  have hsome : (base64Decode [81, 82, 61, 61]).isSome := by decide +kernel
  obtain ⟨bytes, hbytes⟩ := h [81, 82, 61, 61] hsome
  have hdecode : base64Decode [81, 82, 61, 61] = some [65] := by decide +kernel
  rw [← hbytes, base64Decode_encode] at hdecode
  cases hdecode
  exact absurd hbytes (by decide +kernel)

end Bison
