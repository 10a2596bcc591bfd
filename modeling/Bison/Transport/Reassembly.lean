import Bison.Transport.TermReader

/-!
# Chunks put together

What the receive queue of the terminal transport holds after any sequence of OSC-99 bodies, well
formed or not. `Tally` cuts the accepted chunks into the delivered runs, what was skipped before
each of them, and the run still open; the reassembly of `complete_chunk` is its summary.

- `completeChunk_tally`: one chunk, on the tally and in the code.
- `take_sound`: every complete run is among the delivered ones, wherever it stands.
- `delivers_runs`: **main result**, the frames delivered are the complete runs of chunks, and a
  malformed body changes nothing.
- `run_bodies`: what the reader queues comes from such a sequence of bodies.
-/

namespace Bison

/-- A chunk that `complete_chunk` does not ignore. -/
structure Chunk where
  seq : Nat
  total : Nat
  bytes : List UInt8
  total_pos : 0 < total
  deriving Repr, DecidableEq

/-- The chunk of a body; `none` for a malformed one. -/
def parseChunk (body : List UInt8) : Option Chunk := do
  let (seqText, rest) ← splitSemicolon body
  let (totalText, b64) ← splitSemicolon rest
  let seq ← parseUint seqText
  let total ← parseUint totalText
  let bytes ← base64Decode b64
  if h : total = 0 then none else some ⟨seq, total, bytes, Nat.pos_of_ne_zero h⟩

/-- The inbox after a sequence of bodies. -/
def Inbox.receive (inbox : Inbox) (bodies : List (List UInt8)) : Inbox :=
  bodies.foldl Inbox.parseAndComplete inbox

/-- `complete_chunk` after the checks of the payload. -/
def Inbox.accept (inbox : Inbox) (c : Chunk) : Inbox :=
  let inbox := if c.seq = 0 then { inbox with assem := { active := true, total := c.total } }
    else inbox
  if !inbox.assem.active || c.seq != inbox.assem.expectedSeq || c.total != inbox.assem.total then
    { inbox with assem := {} }
  else
    let buf := inbox.assem.buf ++ c.bytes
    let expectedSeq := inbox.assem.expectedSeq + 1
    if expectedSeq = inbox.assem.total then { inbox.push buf with assem := {} }
    else { inbox with assem := { inbox.assem with buf := buf, expectedSeq := expectedSeq } }

/-- A body is a chunk or changes nothing. -/
theorem parseAndComplete_chunk (inbox : Inbox) (body : List UInt8) :
    inbox.parseAndComplete body = ((parseChunk body).map inbox.accept).getD inbox := by
  unfold Inbox.parseAndComplete parseChunk
  cases splitSemicolon body with
  | none => rfl
  | some front =>
    obtain ⟨seqText, rest⟩ := front
    cases hrest : splitSemicolon rest with
    | none => simp [hrest]
    | some back =>
      obtain ⟨totalText, b64⟩ := back
      simp only [hrest, Option.bind_eq_bind, Option.bind_some]
      cases parseUint seqText with
      | none => rfl
      | some seq =>
        cases parseUint totalText with
        | none => rfl
        | some total =>
          simp only [Option.bind_some, Inbox.completeChunk]
          cases base64Decode b64 with
          | none => rfl
          | some bytes =>
            by_cases htotal : total = 0
            · simp [htotal]
            · simp only [Option.bind_some, dif_neg htotal, if_neg htotal, Option.map_some,
                Option.getD_some]
              rfl

theorem receive_eq (inbox : Inbox) (bodies : List (List UInt8)) :
    inbox.receive bodies = (bodies.filterMap parseChunk).foldl Inbox.accept inbox := by
  induction bodies generalizing inbox with
  | nil => rfl
  | cons body rest ih =>
    show (inbox.parseAndComplete body).receive rest = _
    rw [ih, parseAndComplete_chunk]
    cases hbody : parseChunk body with
    | none => rw [List.filterMap_cons_none hbody, Option.map_none, Option.getD_none]
    | some c => rw [List.filterMap_cons_some hbody, Option.map_some, Option.getD_some,
        List.foldl_cons]

/-! ## Runs of chunks -/

/-- The chunks of `run` are numbered from 0 and all declare `total`. -/
def Counts (total : Nat) (run : List Chunk) : Prop :=
  run.map Chunk.seq = List.range run.length ∧ ∀ c ∈ run, c.total = total

/-- All the chunks of a frame. -/
def IsRun (run : List Chunk) : Prop := run ≠ [] ∧ Counts run.length run

/-- The first chunks of a frame, some still missing. -/
def IsBegun (run : List Chunk) : Prop := ∃ total, Counts total run ∧ run.length < total

/-- The bytes the chunks carry. -/
def payload (run : List Chunk) : List UInt8 := run.flatMap Chunk.bytes

theorem counts_snoc {total : Nat} {run : List Chunk} {c : Chunk} :
    Counts total (run ++ [c]) ↔ Counts total run ∧ c.seq = run.length ∧ c.total = total := by
  unfold Counts
  rw [List.map_append, List.length_append, List.map_singleton, List.length_singleton,
    List.range_succ]
  constructor
  · rintro ⟨hseq, htotal⟩
    obtain ⟨hrun, hlast⟩ := List.append_inj hseq (by simp)
    exact ⟨⟨hrun, fun d hd => htotal d (List.mem_append_left _ hd)⟩, List.singleton_inj.1 hlast,
      htotal c (by simp)⟩
  · rintro ⟨⟨hrun, htotal⟩, hseq, hc⟩
    refine ⟨by rw [hrun, hseq], fun d hd => ?_⟩
    rcases List.mem_append.1 hd with hd | hd
    · exact htotal d hd
    · exact List.mem_singleton.1 hd ▸ hc

theorem isBegun_nil : IsBegun [] := ⟨1, ⟨rfl, fun _ h => nomatch h⟩, Nat.one_pos⟩

/-! ## The tally -/

/-- A delivered run with the chunks in front of it that belong to no frame. -/
structure Delivery where
  skipped : List Chunk
  run : List Chunk
  deriving Repr, DecidableEq

/-- The chunks of some deliveries, in order. -/
def consumed (parts : List Delivery) : List Chunk := parts.flatMap fun p => p.skipped ++ p.run

/-- The accepted chunks cut into what was delivered, what was skipped since, and the open run. -/
structure Tally where
  parts : List Delivery := []
  skipped : List Chunk := []
  run : List Chunk := []
  deriving Repr, DecidableEq

namespace Tally

/-- A chunk 0 gives the open run up. -/
def cut (t : Tally) (c : Chunk) : Tally :=
  if c.seq = 0 then { t with skipped := t.skipped ++ t.run, run := [] } else t

/-- The chunk is the next one of the open run. -/
def Continues (t : Tally) (c : Chunk) : Prop :=
  c.seq = t.run.length ∧ ∀ first ∈ t.run.head?, first.total = c.total

instance (t : Tally) (c : Chunk) : Decidable (t.Continues c) := inferInstanceAs (Decidable (_ ∧ _))

/-- A chunk after the cut. -/
def place (t : Tally) (c : Chunk) : Tally :=
  if t.Continues c then
    if t.run.length + 1 = c.total then ⟨t.parts ++ [⟨t.skipped, t.run ++ [c]⟩], [], []⟩
    else { t with run := t.run ++ [c] }
  else { t with skipped := t.skipped ++ t.run ++ [c], run := [] }

/-- One more chunk. -/
def take (t : Tally) (c : Chunk) : Tally := (t.cut c).place c

/-- What `complete_chunk` keeps of the open run. -/
def assem (t : Tally) : Reassembly :=
  match t.run with
  | [] => {}
  | first :: _ => ⟨true, first.total, t.run.length, payload t.run⟩

/-- The inbox a tally stands for. -/
def inbox (t : Tally) : Inbox := ⟨t.assem, t.parts.map fun p => payload p.run⟩

end Tally

/-- `complete_chunk` on a tally. -/
theorem accept_tally (t : Tally) (c : Chunk) : t.inbox.accept c = (t.take c).inbox := by
  unfold Inbox.accept Tally.take
  by_cases hseq : c.seq = 0
  · -- the run that starts here has one chunk so far
    have hcont : Tally.Continues { t with skipped := t.skipped ++ t.run, run := [] } c :=
      ⟨hseq, fun _ h => nomatch h⟩
    simp only [hseq, Tally.cut, if_true, Tally.place, if_pos hcont]
    by_cases hone : 1 = c.total
    · simp [← hone, Tally.inbox, Tally.assem, Inbox.push, payload]
    · simp [hone, Tally.inbox, Tally.assem, payload]
  · simp only [hseq, Tally.cut, if_false, Tally.place]
    cases hrun : t.run with
    | nil =>
      have hcont : ¬ t.Continues c := fun h => hseq (by rw [h.1, hrun, List.length_nil])
      simp [if_neg hcont, Tally.inbox, Tally.assem, hrun]
    | cons first rest =>
      have hassem : t.inbox.assem = ⟨true, first.total, t.run.length, payload t.run⟩ := by
        simp [Tally.inbox, Tally.assem, hrun]
      have hiff : t.Continues c ↔ c.seq = t.run.length ∧ first.total = c.total := by
        simp [Tally.Continues, hrun]
      by_cases hcont : t.Continues c
      · obtain ⟨hnext, htotal⟩ := hiff.1 hcont
        simp only [← hrun, if_pos hcont, hassem, hnext, htotal, Bool.not_true, bne_self_eq_false,
          Bool.or_self, Bool.false_eq_true, if_false]
        by_cases hlast : t.run.length + 1 = c.total
        · simp [hlast, Tally.inbox, Tally.assem, Inbox.push, payload]
        · rw [if_neg hlast, if_neg hlast]
          simp [Tally.inbox, Tally.assem, hrun, htotal, payload]
      · have hbad : (!true || c.seq != t.run.length || c.total != first.total) = true := by
          rw [hiff, not_and_or] at hcont
          rcases hcont with hcont | hcont
          · simp [hcont]
          · simp [Ne.symm hcont]
        rw [← hrun, if_neg hcont]
        simp only [hassem]
        rw [if_pos hbad]
        rfl

theorem foldl_accept (chunks : List Chunk) (t : Tally) :
    chunks.foldl Inbox.accept t.inbox = (chunks.foldl Tally.take t).inbox := by
  induction chunks generalizing t with
  | nil => rfl
  | cons c rest ih => rw [List.foldl_cons, List.foldl_cons, accept_tally, ih]

/-! ## Every complete run is delivered -/

/-- `run` is one of the deliveries, and `before` is what stands in front of it. -/
def Placed (parts : List Delivery) (before run : List Chunk) : Prop :=
  ∃ left skipped right,
    parts = left ++ ⟨skipped, run⟩ :: right ∧ before = consumed left ++ skipped

/-- The tally cuts the chunks correctly. -/
structure Tally.Sound (t : Tally) (chunks : List Chunk) : Prop where
  split : chunks = consumed t.parts ++ t.skipped ++ t.run
  runs : ∀ p ∈ t.parts, IsRun p.run
  begun : IsBegun t.run
  -- what may still become a frame is the open run
  latest : ∀ tail, tail <:+ chunks → tail ≠ [] → IsBegun tail → tail = t.run
  placed : ∀ before run after, chunks = before ++ run ++ after → IsRun run →
    Placed t.parts before run

theorem placed_snoc {parts : List Delivery} {before run : List Chunk} (h : Placed parts before run)
    (p : Delivery) : Placed (parts ++ [p]) before run := by
  obtain ⟨left, skipped, right, rfl, hbefore⟩ := h
  exact ⟨left, skipped, right ++ [p], by rw [List.append_assoc, List.cons_append], hbefore⟩

theorem sound_nil : Tally.Sound {} [] where
  split := rfl
  runs := fun _ h => nomatch h
  begun := isBegun_nil
  latest := fun _ htail hne _ => absurd (List.suffix_nil.1 htail) hne
  placed := by
    intro before run after h hrun
    obtain ⟨h, -⟩ := List.append_eq_nil_iff.1 h.symm
    exact absurd (List.append_eq_nil_iff.1 h).2 hrun.1

/-- The chunks of a tally after the cut. -/
theorem cut_split {t : Tally} {chunks : List Chunk} (h : t.Sound chunks) (c : Chunk) :
    chunks = consumed t.parts ++ (t.cut c).skipped ++ (t.cut c).run := by
  unfold Tally.cut
  by_cases hseq : c.seq = 0
  · rw [if_pos hseq, List.append_nil, ← List.append_assoc]
    exact h.split
  · rw [if_neg hseq]
    exact h.split

theorem cut_parts (t : Tally) (c : Chunk) : (t.cut c).parts = t.parts := by
  unfold Tally.cut
  split <;> rfl

theorem cut_begun {t : Tally} {chunks : List Chunk} (h : t.Sound chunks) (c : Chunk) :
    IsBegun (t.cut c).run := by
  unfold Tally.cut
  by_cases hseq : c.seq = 0
  · rw [if_pos hseq]
    exact isBegun_nil
  · rw [if_neg hseq]
    exact h.begun

/-- Chunks numbered from 0 that end with `c` are the open run and `c`. -/
theorem tail_cut {t : Tally} {chunks run : List Chunk} {c : Chunk} {total : Nat}
    (h : t.Sound chunks) (hrun : run <:+ chunks) (hcounts : Counts total (run ++ [c]))
    (hfits : run.length < total) :
    run = (t.cut c).run ∧ (t.cut c).Continues c := by
  obtain ⟨hcounts, hseq, htotal⟩ := counts_snoc.1 hcounts
  have hcut : run = (t.cut c).run := by
    unfold Tally.cut
    by_cases hzero : c.seq = 0
    · rw [if_pos hzero]
      exact List.length_eq_zero_iff.1 (hseq ▸ hzero)
    · rw [if_neg hzero]
      refine h.latest run hrun (fun hnil => hzero ?_) ⟨total, hcounts, hfits⟩
      rw [hseq, hnil, List.length_nil]
  refine ⟨hcut, hcut ▸ hseq, fun first hfirst => ?_⟩
  rw [← hcut] at hfirst
  rw [htotal]
  exact hcounts.2 first (List.mem_of_mem_head? hfirst)

/-- Where a chunk continues the open run, the longer run still counts. -/
theorem continues_counts {t : Tally} {c : Chunk} (h : IsBegun t.run) (hcont : t.Continues c) :
    Counts c.total (t.run ++ [c]) := by
  obtain ⟨total, hcounts, -⟩ := h
  refine counts_snoc.2 ⟨⟨hcounts.1, fun d hd => ?_⟩, hcont.1, rfl⟩
  cases hrun : t.run with
  | nil =>
    rw [hrun] at hd
    exact nomatch hd
  | cons first rest =>
    have hfirst : first.total = c.total := hcont.2 first (by rw [hrun]; rfl)
    rw [hcounts.2 d hd, ← hcounts.2 first (by rw [hrun]; exact List.mem_cons_self), hfirst]

/-- The open run is shorter than the frame its next chunk belongs to. -/
theorem continues_fits {t : Tally} {c : Chunk} (h : IsBegun t.run) (hcont : t.Continues c) :
    t.run.length < c.total := by
  cases hrun : t.run with
  | nil => exact c.total_pos
  | cons first rest =>
    obtain ⟨total, hcounts, hless⟩ := h
    have hfirst : first.total = c.total := hcont.2 first (by rw [hrun]; rfl)
    rw [← hrun, ← hfirst, hcounts.2 first (by rw [hrun]; exact List.mem_cons_self)]
    exact hless

theorem consumed_snoc (parts : List Delivery) (p : Delivery) :
    consumed (parts ++ [p]) = consumed parts ++ (p.skipped ++ p.run) := by
  rw [consumed, List.flatMap_append, List.flatMap_singleton]
  rfl

theorem place_split (t : Tally) (c : Chunk) :
    consumed (t.place c).parts ++ (t.place c).skipped ++ (t.place c).run =
      consumed t.parts ++ t.skipped ++ t.run ++ [c] := by
  unfold Tally.place
  by_cases hcont : t.Continues c
  · rw [if_pos hcont]
    by_cases hlast : t.run.length + 1 = c.total
    · rw [if_pos hlast, consumed_snoc]
      simp only [List.append_assoc, List.append_nil]
    · rw [if_neg hlast]
      simp only [List.append_assoc]
  · rw [if_neg hcont]
    simp only [List.append_assoc, List.append_nil]

/-- A delivery that was there before the chunk is still there. -/
theorem place_keeps {t : Tally} {before run : List Chunk} (h : Placed t.parts before run)
    (c : Chunk) : Placed (t.place c).parts before run := by
  unfold Tally.place
  by_cases hcont : t.Continues c
  · rw [if_pos hcont]
    by_cases hlast : t.run.length + 1 = c.total
    · rw [if_pos hlast]
      exact placed_snoc h _
    · rw [if_neg hlast]
      exact h
  · rw [if_neg hcont]
    exact h

/-- One more chunk. -/
theorem take_sound {t : Tally} {chunks : List Chunk} (h : t.Sound chunks) (c : Chunk) :
    (t.take c).Sound (chunks ++ [c]) where
  split := by rw [Tally.take, place_split, cut_parts, ← cut_split h c]
  runs := by
    intro p hp
    unfold Tally.take Tally.place at hp
    by_cases hcont : (t.cut c).Continues c
    · rw [if_pos hcont] at hp
      by_cases hlast : (t.cut c).run.length + 1 = c.total
      · rw [if_pos hlast, cut_parts] at hp
        rcases List.mem_append.1 hp with hp | hp
        · exact h.runs p hp
        · rw [List.mem_singleton.1 hp]
          refine ⟨by simp, ?_⟩
          rw [List.length_append, List.length_singleton, hlast]
          exact continues_counts (cut_begun h c) hcont
      · rw [if_neg hlast, cut_parts] at hp
        exact h.runs p hp
    · rw [if_neg hcont, cut_parts] at hp
      exact h.runs p hp
  begun := by
    unfold Tally.take Tally.place
    by_cases hcont : (t.cut c).Continues c
    · rw [if_pos hcont]
      by_cases hlast : (t.cut c).run.length + 1 = c.total
      · rw [if_pos hlast]
        exact isBegun_nil
      · rw [if_neg hlast]
        refine ⟨c.total, continues_counts (cut_begun h c) hcont, ?_⟩
        have hfits := continues_fits (cut_begun h c) hcont
        rw [List.length_append, List.length_singleton]
        omega
    · rw [if_neg hcont]
      exact isBegun_nil
  latest := by
    intro tail htail hne hbegun
    obtain hnil | ⟨front, rfl, hfront⟩ := List.suffix_concat_iff.1 htail
    · exact absurd hnil hne
    · obtain ⟨total, hcounts, hless⟩ := hbegun
      rw [List.length_append, List.length_singleton] at hless
      obtain ⟨hcut, hcont⟩ := tail_cut h hfront hcounts (by omega)
      have htotal : c.total = total := (counts_snoc.1 hcounts).2.2
      rw [Tally.take, Tally.place, if_pos hcont, if_neg (by rw [← hcut]; omega), hcut]
  placed := by
    intro before run after hsplit hrun
    obtain rfl | ⟨front, d, rfl⟩ := List.eq_nil_or_concat' after
    · -- the run ends with the new chunk
      obtain ⟨body, last, rfl⟩ := List.eq_nil_or_concat' run |>.resolve_left hrun.1
      rw [List.append_nil, ← List.append_assoc] at hsplit
      obtain ⟨hbody, hlast⟩ := List.append_inj' hsplit rfl
      obtain rfl := List.singleton_inj.1 hlast
      have hlength := hrun.2
      rw [List.length_append, List.length_singleton] at hlength
      obtain ⟨hcut, hcont⟩ := tail_cut h ⟨before, hbody.symm⟩ hlength (Nat.lt_succ_self _)
      have htotal : c.total = body.length + 1 := (counts_snoc.1 hlength).2.2
      rw [Tally.take, Tally.place, if_pos hcont, if_pos (by rw [← hcut, htotal]), cut_parts]
      refine ⟨t.parts, (t.cut c).skipped, [], by rw [hcut], ?_⟩
      rw [cut_split h c, hcut] at hbody
      exact (List.append_cancel_right hbody).symm
    · -- it was complete before
      rw [← List.append_assoc] at hsplit
      obtain ⟨hfront, -⟩ := List.append_inj' hsplit rfl
      have hplaced := h.placed before run front hfront hrun
      rw [← cut_parts t c] at hplaced
      exact place_keeps hplaced c

theorem foldl_take_sound (chunks : List Chunk) : (chunks.foldl Tally.take {}).Sound chunks := by
  induction chunks using List.reverseRecOn with
  | nil => exact sound_nil
  | append_singleton chunks c ih =>
    rw [List.foldl_append, List.foldl_cons, List.foldl_nil]
    exact take_sound ih c

/-- A malformed body leaves the inbox as it is. -/
theorem receive_malformed {body : List UInt8} (h : parseChunk body = none) (inbox : Inbox)
    (before after : List (List UInt8)) :
    inbox.receive (before ++ body :: after) = inbox.receive (before ++ after) := by
  rw [receive_eq, receive_eq, List.filterMap_append, List.filterMap_append,
    List.filterMap_cons_none h]

/-- The frames delivered are runs of chunks numbered from 0 that declare their own number, cut from
the accepted chunks without an overlap; each such run is delivered, whatever stands in front of it;
and a malformed body leaves the frames as they would be without it. -/
theorem delivers_runs (bodies : List (List UInt8)) :
    (∃ parts rest,
      bodies.filterMap parseChunk = consumed parts ++ rest ∧
      (∀ p ∈ parts, IsRun p.run) ∧
      (Inbox.receive {} bodies).recvQueue = parts.map (fun p => payload p.run) ∧
      ∀ before run after, bodies.filterMap parseChunk = before ++ run ++ after → IsRun run →
        Placed parts before run) ∧
    ∀ before body after, bodies = before ++ body :: after → parseChunk body = none →
      (Inbox.receive {} bodies).recvQueue = (Inbox.receive {} (before ++ after)).recvQueue := by
  constructor
  · have hsound := foldl_take_sound (bodies.filterMap parseChunk)
    refine ⟨_, _, hsound.split.trans (List.append_assoc _ _ _), hsound.runs, ?_, hsound.placed⟩
    rw [receive_eq]
    exact congrArg Inbox.recvQueue (foldl_accept (bodies.filterMap parseChunk) {})
  · rintro before body after rfl hbody
    rw [receive_malformed hbody]

/-! ## The reader -/

/-- The inbox is what some bodies make of an empty one. -/
def Inbox.Received (inbox : Inbox) : Prop := ∃ bodies, inbox = Inbox.receive {} bodies

theorem received_body {inbox : Inbox} (h : inbox.Received) (body : List UInt8) :
    (inbox.parseAndComplete body).Received := by
  obtain ⟨bodies, rfl⟩ := h
  exact ⟨bodies ++ [body], by rw [Inbox.receive, Inbox.receive, List.foldl_append]; rfl⟩

theorem matchByte_inbox (f : Format) (s : TermReader) (b : UInt8) :
    (s.matchByte f b).inbox = s.inbox := by
  unfold TermReader.matchByte
  dsimp only
  repeat' split
  all_goals rfl

theorem captureByte_received {f : Format} (hosc : f.oscFormat = true) {s : TermReader}
    (h : s.inbox.Received) (b : UInt8) : (s.captureByte f b).inbox.Received := by
  unfold TermReader.captureByte
  by_cases hend : b = f.terminator
  · rw [if_pos hend, TermReader.completeSequence, if_pos hosc]
    exact received_body h s.capture
  · rw [if_neg hend]
    dsimp only
    split
    · exact h
    · exact h

theorem feedByte_received {f : Format} (hosc : f.oscFormat = true) {s : TermReader}
    (h : s.inbox.Received) (b : UInt8) : (s.feedByte f b).inbox.Received := by
  unfold TermReader.feedByte
  by_cases hseq : s.inSeq
  · rw [if_pos hseq]
    exact captureByte_received hosc h b
  · rw [if_neg hseq]
    -- outside a sequence the inbox is not touched
    by_cases hcsi : s.inCsi
    · rw [if_pos hcsi]
      exact h
    · rw [if_neg hcsi]
      by_cases hesc : s.escPending
      · rw [if_pos hesc]
        split
        · exact h
        · rw [matchByte_inbox]
          exact h
      · rw [if_neg hesc, matchByte_inbox]
        exact h

theorem flushPending_inbox (s : TermReader) : s.flushPending.inbox = s.inbox := by
  unfold TermReader.flushPending
  split <;> rfl

theorem idle_inbox (s : TermReader) : s.idle.inbox = s.inbox := by
  unfold TermReader.idle
  by_cases harmed : s.timerArmed
  · rw [if_pos harmed]
    exact flushPending_inbox _
  · rw [if_neg harmed]

/-- Whatever arrives on the line, the queue of the server role is that of some bodies. -/
theorem run_bodies (events : List LineEvent) :
    ∃ bodies, (TermReader.run TermRole.server.receives {} events).inbox
      = Inbox.receive {} bodies := by
  suffices ∀ s : TermReader, s.inbox.Received →
      (s.run TermRole.server.receives events).inbox.Received from this {} ⟨[], rfl⟩
  intro s h
  induction events generalizing s with
  | nil => exact h
  | cons event rest ih =>
    refine ih _ ?_
    cases event with
    | idle =>
      rw [TermReader.onEvent, idle_inbox]
      exact h
    | read chunk =>
      rw [TermReader.onEvent, TermReader.onRead]
      by_cases hempty : chunk.isEmpty
      · rw [if_pos hempty]
        exact h
      · rw [if_neg hempty, flushPending_inbox]
        clear hempty
        induction chunk generalizing s with
        | nil => exact h
        | cons b more ih => exact ih _ (feedByte_received rfl h b)

end Bison
