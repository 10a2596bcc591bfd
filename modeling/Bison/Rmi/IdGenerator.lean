import Bison.Lib.Machine
import Bison.Rmi.Ids

/-!
# The id generator

`generate_id` (shared/ids.cpp) is called by any number of threads. A call adds to the counter, which
is one atomic step, and mixes what was there before; other calls may come in between.

- `IdGenerator.step`: one step of one thread. `seedOf`: where the counter starts.
- `Numbered`: every id comes from a turn of its own.
- `ids_distinct`: **main result**, in a run of at most 2^32 calls no id is returned twice.
- `never_zero_iff`: **main result**, 0, which stands for no object, is not returned until the
  counter is 0, and is returned by the call that finds it there.
-/

namespace Bison

/-- The generator, and the calls in progress: what each has read of the counter. -/
structure IdGenerator where
  state : UInt32
  calls : Nat → Option UInt32 := fun _ => none
  /-- What has been returned, the latest first. -/
  ids : List Key := []

namespace IdGenerator

/-- A step of a thread: the addition, or the return. -/
inductive Action where
  | fetchAdd (thread : Nat)
  | finish (thread : Nat)

/-- `generate_id` (ids.cpp:32). -/
def step (g : IdGenerator) : Action → Option IdGenerator
  | .fetchAdd thread =>
    match g.calls thread with
    | none => some { g with
        state := g.state + kGoldenStep
        calls := Function.update g.calls thread (some g.state) }
    | some _ => none
  | .finish thread =>
    match g.calls thread with
    | none => none
    | some raw => some { g with
        calls := Function.update g.calls thread none
        ids := mix32 raw :: g.ids }

/-- The seed, by the clock (ids.cpp:34). -/
def seedOf (now : Int64) : UInt32 :=
  let s := now.toUInt64.toUInt32
  let s := s ^^^ (now.toUInt64 >>> 32).toUInt32
  s ^^^ 0x80000001

/-- Before the first call. -/
def init (seed : UInt32) : IdGenerator := { state := seed }

/-- How many calls begin in a run. -/
def callsOf : List Action → Nat
  | [] => 0
  | .fetchAdd _ :: actions => callsOf actions + 1
  | .finish _ :: actions => callsOf actions

/-- What the counter is after as many calls. -/
def rawAt (seed : UInt32) (n : Nat) : UInt32 := seed + UInt32.ofNat n * kGoldenStep

theorem rawAt_zero (seed : UInt32) : rawAt seed 0 = seed := by
  show seed + 0 * kGoldenStep = seed
  rw [UInt32.zero_mul, UInt32.add_zero]

theorem rawAt_succ (seed : UInt32) (n : Nat) :
    rawAt seed (n + 1) = rawAt seed n + kGoldenStep := by
  unfold rawAt
  rw [UInt32.ofNat_add, UInt32.add_mul, UInt32.add_assoc]
  congr 2

theorem rawAt_step (seed : UInt32) (n : Nat) :
    rawAt (seed + kGoldenStep) n = rawAt seed (n + 1) := by
  rw [rawAt_succ]
  unfold rawAt
  rw [UInt32.add_assoc, UInt32.add_comm kGoldenStep, ← UInt32.add_assoc]

theorem rawAt_eq_iff (seed : UInt32) (i j : Nat) :
    rawAt seed i = rawAt seed j ↔ i % 2 ^ 32 = j % 2 ^ 32 := by
  rw [← generatedIds_eq_iff seed]
  exact mix32_injective.eq_iff.symm

/-! ## Every call has its turn -/

/-- What a call has read, and what it has returned, comes from one of the turns so far. -/
structure Issued (seed : UInt32) (n : Nat) (g : IdGenerator) : Prop where
  state : g.state = rawAt seed n
  calls : ∀ t raw, g.calls t = some raw → ∃ i < n, raw = rawAt seed i
  ids : ∀ id ∈ g.ids, ∃ i < n, id = mix32 (rawAt seed i)

/-- Each call that has read the counter is the only one with its turn, and so is each id. -/
structure Numbered (seed : UInt32) (n : Nat) (g : IdGenerator) : Prop extends Issued seed n g where
  apart : ∀ t t' raw, g.calls t = some raw → g.calls t' = some raw → t = t'
  unreturned : ∀ t raw, g.calls t = some raw → mix32 raw ∉ g.ids
  distinct : g.ids.Nodup

variable {seed : UInt32} {n : Nat} {g g' : IdGenerator}

theorem issued_init (seed : UInt32) : Issued seed 0 (init seed) where
  state := (rawAt_zero seed).symm
  calls t raw h := by cases h
  ids id h := by cases h

theorem numbered_init (seed : UInt32) : Numbered seed 0 (init seed) where
  toIssued := issued_init seed
  apart t t' raw h := by cases h
  unreturned t raw h := by cases h
  distinct := List.nodup_nil

/-- The turn that comes has not been before. -/
theorem rawAt_new {i : Nat} (hn : n < 2 ^ 32) (hi : i < n) : rawAt seed i ≠ rawAt seed n := by
  intro heq
  rw [rawAt_eq_iff, Nat.mod_eq_of_lt (hi.trans hn), Nat.mod_eq_of_lt hn] at heq
  exact hi.ne heq

/-- Which calls there are after one has changed. -/
theorem update_eq_some {calls : Nat → Option UInt32} {t t' : Nat} {call : Option UInt32}
    {raw : UInt32} (h : Function.update calls t call t' = some raw) :
    t' = t ∧ call = some raw ∨ t' ≠ t ∧ calls t' = some raw := by
  rw [Function.update_apply] at h
  split_ifs at h with heq
  · exact .inl ⟨heq, h⟩
  · exact .inr ⟨heq, h⟩

/-- A call has begun. -/
def begun (g : IdGenerator) (t : Nat) : IdGenerator :=
  { g with state := g.state + kGoldenStep, calls := Function.update g.calls t (some g.state) }

@[simp]
theorem ids_begun (g : IdGenerator) (t : Nat) : (g.begun t).ids = g.ids := by
  unfold begun
  rfl

/-- A call has returned. -/
def returned (g : IdGenerator) (t : Nat) (raw : UInt32) : IdGenerator :=
  { g with calls := Function.update g.calls t none, ids := mix32 raw :: g.ids }

/-- What a step does. -/
theorem step_cases {a : Action} (h : step g a = some g') :
    (∃ t, a = .fetchAdd t ∧ g' = g.begun t) ∨
      ∃ t raw, a = .finish t ∧ g.calls t = some raw ∧ g' = g.returned t raw := by
  unfold step at h
  cases a with
  | fetchAdd t =>
    cases hcall : g.calls t with
    | none =>
      simp only [hcall, Option.some.injEq] at h
      exact .inl ⟨t, rfl, h.symm⟩
    | some raw =>
      simp only [hcall] at h
      cases h
  | finish t =>
    cases hcall : g.calls t with
    | none =>
      simp only [hcall] at h
      cases h
    | some raw =>
      simp only [hcall, Option.some.injEq] at h
      exact .inr ⟨t, raw, rfl, hcall, h.symm⟩

/-- A call that begins leaves the others. -/
theorem calls_begun {t t' : Nat} {raw : UInt32} (h : (g.begun t).calls t' = some raw) :
    t' = t ∧ raw = g.state ∨ t' ≠ t ∧ g.calls t' = some raw := by
  rcases update_eq_some h with ⟨ht, hraw⟩ | hother
  · exact .inl ⟨ht, (Option.some.inj hraw).symm⟩
  · exact .inr hother

/-- A call that ends leaves the others. -/
theorem calls_returned {t t' : Nat} {raw raw' : UInt32}
    (h : (g.returned t raw).calls t' = some raw') : t' ≠ t ∧ g.calls t' = some raw' := by
  rcases update_eq_some h with ⟨-, hraw⟩ | hother
  · cases hraw
  · exact hother

theorem Issued.begun (h : Issued seed n g) (t : Nat) : Issued seed (n + 1) (g.begun t) := by
  constructor
  · show g.state + kGoldenStep = _
    rw [h.state, rawAt_succ]
  · intro t' raw hcall
    rcases calls_begun hcall with ⟨-, hraw⟩ | ⟨-, hcall⟩
    · exact ⟨n, Nat.lt_succ_self n, hraw.trans h.state⟩
    · obtain ⟨i, hi, hraw⟩ := h.calls t' raw hcall
      exact ⟨i, Nat.lt_succ_of_lt hi, hraw⟩
  · intro id hid
    rw [ids_begun] at hid
    obtain ⟨i, hi, heq⟩ := h.ids id hid
    exact ⟨i, Nat.lt_succ_of_lt hi, heq⟩

theorem Issued.returned (h : Issued seed n g) {t : Nat} {raw : UInt32}
    (hcall : g.calls t = some raw) : Issued seed n (g.returned t raw) := by
  constructor
  · exact h.state
  · intro t' raw' hcall'
    exact h.calls t' raw' (calls_returned hcall').2
  · intro id hid
    rcases List.mem_cons.1 hid with rfl | hid
    · obtain ⟨i, hi, rfl⟩ := h.calls t raw hcall
      exact ⟨i, hi, rfl⟩
    · exact h.ids id hid

/-- A call that begins takes the turn that comes. -/
theorem Numbered.begun (h : Numbered seed n g) (hn : n < 2 ^ 32) (t : Nat) :
    Numbered seed (n + 1) (g.begun t) := by
  have hnew {t' : Nat} (hcall : g.calls t' = some g.state) : False := by
    obtain ⟨i, hi, heq⟩ := h.calls t' g.state hcall
    exact rawAt_new hn hi (heq.symm.trans h.state)
  refine ⟨h.toIssued.begun t, ?_, ?_, by rw [ids_begun]; exact h.distinct⟩
  · intro t₁ t₂ raw hcall₁ hcall₂
    rcases calls_begun hcall₁ with ⟨ht₁, hraw₁⟩ | ⟨-, hcall₁⟩ <;>
      rcases calls_begun hcall₂ with ⟨ht₂, hraw₂⟩ | ⟨-, hcall₂⟩
    · rw [ht₁, ht₂]
    · exact (hnew (hraw₁ ▸ hcall₂)).elim
    · exact (hnew (hraw₂ ▸ hcall₁)).elim
    · exact h.apart t₁ t₂ raw hcall₁ hcall₂
  · intro t' raw hcall hid
    rw [ids_begun] at hid
    rcases calls_begun hcall with ⟨-, hraw⟩ | ⟨-, hcall⟩
    · obtain ⟨i, hi, heq⟩ := h.ids _ hid
      rw [hraw, h.state] at heq
      exact rawAt_new hn hi (mix32_injective heq).symm
    · exact h.unreturned t' raw hcall hid

/-- A call that returns gives its turn to its id. -/
theorem Numbered.returned (h : Numbered seed n g) {t : Nat} {raw : UInt32}
    (hcall : g.calls t = some raw) : Numbered seed n (g.returned t raw) := by
  refine ⟨h.toIssued.returned hcall, ?_, ?_, ?_⟩
  · intro t₁ t₂ raw' hcall₁ hcall₂
    exact h.apart t₁ t₂ raw' (calls_returned hcall₁).2 (calls_returned hcall₂).2
  · intro t' raw' hcall' hid
    obtain ⟨hne, hcall'⟩ := calls_returned hcall'
    rcases List.mem_cons.1 hid with heq | hid
    · rw [mix32_injective heq] at hcall'
      exact hne (h.apart t' t raw hcall' hcall)
    · exact h.unreturned t' raw' hcall' hid
  · exact List.nodup_cons.2 ⟨h.unreturned t raw hcall, h.distinct⟩

/-- The ids of any run are those of its turns. -/
theorem Issued.run {actions : List Action} (h : Issued seed n g)
    (hrun : Machine.run step g actions = some g') : Issued seed (n + callsOf actions) g' := by
  induction actions generalizing n g with
  | nil =>
    cases hrun
    exact h
  | cons a actions ih =>
    obtain ⟨mid, hstep, hrest⟩ := Machine.run_cons hrun
    obtain ⟨t, rfl, rfl⟩ | ⟨t, raw, rfl, hcall, rfl⟩ := step_cases hstep
    · have hrun := ih (h.begun t) hrest
      rwa [Nat.add_assoc, Nat.add_comm 1] at hrun
    · exact ih (h.returned hcall) hrest

/-- Until the counter has wrapped, no turn comes twice. -/
theorem Numbered.run {actions : List Action} (h : Numbered seed n g)
    (hfew : n + callsOf actions ≤ 2 ^ 32) (hrun : Machine.run step g actions = some g') :
    Numbered seed (n + callsOf actions) g' := by
  induction actions generalizing n g with
  | nil =>
    cases hrun
    exact h
  | cons a actions ih =>
    obtain ⟨mid, hstep, hrest⟩ := Machine.run_cons hrun
    obtain ⟨t, rfl, rfl⟩ | ⟨t, raw, rfl, hcall, rfl⟩ := step_cases hstep
    · have hcalls : n + callsOf (.fetchAdd t :: actions) = n + 1 + callsOf actions := by
        rw [callsOf]
        omega
      rw [hcalls] at hfew ⊢
      exact ih (h.begun (by omega) t) hfew hrest
    · exact ih (h.returned hcall) hfew hrest

/-- **Main result**: whatever the seed and the order of the steps, the ids that at most 2^32 calls
return are distinct. -/
theorem ids_distinct (seed : UInt32) (actions : List Action) (g : IdGenerator)
    (hfew : callsOf actions ≤ 2 ^ 32) (hrun : Machine.run step (init seed) actions = some g) :
    g.ids.Nodup :=
  ((numbered_init seed).run (by omega) hrun).distinct

/-- Two threads, of which the first returns last. -/
theorem ids_distinct_crossed :
    [mix32 5, mix32 (5 + kGoldenStep)].Nodup :=
  ids_distinct 5 [.fetchAdd 0, .fetchAdd 1, .finish 1, .finish 0] _ (by decide) rfl

/-! ## The call that returns 0 -/

theorem mix32_eq_zero_iff (x : UInt32) : mix32 x = 0 ↔ x = 0 :=
  mix32_injective.eq_iff' (by decide)

/-- How many calls come before the one that finds the counter at 0. -/
def callsBeforeZero (seed : UInt32) : Nat := (-seed * 0x144cbc89).toNat

theorem rawAt_eq_zero_iff (seed : UInt32) (i : Nat) :
    rawAt seed i = 0 ↔ i % 2 ^ 32 = callsBeforeZero seed := by
  have hinverse : kGoldenStep * 0x144cbc89 = 1 := by decide
  have hturn : UInt32.ofNat i * kGoldenStep = -seed ↔ UInt32.ofNat i = -seed * 0x144cbc89 := by
    constructor
    · intro h
      rw [← h, UInt32.mul_assoc, hinverse, UInt32.mul_one]
    · intro h
      rw [h, UInt32.mul_assoc, UInt32.mul_comm 0x144cbc89, hinverse, UInt32.mul_one]
  unfold callsBeforeZero
  rw [← UInt32.toNat_ofNat', UInt32.toNat_inj, ← hturn]
  constructor
  · intro h
    calc UInt32.ofNat i * kGoldenStep
        = UInt32.ofNat i * kGoldenStep + seed - seed := (UInt32.add_sub_cancel _ _).symm
      _ = rawAt seed i - seed := by rw [UInt32.add_comm, rawAt]
      _ = 0 - seed := congrArg (· - seed) h
      _ = -seed := UInt32.zero_sub seed
  · intro h
    show seed + UInt32.ofNat i * kGoldenStep = 0
    rw [h, UInt32.add_neg_eq_sub, UInt32.sub_self]

/-- The calls of one thread, one after the other. -/
def oneThread : Nat → List Action
  | 0 => []
  | n + 1 => .fetchAdd 0 :: .finish 0 :: oneThread n

theorem callsOf_oneThread (n : Nat) : callsOf (oneThread n) = n := by
  induction n with
  | zero => rfl
  | succ n ih => exact congrArg (· + 1) ih

/-- They return what all turns give. -/
theorem run_oneThread (n : Nat) : ∀ (seed : UInt32) (ids : List Key), ∃ g,
    Machine.run step { state := seed, ids := ids } (oneThread n) = some g ∧
      (∀ id ∈ ids, id ∈ g.ids) ∧ ∀ i < n, mix32 (rawAt seed i) ∈ g.ids := by
  induction n with
  | zero => exact fun seed ids => ⟨_, rfl, fun _ h => h, fun i hi => absurd hi (Nat.not_lt_zero i)⟩
  | succ n ih =>
    intro seed ids
    obtain ⟨g, hrun, hkept, hturns⟩ := ih (seed + kGoldenStep) (mix32 seed :: ids)
    have hfirst : Machine.run step { state := seed, ids := ids } (oneThread (n + 1)) =
        Machine.run step { state := seed + kGoldenStep, ids := mix32 seed :: ids }
          (oneThread n) := by
      have hcalls : Function.update (Function.update (fun _ => none) 0 (some seed)) 0 none =
          (fun _ => none : Nat → Option UInt32) := by
        rw [Function.update_idem]
        exact Function.update_eq_self 0 _
      simp only [oneThread, Machine.run, step, Function.update_self, Option.bind_some, hcalls]
    refine ⟨g, hfirst.trans hrun, fun id hid => hkept id (List.mem_cons_of_mem _ hid), ?_⟩
    intro i hi
    cases i with
    | zero =>
      rw [rawAt_zero]
      exact hkept _ List.mem_cons_self
    | succ i =>
      rw [← rawAt_step]
      exact hturns i (Nat.lt_of_succ_lt_succ hi)

/-- **Main result**: up to so many calls, no call returns 0 in any run, and no further. -/
theorem never_zero_iff (seed : UInt32) (n : Nat) :
    (∀ actions g, callsOf actions ≤ n → Machine.run step (init seed) actions = some g →
      0 ∉ g.ids) ↔ n ≤ callsBeforeZero seed := by
  constructor
  · intro h
    by_contra hlt
    obtain ⟨g, hrun, -, hturns⟩ := run_oneThread n seed []
    have hturn := hturns (callsBeforeZero seed) (Nat.not_le.1 hlt)
    have hzero : rawAt seed (callsBeforeZero seed) = 0 :=
      (rawAt_eq_zero_iff seed _).2 (Nat.mod_eq_of_lt (UInt32.toNat_lt _))
    rw [hzero] at hturn
    exact h (oneThread n) g (callsOf_oneThread n).le hrun hturn
  · intro hn actions g hfew hrun hzero
    obtain ⟨i, hi, heq⟩ := ((issued_init seed).run hrun).ids 0 hzero
    have hlt : i < callsBeforeZero seed := by omega
    have hturn := (rawAt_eq_zero_iff seed i).1 ((mix32_eq_zero_iff _).1 heq.symm)
    rw [Nat.mod_eq_of_lt (hlt.trans (UInt32.toNat_lt _))] at hturn
    exact hlt.ne hturn

/-- A clock that starts the counter at 0, so that the first call returns 0. -/
theorem first_zero : ¬ ∀ (now : Int64) (actions : List Action) (g : IdGenerator),
    Machine.run step (init (seedOf now)) actions = some g → 0 ∉ g.ids := by
  intro h
  exact h 0x80000001 [.fetchAdd 0, .finish 0] _ rfl List.mem_cons_self

end IdGenerator

end Bison
