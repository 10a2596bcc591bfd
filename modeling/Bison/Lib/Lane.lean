import Bison.Lib.Machine

/-!
# Lanes and links

A lane carries messages one way, in order, and a link is two lanes, one in each direction between a
client and a server. These are what queues, channels and connections are for.

- `Lane.InOrder`, `Duplex.InOrder`: what came out is what went in first, in the same order.
- `Lane.inOrder_run`: so it is in every run.
-/

/-- A lane, with all messages that went in and all that came out. -/
structure Lane (φ : Type) where
  queue : List φ := []
  put : List φ := []
  taken : List φ := []
  deriving DecidableEq

namespace Lane

variable {φ : Type}

inductive Action (φ : Type) where
  | put (a : φ)
  | take
  deriving DecidableEq

def step (l : Lane φ) : Action φ → Option (Lane φ)
  | .put a => some { l with queue := l.queue ++ [a], put := l.put ++ [a] }
  | .take => l.queue.head?.map fun a => { l with queue := l.queue.tail, taken := l.taken ++ [a] }

/-- Each message that went in came out, in the same order, or is still in the queue. -/
def InOrder (l : Lane φ) : Prop := l.put = l.taken ++ l.queue

variable {l l' : Lane φ}

theorem step_put (l : Lane φ) (a : φ) :
    l.step (.put a) = some { l with queue := l.queue ++ [a], put := l.put ++ [a] } := rfl

theorem step_take {a : φ} {rest : List φ} (h : l.queue = a :: rest) :
    l.step .take = some { l with queue := rest, taken := l.taken ++ [a] } := by
  simp only [step, h, List.head?_cons, Option.map_some, List.tail_cons]

theorem take_cases (h : l.step .take = some l') :
    ∃ a rest, l.queue = a :: rest ∧ l' = { l with queue := rest, taken := l.taken ++ [a] } := by
  cases hqueue : l.queue with
  | nil => simp [step, hqueue] at h
  | cons a rest =>
    rw [step_take hqueue] at h
    cases h
    exact ⟨a, rest, rfl, rfl⟩

theorem InOrder.step {a : Action φ} (h : l.InOrder) (hstep : l.step a = some l') :
    l'.InOrder := by
  cases a with
  | put a =>
    cases hstep
    show l.put ++ [a] = l.taken ++ (l.queue ++ [a])
    rw [h, List.append_assoc]
  | take =>
    obtain ⟨a, rest, hqueue, rfl⟩ := take_cases hstep
    show l.put = l.taken ++ [a] ++ rest
    rw [h, hqueue, List.append_assoc]
    rfl

theorem inOrder_empty : ({} : Lane φ).InOrder := rfl

/-- **In every run** the messages come out in the order in which they went in. -/
theorem inOrder_run {as : List (Action φ)} (h : Machine.run step {} as = some l) : l.InOrder :=
  Machine.run_invariant (fun _ _ _ hin hstep => hin.step hstep) inOrder_empty h

theorem InOrder.taken_prefix (h : l.InOrder) : l.taken <+: l.put :=
  ⟨l.queue, h.symm⟩

/-- The lane on which these messages went in, and these came out. -/
def ofHistory (put taken : List φ) : Lane φ := ⟨put.drop taken.length, put, taken⟩

theorem run_put_ofHistory {put taken : List φ} (a : φ) (h : taken <+: put) :
    Machine.run step (ofHistory put taken) [.put a] = some (ofHistory (put ++ [a]) taken) := by
  rw [ofHistory, ofHistory, List.drop_append_of_le_length h.length_le]
  rfl

theorem run_take_ofHistory {put taken rest : List φ} {a : φ} (h : put = taken ++ a :: rest) :
    Machine.run step (ofHistory put taken) [.take] = some (ofHistory put (taken ++ [a])) := by
  have hqueue : (ofHistory put taken).queue = a :: rest := by
    rw [ofHistory, h, List.drop_left]
  have hrest : put.drop (taken ++ [a]).length = rest := by
    have hput : put = taken ++ [a] ++ rest := h.trans (List.append_cons taken a rest)
    rw [hput, List.drop_left]
  rw [Machine.run, step_take hqueue, ofHistory, ofHistory, hrest]
  rfl

end Lane

/-! ## Links -/

/-- Two lanes, one in each direction. -/
structure Duplex (φ : Type) where
  c2s : Lane φ := {}
  s2c : Lane φ := {}
  deriving DecidableEq

namespace Duplex

variable {φ : Type}

inductive Action (φ : Type) where
  | c2s (a : Lane.Action φ)
  | s2c (a : Lane.Action φ)
  deriving DecidableEq

def step (l : Duplex φ) : Action φ → Option (Duplex φ)
  | .c2s a => (l.c2s.step a).map fun c2s => { l with c2s }
  | .s2c a => (l.s2c.step a).map fun s2c => { l with s2c }

/-- Frames come out in the order in which they went in, in both directions. -/
structure InOrder (l : Duplex φ) : Prop where
  c2s : l.c2s.InOrder
  s2c : l.s2c.InOrder

variable {l l' : Duplex φ}

theorem InOrder.step {a : Action φ} (h : l.InOrder) (hstep : l.step a = some l') :
    l'.InOrder := by
  cases a with
  | c2s a =>
    obtain ⟨lane, hlane, rfl⟩ := Option.map_eq_some_iff.1 hstep
    exact ⟨h.c2s.step hlane, h.s2c⟩
  | s2c a =>
    obtain ⟨lane, hlane, rfl⟩ := Option.map_eq_some_iff.1 hstep
    exact ⟨h.c2s, h.s2c.step hlane⟩

theorem inOrder_empty : ({} : Duplex φ).InOrder := ⟨rfl, rfl⟩

theorem run_c2s {as : List (Lane.Action φ)} {lane : Lane φ}
    (h : Machine.run Lane.step l.c2s as = some lane) :
    Machine.run step l (as.map .c2s) = some { l with c2s := lane } := by
  induction as generalizing l with
  | nil =>
    cases h
    rfl
  | cons a as ih =>
    obtain ⟨mid, hmid, hrest⟩ := Machine.run_cons h
    rw [List.map_cons, Machine.run, step, hmid]
    exact ih (l := { l with c2s := mid }) hrest

theorem run_s2c {as : List (Lane.Action φ)} {lane : Lane φ}
    (h : Machine.run Lane.step l.s2c as = some lane) :
    Machine.run step l (as.map .s2c) = some { l with s2c := lane } := by
  induction as generalizing l with
  | nil =>
    cases h
    rfl
  | cons a as ih =>
    obtain ⟨mid, hmid, hrest⟩ := Machine.run_cons h
    rw [List.map_cons, Machine.run, step, hmid]
    exact ih (l := { l with s2c := mid }) hrest

end Duplex
