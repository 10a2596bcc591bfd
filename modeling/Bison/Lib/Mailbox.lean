import Bison.Lib.Lane
import Bison.Lib.Simulation

/-!
# Mailboxes

A queue behind a lock, from which any number of threads take messages. A thread first waits until
there is a message or a flag beside the queue is set, and lets go of the lock; then it locks the
queue again and takes a message out, if there still is one.

- `Mailbox.step`, `Mailbox.Steps`: one step of any thread, and what it can be.
- `Mailbox.simulates_lane`: a mailbox is a lane, whatever number of threads take.
- `Mailbox.Sole`: where one thread alone takes, it goes away empty-handed only when its wait timed
  out or the flag was set.
-/

/-- Where a thread is that takes. -/
inductive Mailbox.Position where
  /-- In no call. -/
  | idle
  /-- In the wait. -/
  | waiting
  /-- Behind the wait, with what it saw of the flag. -/
  | granted (closed : Bool)
  deriving DecidableEq

/-- Why a thread went away with no message. -/
inductive Mailbox.Refusal where
  /-- Its wait timed out: there was no message, and the flag was not set. -/
  | timeout
  /-- There was no message behind the wait, which saw the flag like this. -/
  | empty (closed : Bool)
  deriving DecidableEq

/-- A mailbox and the threads that take from it. -/
structure Mailbox (φ : Type) where
  lane : Lane φ := {}
  takers : Nat → Mailbox.Position := fun _ => .idle
  refused : List Mailbox.Refusal := []

namespace Mailbox

variable {φ : Type}

/-- The steps of a thread that takes. -/
inductive Stage where
  /-- It begins to wait. -/
  | call
  /-- It looks whether it has to wait on; its time may have expired. -/
  | test (expired : Bool)
  /-- It looks into the queue behind the wait. -/
  | take

inductive Action (φ : Type) where
  | put (a : φ)
  | taking (i : Nat) (stage : Stage)

def goto (m : Mailbox φ) (i : Nat) (p : Position) : Mailbox φ :=
  { m with takers := fun j => if j = i then p else m.takers j }

/-- Thread `i` returns with no message. -/
def refuse (m : Mailbox φ) (i : Nat) (why : Refusal) : Mailbox φ :=
  { m.goto i .idle with refused := m.refused ++ [why] }

/-- One step, with the flag as it is. -/
def step (closed : Bool) (m : Mailbox φ) : Action φ → Option (Mailbox φ)
  | .put a => (m.lane.step (.put a)).map fun lane => { m with lane }
  | .taking i .call => if m.takers i = .idle then some (m.goto i .waiting) else none
  | .taking i (.test expired) =>
    if m.takers i = .waiting then
      if !m.lane.queue.isEmpty || closed then some (m.goto i (.granted closed))
      else if expired then some (m.refuse i .timeout)
      else some m
    else none
  | .taking i .take =>
    match m.takers i with
    | .granted seen =>
      if m.lane.queue.isEmpty then some (m.refuse i (.empty seen))
      else (m.lane.step .take).map fun lane => { m.goto i .idle with lane }
    | _ => none

@[simp] theorem goto_lane (m : Mailbox φ) (i : Nat) (p : Position) :
    (m.goto i p).lane = m.lane := rfl

@[simp] theorem goto_refused (m : Mailbox φ) (i : Nat) (p : Position) :
    (m.goto i p).refused = m.refused := rfl

@[simp] theorem goto_takers (m : Mailbox φ) (i j : Nat) (p : Position) :
    (m.goto i p).takers j = if j = i then p else m.takers j := rfl

@[simp] theorem refuse_lane (m : Mailbox φ) (i : Nat) (why : Refusal) :
    (m.refuse i why).lane = m.lane := rfl

@[simp] theorem refuse_refused (m : Mailbox φ) (i : Nat) (why : Refusal) :
    (m.refuse i why).refused = m.refused ++ [why] := rfl

@[simp] theorem refuse_takers (m : Mailbox φ) (i j : Nat) (why : Refusal) :
    (m.refuse i why).takers j = if j = i then .idle else m.takers j := rfl

/-- What a step can be. -/
inductive Steps (closed : Bool) (m : Mailbox φ) : Action φ → Mailbox φ → Prop where
  | put (a : φ) :
    Steps closed m (.put a)
      { m with lane := { m.lane with queue := m.lane.queue ++ [a], put := m.lane.put ++ [a] } }
  | call (i : Nat) (h : m.takers i = .idle) : Steps closed m (.taking i .call) (m.goto i .waiting)
  | grant (i : Nat) (expired : Bool) (h : m.takers i = .waiting)
      (hready : m.lane.queue ≠ [] ∨ closed = true) :
    Steps closed m (.taking i (.test expired)) (m.goto i (.granted closed))
  | expire (i : Nat) (h : m.takers i = .waiting) (hempty : m.lane.queue = []) :
    Steps closed m (.taking i (.test true)) (m.refuse i .timeout)
  | wait (i : Nat) (h : m.takers i = .waiting) : Steps closed m (.taking i (.test false)) m
  | miss (i : Nat) (seen : Bool) (h : m.takers i = .granted seen) (hempty : m.lane.queue = []) :
    Steps closed m (.taking i .take) (m.refuse i (.empty seen))
  | take (i : Nat) (seen : Bool) (a : φ) (rest : List φ) (h : m.takers i = .granted seen)
      (hqueue : m.lane.queue = a :: rest) :
    Steps closed m (.taking i .take)
      { m.goto i .idle with
        lane := { m.lane with queue := rest, taken := m.lane.taken ++ [a] } }

variable {closed : Bool} {m m' : Mailbox φ} {a : Action φ}

theorem steps_of_step (h : m.step closed a = some m') : Steps closed m a m' := by
  cases a with
  | put a =>
    cases h
    exact .put a
  | taking i stage =>
    cases stage with
    | call =>
      simp only [step, Option.ite_none_right_eq_some, Option.some.injEq] at h
      obtain ⟨hidle, rfl⟩ := h
      exact .call i hidle
    | test expired =>
      simp only [step, Option.ite_none_right_eq_some] at h
      obtain ⟨hwaiting, h⟩ := h
      split_ifs at h with hready hexpired
      · cases h
        exact .grant i expired hwaiting (by simpa using hready)
      · cases h
        rw [Bool.or_eq_true, not_or] at hready
        rw [hexpired]
        exact .expire i hwaiting (by simpa using hready.1)
      · cases h
        rw [Bool.eq_false_iff.2 hexpired]
        exact .wait i hwaiting
    | take =>
      simp only [step] at h
      split at h
      · next seen hgranted =>
        split_ifs at h with hempty
        · cases h
          exact .miss i seen hgranted (List.isEmpty_iff.1 hempty)
        · obtain ⟨lane, hlane, rfl⟩ := Option.map_eq_some_iff.1 h
          obtain ⟨a, rest, hqueue, rfl⟩ := Lane.take_cases hlane
          exact .take i seen a rest hgranted hqueue
      · cases h

/-! ## A mailbox is a lane -/

/-- What a step is for the lane. -/
def image (m : Mailbox φ) : Action φ → List (Lane.Action φ)
  | .put a => [.put a]
  | .taking _ .take => if m.lane.queue.isEmpty then [] else [.take]
  | _ => []

theorem lane_of_step (h : m.step closed a = some m') :
    Machine.run Lane.step m.lane (m.image a) = some m'.lane := by
  cases steps_of_step h with
  | put a => rfl
  | call i h => rfl
  | grant i expired h hready => rfl
  | expire i h hempty => rfl
  | wait i h => rfl
  | miss i seen h hempty =>
    rw [image, hempty]
    rfl
  | take i seen a rest h hqueue =>
    rw [image, hqueue]
    show (m.lane.step .take).bind some = _
    rw [Lane.step_take hqueue]
    rfl

/-- **A mailbox is a lane**, for any number of threads, each step with the flag of its moment. -/
theorem simulates_lane :
    Machine.Simulates (fun (m : Mailbox φ) (a : Bool × Action φ) => m.step a.1 a.2) Lane.step
      (fun m a => m.image a.2) fun m l => l = m.lane := by
  rintro m l ⟨closed, a⟩ m' rfl hstep
  exact ⟨m'.lane, lane_of_step hstep, rfl⟩

theorem inOrder_of_step (h : m.lane.InOrder) (hstep : m.step closed a = some m') :
    m'.lane.InOrder :=
  Machine.run_invariant (fun _ _ _ hin hs => hin.step hs) h (lane_of_step hstep)

/-! ## One thread that takes -/

/-- Thread `i` alone takes. Behind its wait there is a message, or it has seen the flag set. -/
structure Sole (i : Nat) (m : Mailbox φ) : Prop where
  others : ∀ j, j ≠ i → m.takers j = .idle
  granted : m.takers i = .granted false → m.lane.queue ≠ []
  refused : ∀ why ∈ m.refused, why = .timeout ∨ why = .empty true

/-- The action is none of another thread that takes. -/
def By (i : Nat) (a : Action φ) : Prop := ∀ j stage, a = .taking j stage → j = i

theorem sole_empty (i : Nat) : Sole i ({} : Mailbox φ) where
  others := fun _ _ => rfl
  granted := nofun
  refused := nofun

theorem refused_append {refused : List Refusal} {why : Refusal}
    (h : ∀ why ∈ refused, why = .timeout ∨ why = .empty true)
    (hwhy : why = .timeout ∨ why = .empty true) :
    ∀ why' ∈ refused ++ [why], why' = .timeout ∨ why' = .empty true := by
  intro why' hmem
  rcases List.mem_append.1 hmem with hmem | hmem
  · exact h why' hmem
  · rw [List.mem_singleton.1 hmem]
    exact hwhy

theorem Sole.step {i : Nat} (h : Sole i m) (hby : By i a) (hstep : m.step closed a = some m') :
    Sole i m' := by
  cases steps_of_step hstep with
  | put a =>
    refine ⟨h.others, fun _ => ?_, h.refused⟩
    simp
  | call j hidle =>
    obtain rfl := hby j _ rfl
    refine ⟨fun k hk => ?_, fun hgranted => ?_, h.refused⟩
    · rw [goto_takers, if_neg hk]
      exact h.others k hk
    · rw [goto_takers, if_pos rfl] at hgranted
      cases hgranted
  | grant j expired hwaiting hready =>
    obtain rfl := hby j _ rfl
    refine ⟨fun k hk => ?_, fun hgranted => ?_, h.refused⟩
    · rw [goto_takers, if_neg hk]
      exact h.others k hk
    · rw [goto_takers, if_pos rfl] at hgranted
      cases hgranted
      exact hready.resolve_right Bool.false_ne_true
  | expire j hwaiting hempty =>
    obtain rfl := hby j _ rfl
    refine ⟨fun k hk => ?_, fun hgranted => ?_, refused_append h.refused (.inl rfl)⟩
    · rw [refuse_takers, if_neg hk]
      exact h.others k hk
    · rw [refuse_takers, if_pos rfl] at hgranted
      cases hgranted
  | wait j hwaiting => exact h
  | miss j seen hgranted hempty =>
    obtain rfl := hby j _ rfl
    -- nobody else can have taken the message that was there
    have hseen : seen = true := by
      cases seen with
      | false => exact absurd hempty (h.granted hgranted)
      | true => rfl
    refine ⟨fun k hk => ?_, fun hgranted => ?_, refused_append h.refused (.inr ?_)⟩
    · rw [refuse_takers, if_neg hk]
      exact h.others k hk
    · rw [refuse_takers, if_pos rfl] at hgranted
      cases hgranted
    · rw [hseen]
  | take j seen a rest hgranted hqueue =>
    obtain rfl := hby j _ rfl
    refine ⟨fun k hk => ?_, fun hgranted => ?_, h.refused⟩
    · show (m.goto j .idle).takers k = .idle
      rw [goto_takers, if_neg hk]
      exact h.others k hk
    · change (m.goto j .idle).takers j = _ at hgranted
      rw [goto_takers, if_pos rfl] at hgranted
      cases hgranted

/-! ## A flag that stays set -/

/-- Who has seen the flag set has seen it as it is. -/
structure Witnessed (closed : Bool) (m : Mailbox φ) : Prop where
  granted : ∀ i, m.takers i = .granted true → closed = true
  refused : .empty true ∈ m.refused → closed = true

theorem witnessed_empty (closed : Bool) : Witnessed closed ({} : Mailbox φ) where
  granted := nofun
  refused := nofun

theorem witnessed_set (m : Mailbox φ) : Witnessed true m where
  granted := fun _ _ => rfl
  refused := fun _ => rfl

theorem Witnessed.goto (h : Witnessed closed m) (i : Nat) {p : Position}
    (hp : p = .granted true → closed = true) : Witnessed closed (m.goto i p) := by
  refine ⟨fun j hj => ?_, h.refused⟩
  rw [goto_takers] at hj
  split at hj
  · exact hp hj
  · exact h.granted j hj

theorem Witnessed.refuse (h : Witnessed closed m) (i : Nat) {why : Refusal}
    (hwhy : why = .empty true → closed = true) : Witnessed closed (m.refuse i why) := by
  refine ⟨(h.goto i (p := .idle) nofun).granted, fun hmem => ?_⟩
  rcases List.mem_append.1 hmem with hmem | hmem
  · exact h.refused hmem
  · exact hwhy (List.mem_singleton.1 hmem).symm

theorem Witnessed.step (h : Witnessed closed m) (hstep : m.step closed a = some m') :
    Witnessed closed m' := by
  cases steps_of_step hstep with
  | put a => exact ⟨h.granted, h.refused⟩
  | call i hidle => exact h.goto i nofun
  | grant i expired hwaiting hready =>
    refine h.goto i fun hp => ?_
    cases hp
    rfl
  | expire i hwaiting hempty => exact h.refuse i nofun
  | wait i hwaiting => exact h
  | miss i seen hgranted hempty =>
    refine h.refuse i fun hwhy => ?_
    cases hwhy
    exact h.granted i hgranted
  | take i seen a rest hgranted hqueue =>
    exact ⟨(h.goto i (p := .idle) nofun).granted, h.refused⟩

/-- With one thread that takes, and a flag that stays set. -/
theorem Sole.refused_witnessed {i : Nat} (h : Sole i m) (hflag : Witnessed closed m) :
    ∀ why ∈ m.refused, why = .timeout ∨ closed = true := by
  intro why hmem
  rcases h.refused why hmem with rfl | rfl
  · exact .inl rfl
  · exact .inr (hflag.refused hmem)

/-! ## Whole calls -/

/-- A call of thread `i`, with nothing between its steps. -/
def receive (i : Nat) : List (Action φ) :=
  [.taking i .call, .taking i (.test true), .taking i .take]

theorem goto_goto (m : Mailbox φ) (i : Nat) (p q : Position) :
    (m.goto i p).goto i q = m.goto i q := by
  simp only [goto, mk.injEq, true_and, and_true]
  funext j
  by_cases hj : j = i <;> simp [hj]

theorem goto_self {i : Nat} {p : Position} (h : m.takers i = p) : m.goto i p = m := by
  rw [goto, show (fun j => if j = i then p else m.takers j) = m.takers from ?_]
  funext j
  by_cases hj : j = i <;> simp [hj, h]

/-- It gives the first message of the queue, whatever the flag is. -/
theorem run_receive {i : Nat} {a : φ} {rest : List φ} (hidle : m.takers i = .idle)
    (hqueue : m.lane.queue = a :: rest) (closed : Bool) :
    Machine.run (step closed) m (receive i) =
      some { m with lane := { m.lane with queue := rest, taken := m.lane.taken ++ [a] } } := by
  have hcall : m.step closed (.taking i .call) = some (m.goto i .waiting) := by
    rw [step, if_pos hidle]
  have htest : (m.goto i .waiting).step closed (.taking i (.test true)) =
      some (m.goto i (.granted closed)) := by
    rw [step, goto_takers, if_pos rfl, if_pos rfl, goto_lane, hqueue, goto_goto]
    rfl
  have htake : (m.goto i (.granted closed)).step closed (.taking i .take) =
      some { m with lane := { m.lane with queue := rest, taken := m.lane.taken ++ [a] } } := by
    simp only [step, goto_takers, if_true, goto_lane, hqueue, List.isEmpty_cons, Bool.false_eq_true,
      if_false, goto_goto, goto_self hidle, Lane.step_take hqueue, Option.map_some]
  rw [receive, Machine.run, hcall, Option.bind_some, Machine.run, htest, Option.bind_some,
    Machine.run, htake]
  rfl

/-- **A mailbox is emptied** by as many calls as there are messages, whatever the flag is. -/
theorem run_drain {i : Nat} (closed : Bool) {queue : List φ} (hidle : m.takers i = .idle)
    (hqueue : m.lane.queue = queue) :
    Machine.run (step closed) m (queue.flatMap fun _ => receive i) =
      some { m with lane := { m.lane with queue := [], taken := m.lane.taken ++ queue } } := by
  induction queue generalizing m with
  | nil =>
    rw [List.flatMap_nil, Machine.run, List.append_nil, ← hqueue]
  | cons a rest ih =>
    rw [List.flatMap_cons, Machine.run_append, run_receive hidle hqueue, Option.bind_some, ih]
    · rw [List.append_assoc]
      rfl
    · exact hidle
    · rfl

end Mailbox
