import Bison.Lib.Lane
import Bison.Lib.Simulation
import Mathlib.Data.List.Forall2

/-!
# Carriers

Whatever carries messages between a client and a server, by threads, queues and bytes of its own, is
a link for those who use it. A carrier is a machine with the link that each of its states stands
for, and with what each of its steps is for that link.

- `LaneCarrier`, `Carrier`: what carries messages one way, and both ways. `LaneCarrier.both` puts
  two of the first together.
- `Carrier.simulates_link`: a carrier simulates its link.
- `Duplex.Related.run`: what is done on one link can be done on another whose messages stand for the
  same.
-/

/-! ## One way -/

/-- A machine that is a lane for those who use it, if its steps are the allowed ones. -/
structure LaneCarrier (φ : Type) where
  State : Type
  Action : Type
  initial : State
  step : State → Action → Option State
  /-- What holds of every state that is reached. -/
  Valid : State → Prop
  Allowed : State → Action → Prop
  decidableAllowed : ∀ s a, Decidable (Allowed s a)
  lane : State → Lane φ
  /-- What a step is for the lane. -/
  image : State → Action → List (Lane.Action φ)
  valid_initial : Valid initial
  lane_initial : lane initial = {}
  valid_step : ∀ s a s', Valid s → Allowed s a → step s a = some s' → Valid s'
  lane_step : ∀ s a s', Valid s → Allowed s a → step s a = some s' →
    Machine.run Lane.step (lane s) (image s a) = some (lane s')

/-- A machine that is a link for those who use it, if its steps are the allowed ones. -/
structure Carrier (φ : Type) where
  State : Type
  Action : Type
  initial : State
  step : State → Action → Option State
  /-- What holds of every state that is reached. -/
  Valid : State → Prop
  Allowed : State → Action → Prop
  decidableAllowed : ∀ s a, Decidable (Allowed s a)
  link : State → Duplex φ
  /-- What a step is for the link. -/
  image : State → Action → List (Duplex.Action φ)
  valid_initial : Valid initial
  link_initial : link initial = {}
  valid_step : ∀ s a s', Valid s → Allowed s a → step s a = some s' → Valid s'
  link_step : ∀ s a s', Valid s → Allowed s a → step s a = some s' →
    Machine.run Duplex.step (link s) (image s a) = some (link s')

variable {φ ψ : Type}

/-- Two carriers side by side, one in each direction. -/
def LaneCarrier.both (c2s s2c : LaneCarrier φ) : Carrier φ where
  State := c2s.State × s2c.State
  Action := c2s.Action ⊕ s2c.Action
  initial := (c2s.initial, s2c.initial)
  step
    | s, .inl a => (c2s.step s.1 a).map fun s' => (s', s.2)
    | s, .inr a => (s2c.step s.2 a).map fun s' => (s.1, s')
  Valid s := c2s.Valid s.1 ∧ s2c.Valid s.2
  Allowed
    | s, .inl a => c2s.Allowed s.1 a
    | s, .inr a => s2c.Allowed s.2 a
  decidableAllowed
    | s, .inl a => c2s.decidableAllowed s.1 a
    | s, .inr a => s2c.decidableAllowed s.2 a
  link s := ⟨c2s.lane s.1, s2c.lane s.2⟩
  image
    | s, .inl a => (c2s.image s.1 a).map .c2s
    | s, .inr a => (s2c.image s.2 a).map .s2c
  valid_initial := ⟨c2s.valid_initial, s2c.valid_initial⟩
  link_initial := by rw [c2s.lane_initial, s2c.lane_initial]
  valid_step := by
    rintro s (a | a) s' ⟨hc2s, hs2c⟩ hallowed hstep
    · obtain ⟨t, ht, rfl⟩ := Option.map_eq_some_iff.1 hstep
      exact ⟨c2s.valid_step _ _ _ hc2s hallowed ht, hs2c⟩
    · obtain ⟨t, ht, rfl⟩ := Option.map_eq_some_iff.1 hstep
      exact ⟨hc2s, s2c.valid_step _ _ _ hs2c hallowed ht⟩
  link_step := by
    rintro s (a | a) s' ⟨hc2s, hs2c⟩ hallowed hstep
    · obtain ⟨t, ht, rfl⟩ := Option.map_eq_some_iff.1 hstep
      have hlane := c2s.lane_step _ _ _ hc2s hallowed ht
      exact Duplex.run_c2s (l := ⟨c2s.lane s.1, s2c.lane s.2⟩) hlane
    · obtain ⟨t, ht, rfl⟩ := Option.map_eq_some_iff.1 hstep
      have hlane := s2c.lane_step _ _ _ hs2c hallowed ht
      exact Duplex.run_s2c (l := ⟨c2s.lane s.1, s2c.lane s.2⟩) hlane

/-! ## Steps of a carrier -/

namespace Carrier

variable (C : Carrier φ)

instance (s : C.State) (a : C.Action) : Decidable (C.Allowed s a) := C.decidableAllowed s a

/-- **A carrier simulates its link.** -/
theorem simulates_link : Machine.SimulatesEach C.step Duplex.step C.image C.Allowed
    (fun _ _ => True) fun s l => C.Valid s ∧ l = C.link s := by
  rintro s l a s' ⟨hvalid, rfl⟩ hallowed hstep
  exact ⟨C.link s', C.link_step s a s' hvalid hallowed hstep, Machine.each_true _ _,
    C.valid_step s a s' hvalid hallowed hstep, rfl⟩

variable [DecidableEq φ]

/-- The carrier takes these steps, if they are `what` for its link. -/
def perform (s : C.State) (as : List C.Action) (what : List (Duplex.Action φ)) : Option C.State :=
  if Machine.trace C.step C.image s as = what then Machine.run C.step s as else none

variable {C}

theorem perform_link {s s' : C.State} {as : List C.Action} {what : List (Duplex.Action φ)}
    (hvalid : C.Valid s) (hallowed : Machine.Each C.step C.Allowed s as)
    (h : C.perform s as what = some s') :
    C.Valid s' ∧ Machine.run Duplex.step (C.link s) what = some (C.link s') := by
  rw [perform] at h
  split_ifs at h with htrace
  obtain ⟨l, hl, -, hvalid', rfl⟩ := C.simulates_link.run ⟨hvalid, rfl⟩ hallowed h
  rw [← htrace]
  exact ⟨hvalid', hl⟩

end Carrier

/-! ## Links whose messages stand for the same -/

variable {P : φ → ψ → Prop}

namespace Lane

/-- The messages on one lane stand for those on the other. -/
structure Related (P : φ → ψ → Prop) (l : Lane φ) (m : Lane ψ) : Prop where
  queue : List.Forall₂ P l.queue m.queue
  put : List.Forall₂ P l.put m.put
  taken : List.Forall₂ P l.taken m.taken

inductive Action.Related (P : φ → ψ → Prop) : Action φ → Action ψ → Prop where
  | put {a : φ} {b : ψ} (h : P a b) : Related P (.put a) (.put b)
  | take : Related P .take .take

/-- What is next on one lane stands for what is next on the other. -/
theorem Related.head {l : Lane φ} {m : Lane ψ} (h : Related P l m) {b : ψ} {rest : List ψ}
    (hqueue : m.queue = b :: rest) :
    ∃ a rest', l.queue = a :: rest' ∧ P a b ∧ List.Forall₂ P rest' rest := by
  have hrel := h.queue
  rw [hqueue] at hrel
  obtain ⟨a, rest', hab, hrest, hqueue'⟩ := List.forall₂_cons_right_iff.1 hrel
  exact ⟨a, rest', hqueue', hab, hrest⟩

theorem exists_of_forall₂ {as : List φ} {bs : List ψ} (h : List.Forall₂ P as bs) {a : φ}
    (ha : a ∈ as) : ∃ b ∈ bs, P a b := by
  induction h with
  | nil => cases ha
  | cons hab _ ih =>
    rcases List.mem_cons.1 ha with rfl | ha
    · exact ⟨_, List.mem_cons_self, hab⟩
    · obtain ⟨b, hb, hab⟩ := ih ha
      exact ⟨b, List.mem_cons_of_mem _ hb, hab⟩

/-- What is on one lane stands for something on the other. -/
theorem Related.mem {l : Lane φ} {m : Lane ψ} (h : Related P l m) {a : φ} (ha : a ∈ l.queue) :
    ∃ b ∈ m.queue, P a b :=
  exists_of_forall₂ h.queue ha

theorem Related.mem_put {l : Lane φ} {m : Lane ψ} (h : Related P l m) {a : φ} (ha : a ∈ l.put) :
    ∃ b ∈ m.put, P a b :=
  exists_of_forall₂ h.put ha

theorem Related.step {l : Lane φ} {m m' : Lane ψ} {a : Action φ} {b : Action ψ}
    (h : Related P l m) (ha : Action.Related P a b) (hstep : m.step b = some m') :
    ∃ l', l.step a = some l' ∧ Related P l' m' := by
  cases ha with
  | put hab =>
    cases hstep
    exact ⟨_, rfl, List.rel_append h.queue (.cons hab .nil),
      List.rel_append h.put (.cons hab .nil), h.taken⟩
  | take =>
    obtain ⟨b, rest, hqueue, rfl⟩ := take_cases hstep
    obtain ⟨a, rest', hqueue', hab, hrest⟩ := h.head hqueue
    exact ⟨_, step_take hqueue', hrest, h.put, List.rel_append h.taken (.cons hab .nil)⟩

end Lane

namespace Duplex

/-- The messages on one link stand for those on the other. -/
structure Related (P : φ → ψ → Prop) (l : Duplex φ) (m : Duplex ψ) : Prop where
  c2s : Lane.Related P l.c2s m.c2s
  s2c : Lane.Related P l.s2c m.s2c

inductive Action.Related (P : φ → ψ → Prop) : Action φ → Action ψ → Prop where
  | c2s {a : Lane.Action φ} {b : Lane.Action ψ} (h : Lane.Action.Related P a b) :
      Related P (.c2s a) (.c2s b)
  | s2c {a : Lane.Action φ} {b : Lane.Action ψ} (h : Lane.Action.Related P a b) :
      Related P (.s2c a) (.s2c b)

theorem related_empty : Related P {} {} := ⟨⟨.nil, .nil, .nil⟩, ⟨.nil, .nil, .nil⟩⟩

theorem Related.step {l : Duplex φ} {m m' : Duplex ψ} {a : Action φ} {b : Action ψ}
    (h : Related P l m) (ha : Action.Related P a b) (hstep : m.step b = some m') :
    ∃ l', l.step a = some l' ∧ Related P l' m' := by
  cases ha with
  | c2s ha =>
    obtain ⟨lane, hlane, rfl⟩ := Option.map_eq_some_iff.1 hstep
    obtain ⟨lane', hlane', hrel⟩ := h.c2s.step ha hlane
    refine ⟨{ l with c2s := lane' }, ?_, hrel, h.s2c⟩
    rw [Duplex.step, hlane']
    rfl
  | s2c ha =>
    obtain ⟨lane, hlane, rfl⟩ := Option.map_eq_some_iff.1 hstep
    obtain ⟨lane', hlane', hrel⟩ := h.s2c.step ha hlane
    refine ⟨{ l with s2c := lane' }, ?_, h.c2s, hrel⟩
    rw [Duplex.step, hlane']
    rfl

/-- **What is done on one link** can be done on the other, by induction on the actions. -/
theorem Related.run {l : Duplex φ} {m m' : Duplex ψ} {as : List (Action φ)}
    {bs : List (Action ψ)} (h : Related P l m) (has : List.Forall₂ (Action.Related P) as bs)
    (hrun : Machine.run Duplex.step m bs = some m') :
    ∃ l', Machine.run Duplex.step l as = some l' ∧ Related P l' m' := by
  induction has generalizing l m with
  | nil =>
    cases hrun
    exact ⟨l, rfl, h⟩
  | cons ha has ih =>
    obtain ⟨mid, hmid, hrest⟩ := Machine.run_cons hrun
    obtain ⟨next, hnext, hrel⟩ := h.step ha hmid
    obtain ⟨l', hl', hrel'⟩ := ih hrel hrest
    refine ⟨l', ?_, hrel'⟩
    rw [Machine.run, hnext]
    exact hl'

end Duplex
