import Bison.Lib.Machine
import Mathlib.Logic.Function.Basic

/-!
# Events and the destruction of their object

Both backends keep a table of event handlers, copy a handler out of it when an event comes and call
the copy later. `client` puts the copy into `event_queue_`, and its event thread calls it
(client.cpp:298-385); in `standalone` the thread that emits the event does (standalone.cpp:113-134).
`destroy_object` takes the handlers of the object out of the table: in `client` before it sends the
request, in `standalone` on the worker, behind the erasure of the object.

- `Events.step`: one step of a thread.
- `Events.late`: the handlers that started behind the end of a `destroy_object` of their object
  that began behind their registration.
- `drained_silent`: **main result**, there are none when no copy is left at the end of a call, and
  no handler either when it failed.
- `late_events`: a copy in the queue of the client, and a handler that `standalone` did not take
  out.
-/

namespace Bison

/-- The implementations of `proxy_backend`. -/
inductive ProxyBackend where
  | client
  | standalone
  deriving Repr, DecidableEq

/-- A handler, by its object and the number of its registration. -/
structure EventHandler (κ : Type) where
  object : κ
  number : Nat
  deriving Repr, DecidableEq

/-- Where a call of `destroy_object` is: behind `on_destroy` or `on_before_dispatch`, behind the
erasure of the object, behind `unregister_object_events`, or about to throw without that. -/
inductive DestroyStage where
  | called
  | hooked
  | erased
  | unregistered
  | failed
  deriving Repr, DecidableEq

/-- A call of `destroy_object`. `registered`: how many handlers were before it. -/
structure DestroyCall (κ : Type) where
  object : κ
  registered : Nat
  stage : DestroyStage := .called
  deriving Repr, DecidableEq

/-- `event_handlers_` and what is done with the handlers. `copied`: in `process_frame` or
`emit_event`, by any thread. `task`: what `event_loop` is about to run. `objects`: those of the
standalone context. `ended`: the calls that have returned or thrown. -/
structure Events (κ ν : Type) where
  handlers : κ → ν → Option Nat := fun _ _ => none
  registered : Nat := 0
  copied : List (EventHandler κ) := []
  eventQueue : List (EventHandler κ) := []
  task : Option (EventHandler κ) := none
  objects : κ → Bool := fun _ => false
  running : Bool := true
  calls : List (DestroyCall κ) := []
  ended : List (DestroyCall κ) := []
  late : List (EventHandler κ) := []

inductive EventsAction (κ ν : Type) where
  | register (object : κ) (name : ν)
  /-- An event comes, and its handler is looked up. -/
  | copy (object : κ) (name : ν)
  /-- `process_frame` queues the handler. -/
  | queue (handler : EventHandler κ)
  /-- `event_loop` takes a task. -/
  | take
  | start (handler : EventHandler κ)
  | instantiate (object : κ)
  | stopWorker
  | destroyObject (object : κ)
  /-- `on_destroy`, and `on_before_dispatch` on the worker. -/
  | hook (call : DestroyCall κ) (throws : Bool)
  /-- The worker ended before it took the task. -/
  | abandon (call : DestroyCall κ)
  | erase (call : DestroyCall κ)
  | unregister (call : DestroyCall κ)
  /-- The call returns or throws, whatever the answer is. -/
  | finish (call : DestroyCall κ)

namespace Events

section

variable {κ ν : Type} [DecidableEq κ] [DecidableEq ν]

/-- The handler was registered for the object of the call, before it. -/
def Earlier (call : DestroyCall κ) (handler : EventHandler κ) : Prop :=
  handler.object = call.object ∧ handler.number < call.registered

instance (call : DestroyCall κ) (handler : EventHandler κ) : Decidable (Earlier call handler) :=
  inferInstanceAs (Decidable (_ ∧ _))

/-- A handler is called. -/
def run (s : Events κ ν) (handler : EventHandler κ) : Events κ ν :=
  if ∃ call ∈ s.ended, Earlier call handler then { s with late := handler :: s.late } else s

/-- A call goes on. -/
def goto (s : Events κ ν) (call : DestroyCall κ) (stage : DestroyStage) : Events κ ν :=
  { s with calls := { call with stage } :: s.calls.erase call }

/-- Where a call of the backend is when it takes the handlers out. -/
def unregisters : ProxyBackend → DestroyStage
  | .client => .hooked
  | .standalone => .erased

/-- One step. -/
def step (backend : ProxyBackend) (s : Events κ ν) : EventsAction κ ν → Option (Events κ ν)
  | .register object name =>
    some { s with
      handlers := Function.update s.handlers object
        (Function.update (s.handlers object) name (some s.registered))
      registered := s.registered + 1 }
  | .copy object name =>
    match s.handlers object name with
    | some number => some { s with copied := ⟨object, number⟩ :: s.copied }
    | none => some s
  | .queue handler =>
    if backend = .client ∧ handler ∈ s.copied then
      some { s with
        copied := s.copied.erase handler
        eventQueue := s.eventQueue ++ [handler] }
    else none
  | .take =>
    match s.task, s.eventQueue with
    | none, handler :: rest => some { s with task := some handler, eventQueue := rest }
    | _, _ => none
  | .start handler =>
    match backend with
    | .client =>
      if s.task = some handler then some ({ s with task := none }.run handler) else none
    | .standalone =>
      if handler ∈ s.copied then
        some ({ s with copied := s.copied.erase handler }.run handler)
      else none
  | .instantiate object => some { s with objects := Function.update s.objects object true }
  | .stopWorker => some { s with running := false }
  -- enqueue refuses when the worker is stopped
  | .destroyObject object =>
    some { s with calls := ⟨object, s.registered,
      if backend = .standalone ∧ s.running = false then .failed else .called⟩ :: s.calls }
  | .hook call throws =>
    if call ∈ s.calls ∧ call.stage = .called then
      some (s.goto call (if throws then .failed else .hooked))
    else none
  | .abandon call =>
    if backend = .standalone ∧ s.running = false ∧ call ∈ s.calls ∧ call.stage = .called then
      some (s.goto call .failed)
    else none
  -- handle_destroy of standalone
  | .erase call =>
    if backend = .standalone ∧ call ∈ s.calls ∧ call.stage = .hooked then
      if s.objects call.object then
        some ({ s with objects := Function.update s.objects call.object false }.goto call .erased)
      else some (s.goto call .failed)
    else none
  | .unregister call =>
    if call ∈ s.calls ∧ call.stage = unregisters backend then
      some ({ s with
        handlers := Function.update s.handlers call.object fun _ => none }.goto call .unregistered)
    else none
  | .finish call =>
    if call ∈ s.calls ∧ (call.stage = .unregistered ∨ call.stage = .failed) then
      some { s with calls := s.calls.erase call, ended := call :: s.ended }
    else none

/-- A copy of the handler waits to be called. -/
def Held (s : Events κ ν) (handler : EventHandler κ) : Prop :=
  handler ∈ s.copied ∨ handler ∈ s.eventQueue ∨ s.task = some handler

/-- The handler is in the table. -/
def Listed (s : Events κ ν) (handler : EventHandler κ) : Prop :=
  ∃ name, s.handlers handler.object name = some handler.number

/-- The condition on the end of a call: no copy of an earlier handler waits, and when the call
failed none is in the table. -/
def Drained (s : Events κ ν) : EventsAction κ ν → Prop
  | .finish call => ∀ handler, Earlier call handler →
    ¬ s.Held handler ∧ (call.stage = .failed → ¬ s.Listed handler)
  | _ => True

variable {backend : ProxyBackend} {s s' : Events κ ν}

/-- What the steps keep. -/
structure Silent (s : Events κ ν) : Prop where
  late : s.late = []
  calls : ∀ call ∈ s.calls, call.registered ≤ s.registered
  ended : ∀ call ∈ s.ended, call.registered ≤ s.registered
  unregistered : ∀ call ∈ s.calls, call.stage = .unregistered →
    ∀ handler, Earlier call handler → ¬ s.Listed handler
  gone : ∀ call ∈ s.ended, ∀ handler, Earlier call handler →
    ¬ s.Held handler ∧ ¬ s.Listed handler

omit [DecidableEq κ] [DecidableEq ν] in
theorem silent_init : Silent ({} : Events κ ν) :=
  ⟨rfl, nofun, nofun, nofun, nofun⟩

omit [DecidableEq κ] [DecidableEq ν] in
/-- A step that ends no call. It lists new handlers at most, and holds listed ones. -/
theorem Silent.of_step (h : s.Silent) {m : Events κ ν} (hlate : m.late = s.late)
    (hended : m.ended = s.ended) (hregistered : s.registered ≤ m.registered)
    (hcalls : ∀ call ∈ m.calls, call ∈ s.calls ∨ call.registered ≤ s.registered ∧
      (call.stage = .unregistered → ∀ handler, Earlier call handler → ¬ m.Listed handler))
    (hheld : ∀ handler, m.Held handler → s.Held handler ∨ s.Listed handler)
    (hlisted : ∀ handler, m.Listed handler → s.Listed handler ∨ s.registered ≤ handler.number) :
    m.Silent := by
  have hnew {call : DestroyCall κ} {handler : EventHandler κ} (hle : call.registered ≤ s.registered)
      (hearlier : Earlier call handler) (hnot : ¬ s.Listed handler) : ¬ m.Listed handler := by
    intro hm
    rcases hlisted handler hm with hbefore | hlater
    · exact hnot hbefore
    · have := hearlier.2
      omega
  refine ⟨hlate.trans h.late, fun call hcall => ?_, fun call hcall => ?_,
    fun call hcall hstage handler hearlier => ?_, fun call hcall handler hearlier => ?_⟩
  · rcases hcalls call hcall with hbefore | ⟨hle, -⟩
    · exact Nat.le_trans (h.calls call hbefore) hregistered
    · exact Nat.le_trans hle hregistered
  · exact Nat.le_trans (h.ended call (hended ▸ hcall)) hregistered
  · rcases hcalls call hcall with hbefore | ⟨-, hnone⟩
    · exact hnew (h.calls call hbefore) hearlier
        (h.unregistered call hbefore hstage handler hearlier)
    · exact hnone hstage handler hearlier
  · have hcall' : call ∈ s.ended := hended ▸ hcall
    obtain ⟨hnot, hnone⟩ := h.gone call hcall' handler hearlier
    exact ⟨fun hm => (hheld handler hm).elim hnot hnone, hnew (h.ended call hcall') hearlier hnone⟩

omit [DecidableEq ν] in
/-- A call goes on, without having taken the handlers out. -/
theorem Silent.goto (h : s.Silent) {call : DestroyCall κ} (hcall : call ∈ s.calls)
    {stage : DestroyStage} (hstage : stage ≠ .unregistered) : (s.goto call stage).Silent := by
  refine h.of_step rfl rfl (Nat.le_refl _) (fun other hother => ?_) (fun _ => .inl) (fun _ => .inl)
  rcases List.mem_cons.1 hother with rfl | hother
  · exact .inr ⟨h.calls call hcall, fun heq => absurd heq hstage⟩
  · exact .inl (List.mem_of_mem_erase hother)

omit [DecidableEq ν] in
/-- A copy that waits is not late. -/
theorem Silent.run (h : s.Silent) {m : Events κ ν} (hm : m.Silent) (hended : m.ended = s.ended)
    {handler : EventHandler κ} (hheld : s.Held handler) : (m.run handler).Silent := by
  unfold Events.run
  rw [if_neg]
  · exact hm
  · rintro ⟨call, hcall, hearlier⟩
    exact (h.gone call (hended ▸ hcall) handler hearlier).1 hheld

omit [DecidableEq κ] [DecidableEq ν] in
/-- A step that leaves the tables and the calls. It holds less, or what was listed. -/
theorem Silent.of_held (h : s.Silent) {m : Events κ ν} (hlate : m.late = s.late)
    (hended : m.ended = s.ended) (hregistered : m.registered = s.registered)
    (hcalls : m.calls = s.calls) (hhandlers : m.handlers = s.handlers)
    (hheld : ∀ handler, m.Held handler → s.Held handler ∨ s.Listed handler) : m.Silent := by
  refine h.of_step hlate hended (Nat.le_of_eq hregistered.symm) (fun call hcall => .inl ?_) hheld
    fun handler hlisted => .inl ?_
  · exact hcalls ▸ hcall
  · obtain ⟨name, hname⟩ := hlisted
    exact ⟨name, hhandlers ▸ hname⟩

/-- A registration lists its own handler, and no other. -/
theorem Listed.of_register {object : κ} {name : ν} {handler : EventHandler κ}
    (hlisted : Listed { s with
      handlers := Function.update s.handlers object
        (Function.update (s.handlers object) name (some s.registered))
      registered := s.registered + 1 } handler) :
    s.Listed handler ∨ s.registered ≤ handler.number := by
  obtain ⟨name', hname⟩ := hlisted
  by_cases hobject : handler.object = object
  · by_cases hsame : name' = name
    · simp only [hobject, hsame, Function.update_self, Option.some.injEq] at hname
      exact .inr (Nat.le_of_eq hname)
    · simp only [hobject, Function.update_self, Function.update_of_ne hsame] at hname
      exact .inl ⟨name', hobject ▸ hname⟩
  · simp only [Function.update_of_ne hobject] at hname
    exact .inl ⟨name', hname⟩

omit [DecidableEq ν] in
/-- A call that takes handlers out takes out those of its object. -/
theorem Listed.of_unregister {call : DestroyCall κ} {handler : EventHandler κ}
    (hlisted : Listed (goto { s with
      handlers := Function.update s.handlers call.object fun _ => none } call .unregistered)
      handler) : handler.object ≠ call.object ∧ s.Listed handler := by
  obtain ⟨name, hname⟩ := hlisted
  by_cases hobject : handler.object = call.object
  · simp only [goto, hobject, Function.update_self] at hname
    cases hname
  · simp only [goto, Function.update_of_ne hobject] at hname
    exact ⟨hobject, name, hname⟩

omit [DecidableEq κ] [DecidableEq ν] in
theorem Held.of_copy {object : κ} {name : ν} {number : Nat} {handler : EventHandler κ}
    (hnumber : s.handlers object name = some number)
    (hheld : Held { s with copied := ⟨object, number⟩ :: s.copied } handler) :
    s.Held handler ∨ s.Listed handler := by
  rcases hheld with hcopied | hheld
  · rcases List.mem_cons.1 hcopied with rfl | hcopied
    · exact .inr ⟨name, hnumber⟩
    · exact .inl (.inl hcopied)
  · exact .inl (.inr hheld)

omit [DecidableEq ν] in
theorem Held.of_queue {handler other : EventHandler κ} (hcopied : handler ∈ s.copied)
    (hheld : Held { s with
      copied := s.copied.erase handler
      eventQueue := s.eventQueue ++ [handler] } other) : s.Held other := by
  rcases hheld with hother | hother | hother
  · exact .inl (List.mem_of_mem_erase hother)
  · rcases List.mem_append.1 hother with hother | hother
    · exact .inr (.inl hother)
    · rw [List.mem_singleton.1 hother]
      exact .inl hcopied
  · exact .inr (.inr hother)

omit [DecidableEq κ] [DecidableEq ν] in
theorem Held.of_take {handler other : EventHandler κ} {rest : List (EventHandler κ)}
    (hqueue : s.eventQueue = handler :: rest)
    (hheld : Held { s with task := some handler, eventQueue := rest } other) : s.Held other := by
  rcases hheld with hother | hother | hother
  · exact .inl hother
  · exact .inr (.inl (hqueue ▸ List.mem_cons_of_mem _ hother))
  · cases hother
    exact .inr (.inl (hqueue ▸ List.mem_cons_self))

omit [DecidableEq κ] [DecidableEq ν] in
theorem Held.of_task {handler : EventHandler κ} (hheld : Held { s with task := none } handler) :
    s.Held handler := by
  rcases hheld with hother | hother | hother
  · exact .inl hother
  · exact .inr (.inl hother)
  · cases hother

omit [DecidableEq κ] [DecidableEq ν] in
/-- A call begins, and has not taken the handlers out. -/
theorem Silent.begin (h : s.Silent) (object : κ) {stage : DestroyStage}
    (hstage : stage ≠ .unregistered) :
    Silent { s with calls := ⟨object, s.registered, stage⟩ :: s.calls } := by
  refine h.of_step rfl rfl (Nat.le_refl _) (fun call hcall => ?_) (fun _ => .inl) (fun _ => .inl)
  rcases List.mem_cons.1 hcall with rfl | hcall
  · exact .inr ⟨Nat.le_refl _, fun heq => absurd heq hstage⟩
  · exact .inl hcall

omit [DecidableEq ν] in
/-- A call ends, and nothing is left of the earlier handlers. -/
theorem Silent.finish (h : s.Silent) {call : DestroyCall κ} (hcall : call ∈ s.calls)
    (hstage : call.stage = .unregistered ∨ call.stage = .failed)
    (hdrained : ∀ handler, Earlier call handler →
      ¬ s.Held handler ∧ (call.stage = .failed → ¬ s.Listed handler)) :
    Silent { s with calls := s.calls.erase call, ended := call :: s.ended } where
  late := h.late
  calls other hother := h.calls other (List.mem_of_mem_erase hother)
  ended other hother := by
    rcases List.mem_cons.1 hother with rfl | hother
    · exact h.calls other hcall
    · exact h.ended other hother
  unregistered other hother := h.unregistered other (List.mem_of_mem_erase hother)
  gone other hother handler hearlier := by
    rcases List.mem_cons.1 hother with rfl | hother
    · obtain ⟨hnot, hfailed⟩ := hdrained handler hearlier
      refine ⟨hnot, ?_⟩
      rcases hstage with hstage | hstage
      · exact h.unregistered other hcall hstage handler hearlier
      · exact hfailed hstage
    · exact h.gone other hother handler hearlier

theorem Silent.step (h : s.Silent) {a : EventsAction κ ν} (hdrained : s.Drained a)
    (hstep : step backend s a = some s') : s'.Silent := by
  cases a with
  | register object name =>
    cases hstep
    exact h.of_step rfl rfl (Nat.le_succ _) (fun _ => .inl) (fun _ => .inl)
      fun handler hlisted => hlisted.of_register
  | copy object name =>
    simp only [Events.step] at hstep
    split at hstep
    · rename_i number hnumber
      cases hstep
      exact h.of_held rfl rfl rfl rfl rfl fun handler hheld => hheld.of_copy hnumber
    · cases hstep
      exact h
  | queue handler =>
    simp only [Events.step] at hstep
    split at hstep
    · rename_i hcopied
      cases hstep
      exact h.of_held rfl rfl rfl rfl rfl fun other hheld => .inl (hheld.of_queue hcopied.2)
    · cases hstep
  | take =>
    simp only [Events.step] at hstep
    split at hstep
    · rename_i handler rest htask hqueue
      cases hstep
      exact h.of_held rfl rfl rfl rfl rfl fun other hheld => .inl (hheld.of_take hqueue)
    · cases hstep
  | start handler =>
    simp only [Events.step] at hstep
    split at hstep
    · split at hstep
      · rename_i htask
        cases hstep
        have hm : Silent { s with task := none } :=
          h.of_held rfl rfl rfl rfl rfl fun other hheld => .inl hheld.of_task
        exact h.run hm rfl (.inr (.inr htask))
      · cases hstep
    · split at hstep
      · rename_i hcopied
        cases hstep
        have hm : Silent { s with copied := s.copied.erase handler } :=
          h.of_held rfl rfl rfl rfl rfl fun other hheld =>
            .inl (hheld.imp_left List.mem_of_mem_erase)
        exact h.run hm rfl (.inl hcopied)
      · cases hstep
  | instantiate object =>
    cases hstep
    exact h.of_held rfl rfl rfl rfl rfl fun _ => .inl
  | stopWorker =>
    cases hstep
    exact h.of_held rfl rfl rfl rfl rfl fun _ => .inl
  | destroyObject object =>
    cases hstep
    refine h.begin object fun hstage => ?_
    split at hstage <;> cases hstage
  | hook call throws =>
    simp only [Events.step] at hstep
    split at hstep
    · rename_i hcall
      cases hstep
      exact h.goto hcall.1 (by cases throws <;> decide)
    · cases hstep
  | abandon call =>
    simp only [Events.step] at hstep
    split at hstep
    · rename_i hcall
      cases hstep
      exact h.goto hcall.2.2.1 (by decide)
    · cases hstep
  | erase call =>
    simp only [Events.step] at hstep
    split at hstep
    · rename_i hcall
      split at hstep
      · cases hstep
        have hm : Silent { s with objects := Function.update s.objects call.object false } :=
          h.of_held rfl rfl rfl rfl rfl fun _ => .inl
        exact hm.goto hcall.2.1 (by decide)
      · cases hstep
        exact h.goto hcall.2.1 (by decide)
    · cases hstep
  | unregister call =>
    simp only [Events.step] at hstep
    split at hstep
    · rename_i hcall
      cases hstep
      refine h.of_step rfl rfl (Nat.le_refl _) (fun other hother => ?_) (fun _ => .inl)
        fun _ hm => .inl hm.of_unregister.2
      rcases List.mem_cons.1 hother with rfl | hother
      · exact .inr ⟨h.calls call hcall.1, fun _ _ hearlier hm => hm.of_unregister.1 hearlier.1⟩
      · exact .inl (List.mem_of_mem_erase hother)
    · cases hstep
  | finish call =>
    simp only [Events.step] at hstep
    split at hstep
    · rename_i hcall
      cases hstep
      exact h.finish hcall.1 hcall.2 hdrained
    · cases hstep

end

end Events

section

variable {κ ν : Type} [DecidableEq κ] [DecidableEq ν]

/-- In a run whose calls end with nothing left of the earlier handlers none of these starts
later. -/
theorem drained_silent {backend : ProxyBackend} {s : Events κ ν} (actions : List (EventsAction κ ν))
    (hdrained : Machine.Each (Events.step backend) Events.Drained {} actions)
    (hrun : Machine.run (Events.step backend) {} actions = some s) : s.late = [] :=
  (Machine.run_invariant_of_each (fun _ _ _ h hdrained hstep => Events.Silent.step h hdrained hstep)
    Events.silent_init hdrained hrun).late

end

/-- An event of object 7 is handled before the object is destroyed. -/
def handledInTime : List (EventsAction Nat Nat) :=
  [.register 7 1, .copy 7 1, .queue ⟨7, 0⟩, .take, .start ⟨7, 0⟩, .destroyObject 7,
    .hook ⟨7, 1, .called⟩ false, .unregister ⟨7, 1, .hooked⟩, .finish ⟨7, 1, .unregistered⟩]

theorem drained_silent_one : ∃ s, Machine.run (Events.step .client) {} handledInTime = some s ∧
    s.late = [] ∧ s.ended.length = 1 := by
  have hdrained : Machine.Each (Events.step .client) Events.Drained {} handledInTime := by
    iterate 8 refine (Machine.each_cons rfl).2 ⟨trivial, ?_⟩
    refine (Machine.each_cons rfl).2 ⟨fun handler _ => ⟨?_, nofun⟩, trivial⟩
    rintro (hcopied | hqueued | htask)
    · cases hcopied
    · cases hqueued
    · cases htask
  exact ⟨_, rfl, drained_silent handledInTime hdrained rfl, rfl⟩

/-- The handler waits in the queue of the client when its object is destroyed. -/
def queuedEvent : List (EventsAction Nat Nat) :=
  [.register 7 1, .copy 7 1, .queue ⟨7, 0⟩, .destroyObject 7, .hook ⟨7, 1, .called⟩ false,
    .unregister ⟨7, 1, .hooked⟩, .finish ⟨7, 1, .unregistered⟩, .take, .start ⟨7, 0⟩]

/-- `destroy_object` throws since the worker of the standalone backend is stopped. -/
def refusedDestroy : List (EventsAction Nat Nat) :=
  [.register 7 1, .stopWorker, .destroyObject 7, .finish ⟨7, 1, .failed⟩, .copy 7 1, .start ⟨7, 0⟩]

/-- In both backends a handler starts behind the destruction of its object. -/
theorem late_events :
    (¬ ∀ (actions : List (EventsAction Nat Nat)) s,
      Machine.run (Events.step .client) {} actions = some s → s.late = []) ∧
    ¬ ∀ (actions : List (EventsAction Nat Nat)) s,
      Machine.run (Events.step .standalone) {} actions = some s → s.late = [] := by
  constructor
  · intro h
    exact absurd (h queuedEvent _ rfl) (by decide)
  · intro h
    exact absurd (h refusedDestroy _ rfl) (by decide)

end Bison
