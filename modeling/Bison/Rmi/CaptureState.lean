import Bison.Lib.Machine
import Mathlib.Logic.Function.Basic

/-!
# Starting and stopping a capture

`set_capture_active` starts and stops the flush thread of a recorder, and flushes once more on
the thread that stops it (profiling.hpp:181-189, 302-335). A flush hands its batch to
`flush_sink`, which may call `set_capture_active` in turn: that of the client reports what the
server says (profiler_client.cpp:22). Recorder.lean has the events of a flush; here a thread has a
stack of calls.

- `Capture.step`: one step of one thread.
- `Capture.Consistent`: no thread is joined by itself or assigned over, one thread flushes at a
  time, and the flag says whether a flush thread runs.
- `serial_consistent`: **main result**, in a run whose calls do not overlap or nest, do not stop the
  thread they are made on and do not flush beside a flush, every state is consistent.
- `stop_restarts`: the last flush learns that the server is still capturing.
-/

namespace Bison.Profiling

/-- A thread that uses the recorder, or the flush thread that was started as number `k`. -/
inductive Party where
  | caller (n : Nat)
  | flusher (k : Nat)
  deriving Repr, DecidableEq

/-- Where a call is, in `set_capture_active` and what it calls. -/
inductive Frame where
  -- set_capture_active, behind its test
  | storing (active : Bool)
  -- start_flush_thread and stop_flush_thread
  | starting
  | spawning
  | stopping
  | joining
  -- flush_loop, at its test and in wait_for
  | testing
  | waiting
  -- flush_once, before the buffer is taken and in flush_sink
  | taking
  | sinking
  deriving Repr, DecidableEq

/-- What a thread cannot survive. -/
inductive ThreadFault where
  | joinedItself
  | assignedOver
  deriving Repr, DecidableEq

/-- A recorder and the threads in it. `handle` is the thread that `flush_thread_` holds, while it is
joinable, and `buffer` counts the events that are buffered. -/
structure Capture where
  captureActive : Bool := false
  stopping : Bool := false
  buffer : Nat := 0
  handle : Option Nat := none
  spawned : Nat := 0
  calls : Party → List Frame := fun _ => []
  fault : Option ThreadFault := none

/-- An event is buffered, a thread calls `set_capture_active`, or it takes its next step. -/
inductive CaptureAction where
  | push
  | setCaptureActive (p : Party) (active : Bool)
  | advance (p : Party)
  deriving Repr, DecidableEq

namespace Capture

/-- The calls of the thread are `stack` from now on. -/
def goto (s : Capture) (p : Party) (stack : List Frame) : Capture :=
  { s with calls := Function.update s.calls p stack }

/-- What comes behind the store of `set_capture_active`. -/
def afterStore (active : Bool) : List Frame := if active then [.starting] else [.taking, .stopping]

/-- The next step of a thread, in its innermost call. -/
def advance (s : Capture) (p : Party) : Option Capture :=
  match s.calls p with
  | [] => none
  | .storing active :: rest =>
    some ({ s with captureActive := active }.goto p (afterStore active ++ rest))
  | .starting :: rest => some ({ s with stopping := false }.goto p (.spawning :: rest))
  | .spawning :: rest =>
    match s.handle with
    | some _ => some { s with fault := some .assignedOver }
    | none =>
      some (({ s with handle := some s.spawned, spawned := s.spawned + 1 }.goto p rest).goto
        (.flusher s.spawned) [.testing])
  | .stopping :: rest => some ({ s with stopping := true }.goto p (.joining :: rest))
  | .joining :: rest =>
    match s.handle with
    | none => some (s.goto p rest)
    | some k =>
      if p = .flusher k then some { s with fault := some .joinedItself }
      else if s.calls (.flusher k) = [] then some ({ s with handle := none }.goto p rest)
      else none
  | .testing :: rest => some (s.goto p (if s.stopping then rest else .waiting :: rest))
  -- it flushes also when the wait ends because it is told to stop
  | .waiting :: rest => some (s.goto p (.taking :: .testing :: rest))
  | .taking :: rest =>
    if s.buffer = 0 then some (s.goto p rest)
    else some ({ s with buffer := 0 }.goto p (.sinking :: rest))
  -- flush_sink returns
  | .sinking :: rest => some (s.goto p rest)

/-- The thread may call the recorder: from outside, or in its `flush_sink`. -/
def Outside (s : Capture) (p : Party) : Prop :=
  match s.calls p with
  | [] => ∃ n, p = .caller n
  | frame :: _ => frame = .sinking

instance (s : Capture) (p : Party) : Decidable (s.Outside p) := by
  unfold Outside
  split
  · cases p with
    | caller n => exact .isTrue ⟨n, rfl⟩
    | flusher k => exact .isFalse fun ⟨_, h⟩ => nomatch h
  · infer_instance

/-- One step. -/
def step (s : Capture) : CaptureAction → Option Capture
  | .push => some { s with buffer := s.buffer + 1 }
  | .setCaptureActive p active =>
    if s.fault = none ∧ s.Outside p then
      some (if active = s.captureActive then s else s.goto p (.storing active :: s.calls p))
    else none
  | .advance p => if s.fault = none then s.advance p else none

/-- The thread is in `flush_once`. -/
def Flushing (s : Capture) (p : Party) : Prop := .taking ∈ s.calls p ∨ .sinking ∈ s.calls p

/-- A call has stored the flag, and not told the flush thread yet. -/
def Carrying (s : Capture) (p : Party) : Prop :=
  .starting ∈ s.calls p ∨ .spawning ∈ s.calls p ∨ .stopping ∈ s.calls p

/-- Some flush thread runs. -/
def Running (s : Capture) : Prop := ∃ k, s.calls (.flusher k) ≠ []

/-- What the threads of a recorder are meant to do. -/
structure Consistent (s : Capture) : Prop where
  fault : s.fault = none
  alone : ∀ p q, s.Flushing p → s.Flushing q → p = q
  flag : (∀ p, ¬ s.Carrying p) → (s.captureActive = true ↔ s.Running ∧ s.stopping = false)

/-- The thread is in a call of `set_capture_active` that changes the state. -/
def Changing (s : Capture) (p : Party) : Prop :=
  ∃ frame ∈ s.calls p, frame ∉ [.testing, .waiting, .taking, .sinking]

/-- The condition on a step of a run. -/
def Serial (s : Capture) : CaptureAction → Prop
  | .push => True
  -- a call that changes the state does so alone, and does not stop its own thread
  | .setCaptureActive p active => active ≠ s.captureActive →
    (∀ q, ¬ s.Changing q) ∧ ∀ k, p = .flusher k → active = true
  -- a flush begins when no other is in progress
  | .advance p =>
    (s.calls p).head? = some (.storing false) ∨ (s.calls p).head? = some .waiting →
      ∀ q, q ≠ p → ¬ s.Flushing q

variable {s s' : Capture}

/-- The step is one to which the condition does not apply. -/
def Plain (s : Capture) : CaptureAction → Prop
  | .push => True
  | .setCaptureActive _ active => active = s.captureActive
  | .advance p => (s.calls p).head? ∉ [some (.storing false), some .waiting]

instance (s : Capture) : DecidablePred s.Plain
  | .push => inferInstanceAs (Decidable True)
  | .setCaptureActive _ active => inferInstanceAs (Decidable (active = s.captureActive))
  | .advance p =>
    inferInstanceAs (Decidable ((s.calls p).head? ∉ [some (.storing false), some .waiting]))

theorem Plain.serial {a : CaptureAction} (h : s.Plain a) : s.Serial a := by
  cases a with
  | push => exact trivial
  | setCaptureActive p active => exact fun hchanges => absurd h hchanges
  | advance p =>
    refine fun hbegins => absurd hbegins ?_
    simpa [Plain] using h

theorem goto_self (p : Party) (stack : List Frame) : (s.goto p stack).calls p = stack :=
  Function.update_self ..

theorem goto_other {p q : Party} (h : q ≠ p) (stack : List Frame) :
    (s.goto p stack).calls q = s.calls q :=
  Function.update_of_ne h ..

/-! ## The one call in progress -/

/-- How far a call of `set_capture_active` is. -/
inductive Stage where
  | storing (active : Bool)
  | starting
  | spawning
  | taking
  | sinking
  | stopping
  | joining
  deriving DecidableEq

/-- The calls on the stack of its thread. -/
def Stage.frames : Stage → List Frame
  | storing active => [.storing active]
  | starting => [.starting]
  | spawning => [.spawning]
  | taking => [.taking, .stopping]
  | sinking => [.sinking, .stopping]
  | stopping => [.stopping]
  | joining => [.joining]

/-- The stack of a thread that uses the recorder, given the call in progress. -/
def callerStack (busy : Option (Nat × Stage)) (n : Nat) : List Frame :=
  match busy with
  | some (m, stage) => if n = m then stage.frames else []
  | none => []

theorem callerStack_self (n : Nat) (stage : Stage) :
    callerStack (some (n, stage)) n = stage.frames := if_pos rfl

theorem callerStack_other {n m : Nat} (h : n ≠ m) (stage : Stage) :
    callerStack (some (m, stage)) n = [] := if_neg h

/-- The calls of a flush thread. -/
inductive FlusherStack : List Frame → Prop where
  | finished : FlusherStack []
  | testing : FlusherStack [.testing]
  | waiting : FlusherStack [.waiting]
  | taking : FlusherStack [.taking, .testing]
  | sinking : FlusherStack [.sinking, .testing]

/-- The flush thread runs and is not told to stop. -/
def Alive (s : Capture) : Prop :=
  s.stopping = false ∧ ∃ k, s.handle = some k ∧ s.calls (.flusher k) ≠ []

/-- The flags, by the stage of the call in progress. -/
def Fits (s : Capture) : Option Stage → Prop
  | none => s.captureActive = false ∧ s.handle = none ∨ s.captureActive = true ∧ s.Alive
  | some (.storing true) => s.captureActive = false ∧ s.handle = none
  | some (.storing false) => s.captureActive = true ∧ s.Alive
  | some .starting => s.captureActive = true ∧ s.handle = none
  | some .spawning => s.captureActive = true ∧ s.handle = none ∧ s.stopping = false
  | some .taking | some .sinking | some .stopping => s.captureActive = false ∧ s.Alive
  | some .joining => s.captureActive = false ∧ s.stopping = true ∧ s.handle.isSome

/-- What every serial step keeps. -/
structure Sound (s : Capture) (busy : Option (Nat × Stage)) : Prop where
  fault : s.fault = none
  callers : ∀ n, s.calls (.caller n) = callerStack busy n
  flushers : ∀ k, FlusherStack (s.calls (.flusher k))
  held : ∀ k, s.calls (.flusher k) ≠ [] → s.handle = some k
  fits : s.Fits (busy.map Prod.snd)
  apart : ∀ n stage, busy = some (n, stage) → stage = .taking ∨ stage = .sinking →
    ∀ k, ¬ s.Flushing (.flusher k)

theorem sound_init : Sound {} none where
  fault := rfl
  callers := fun _ => rfl
  flushers := fun _ => .finished
  held := fun _ h => absurd rfl h
  fits := .inl ⟨rfl, rfl⟩
  apart := nofun

variable {busy : Option (Nat × Stage)} {n : Nat} {stage : Stage}

/-- The flags and which flush threads run are the same. -/
structure SameFlags (s s' : Capture) : Prop where
  captureActive : s'.captureActive = s.captureActive
  stopping : s'.stopping = s.stopping
  handle : s'.handle = s.handle
  runs : ∀ k, s'.calls (.flusher k) ≠ [] ↔ s.calls (.flusher k) ≠ []

theorem SameFlags.alive (h : s.SameFlags s') (halive : s.Alive) : s'.Alive := by
  obtain ⟨hstopping, k, hhandle, hruns⟩ := halive
  exact ⟨h.stopping.trans hstopping, k, h.handle.trans hhandle, (h.runs k).2 hruns⟩

theorem SameFlags.fits (h : s.SameFlags s') {stage : Option Stage} (hfits : s.Fits stage) :
    s'.Fits stage := by
  rcases stage with _ | ⟨_ | _⟩ | _ | _ | _ | _ | _ | _
  all_goals
    simp only [Fits, h.captureActive, h.stopping, h.handle] at hfits ⊢
    first
      | exact hfits
      | exact ⟨hfits.1, h.alive hfits.2⟩
      | exact hfits.imp_right fun hruns => ⟨hruns.1, h.alive hruns.2⟩

/-- The thread of the call in progress takes a step. -/
theorem Sound.caller (h : s.Sound busy) {n : Nat} {m : Capture} {stack : List Frame}
    {busy' : Option (Nat × Stage)} (hcalls : m.calls = s.calls) (hfault : m.fault = none)
    (hself : callerStack busy' n = stack)
    (hother : ∀ n', n' ≠ n → callerStack busy' n' = callerStack busy n')
    (hheld : ∀ k, s.calls (.flusher k) ≠ [] → m.handle = some k)
    (hfits : (m.goto (.caller n) stack).Fits (busy'.map Prod.snd))
    (hapart : ∀ n' stage, busy' = some (n', stage) → stage = .taking ∨ stage = .sinking →
      ∀ k, ¬ s.Flushing (.flusher k)) : (m.goto (.caller n) stack).Sound busy' := by
  have hflusher (k : Nat) : (m.goto (.caller n) stack).calls (.flusher k) =
      s.calls (.flusher k) := by
    rw [goto_other Party.noConfusion, hcalls]
  refine ⟨hfault, fun n' => ?_, fun k => ?_, fun k hk => ?_, hfits,
    fun n' stage hbusy hstage k => ?_⟩
  · by_cases heq : n' = n
    · rw [heq, goto_self, hself]
    · rw [goto_other fun hparty => heq (Party.caller.inj hparty), hcalls, h.callers,
        hother n' heq]
  · rw [hflusher]
    exact h.flushers k
  · rw [hflusher] at hk
    exact hheld k hk
  · unfold Flushing
    rw [hflusher]
    exact hapart n' stage hbusy hstage k

/-- A flush thread takes a step and still runs. -/
theorem Sound.flusher (h : s.Sound busy) {k : Nat} {m : Capture} {stack : List Frame}
    (hflags : s.SameFlags m) (hcalls : m.calls = s.calls) (hfault : m.fault = none)
    (hstack : FlusherStack stack) (hne : stack ≠ []) (hruns : s.calls (.flusher k) ≠ [])
    (hapart : .taking ∈ stack ∨ .sinking ∈ stack → ∀ n stage, busy = some (n, stage) →
      stage = .taking ∨ stage = .sinking → False) :
    (m.goto (.flusher k) stack).Sound busy := by
  have hflusher {k' : Nat} (hk : k' ≠ k) : (m.goto (.flusher k) stack).calls (.flusher k') =
      s.calls (.flusher k') := by
    rw [goto_other fun hparty => hk (Party.flusher.inj hparty), hcalls]
  have hsame : s.SameFlags (m.goto (.flusher k) stack) := by
    refine ⟨hflags.captureActive, hflags.stopping, hflags.handle, fun k' => ?_⟩
    by_cases heq : k' = k
    · rw [heq, goto_self]
      exact ⟨fun _ => hruns, fun _ => hne⟩
    · rw [hflusher heq]
  refine ⟨hfault, fun n => ?_, fun k' => ?_, fun k' hk' => ?_, hsame.fits h.fits,
    fun n stage hbusy hstage k' => ?_⟩
  · rw [goto_other Party.noConfusion, hcalls, h.callers]
  · by_cases heq : k' = k
    · rw [heq, goto_self]
      exact hstack
    · rw [hflusher heq]
      exact h.flushers k'
  · exact hflags.handle.trans (h.held k' ((hsame.runs k').1 hk'))
  · unfold Flushing
    by_cases heq : k' = k
    · rw [heq, goto_self]
      exact fun hflush => hapart hflush n stage hbusy hstage
    · rw [hflusher heq]
      exact h.apart n stage hbusy hstage k'

/-- A call is in progress. -/
theorem Sound.changing (h : s.Sound (some (n, stage))) : s.Changing (.caller n) := by
  unfold Changing
  rw [h.callers, callerStack_self]
  cases stage
  case taking | sinking =>
    exact ⟨.stopping, by simp [Stage.frames], by decide⟩
  all_goals exact ⟨_, List.mem_singleton_self _, by simp⟩

theorem Sound.setCaptureActive (h : s.Sound busy) {p : Party} {active : Bool}
    (hserial : s.Serial (.setCaptureActive p active)) (houtside : s.Outside p)
    (hchanges : active ≠ s.captureActive) :
    ∃ busy', (s.goto p (.storing active :: s.calls p)).Sound busy' := by
  obtain ⟨halone, hown⟩ := hserial hchanges
  have hidle : busy = none := by
    rcases busy with _ | ⟨n, stage⟩
    · rfl
    · exact (halone _ h.changing).elim
  subst hidle
  cases p with
  | caller n =>
    have hempty : s.calls (.caller n) = [] := h.callers n
    rw [hempty]
    refine ⟨some (n, .storing active), h.caller rfl h.fault (callerStack_self ..)
      (fun n' hne => callerStack_other hne _) h.held ?_ fun n' stage hbusy hstage => ?_⟩
    · have hsame : s.SameFlags (s.goto (.caller n) [.storing active]) :=
        ⟨rfl, rfl, rfl, fun k => by rw [goto_other Party.noConfusion]⟩
      rcases h.fits with ⟨hactive, hhandle⟩ | ⟨hactive, halive⟩
      · obtain rfl : active = true := by
          rw [hactive] at hchanges
          exact Bool.ne_false_iff.1 hchanges
        exact ⟨hactive, hhandle⟩
      · obtain rfl : active = false := by
          rw [hactive] at hchanges
          exact Bool.eq_false_iff.2 hchanges
        exact ⟨hactive, hsame.alive halive⟩
    · cases hbusy
      rcases hstage with hstage | hstage <;> cases hstage
  | flusher k =>
    -- the flag is unset while a flush thread runs
    have hruns : s.calls (.flusher k) ≠ [] := by
      intro hempty
      unfold Outside at houtside
      rw [hempty] at houtside
      obtain ⟨n, hn⟩ := houtside
      cases hn
    have hactive := hown k rfl
    rcases h.fits with ⟨-, hhandle⟩ | ⟨hcapture, -⟩
    · rw [h.held k hruns] at hhandle
      cases hhandle
    · exact (hchanges (hactive.trans hcapture.symm)).elim

/-- The thread of the call goes from one stage to the next. -/
theorem Sound.next (h : s.Sound (some (n, stage))) (stage' : Stage) {m : Capture}
    (hcalls : m.calls = s.calls) (hfault : m.fault = none)
    (hheld : ∀ k, s.calls (.flusher k) ≠ [] → m.handle = some k)
    (hfits : (m.goto (.caller n) stage'.frames).Fits (some stage'))
    (hapart : stage' = .taking ∨ stage' = .sinking → ∀ k, ¬ s.Flushing (.flusher k)) :
    ∃ busy', (m.goto (.caller n) stage'.frames).Sound busy' := by
  refine ⟨some (n, stage'), h.caller hcalls hfault (callerStack_self ..) (fun n' hne => ?_) hheld
    hfits fun n' stage hbusy hstage => ?_⟩
  · rw [callerStack_other hne, callerStack_other hne]
  · cases hbusy
    exact hapart hstage

theorem SameFlags.caller {m : Capture} (hflags : s.SameFlags m) (n : Nat) (stack : List Frame) :
    s.SameFlags (m.goto (.caller n) stack) := by
  refine ⟨hflags.captureActive, hflags.stopping, hflags.handle, fun k => ?_⟩
  rw [goto_other Party.noConfusion]
  exact hflags.runs k

/-- The call returns. -/
theorem Sound.return (h : s.Sound (some (n, stage))) {m : Capture}
    (hcalls : m.calls = s.calls) (hfault : m.fault = none)
    (hheld : ∀ k, s.calls (.flusher k) ≠ [] → m.handle = some k)
    (hfits : (m.goto (.caller n) []).Fits none) :
    ∃ busy', (m.goto (.caller n) []).Sound busy' := by
  refine ⟨none, h.caller hcalls hfault rfl (fun n' hne => ?_) hheld hfits nofun⟩
  rw [callerStack_other hne]
  rfl

theorem SameFlags.refl (s : Capture) : s.SameFlags s := ⟨rfl, rfl, rfl, fun _ => Iff.rfl⟩

/-- The flush thread starts. No other one runs. -/
theorem Sound.spawn (h : s.Sound (some (n, .spawning))) :
    Sound ((Capture.goto { s with handle := some s.spawned, spawned := s.spawned + 1 }
      (.caller n) []).goto (.flusher s.spawned) [.testing]) none := by
  have hfits := h.fits
  have hnone : s.handle = none := hfits.2.1
  -- no flush thread runs
  have hfinished (k : Nat) : s.calls (.flusher k) = [] := by
    by_contra hruns
    have hheld := h.held k hruns
    rw [hnone] at hheld
    cases hheld
  have hflusher (k : Nat) : ((Capture.goto { s with
      handle := some s.spawned, spawned := s.spawned + 1 } (.caller n) []).goto
      (.flusher s.spawned) [.testing]).calls (.flusher k) =
      if k = s.spawned then [.testing] else [] := by
    by_cases heq : k = s.spawned
    · rw [heq, goto_self, if_pos rfl]
    · rw [goto_other fun hparty => heq (Party.flusher.inj hparty), if_neg heq,
        goto_other Party.noConfusion]
      exact hfinished k
  refine ⟨h.fault, fun n' => ?_, fun k => ?_, fun k hk => ?_, .inr ⟨hfits.1, hfits.2.2,
    s.spawned, rfl, ?_⟩, nofun⟩
  · rw [goto_other Party.noConfusion]
    by_cases heq : n' = n
    · rw [heq, goto_self]
      rfl
    · rw [goto_other fun hparty => heq (Party.caller.inj hparty)]
      exact (h.callers n').trans (callerStack_other heq _)
  · rw [hflusher]
    split
    · exact .testing
    · exact .finished
  · rw [hflusher] at hk
    by_cases heq : k = s.spawned
    · rw [heq]
      rfl
    · rw [if_neg heq] at hk
      exact absurd rfl hk
  · rw [hflusher, if_pos rfl]
    exact List.cons_ne_nil _ _

/-- One step of the call in progress. -/
theorem Sound.advance_caller (h : s.Sound (some (n, stage)))
    (hserial : s.Serial (.advance (.caller n))) (hstep : s.advance (.caller n) = some s') :
    ∃ busy', s'.Sound busy' := by
  have hstack : s.calls (.caller n) = stage.frames := by rw [h.callers, callerStack_self]
  have hsame (stack : List Frame) : s.SameFlags (s.goto (.caller n) stack) :=
    (SameFlags.refl s).caller n stack
  unfold Capture.advance at hstep
  simp only [Serial] at hserial
  rw [hstack] at hstep hserial
  have hfits := h.fits
  cases stage with
  | storing active =>
    cases hstep
    cases active with
    | true =>
      exact h.next .starting rfl h.fault h.held ⟨rfl, hfits.2⟩ (fun hstage => by simp at hstage)
    | false =>
      have halive : (Capture.goto { s with captureActive := false } (.caller n)
          [.taking, .stopping]).Alive := (hsame [.taking, .stopping]).alive hfits.2
      exact h.next .taking rfl h.fault h.held ⟨rfl, halive⟩
        fun _ k => hserial (.inl rfl) (.flusher k) Party.noConfusion
  | starting =>
    cases hstep
    exact h.next .spawning rfl h.fault h.held ⟨hfits.1, hfits.2, rfl⟩
      (fun hstage => by simp at hstage)
  | spawning =>
    have hnone : s.handle = none := hfits.2.1
    simp only [Stage.frames, hnone, Option.some.injEq] at hstep
    subst hstep
    exact ⟨none, h.spawn⟩
  | taking =>
    simp only [Stage.frames] at hstep
    have hapart := h.apart n .taking rfl (.inl rfl)
    split at hstep
    · cases hstep
      exact h.next .stopping rfl h.fault h.held ⟨hfits.1, (hsame _).alive hfits.2⟩
        (fun hstage => by simp at hstage)
    · cases hstep
      have halive : (Capture.goto { s with buffer := 0 } (.caller n)
          [.sinking, .stopping]).Alive := (hsame [.sinking, .stopping]).alive hfits.2
      exact h.next .sinking rfl h.fault h.held ⟨hfits.1, halive⟩ fun _ => hapart
  | sinking =>
    cases hstep
    exact h.next .stopping rfl h.fault h.held ⟨hfits.1, (hsame _).alive hfits.2⟩
      (fun hstage => by simp at hstage)
  | stopping =>
    cases hstep
    obtain ⟨hactive, -, k, hhandle, -⟩ := hfits
    refine h.next .joining rfl h.fault h.held ⟨hactive, rfl, ?_⟩ (fun hstage => by simp at hstage)
    exact Option.isSome_iff_exists.2 ⟨k, hhandle⟩
  | joining =>
    obtain ⟨hactive, hstopping, hsome⟩ := hfits
    obtain ⟨k, hhandle⟩ := Option.isSome_iff_exists.1 hsome
    simp only [Stage.frames, hhandle, reduceCtorEq, if_false] at hstep
    split at hstep
    · rename_i hfinished
      cases hstep
      refine h.return rfl h.fault (fun k' hruns => ?_) (.inl ⟨hactive, rfl⟩)
      -- the thread that is joined was the only one
      have hheld := h.held k' hruns
      rw [hhandle] at hheld
      cases hheld
      exact absurd hfinished hruns
    · cases hstep

/-- One step of a flush thread. -/
theorem Sound.advance_flusher (h : s.Sound busy) {k : Nat}
    (hserial : s.Serial (.advance (.flusher k))) (hstep : s.advance (.flusher k) = some s') :
    s'.Sound busy := by
  have hbusy {stack : List Frame} (hstack : s.calls (.flusher k) = stack) (n : Nat)
      (stage : Stage) (heq : busy = some (n, stage)) (hstage : stage = .taking ∨ stage = .sinking) :
      ¬ (.taking ∈ stack ∨ .sinking ∈ stack) := hstack ▸ h.apart n stage heq hstage k
  unfold Capture.advance at hstep
  simp only [Serial] at hserial
  generalize hstack : s.calls (.flusher k) = stack at hstep hserial
  have hshape := hstack ▸ h.flushers k
  cases hshape with
  | finished => cases hstep
  | testing =>
    cases hstep
    have hruns : s.calls (.flusher k) ≠ [] := by simp [hstack]
    by_cases hstopping : s.stopping = true
    · rw [if_pos hstopping]
      -- the call in progress waits for it
      have hother {k' : Nat} (hne : k' ≠ k) :
          (s.goto (.flusher k) []).calls (.flusher k') = s.calls (.flusher k') :=
        goto_other (fun hparty => hne (Party.flusher.inj hparty)) _
      have hself : (s.goto (.flusher k) []).calls (.flusher k) = [] := goto_self ..
      have hdead : ¬ s.Alive := fun halive => by simp [halive.1] at hstopping
      refine ⟨h.fault, fun n => ?_, fun k' => ?_, fun k' hk' => ?_, ?_,
        fun n stage heq hstage k' => ?_⟩
      · rw [goto_other Party.noConfusion, h.callers]
      · by_cases heq : k' = k
        · rw [heq, hself]
          exact .finished
        · rw [hother heq]
          exact h.flushers k'
      · by_cases heq : k' = k
        · rw [heq, hself] at hk'
          exact absurd rfl hk'
        · rw [hother heq] at hk'
          exact h.held k' hk'
      · have hfits := h.fits
        generalize busy.map Prod.snd = stage at hfits ⊢
        rcases stage with _ | ⟨_ | _⟩ | _ | _ | _ | _ | _ | _
        case none => exact hfits.imp_right fun hruns => (hdead hruns.2).elim
        case some.storing.false | some.taking | some.sinking | some.stopping =>
          exact (hdead hfits.2).elim
        all_goals exact hfits
      · unfold Flushing
        by_cases heq' : k' = k
        · rw [heq', hself]
          simp
        · rw [hother heq']
          exact h.apart n stage heq hstage k'
    · rw [if_neg hstopping]
      exact h.flusher (.refl s) rfl h.fault .waiting (List.cons_ne_nil _ _) hruns
        fun hflush => by simp at hflush
  | waiting =>
    cases hstep
    have hruns : s.calls (.flusher k) ≠ [] := by simp [hstack]
    refine h.flusher (.refl s) rfl h.fault .taking (List.cons_ne_nil _ _) hruns
      fun _ n stage heq hstage => ?_
    -- it does not enter beside the caller
    refine hserial (.inr rfl) (.caller n) Party.noConfusion ?_
    unfold Flushing
    rw [h.callers, heq, callerStack_self]
    rcases hstage with rfl | rfl <;> simp [Stage.frames]
  | taking =>
    have hruns : s.calls (.flusher k) ≠ [] := by simp [hstack]
    have hapart (n : Nat) (stage : Stage) (heq : busy = some (n, stage))
        (hstage : stage = .taking ∨ stage = .sinking) : False :=
      hbusy hstack n stage heq hstage (by simp)
    simp only at hstep
    split at hstep
    · cases hstep
      exact h.flusher (.refl s) rfl h.fault .testing (List.cons_ne_nil _ _) hruns fun _ => hapart
    · cases hstep
      exact h.flusher (m := { s with buffer := 0 }) ⟨rfl, rfl, rfl, fun _ => Iff.rfl⟩ rfl h.fault
        .sinking (List.cons_ne_nil _ _) hruns fun _ => hapart
  | sinking =>
    cases hstep
    have hruns : s.calls (.flusher k) ≠ [] := by simp [hstack]
    exact h.flusher (.refl s) rfl h.fault .testing (List.cons_ne_nil _ _) hruns
      fun _ n stage heq hstage => hbusy hstack n stage heq hstage (by simp)

theorem Sound.step (h : s.Sound busy) {a : CaptureAction} (hserial : s.Serial a)
    (hstep : s.step a = some s') : ∃ busy', s'.Sound busy' := by
  cases a with
  | push =>
    cases hstep
    have hsame : s.SameFlags { s with buffer := s.buffer + 1 } :=
      ⟨rfl, rfl, rfl, fun _ => Iff.rfl⟩
    exact ⟨busy, h.fault, h.callers, h.flushers, h.held, hsame.fits h.fits, h.apart⟩
  | setCaptureActive p active =>
    simp only [Capture.step] at hstep
    split at hstep
    · rename_i hcan
      by_cases hchanges : active = s.captureActive
      · rw [if_pos hchanges] at hstep
        cases hstep
        exact ⟨busy, h⟩
      · rw [if_neg hchanges] at hstep
        cases hstep
        exact h.setCaptureActive hserial hcan.2 hchanges
    · cases hstep
  | advance p =>
    simp only [Capture.step, h.fault, if_true] at hstep
    cases p with
    | flusher k => exact ⟨busy, h.advance_flusher hserial hstep⟩
    | caller n =>
      by_cases hhere : ∃ stage, busy = some (n, stage)
      · obtain ⟨stage, rfl⟩ := hhere
        exact h.advance_caller hserial hstep
      · -- the thread is in no call
        have hempty : s.calls (.caller n) = [] := by
          rw [h.callers]
          rcases busy with _ | ⟨m, stage⟩
          · rfl
          · exact callerStack_other (fun heq => hhere ⟨stage, by rw [heq]⟩) _
        unfold Capture.advance at hstep
        rw [hempty] at hstep
        cases hstep

/-- A flush thread that runs is the one held. -/
theorem Sound.consistent (h : s.Sound busy) : s.Consistent := by
  have hcaller {n : Nat} (hflush : s.Flushing (.caller n)) :
      ∃ stage, busy = some (n, stage) ∧ (stage = .taking ∨ stage = .sinking) := by
    unfold Flushing at hflush
    rw [h.callers] at hflush
    rcases busy with _ | ⟨m, stage⟩
    · simp [callerStack] at hflush
    · by_cases heq : n = m
      · subst heq
        rw [callerStack_self] at hflush
        refine ⟨stage, rfl, ?_⟩
        cases stage <;> simp [Stage.frames] at hflush ⊢
      · rw [callerStack_other heq] at hflush
        simp at hflush
  have hflusher {k : Nat} (hflush : s.Flushing (.flusher k)) : s.handle = some k := by
    refine h.held k fun hempty => ?_
    unfold Flushing at hflush
    rw [hempty] at hflush
    simp at hflush
  refine ⟨h.fault, fun p q hp hq => ?_, fun hcarrying => ?_⟩
  · cases p with
    | caller n =>
      obtain ⟨stage, rfl, hstage⟩ := hcaller hp
      cases q with
      | caller m =>
        obtain ⟨stage', heq, -⟩ := hcaller hq
        cases heq
        rfl
      | flusher k => exact (h.apart n stage rfl hstage k hq).elim
    | flusher k =>
      cases q with
      | caller m =>
        obtain ⟨stage, rfl, hstage⟩ := hcaller hq
        exact (h.apart m stage rfl hstage k hp).elim
      | flusher k' =>
        have heq := (hflusher hp).symm.trans (hflusher hq)
        rw [Option.some.inj heq]
  · have hruns : s.Running ∧ s.stopping = false → s.Alive := by
      rintro ⟨⟨k, hk⟩, hstopping⟩
      exact ⟨hstopping, k, h.held k hk, hk⟩
    have halive : s.Alive → s.Running ∧ s.stopping = false :=
      fun ⟨hstopping, k, _, hk⟩ => ⟨⟨k, hk⟩, hstopping⟩
    have hdead : s.handle = none → ¬ s.Alive := by
      rintro hnone ⟨-, k, hhandle, -⟩
      rw [hnone] at hhandle
      cases hhandle
    have hiff : (s.captureActive = true ↔ s.Alive) →
        (s.captureActive = true ↔ s.Running ∧ s.stopping = false) :=
      fun hflag => hflag.trans ⟨halive, hruns⟩
    refine hiff ?_
    have hfits := h.fits
    rcases busy with _ | ⟨n, stage⟩
    · rcases hfits with ⟨hactive, hhandle⟩ | ⟨hactive, hon⟩
      · exact iff_of_false (by simp [hactive]) (hdead hhandle)
      · exact iff_of_true hactive hon
    · -- a stage in which the flag is ahead is excluded
      have hnot := hcarrying (.caller n)
      unfold Carrying at hnot
      rw [h.callers, callerStack_self] at hnot
      rcases stage with ⟨_ | _⟩ | _ | _ | _ | _ | _ | _
      case storing.false => exact iff_of_true hfits.1 hfits.2
      case storing.true => exact iff_of_false (by simp [hfits.1]) (hdead hfits.2)
      case joining =>
        refine iff_of_false (by simp [hfits.1]) fun hon => ?_
        exact Bool.noConfusion (hfits.2.1.symm.trans hon.1)
      all_goals simp [Stage.frames] at hnot

end Capture

/-- In a run of serial steps every state is consistent. -/
theorem serial_consistent {s : Capture} (actions : List CaptureAction)
    (hserial : Machine.Each Capture.step Capture.Serial {} actions)
    (hrun : Machine.run Capture.step {} actions = some s) : s.Consistent := by
  obtain ⟨busy, hsound⟩ := Machine.run_invariant_of_each (I := fun s => ∃ busy, s.Sound busy)
    (fun _ _ _ ⟨_, h⟩ hserial hstep => h.step hserial hstep) ⟨none, Capture.sound_init⟩ hserial
    hrun
  exact hsound.consistent

/-- Thread 0 begins a capture, and an event is buffered. -/
def captureBegins : List CaptureAction :=
  [.setCaptureActive (.caller 0) true, .advance (.caller 0), .advance (.caller 0),
    .advance (.caller 0), .push]

/-- Thread 0 ends the capture, up to its last flush. -/
def captureEnds : List CaptureAction :=
  [.setCaptureActive (.caller 0) false, .advance (.caller 0), .advance (.caller 0)]

/-- What is left: the sink returns, and the flush thread is told, ends and is joined. -/
def captureEnded : List CaptureAction :=
  [.advance (.caller 0), .advance (.caller 0), .advance (.flusher 0), .advance (.caller 0)]

/-- A capture begins and ends. -/
theorem serial_consistent_once : ∃ s, Machine.run Capture.step {}
      (captureBegins ++ (captureEnds ++ captureEnded)) = some s ∧ s.Consistent ∧
      s.spawned = 1 ∧ s.handle = none := by
  let caller (stack : List Frame) (calls : Party → List Frame) :=
    Function.update calls (.caller 0) stack
  let begun : Capture := ⟨true, false, 1, some 0, 1, Function.update
    (caller [] (caller [.spawning] (caller [.starting] (caller [.storing true] fun _ => []))))
    (.flusher 0) [.testing], none⟩
  have hbegins : Machine.run Capture.step {} captureBegins = some begun := rfl
  have hbegun (q : Party) : begun.calls q = [] ∨ begun.calls q = [.testing] := by
    by_cases hflusher : q = .flusher 0
    · exact .inr (by rw [hflusher]; rfl)
    · by_cases hcaller : q = .caller 0
      · exact .inl (by rw [hcaller]; rfl)
      · simp [begun, caller, hflusher]
  have hflushing (q : Party) : ¬ begun.Flushing q := by
    unfold Capture.Flushing
    rcases hbegun q with hstack | hstack <;> simp [hstack]
  have hchanging (q : Party) : ¬ begun.Changing q := by
    unfold Capture.Changing
    rcases hbegun q with hstack | hstack <;> simp [hstack]
  have hserial : Machine.Each Capture.step Capture.Serial {}
      (captureBegins ++ (captureEnds ++ captureEnded)) := by
    refine (Machine.each_append hbegins).2 ⟨?_, ?_⟩
    · refine (Machine.each_cons rfl).2 ⟨fun _ => ⟨fun _ ⟨_, h, _⟩ => (nomatch h), nofun⟩, ?_⟩
      exact Machine.Each.imp (fun _ _ => Capture.Plain.serial) (by decide)
    · refine (Machine.each_cons rfl).2 ⟨fun _ => ⟨hchanging, nofun⟩, ?_⟩
      refine (Machine.each_cons rfl).2 ⟨fun _ q hq => ?_, ?_⟩
      · change ¬ (begun.goto (.caller 0) [.storing false]).Flushing q
        unfold Capture.Flushing
        rw [Capture.goto_other hq]
        exact hflushing q
      · exact Machine.Each.imp (fun _ _ => Capture.Plain.serial) (by decide)
  exact ⟨_, rfl, serial_consistent _ hserial rfl, rfl, rfl⟩

/-- In its last flush the sink is told that the server captures, and says so to the recorder. -/
theorem stop_restarts : ¬ ∀ actions s,
    Machine.run Capture.step {} actions = some s → s.Consistent := by
  intro h
  have hfault := (h (captureBegins ++ captureEnds ++ [.setCaptureActive (.caller 0) true,
    .advance (.caller 0), .advance (.caller 0), .advance (.caller 0)]) _ rfl).fault
  exact absurd hfault (by decide)

end Bison.Profiling
