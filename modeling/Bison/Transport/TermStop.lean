import Bison.Lib.Machine
import Mathlib.Logic.Function.Basic

/-!
# Stopping a terminal connection

A terminal connection has a loop thread for its reader and one for its writer. The first to call
`stop` on one of them joins it, or detaches it when it is the caller itself; the others wait for
the first (term_transport.cpp:333-362). At the end of the stream the reader's thread calls
`passthrough`, which may shut the connection down from there (lines 685-699).

- `TermConn.step`: one step of one thread.
- `TermConn.Barrier`: some thread can go on while one is in a call, and a call that returned
  leaves no joinable thread.
- `inTurn_barrier`: **main result**, for the runs in which the reader's thread does not call
  `stop` behind a thread that joins it.
- `joined_waits`: the run in which it does.
-/

namespace Bison

/-- The `term_pipe_thread`s of a `term_conn_state`. -/
inductive TermPipe where
  | reader
  | writer
  deriving Repr, DecidableEq

/-- What became of `loop_thread`. -/
inductive LoopThread where
  | joinable
  | joined
  | detached
  deriving Repr, DecidableEq

/-- How far the body of the thread is (lines 307-317): in `uv_run`, behind `on_stop`, behind the
store of `thread_finished`, and at its end. -/
inductive LoopPhase where
  | running
  | closed
  | finished
  | ended
  deriving Repr, DecidableEq

/-- `term_pipe_thread`. `stopAsync`: `stop_async` is sent. -/
structure TermPipeThread where
  stopped : Bool := false
  stopDone : Bool := false
  stopAsync : Bool := false
  loopThread : LoopThread := .joinable
  phase : LoopPhase := .running
  deriving Repr, DecidableEq

/-- A thread that uses the connection, or a loop thread of it. -/
inductive TermThread where
  | caller (n : Nat)
  | loop (pipe : TermPipe)
  deriving Repr, DecidableEq

/-- What a thread has to do next. `returned` is the return of `term_conn_state::stop`. -/
inductive StopOp where
  | close
  | exchange (pipe : TermPipe)
  | waitDone (pipe : TermPipe)
  | asyncSend (pipe : TermPipe)
  | joinOrDetach (pipe : TermPipe)
  | setDone (pipe : TermPipe)
  | waitUntilFinished (pipe : TermPipe)
  | returned
  deriving Repr, DecidableEq

/-- A connection and the threads in it. `eof`: the reader has seen the end of the stream. -/
structure TermConn where
  pipes : TermPipe → TermPipeThread := fun _ => {}
  closed : Bool := false
  eof : Bool := false
  ops : TermThread → List StopOp := fun _ => []
  returned : TermThread → Bool := fun _ => false

/-- A thread calls `shutdown` or destroys the connection, the stream ends and the callback shuts
down or does not, a thread does what it has to do next, or a loop thread goes on with its loop. -/
inductive TermAction where
  | call (n : Nat) (destroys : Bool)
  | endOfStream (shutsDown : Bool)
  | advance (t : TermThread)
  | loop (pipe : TermPipe)
  deriving Repr, DecidableEq

namespace TermConn

/-- `term_conn_state::stop`. -/
def stop : List StopOp := [.close, .exchange .reader, .exchange .writer, .returned]

/-- `~term_client_transport`: the members of the state are destroyed behind `stop`. -/
def destroy : List StopOp :=
  stop ++ [.exchange .writer, .waitUntilFinished .writer, .exchange .reader,
    .waitUntilFinished .reader]

/-- The thread goes on with `ops`. -/
def goto (s : TermConn) (t : TermThread) (ops : List StopOp) : TermConn :=
  { s with ops := Function.update s.ops t ops }

/-- One of the pipes changes. -/
def setPipe (s : TermConn) (pipe : TermPipe) (thread : TermPipeThread) : TermConn :=
  { s with pipes := Function.update s.pipes pipe thread }

/-- A thread does what it has to do next (lines 344-361). -/
def advance (s : TermConn) (t : TermThread) : Option TermConn :=
  match s.ops t with
  | [] => none
  | .close :: rest => some ({ s with closed := true }.goto t rest)
  | .exchange pipe :: rest =>
    if (s.pipes pipe).stopped then some (s.goto t (.waitDone pipe :: rest))
    else some ((s.setPipe pipe { s.pipes pipe with stopped := true }).goto t
      (.asyncSend pipe :: rest))
  | .waitDone pipe :: rest => if (s.pipes pipe).stopDone then some (s.goto t rest) else none
  | .asyncSend pipe :: rest =>
    if (s.pipes pipe).loopThread = .joinable then
      some ((s.setPipe pipe { s.pipes pipe with stopAsync := true }).goto t
        (.joinOrDetach pipe :: rest))
    else some (s.goto t (.setDone pipe :: rest))
  | .joinOrDetach pipe :: rest =>
    if t = .loop pipe then
      some ((s.setPipe pipe { s.pipes pipe with loopThread := .detached }).goto t
        (.setDone pipe :: rest))
    else if (s.pipes pipe).phase = .ended then
      some ((s.setPipe pipe { s.pipes pipe with loopThread := .joined }).goto t
        (.setDone pipe :: rest))
    else none
  | .setDone pipe :: rest =>
    some ((s.setPipe pipe { s.pipes pipe with stopDone := true }).goto t rest)
  | .waitUntilFinished pipe :: rest =>
    if (s.pipes pipe).phase = .finished ∨ (s.pipes pipe).phase = .ended then some (s.goto t rest)
    else none
  | .returned :: rest =>
    some ({ s with returned := Function.update s.returned t true }.goto t rest)

/-- A loop thread goes on with its loop. `on_stop` runs when no callback does. -/
def turn (s : TermConn) (pipe : TermPipe) : Option TermConn :=
  match (s.pipes pipe).phase with
  | .running =>
    if (s.pipes pipe).stopAsync ∧ s.ops (.loop pipe) = [] then
      some (s.setPipe pipe { s.pipes pipe with phase := .closed })
    else none
  | .closed => some (s.setPipe pipe { s.pipes pipe with phase := .finished })
  | .finished => some (s.setPipe pipe { s.pipes pipe with phase := .ended })
  | .ended => none

/-- One step. -/
def step (s : TermConn) : TermAction → Option TermConn
  | .call n destroys =>
    if s.ops (.caller n) = [] then some (s.goto (.caller n) (if destroys then destroy else stop))
    else none
  -- on_read; the stream is not read from then on
  | .endOfStream shutsDown =>
    if (s.pipes .reader).phase = .running ∧ s.ops (.loop .reader) = [] ∧ s.eof = false then
      some ({ s with eof := true }.goto (.loop .reader) (if shutsDown then stop else []))
    else none
  | .advance t => s.advance t
  | .loop pipe => s.turn pipe

/-- What the threads do by themselves, without a new call and without the end of the stream. -/
def Internal : TermAction → Prop
  | .call _ _ | .endOfStream _ => False
  | .advance _ | .loop _ => True

/-- What a caller may count on. -/
structure Barrier (s : TermConn) : Prop where
  progress : (∃ t, s.ops t ≠ []) → ∃ a, Internal a ∧ (s.step a).isSome
  released : ∀ t, s.returned t = true → ∀ pipe, (s.pipes pipe).loopThread ≠ .joinable

/-- The condition on a step: a loop thread does not stop its own pipe behind a thread that is
still stopping it. -/
def InTurn (s : TermConn) : TermAction → Prop
  | .advance (.loop pipe) => (s.ops (.loop pipe)).head? = some (.exchange pipe) →
    (s.pipes pipe).stopped = true → (s.pipes pipe).stopDone = true
  | _ => True

instance (s : TermConn) : DecidablePred s.InTurn
  | .advance (.loop pipe) => inferInstanceAs (Decidable
      ((s.ops (.loop pipe)).head? = some (.exchange pipe) →
        (s.pipes pipe).stopped = true → (s.pipes pipe).stopDone = true))
  | .advance (.caller _) | .call _ _ | .endOfStream _ | .loop _ => inferInstanceAs (Decidable True)

variable {s s' : TermConn} {t : TermThread} {pipe : TermPipe}

theorem goto_self (t : TermThread) (ops : List StopOp) : (s.goto t ops).ops t = ops :=
  Function.update_self ..

theorem goto_other {t t' : TermThread} (h : t' ≠ t) (ops : List StopOp) :
    (s.goto t ops).ops t' = s.ops t' :=
  Function.update_of_ne h ..

/-! ## What the callers know -/

/-- Before a call: every wait for the end of a thread and every return comes behind the stop of
the pipes it is about, unless they are `done`. -/
def Ordered (done : TermPipe → Prop) : List StopOp → Prop
  | [] => True
  | .close :: rest => Ordered done rest
  | .exchange pipe :: rest => Ordered (fun other => other = pipe ∨ done other) rest
  | .waitUntilFinished pipe :: rest => done pipe ∧ Ordered done rest
  | .returned :: rest => (∀ pipe, done pipe) ∧ Ordered done rest
  | _ :: _ => False

/-- The same in a call of `term_pipe_thread::stop`. -/
def Known (done : TermPipe → Prop) : List StopOp → Prop
  | .waitDone pipe :: rest | .asyncSend pipe :: rest | .joinOrDetach pipe :: rest
  | .setDone pipe :: rest => Ordered (fun other => other = pipe ∨ done other) rest
  | ops => Ordered done ops

theorem ordered_mono {done done' : TermPipe → Prop} (hdone : ∀ pipe, done pipe → done' pipe)
    {ops : List StopOp} (h : Ordered done ops) : Ordered done' ops := by
  induction ops generalizing done done' with
  | nil => exact trivial
  | cons op rest ih =>
    cases op
    case close => exact ih hdone h
    case exchange pipe => exact ih (fun other => Or.imp_right (hdone other)) h
    case waitUntilFinished pipe => exact ⟨hdone pipe h.1, ih hdone h.2⟩
    case returned => exact ⟨fun pipe => hdone pipe (h.1 pipe), ih hdone h.2⟩
    all_goals exact h.elim

theorem known_mono {done done' : TermPipe → Prop} (hdone : ∀ pipe, done pipe → done' pipe)
    {ops : List StopOp} (h : Known done ops) : Known done' ops := by
  unfold Known at h ⊢
  split at h
  case h_5 => exact ordered_mono hdone h
  all_goals exact ordered_mono (fun other => Or.imp_right (hdone other)) h

theorem Ordered.known {done : TermPipe → Prop} {ops : List StopOp} (h : Ordered done ops) :
    Known done ops := by
  rcases ops with _ | ⟨op, rest⟩
  · exact h
  · cases op
    case waitDone | asyncSend | joinOrDetach | setDone => exact h.elim
    all_goals exact h

/-- No call of `term_pipe_thread::stop` is in progress. -/
theorem Ordered.head {done : TermPipe → Prop} {ops : List StopOp} (h : Ordered done ops)
    (pipe : TermPipe) :
    ops.head? ∉ [some (.waitDone pipe), some (.asyncSend pipe), some (.joinOrDetach pipe),
      some (.setDone pipe)] := by
  rcases ops with _ | ⟨op, rest⟩
  · simp
  · cases op
    case waitDone | asyncSend | joinOrDetach | setDone => exact h.elim
    all_goals simp

theorem ordered_stop (done : TermPipe → Prop) : Ordered done stop :=
  ⟨fun pipe => by cases pipe <;> simp, trivial⟩

theorem ordered_destroy (done : TermPipe → Prop) : Ordered done destroy :=
  ⟨fun pipe => by cases pipe <;> simp, by simp, by simp, trivial⟩

/-- The thread is told to stop, or has done so. -/
def Told (thread : TermPipeThread) : Prop := thread.stopAsync = true ∨ thread.phase ≠ .running

/-- The first caller of `stop`, behind its exchange. -/
def Stopping (pipe : TermPipe) (ops : List StopOp) : Prop :=
  ops.head? ∈ [some (.asyncSend pipe), some (.joinOrDetach pipe), some (.setDone pipe)]

/-- What holds of a pipe. -/
structure PipeSound (thread : TermPipeThread) : Prop where
  told : thread.loopThread ≠ .joinable → Told thread
  done : thread.stopDone = true → thread.loopThread ≠ .joinable

/-- What holds of the next operation of a thread. -/
structure HeadSound (pipes : TermPipe → TermPipeThread) (t : TermThread) (ops : List StopOp) :
    Prop where
  waiting : ∀ pipe, ops.head? = some (.waitDone pipe) → (pipes pipe).stopped = true
  joining : ∀ pipe, ops.head? = some (.joinOrDetach pipe) → Told (pipes pipe)
  setting : ∀ pipe, ops.head? = some (.setDone pipe) → (pipes pipe).loopThread ≠ .joinable
  own : ∀ pipe, t = .loop pipe → ops.head? = some (.waitDone pipe) →
    (pipes pipe).stopDone = true

/-- What the steps keep. -/
structure Sound (s : TermConn) : Prop where
  pipes : ∀ pipe, PipeSound (s.pipes pipe)
  known : ∀ t, Known (fun pipe => (s.pipes pipe).stopDone = true) (s.ops t)
  head : ∀ t, HeadSound s.pipes t (s.ops t)
  stopping : ∀ pipe, (s.pipes pipe).stopped = true → (s.pipes pipe).stopDone = false →
    ∃ t, Stopping pipe (s.ops t)
  returned : ∀ t, s.returned t = true → ∀ pipe, (s.pipes pipe).stopDone = true
  writer : s.ops (.loop .writer) = []
  callback : ∀ pipe, .waitUntilFinished pipe ∉ s.ops (.loop .reader)
  out : ∀ pipe, (s.pipes pipe).phase ≠ .running → s.ops (.loop pipe) = []

theorem sound_init : Sound {} where
  pipes := fun _ => ⟨fun h => absurd rfl h, nofun⟩
  known := fun _ => trivial
  head := fun _ => ⟨nofun, nofun, nofun, nofun⟩
  stopping := nofun
  returned := nofun
  writer := rfl
  callback := fun _ => List.not_mem_nil
  out := fun _ h => absurd rfl h

/-- What a step of `stop` does to a pipe. -/
structure Grows (thread thread' : TermPipeThread) : Prop where
  phase : thread'.phase = thread.phase
  stopped : thread.stopped = true → thread'.stopped = true
  done : thread.stopDone = true → thread'.stopDone = true
  told : thread.stopAsync = true → thread'.stopAsync = true
  released : thread.loopThread ≠ .joinable → thread'.loopThread ≠ .joinable

theorem Grows.refl (thread : TermPipeThread) : Grows thread thread := ⟨rfl, id, id, id, id⟩

theorem Told.grows {thread thread' : TermPipeThread} (h : Grows thread thread')
    (htold : Told thread) : Told thread' :=
  htold.imp h.told fun hphase => h.phase ▸ hphase

theorem HeadSound.grows {pipes pipes' : TermPipe → TermPipeThread} {ops : List StopOp}
    (hgrows : ∀ pipe, Grows (pipes pipe) (pipes' pipe)) (h : HeadSound pipes t ops) :
    HeadSound pipes' t ops where
  waiting pipe hhead := (hgrows pipe).stopped (h.waiting pipe hhead)
  joining pipe hhead := (h.joining pipe hhead).grows (hgrows pipe)
  setting pipe hhead := (hgrows pipe).released (h.setting pipe hhead)
  own pipe ht hhead := (hgrows pipe).done (h.own pipe ht hhead)

/-- A thread takes a step of its call. -/
theorem Sound.goto (h : s.Sound) {m : TermConn} {ops : List StopOp} (hops : m.ops = s.ops)
    (hne : s.ops t ≠ []) (hgrows : ∀ pipe, Grows (s.pipes pipe) (m.pipes pipe))
    (hpipes : ∀ pipe, PipeSound (m.pipes pipe))
    (hknown : Known (fun pipe => (m.pipes pipe).stopDone = true) ops)
    (hhead : HeadSound m.pipes t ops)
    (hstopping : ∀ pipe, (m.pipes pipe).stopped = true → (m.pipes pipe).stopDone = false →
      Stopping pipe ops ∨ (s.pipes pipe).stopped = true ∧ ¬ Stopping pipe (s.ops t))
    (hreturned : ∀ t, m.returned t = true → ∀ pipe, (m.pipes pipe).stopDone = true)
    (hcallback : ∀ pipe, .waitUntilFinished pipe ∉ s.ops t → .waitUntilFinished pipe ∉ ops) :
    (m.goto t ops).Sound := by
  have hother {t' : TermThread} (hne' : t' ≠ t) : (m.goto t ops).ops t' = s.ops t' := by
    rw [goto_other hne', hops]
  refine ⟨hpipes, fun t' => ?_, fun t' => ?_, fun pipe hstopped hdone => ?_, hreturned, ?_,
    fun pipe => ?_, fun pipe hphase => ?_⟩
  · by_cases heq : t' = t
    · rw [heq, goto_self]
      exact hknown
    · rw [hother heq]
      exact known_mono (fun pipe => (hgrows pipe).done) (h.known t')
  · by_cases heq : t' = t
    · rw [heq, goto_self]
      exact hhead
    · rw [hother heq]
      exact (h.head t').grows hgrows
  · rcases hstopping pipe hstopped hdone with hself | ⟨hbefore, hnot⟩
    · exact ⟨t, by rwa [goto_self]⟩
    · have hdone' : (s.pipes pipe).stopDone = false := by
        by_contra hset
        have := (hgrows pipe).done (Bool.not_eq_false _ ▸ hset)
        exact Bool.noConfusion (this.symm.trans hdone)
      obtain ⟨t', ht'⟩ := h.stopping pipe hbefore hdone'
      refine ⟨t', ?_⟩
      rwa [hother fun heq => hnot (heq ▸ ht')]
  · rw [hother fun heq => hne (heq ▸ h.writer)]
    exact h.writer
  · by_cases heq : .loop .reader = t
    · rw [heq, goto_self]
      exact hcallback pipe (heq ▸ h.callback pipe)
    · rw [hother heq]
      exact h.callback pipe
  · have hbefore := h.out pipe ((hgrows pipe).phase ▸ hphase)
    rwa [hother fun heq => hne (heq ▸ hbefore)]

theorem Ordered.headSound {done : TermPipe → Prop} {ops : List StopOp} (h : Ordered done ops)
    (pipes : TermPipe → TermPipeThread) (t : TermThread) : HeadSound pipes t ops where
  waiting pipe hhead := (h.head pipe (by simp [hhead])).elim
  joining pipe hhead := (h.head pipe (by simp [hhead])).elim
  setting pipe hhead := (h.head pipe (by simp [hhead])).elim
  own pipe _ hhead := (h.head pipe (by simp [hhead])).elim

/-- An operation that is no part of the first call of a `stop` is over. -/
theorem Sound.next (h : s.Sound) {op : StopOp} {rest : List StopOp} (hstack : s.ops t = op :: rest)
    {m : TermConn} (hops : m.ops = s.ops) (hpipes : m.pipes = s.pipes)
    (hordered : Ordered (fun pipe => (s.pipes pipe).stopDone = true) rest)
    (hother : ∀ pipe, ¬ Stopping pipe (op :: rest))
    (hreturned : ∀ t, m.returned t = true → ∀ pipe, (s.pipes pipe).stopDone = true) :
    (m.goto t rest).Sound := by
  refine h.goto hops (by simp [hstack]) (fun pipe => hpipes ▸ .refl _)
    (hpipes ▸ h.pipes) (hpipes ▸ hordered.known) (hordered.headSound _ _)
    (fun pipe hstopped _ => .inr ⟨hpipes ▸ hstopped, hstack ▸ hother pipe⟩)
    (hpipes ▸ hreturned) fun pipe hnot => ?_
  rw [hstack] at hnot
  exact fun hmem => hnot (List.mem_cons_of_mem _ hmem)

/-- A step of the first call of a `stop`. -/
theorem Sound.stop_step (h : s.Sound) {op : StopOp} {rest ops : List StopOp}
    (hstack : s.ops t = op :: rest) {thread : TermPipeThread}
    (hgrows : Grows (s.pipes pipe) thread) (hsound : PipeSound thread)
    (hknown : Known (fun other => other = pipe ∧ thread.stopDone = true ∨
      (s.pipes other).stopDone = true) ops)
    (hhead : HeadSound (s.setPipe pipe thread).pipes t ops)
    (hstopping : thread.stopDone = true ∨ Stopping pipe ops)
    (hother : ∀ other, other ≠ pipe → ¬ Stopping other (op :: rest))
    (hsuffix : ∀ other, .waitUntilFinished other ∈ ops → .waitUntilFinished other ∈ rest) :
    ((s.setPipe pipe thread).goto t ops).Sound := by
  have hself : (s.setPipe pipe thread).pipes pipe = thread := Function.update_self ..
  have hne {other : TermPipe} (hne : other ≠ pipe) :
      (s.setPipe pipe thread).pipes other = s.pipes other := Function.update_of_ne hne ..
  have hpipesGrow (other : TermPipe) :
      Grows (s.pipes other) ((s.setPipe pipe thread).pipes other) := by
    by_cases heq : other = pipe
    · rw [heq, hself]
      exact hgrows
    · rw [hne heq]
      exact .refl _
  refine h.goto rfl (by simp [hstack]) hpipesGrow (fun other => ?_)
    (known_mono (fun other hother => ?_) hknown) hhead (fun other hstopped hdone => ?_)
    (fun t ht other => (hpipesGrow other).done (h.returned t ht other)) fun other hnot hmem => ?_
  · by_cases heq : other = pipe
    · rw [heq, hself]
      exact hsound
    · rw [hne heq]
      exact h.pipes other
  · rcases hother with ⟨rfl, hset⟩ | hother
    · rwa [hself]
    · exact (hpipesGrow other).done hother
  · by_cases heq : other = pipe
    · rw [heq, hself] at hdone
      rcases hstopping with hset | hin
      · exact Bool.noConfusion (hset.symm.trans hdone)
      · exact .inl (heq ▸ hin)
    · rw [hne heq] at hstopped
      exact .inr ⟨hstopped, hstack ▸ hother other heq⟩
  · rw [hstack] at hnot
    exact hnot (List.mem_cons_of_mem _ (hsuffix other hmem))

theorem Sound.advance (h : s.Sound) (hturn : s.InTurn (.advance t))
    (hstep : s.advance t = some s') : s'.Sound := by
  unfold TermConn.advance at hstep
  have hknown := h.known t
  have hhead := h.head t
  generalize hstack : s.ops t = ops at hstep hknown hhead
  rcases ops with _ | ⟨op, rest⟩
  · cases hstep
  cases op with
  | close =>
    cases hstep
    exact h.next hstack rfl rfl hknown (fun pipe => by simp [Stopping]) h.returned
  | exchange pipe =>
    simp only at hstep
    split at hstep
    · rename_i hstopped
      cases hstep
      refine h.goto rfl (by simp [hstack]) (fun _ => .refl _) h.pipes hknown
        ⟨fun other hwaits => by cases hwaits; exact hstopped, nofun, nofun, ?_⟩
        (fun other hother _ => .inr ⟨hother, ?_⟩) h.returned fun other hnot => ?_
      · rintro other rfl hwaits
        cases hwaits
        exact hturn (by rw [hstack]; rfl) hstopped
      · rw [hstack]
        simp [Stopping]
      · rw [hstack] at hnot
        simpa using hnot
    · cases hstep
      exact h.stop_step hstack ⟨rfl, fun _ => rfl, id, id, id⟩
        ⟨(h.pipes pipe).told, (h.pipes pipe).done⟩
        (ordered_mono (fun _ => Or.imp_right .inr) hknown) ⟨nofun, nofun, nofun, nofun⟩
        (.inr (by simp [Stopping])) (fun _ _ => by simp [Stopping]) (fun _ => by simp)
  | waitDone pipe =>
    simp only at hstep
    split at hstep
    · rename_i hdone
      cases hstep
      refine h.next hstack rfl rfl (ordered_mono (fun other hother => ?_) hknown)
        (fun pipe => by simp [Stopping]) h.returned
      rcases hother with rfl | hother
      · exact hdone
      · exact hother
    · cases hstep
  | asyncSend pipe =>
    have hother (other : TermPipe) (hne : other ≠ pipe) :
        ¬ Stopping other (.asyncSend pipe :: rest) := by simp [Stopping, hne.symm]
    simp only at hstep
    split at hstep
    · cases hstep
      exact h.stop_step hstack ⟨rfl, id, id, fun _ => rfl, id⟩
        ⟨fun _ => .inl rfl, (h.pipes pipe).done⟩ (ordered_mono (fun _ => Or.imp_right .inr) hknown)
        ⟨nofun, fun other hhead => by cases hhead; simp [setPipe, Told], nofun, nofun⟩
        (.inr (by simp [Stopping])) hother (fun _ => by simp)
    · rename_i hreleased
      cases hstep
      refine h.goto rfl (by simp [hstack]) (fun _ => .refl _) h.pipes hknown
        ⟨nofun, nofun, fun other hhead => by cases hhead; exact hreleased, nofun⟩
        (fun other hstopped _ => ?_) h.returned fun other hnot => ?_
      · by_cases heq : other = pipe
        · exact .inl (by simp [Stopping, heq])
        · exact .inr ⟨hstopped, hstack ▸ hother other heq⟩
      · rw [hstack] at hnot
        simpa using hnot
  | joinOrDetach pipe =>
    have htold := hhead.joining pipe rfl
    have hother (other : TermPipe) (hne : other ≠ pipe) :
        ¬ Stopping other (.joinOrDetach pipe :: rest) := by simp [Stopping, hne.symm]
    have hrelease {loopThread : LoopThread} (hne : loopThread ≠ .joinable) :
        ((s.setPipe pipe { s.pipes pipe with loopThread := loopThread }).goto t
          (.setDone pipe :: rest)).Sound :=
      h.stop_step hstack ⟨rfl, id, id, id, fun _ => hne⟩ ⟨fun _ => htold, fun _ => hne⟩
        (ordered_mono (fun _ => Or.imp_right .inr) hknown)
        ⟨nofun, nofun, fun other hhead => by cases hhead; simpa [setPipe] using hne, nofun⟩
        (.inr (by simp [Stopping])) hother (fun _ => by simp)
    simp only at hstep
    split at hstep
    · cases hstep
      exact hrelease LoopThread.noConfusion
    · split at hstep
      · cases hstep
        exact hrelease LoopThread.noConfusion
      · cases hstep
  | setDone pipe =>
    cases hstep
    exact h.stop_step hstack ⟨rfl, id, fun _ => rfl, id, id⟩
      ⟨(h.pipes pipe).told, fun _ => hhead.setting pipe rfl⟩
      (ordered_mono (fun _ => Or.imp_left fun heq => ⟨heq, rfl⟩) hknown).known
      (hknown.headSound _ _) (.inl rfl) (fun other hne => by simp [Stopping, hne.symm])
      (fun _ => id)
  | waitUntilFinished pipe =>
    simp only at hstep
    split at hstep
    · cases hstep
      exact h.next hstack rfl rfl hknown.2 (fun pipe => by simp [Stopping]) h.returned
    · cases hstep
  | returned =>
    cases hstep
    refine h.next hstack rfl rfl hknown.2 (fun pipe => by simp [Stopping]) fun _ _ => hknown.1

/-- A loop thread is out of its callback and goes on. -/
theorem Sound.setPhase (h : s.Sound) {phase : LoopPhase} (hphase : phase ≠ .running)
    (hempty : s.ops (.loop pipe) = []) :
    (s.setPipe pipe { s.pipes pipe with phase := phase }).Sound := by
  have hself : (s.setPipe pipe { s.pipes pipe with phase := phase }).pipes pipe =
      { s.pipes pipe with phase := phase } := Function.update_self ..
  have hne {other : TermPipe} (hne : other ≠ pipe) :
      (s.setPipe pipe { s.pipes pipe with phase := phase }).pipes other = s.pipes other :=
    Function.update_of_ne hne ..
  generalize hs' : s.setPipe pipe { s.pipes pipe with phase := phase } = s' at hself hne ⊢
  have hops : s'.ops = s.ops := by rw [← hs']; rfl
  have hreturned : s'.returned = s.returned := by rw [← hs']; rfl
  -- nothing else of the pipes is different
  have hstopped (other : TermPipe) : (s'.pipes other).stopped = (s.pipes other).stopped := by
    by_cases heq : other = pipe
    · rw [heq, hself]
    · rw [hne heq]
  have hdone (other : TermPipe) : (s'.pipes other).stopDone = (s.pipes other).stopDone := by
    by_cases heq : other = pipe
    · rw [heq, hself]
    · rw [hne heq]
  have hthread (other : TermPipe) :
      (s'.pipes other).loopThread = (s.pipes other).loopThread := by
    by_cases heq : other = pipe
    · rw [heq, hself]
    · rw [hne heq]
  have htold' (other : TermPipe) (h : Told (s.pipes other)) : Told (s'.pipes other) := by
    by_cases heq : other = pipe
    · rw [heq, hself]
      exact .inr hphase
    · rwa [hne heq]
  constructor
  case pipes =>
    refine fun other => ⟨fun hreleased => ?_, fun hset => ?_⟩
    · rw [hthread] at hreleased
      exact htold' other ((h.pipes other).told hreleased)
    · rw [hdone] at hset
      rw [hthread]
      exact (h.pipes other).done hset
  case known =>
    simp only [hdone, hops]
    exact h.known
  case head =>
    refine fun t => ⟨fun other hhead => ?_, fun other hhead => ?_, fun other hhead => ?_,
      fun other ht hhead => ?_⟩
    all_goals rw [hops] at hhead
    · rw [hstopped]
      exact (h.head t).waiting other hhead
    · exact htold' other ((h.head t).joining other hhead)
    · rw [hthread]
      exact (h.head t).setting other hhead
    · rw [hdone]
      exact (h.head t).own other ht hhead
  case stopping =>
    simp only [hstopped, hdone, hops]
    exact h.stopping
  case returned =>
    simp only [hdone, hreturned]
    exact h.returned
  case writer => rw [hops, h.writer]
  case callback => exact hops ▸ h.callback
  case out =>
    intro other hother
    rw [hops]
    by_cases heq : other = pipe
    · rw [heq, hempty]
    · rw [hne heq] at hother
      exact h.out other hother

theorem Sound.turn (h : s.Sound) (hstep : s.turn pipe = some s') : s'.Sound := by
  unfold TermConn.turn at hstep
  split at hstep
  · split at hstep
    · rename_i hready
      cases hstep
      exact h.setPhase LoopPhase.noConfusion hready.2
    · cases hstep
  · rename_i hphase
    cases hstep
    have hover : (s.pipes pipe).phase ≠ .running := by simp [hphase]
    exact h.setPhase LoopPhase.noConfusion (h.out pipe hover)
  · rename_i hphase
    cases hstep
    have hover : (s.pipes pipe).phase ≠ .running := by simp [hphase]
    exact h.setPhase LoopPhase.noConfusion (h.out pipe hover)
  · cases hstep

/-- A thread begins a call. -/
theorem Sound.begin (h : s.Sound) {ops : List StopOp} (hempty : s.ops t = [])
    (hordered : Ordered (fun pipe => (s.pipes pipe).stopDone = true) ops)
    (hcallback : t = .loop .reader → ∀ pipe, .waitUntilFinished pipe ∉ ops)
    (hrunning : ∀ pipe, t = .loop pipe → pipe = .reader ∧ (s.pipes pipe).phase = .running) :
    (s.goto t ops).Sound := by
  refine ⟨h.pipes, fun t' => ?_, fun t' => ?_, fun pipe hstopped hdone => ?_, h.returned, ?_,
    fun pipe => ?_, fun pipe hphase => ?_⟩
  · by_cases heq : t' = t
    · rw [heq, goto_self]
      exact hordered.known
    · rw [goto_other heq]
      exact h.known t'
  · by_cases heq : t' = t
    · rw [heq, goto_self]
      exact hordered.headSound _ _
    · rw [goto_other heq]
      exact h.head t'
  · obtain ⟨t', ht'⟩ := h.stopping pipe hstopped hdone
    refine ⟨t', ?_⟩
    rw [goto_other fun heq => ?_]
    · exact ht'
    · rw [heq, hempty] at ht'
      simp [Stopping] at ht'
  · rw [goto_other fun heq => ?_]
    · exact h.writer
    · cases (hrunning _ heq.symm).1
  · by_cases heq : .loop .reader = t
    · rw [heq, goto_self]
      exact hcallback heq.symm pipe
    · rw [goto_other heq]
      exact h.callback pipe
  · rw [goto_other fun heq => ?_]
    · exact h.out pipe hphase
    · exact hphase (hrunning pipe heq.symm).2

theorem Sound.step (h : s.Sound) {a : TermAction} (hturn : s.InTurn a)
    (hstep : s.step a = some s') : s'.Sound := by
  cases a with
  | call n destroys =>
    simp only [TermConn.step] at hstep
    split at hstep
    · rename_i hempty
      cases hstep
      refine h.begin hempty ?_ nofun nofun
      split
      · exact ordered_destroy _
      · exact ordered_stop _
    · cases hstep
  | endOfStream shutsDown =>
    simp only [TermConn.step] at hstep
    split at hstep
    · rename_i hready
      cases hstep
      have hsound : Sound { s with eof := true } :=
        ⟨h.pipes, h.known, h.head, h.stopping, h.returned, h.writer, h.callback, h.out⟩
      refine hsound.begin hready.2.1 ?_ (fun _ pipe => ?_) fun pipe heq => ?_
      · split
        · exact ordered_stop _
        · exact trivial
      · split <;> simp [stop]
      · cases heq
        exact ⟨rfl, hready.1⟩
    · cases hstep
  | advance t => exact h.advance hturn hstep
  | loop pipe => exact h.turn hstep

/-! ## Somebody goes on -/

/-- Some thread can go on. -/
def GoesOn (s : TermConn) : Prop := ∃ a, Internal a ∧ (s.step a).isSome

/-- A loop thread that is told to stop ends when its callback does. -/
theorem loop_goesOn (hcallback : s.ops (.loop pipe) ≠ [] → s.GoesOn)
    (htold : Told (s.pipes pipe)) (hphase : (s.pipes pipe).phase ≠ .ended) : s.GoesOn := by
  by_cases hempty : s.ops (.loop pipe) = []
  · refine ⟨.loop pipe, trivial, ?_⟩
    simp only [TermConn.step, TermConn.turn]
    cases hcase : (s.pipes pipe).phase with
    | running =>
      have hsent : (s.pipes pipe).stopAsync = true := htold.resolve_right fun hnot => hnot hcase
      simp [hsent, hempty]
    | closed => rfl
    | finished => rfl
    | ended => exact (hphase hcase).elim
  · exact hcallback hempty

/-- The first caller of `stop` gets through it when the loop thread ends. -/
theorem Sound.stop_goesOn (h : s.Sound) (hcallback : s.ops (.loop pipe) ≠ [] → s.GoesOn)
    (hstopped : (s.pipes pipe).stopped = true) (hdone : (s.pipes pipe).stopDone = false) :
    s.GoesOn := by
  obtain ⟨t, ht⟩ := h.stopping pipe hstopped hdone
  have hgo (henabled : (s.advance t).isSome) : s.GoesOn := ⟨.advance t, trivial, henabled⟩
  have hjoining := (h.head t).joining pipe
  generalize hstack : s.ops t = ops at ht hjoining
  unfold TermConn.advance at hgo
  rw [hstack] at hgo
  rcases ops with _ | ⟨op, rest⟩
  · simp [Stopping] at ht
  · obtain rfl | rfl | rfl : op = .asyncSend pipe ∨ op = .joinOrDetach pipe ∨
        op = .setDone pipe := by simpa [Stopping] using ht
    · refine hgo ?_
      simp only
      split <;> rfl
    · by_cases hown : t = .loop pipe
      · exact hgo (by simp [hown])
      · by_cases hended : (s.pipes pipe).phase = .ended
        · exact hgo (by simp [hown, hended])
        · exact loop_goesOn hcallback (hjoining rfl) hended
    · exact hgo rfl

/-- A thread in a call goes on, or what it waits for does. -/
theorem Sound.goesOn (h : s.Sound)
    (hcallback : ∀ pipe, t ≠ .loop pipe → s.ops (.loop pipe) ≠ [] → s.GoesOn)
    (hne : s.ops t ≠ []) : s.GoesOn := by
  have hgo (henabled : (s.advance t).isSome) : s.GoesOn := ⟨.advance t, trivial, henabled⟩
  have hhead := h.head t
  have hknown := h.known t
  generalize hstack : s.ops t = ops at hne hhead hknown
  unfold TermConn.advance at hgo
  rw [hstack] at hgo
  rcases ops with _ | ⟨op, rest⟩
  · exact absurd rfl hne
  cases op with
  | close => exact hgo rfl
  | exchange pipe =>
    refine hgo ?_
    simp only
    split <;> rfl
  | waitDone pipe =>
    by_cases hdone : (s.pipes pipe).stopDone = true
    · exact hgo (by simp [hdone])
    · refine h.stop_goesOn (hcallback pipe fun heq => ?_) (hhead.waiting pipe rfl)
        (Bool.eq_false_iff.2 hdone)
      exact hdone (hhead.own pipe heq rfl)
  | asyncSend pipe =>
    refine hgo ?_
    simp only
    split <;> rfl
  | joinOrDetach pipe =>
    by_cases hown : t = .loop pipe
    · exact hgo (by simp [hown])
    · by_cases hended : (s.pipes pipe).phase = .ended
      · exact hgo (by simp [hown, hended])
      · exact loop_goesOn (hcallback pipe hown) (hhead.joining pipe rfl) hended
  | setDone pipe => exact hgo rfl
  | waitUntilFinished pipe =>
    by_cases hfinished : (s.pipes pipe).phase = .finished ∨ (s.pipes pipe).phase = .ended
    · exact hgo (by simp [hfinished])
    · refine loop_goesOn (hcallback pipe fun heq => ?_)
        ((h.pipes pipe).told ((h.pipes pipe).done hknown.1)) fun hended => hfinished (.inr hended)
      -- a loop thread destroys nothing
      subst heq
      cases pipe with
      | reader => exact h.callback .reader (by simp [hstack])
      | writer => simp [h.writer] at hstack
  | returned => exact hgo rfl

theorem Sound.barrier (h : s.Sound) : s.Barrier where
  progress := by
    rintro ⟨t, hne⟩
    have hreader : s.ops (.loop .reader) ≠ [] → s.GoesOn := by
      refine h.goesOn fun pipe hpipe hne => ?_
      cases pipe with
      | reader => exact absurd rfl hpipe
      | writer => exact absurd h.writer hne
    refine h.goesOn (fun pipe _ hne => ?_) hne
    cases pipe with
    | reader => exact hreader hne
    | writer => exact absurd h.writer hne
  released t ht pipe := (h.pipes pipe).done (h.returned t ht pipe)

end TermConn

/-- In a run of steps in turn the calls end and leave no joinable thread. -/
theorem inTurn_barrier {s : TermConn} (actions : List TermAction)
    (hturn : Machine.Each TermConn.step TermConn.InTurn {} actions)
    (hrun : Machine.run TermConn.step {} actions = some s) : s.Barrier :=
  (Machine.run_invariant_of_each (fun _ _ _ h hturn hstep => TermConn.Sound.step h hturn hstep)
    TermConn.sound_init hturn hrun).barrier

/-- The stream ends, and the callback shuts down before another thread does. -/
def shutdownFromReader : List TermAction :=
  [.endOfStream true, .call 0 true] ++ List.replicate 7 (.advance (.loop .reader)) ++
    List.replicate 3 (.loop .writer) ++ List.replicate 3 (.advance (.loop .reader))

/-- The shutdown from the reader's thread is over, and the other thread has not begun. -/
theorem inTurn_barrier_shutdown : ∃ s,
    Machine.run TermConn.step {} shutdownFromReader = some s ∧ s.Barrier ∧
      s.returned (.loop .reader) = true ∧ (s.pipes .reader).loopThread = .detached :=
  ⟨_, rfl, inTurn_barrier shutdownFromReader (by decide) rfl, by decide, by decide⟩

/-- Another thread stops the reader and joins it when its callback shuts down. -/
def shutdownWhileJoined : List TermAction :=
  [.call 0 false] ++ List.replicate 3 (.advance (.caller 0)) ++ [.endOfStream true] ++
    List.replicate 2 (.advance (.loop .reader))

/-- The joining thread waits for the reader's, and that for it. -/
theorem joined_waits : ¬ ∀ actions s,
    Machine.run TermConn.step {} actions = some s → s.Barrier := by
  intro h
  obtain ⟨a, hinternal, henabled⟩ := (h shutdownWhileJoined _ rfl).progress
    ⟨.caller 0, by decide⟩
  cases a with
  | call n destroys => exact hinternal
  | endOfStream shutsDown => exact hinternal
  | advance t =>
    cases t with
    | loop pipe => cases pipe <;> exact absurd henabled (by decide)
    | caller n =>
      cases n with
      | zero => exact absurd henabled (by decide)
      | succ n => cases henabled
  | loop pipe => cases pipe <;> exact absurd henabled (by decide)

end Bison
