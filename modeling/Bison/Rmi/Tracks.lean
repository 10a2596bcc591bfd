import Mathlib.Algebra.Group.Nat.Defs
import Bison.Rmi.Recorder

/-!
# Track identities

Every event names its track by a uuid: that of the thread which recorded it, or of the counter it
is a sample of (profiling.hpp:223-279). Uuids and names are given by each recorder; a thread keeps
its uuid in thread-local storage that all recorders share.

- `Tracing.step`: one step of a thread that records, over recorders that flush (`Recorder.step`).
- `TrackRecorder.Identified`: what a recorder's tracks are meant to satisfy.
- `steady_identified`: **main result**, in a run whose threads record only where their uuid is from,
  and whose counters are named before they are described, every recorder's tracks are identified.
- `shared_uuid`: a thread brings the uuid it got from one recorder to the next.
-/

namespace Bison.Profiling

/-- Bit 31 of a counter's uuid (profiling.hpp:380). -/
def kCounterTrackFlag : UInt64 := 0x80000000

/-- The uuid of the thread with this index. -/
def threadUuid (sequenceId : UInt32) (index : Nat) : Nat :=
  ((sequenceId.toUInt64 <<< 32) ||| (UInt32.ofNat index).toUInt64).toNat

/-- The uuid of the counter with this index. -/
def counterUuid (sequenceId : UInt32) (index : Nat) : Nat :=
  ((sequenceId.toUInt64 <<< 32) ||| kCounterTrackFlag ||| (UInt32.ofNat index).toUInt64).toNat

/-- `thread_local_state`. -/
structure ThreadLocal where
  trackUuid : Nat := 0
  trackName : String := ""
  deriving Repr, DecidableEq

/-- What `record_slice_begin`, `record_slice_end` and `record_instant` record. -/
inductive Mark where
  | sliceBegin (name : String)
  | sliceEnd
  | instant (name : String)
  deriving Repr, DecidableEq

/-- The event of a mark. -/
def Mark.event (mark : Mark) (timestampNs trackUuid : Nat) : RawEvent :=
  match mark with
  | sliceBegin name => ⟨timestampNs, trackUuid, name, .sliceBegin, .int 0⟩
  | sliceEnd => ⟨timestampNs, trackUuid, "", .sliceEnd, .int 0⟩
  | instant name => ⟨timestampNs, trackUuid, name, .instant, .int 0⟩

/-- What the uuid of a counter is wanted for. -/
inductive CounterUse where
  | sample (timestampNs : Nat) (value : CounterValue)
  | setUnit (unit : Nat)
  deriving Repr, DecidableEq

/-- Where a thread is. -/
inductive TrackTask where
  | idle
  -- thread_track_uuid, before its test and with the name not entered yet
  | resolving (r timestampNs : Nat) (mark : Mark)
  | naming (r : Nat) (trackName : String) (evt : RawEvent)
  -- counter_track_uuid: before the lookup, behind it, and with the name not entered yet
  | finding (r : Nat) (name : String) (use : CounterUse)
  | allocating (r : Nat) (name : String) (use : CounterUse)
  | namingCounter (r uuid : Nat) (name : String) (use : CounterUse)
  -- in a step of the recorder itself
  | inside (r : Nat)
  deriving Repr, DecidableEq

/-- A recorder and the tables of its tracks. `threadOf` has the thread that was given an index and
the name entered for it, `counterOf` the counter. `threadTracks` and `counterTracks` have the
uuids that the two lookups returned. -/
structure TrackRecorder where
  sequenceId : UInt32
  core : Recorder := {}
  alive : Bool := true
  nextThreadIndex : Nat := 1
  nextCounterIndex : Nat := 1
  counterTrackUuids : String → Option Nat := fun _ => none
  threadOf : Nat → Option (Nat × String) := fun _ => none
  counterOf : Nat → Option String := fun _ => none
  threadTracks : List (Nat × Nat) := []
  counterTracks : List (String × Nat) := []

/-- The threads of a process and the recorders it has created. -/
structure Tracing where
  recorders : Nat → Option TrackRecorder := fun _ => none
  locals : Nat → ThreadLocal := fun _ => {}
  tasks : Nat → TrackTask := fun _ => .idle

/-- A thread calls a recorder, takes its next step, or a flush thread takes one. -/
inductive TracingAction where
  | create (r : Nat) (sequenceId : UInt32)
  | destroy (r : Nat)
  | setThreadTrackName (n : Nat) (name : String)
  | record (n r timestampNs : Nat) (mark : Mark)
  | recordCounter (n r timestampNs : Nat) (name : String) (value : CounterValue)
  | setCounterUnit (n r : Nat) (name : String) (unit : Nat)
  | setCaptureActive (n r : Nat) (active : Bool)
  | advance (n : Nat)
  | flush (r : Nat)
  deriving Repr, DecidableEq

namespace Recorder

/-- `(*lp)[uuid] = name` on `track_names_`. -/
def enterName (s : Recorder) (uuid : Nat) (name : String) : Recorder :=
  { s with trackNames := Function.update s.trackNames uuid (some name) }

/-- `(*lp)[uuid] = unit` on `counter_units_`. -/
def enterUnit (s : Recorder) (uuid unit : Nat) : Recorder :=
  { s with counterUnits := Function.update s.counterUnits uuid (some unit) }

end Recorder

namespace TrackRecorder

/-- The thread gets the next index (profiling.hpp:236). -/
def giveThread (rec : TrackRecorder) (n : Nat) (trackName : String) : TrackRecorder :=
  { rec with
    nextThreadIndex := rec.nextThreadIndex + 1
    threadOf := Function.update rec.threadOf rec.nextThreadIndex (some (n, trackName)) }

/-- The counter gets the next index (profiling.hpp:272). -/
def giveCounter (rec : TrackRecorder) (name : String) : TrackRecorder :=
  { rec with
    nextCounterIndex := rec.nextCounterIndex + 1
    counterTrackUuids := Function.update rec.counterTrackUuids name
      (some (counterUuid rec.sequenceId rec.nextCounterIndex))
    counterOf := Function.update rec.counterOf rec.nextCounterIndex (some name) }

/-- `thread_track_uuid` has returned, and the event is about to be pushed. -/
def pushThread (rec : TrackRecorder) (n : Nat) (evt : RawEvent) : TrackRecorder :=
  { rec with
    core := rec.core.goto (.caller n) (.pushing evt)
    threadTracks := rec.threadTracks ++ [(n, evt.trackUuid)] }

/-- `counter_track_uuid` has returned, and its caller goes on. -/
def useCounter (rec : TrackRecorder) (n : Nat) (name : String) (uuid : Nat) (use : CounterUse) :
    TrackRecorder :=
  { rec with
    core := match use with
      | .sample timestampNs value =>
        rec.core.goto (.caller n) (.pushing ⟨timestampNs, uuid, "", .counter, value⟩)
      | .setUnit unit => rec.core.enterUnit uuid unit
    counterTracks := rec.counterTracks ++ [(name, uuid)] }

end TrackRecorder

namespace Tracing

/-- The thread goes on to `task`. -/
def goto (s : Tracing) (n : Nat) (task : TrackTask) : Tracing :=
  { s with tasks := Function.update s.tasks n task }

/-- Recorder `r` is `rec` from now on. -/
def setRecorder (s : Tracing) (r : Nat) (rec : TrackRecorder) : Tracing :=
  { s with recorders := Function.update s.recorders r (some rec) }

/-- A thread calls a method of a recorder. -/
def call (s : Tracing) (n r : Nat) (task : TrackRecorder → TrackTask) : Option Tracing :=
  (s.recorders r).bind fun rec =>
    if s.tasks n = .idle ∧ rec.alive then some (s.goto n (task rec)) else none

-- what `std::this_thread::get_id` prints for a thread
variable (threadId : Nat → String)

/-- The next step of a thread in a lookup. -/
def resolve (s : Tracing) (n : Nat) : Option Tracing :=
  match s.tasks n with
  | .idle => none
  | .resolving r timestampNs mark =>
    (s.recorders r).map fun rec =>
      let state := s.locals n
      if state.trackUuid = 0 then
        let uuid := threadUuid rec.sequenceId rec.nextThreadIndex
        let trackName :=
          if state.trackName.isEmpty then "thread-" ++ threadId n else state.trackName
        { s.setRecorder r (rec.giveThread n trackName) with
          locals := Function.update s.locals n ⟨uuid, trackName⟩
        }.goto n (.naming r trackName (mark.event timestampNs uuid))
      else
        (s.setRecorder r (rec.pushThread n (mark.event timestampNs state.trackUuid))).goto n
          (.inside r)
  | .naming r trackName evt =>
    (s.recorders r).map fun rec =>
      let named := { rec with core := rec.core.enterName evt.trackUuid trackName }
      (s.setRecorder r (named.pushThread n evt)).goto n (.inside r)
  | .finding r name use =>
    (s.recorders r).map fun rec =>
      match rec.counterTrackUuids name with
      | some uuid => (s.setRecorder r (rec.useCounter n name uuid use)).goto n (.inside r)
      | none => s.goto n (.allocating r name use)
  | .allocating r name use =>
    (s.recorders r).map fun rec =>
      match rec.counterTrackUuids name with
      | some uuid => (s.setRecorder r (rec.useCounter n name uuid use)).goto n (.inside r)
      | none =>
        let uuid := counterUuid rec.sequenceId rec.nextCounterIndex
        (s.setRecorder r (rec.giveCounter name)).goto n (.namingCounter r uuid name use)
  | .namingCounter r uuid name use =>
    (s.recorders r).map fun rec =>
      let named := { rec with core := rec.core.enterName uuid name }
      (s.setRecorder r (named.useCounter n name uuid use)).goto n (.inside r)
  | .inside r =>
    (s.recorders r).bind fun rec =>
      if rec.core.tasks (.caller n) = .idle then some (s.goto n .idle)
      else (rec.core.advance (.caller n)).map fun core => s.setRecorder r { rec with core }

/-- One step. -/
def step (s : Tracing) : TracingAction → Option Tracing
  | .create r sequenceId =>
    match s.recorders r with
    | some _ => none
    | none => some (s.setRecorder r { sequenceId })
  -- what the destructor does with the flush thread are calls and steps of its own
  | .destroy r => (s.recorders r).map fun rec => s.setRecorder r { rec with alive := false }
  | .setThreadTrackName n name =>
    if s.tasks n = .idle then
      some { s with locals := Function.update s.locals n { s.locals n with trackName := name } }
    else none
  | .record n r timestampNs mark => s.call n r fun rec =>
    if rec.core.captureActive then .resolving r timestampNs mark else .idle
  | .recordCounter n r timestampNs name value => s.call n r fun rec =>
    if rec.core.captureActive then .finding r name (.sample timestampNs value) else .idle
  | .setCounterUnit n r name unit => s.call n r fun _ => .finding r name (.setUnit unit)
  | .setCaptureActive n r active =>
    (s.call n r fun _ => .inside r).bind fun s' =>
      (s.recorders r).bind fun rec =>
        (rec.core.step (.setCaptureActive n active)).map fun core =>
          s'.setRecorder r { rec with core }
  | .advance n => s.resolve threadId n
  | .flush r =>
    (s.recorders r).bind fun rec =>
      (rec.core.advance .flusher).map fun core => s.setRecorder r { rec with core }

end Tracing

/-- The events that a thread has in its hands. -/
def Task.events : Task → List RawEvent
  | pushing evt => [evt]
  | encoding batch _ => batch
  | _ => []

/-- The packets that a thread has encoded and not handed over yet. -/
def Task.packets : Task → List Packet
  | encoding _ encoded => encoded
  | _ => []

namespace Recorder

/-- The event is not encoded yet. -/
def Carries (s : Recorder) (evt : RawEvent) : Prop :=
  evt ∈ s.buffer ∨ ∃ t, evt ∈ (s.tasks t).events

/-- The packet has been encoded. -/
def Emits (s : Recorder) (p : Packet) : Prop :=
  (∃ e ∈ s.sink, p ∈ e.2) ∨ ∃ t, p ∈ (s.tasks t).packets

end Recorder

namespace TrackRecorder

/-- Two threads, two counters, a thread and a counter have different uuids, a counter has one uuid,
and a track is described by the name that was entered for its thread or counter. -/
structure Identified (rec : TrackRecorder) : Prop where
  threads : ∀ n m uuid, (n, uuid) ∈ rec.threadTracks → (m, uuid) ∈ rec.threadTracks → n = m
  counters : ∀ name name' uuid, (name, uuid) ∈ rec.counterTracks →
    (name', uuid) ∈ rec.counterTracks → name = name'
  apart : ∀ n name uuid, (n, uuid) ∈ rec.threadTracks → (name, uuid) ∉ rec.counterTracks
  same : ∀ name uuid uuid', (name, uuid) ∈ rec.counterTracks →
    (name, uuid') ∈ rec.counterTracks → uuid = uuid'
  threadNames : ∀ timestampNs uuid trackName,
    rec.core.Emits (.trackDescriptor timestampNs uuid trackName) →
    ∃ n index, (n, uuid) ∈ rec.threadTracks ∧ rec.threadOf index = some (n, trackName) ∧
      uuid = threadUuid rec.sequenceId index
  counterNames : ∀ timestampNs uuid trackName unit,
    rec.core.Emits (.counterTrackDescriptor timestampNs uuid trackName unit) →
    (trackName, uuid) ∈ rec.counterTracks

/-- Fewer than 2^31 threads and counters. -/
def Few (rec : TrackRecorder) : Prop :=
  rec.nextThreadIndex ≤ 2 ^ 31 ∧ rec.nextCounterIndex ≤ 2 ^ 31

/-- The recorder gave that uuid to the thread. -/
def Gave (rec : TrackRecorder) (n uuid : Nat) : Prop :=
  ∃ index trackName, rec.threadOf index = some (n, trackName) ∧
    uuid = threadUuid rec.sequenceId index

end TrackRecorder

namespace Tracing

/-- A flush does not describe a counter whose name is not entered yet. -/
def NamedFirst (core : Recorder) (t : Thread) : Prop :=
  ∀ evt rest encoded, core.tasks t = .encoding (evt :: rest) encoded →
    evt.type = .counter → evt.trackUuid ∉ core.emittedTracks →
    (core.trackNames evt.trackUuid).isSome

/-- The condition on a step of a run. -/
def Steady (s : Tracing) : TracingAction → Prop
  | .advance n =>
    match s.tasks n with
    -- the uuid that the thread has kept is from this recorder
    | .resolving r _ _ => (s.locals n).trackUuid ≠ 0 →
      ∀ rec, s.recorders r = some rec → rec.Gave n (s.locals n).trackUuid
    | .inside r => ∀ rec, s.recorders r = some rec → NamedFirst rec.core (.caller n)
    | _ => True
  | .flush r => ∀ rec, s.recorders r = some rec → NamedFirst rec.core .flusher
  | _ => True

end Tracing

/-! ## Uuids -/

theorem toNat_sequence (sequenceId : UInt32) :
    (sequenceId.toUInt64 <<< 32).toNat = sequenceId.toNat <<< 32 := by
  have hlt := sequenceId.toNat_lt
  rw [UInt64.toNat_shiftLeft, UInt32.toNat_toUInt64, Nat.shiftLeft_eq, Nat.shiftLeft_eq]
  show sequenceId.toNat * 2 ^ 32 % 2 ^ 64 = _
  omega

theorem toNat_index {index : Nat} (h : index < 2 ^ 31) :
    (UInt32.ofNat index).toUInt64.toNat = index := by
  rw [UInt32.toNat_toUInt64, UInt32.toNat_ofNat']
  omega

theorem threadUuid_eq (sequenceId : UInt32) {index : Nat} (h : index < 2 ^ 31) :
    threadUuid sequenceId index = sequenceId.toNat * 2 ^ 32 + index := by
  have hlt : index < 2 ^ 32 := by omega
  rw [threadUuid, UInt64.toNat_or, toNat_sequence, toNat_index h,
    ← Nat.shiftLeft_add_eq_or_of_lt hlt, Nat.shiftLeft_eq]

theorem counterUuid_eq (sequenceId : UInt32) {index : Nat} (h : index < 2 ^ 31) :
    counterUuid sequenceId index = sequenceId.toNat * 2 ^ 32 + (2 ^ 31 + index) := by
  have hlow : kCounterTrackFlag.toNat ||| index = 1 <<< 31 + index :=
    (Nat.shiftLeft_add_eq_or_of_lt h 1).symm
  have hlt : 1 <<< 31 + index < 2 ^ 32 := by omega
  rw [counterUuid, UInt64.toNat_or, UInt64.toNat_or, toNat_sequence, toNat_index h, Nat.or_assoc,
    hlow, ← Nat.shiftLeft_add_eq_or_of_lt hlt, Nat.shiftLeft_eq]
  rfl

/-! ## What a recorder does with events -/

namespace Recorder

variable {s s' m : Recorder} {In : RawEvent → Prop} {New : Packet → Prop}

/-- Events come from where they were, or are as `In` says, and packets that were not there are as
`New` says. -/
structure Flow (In : RawEvent → Prop) (New : Packet → Prop) (s s' : Recorder) : Prop where
  names : s'.trackNames = s.trackNames
  carries : ∀ evt, s'.Carries evt → s.Carries evt ∨ In evt
  emits : ∀ p, s'.Emits p → s.Emits p ∨ New p

theorem Flow.of_eq (hnames : s'.trackNames = s.trackNames) (hbuffer : s'.buffer = s.buffer)
    (htasks : s'.tasks = s.tasks) (hsink : s'.sink = s.sink) : Flow In New s s' where
  names := hnames
  carries evt h := by
    unfold Carries at h
    rw [hbuffer, htasks] at h
    exact .inl h
  emits p h := by
    unfold Emits at h
    rw [hsink, htasks] at h
    exact .inl h

/-- The thread goes on with other events and packets. -/
theorem Flow.goto (h : Flow In New s m) {t : Thread} {task : Task}
    (hevents : ∀ evt ∈ task.events, s.Carries evt ∨ In evt)
    (hpackets : ∀ p ∈ task.packets, s.Emits p ∨ New p) : Flow In New s (m.goto t task) where
  names := h.names
  carries evt hevt := by
    rcases hevt with hbuffer | ⟨t', ht'⟩
    · exact h.carries evt (.inl hbuffer)
    · by_cases heq : t' = t
      · rw [heq, goto_self] at ht'
        exact hevents evt ht'
      · rw [goto_other heq] at ht'
        exact h.carries evt (.inr ⟨t', ht'⟩)
  emits p hp := by
    rcases hp with hsink | ⟨t', ht'⟩
    · exact h.emits p (.inl hsink)
    · by_cases heq : t' = t
      · rw [heq, goto_self] at ht'
        exact hpackets p ht'
      · rw [goto_other heq] at ht'
        exact h.emits p (.inr ⟨t', ht'⟩)

/-- An event is about to be pushed. -/
theorem flow_pushing (t : Thread) (evt : RawEvent) :
    Flow (· = evt) New s (s.goto t (.pushing evt)) := by
  refine Flow.goto (Flow.of_eq rfl rfl rfl rfl) (fun e he => ?_) fun p hp =>
    absurd hp List.not_mem_nil
  exact .inr (List.mem_singleton.1 he)

/-- A packet that a step of the thread encodes. -/
def Encodes (s : Recorder) (t : Thread) (p : Packet) : Prop :=
  ∃ evt rest encoded, s.tasks t = .encoding (evt :: rest) encoded ∧
    (p = evt.packet ∨ p = s.descriptor evt ∧ evt.trackUuid ∉ s.emittedTracks)

/-- One event is encoded. -/
theorem flow_encodeEvent {t : Thread} {evt : RawEvent} {rest : List RawEvent}
    {encoded : List Packet} (htask : s.tasks t = .encoding (evt :: rest) encoded) :
    Flow (fun _ => False) (s.Encodes t) s (s.encodeEvent t evt rest encoded) := by
  have hrest : ∀ e ∈ rest, s.Carries e ∨ False := by
    intro e he
    refine .inl (.inr ⟨t, ?_⟩)
    rw [htask]
    exact List.mem_cons_of_mem _ he
  have hold : ∀ p ∈ encoded, s.Emits p := by
    intro p hp
    refine .inr ⟨t, ?_⟩
    rw [htask]
    exact hp
  have hpacket : s.Encodes t evt.packet := ⟨evt, rest, encoded, htask, .inl rfl⟩
  unfold encodeEvent
  split
  · refine Flow.goto (Flow.of_eq rfl rfl rfl rfl) hrest fun p hp => ?_
    rcases List.mem_append.1 hp with hp | hp
    · exact .inl (hold p hp)
    · rw [List.mem_singleton.1 hp]
      exact .inr hpacket
  · rename_i hnew
    have hmid : Flow (fun _ => False) (s.Encodes t) s { s with
        emittedTracks := s.emittedTracks ++ [evt.trackUuid]
        freshTracks := s.freshTracks ++ [evt.trackUuid] } := Flow.of_eq rfl rfl rfl rfl
    refine hmid.goto hrest fun p hp => ?_
    rcases List.mem_append.1 hp with hp | hp
    · exact .inl (hold p hp)
    · rcases List.mem_cons.1 hp with rfl | hp
      · exact .inr ⟨evt, rest, encoded, htask, .inr ⟨rfl, hnew⟩⟩
      · rw [List.mem_singleton.1 hp]
        exact .inr hpacket

/-- A step of a thread: events move on, and an event that is encoded gives its packets. -/
theorem flow_advance {t : Thread} (hstep : s.advance t = some s') :
    Flow (fun _ => False) (s.Encodes t) s s' := by
  have hplain {m : Recorder} {task : Task} (hm : Flow (fun _ => False) (s.Encodes t) s m)
      (hevents : task.events = []) (hpackets : task.packets = []) :
      Flow (fun _ => False) (s.Encodes t) s (m.goto t task) := by
    refine hm.goto (fun e he => ?_) fun p hp => ?_
    · rw [hevents] at he
      exact absurd he List.not_mem_nil
    · rw [hpackets] at hp
      exact absurd hp List.not_mem_nil
  have hsame {m : Recorder} (hnames : m.trackNames = s.trackNames) (hbuffer : m.buffer = s.buffer)
      (htasks : m.tasks = s.tasks) (hsink : m.sink = s.sink) :
      Flow (fun _ => False) (s.Encodes t) s m :=
    Flow.of_eq hnames hbuffer htasks hsink
  have hafter : (afterFlush t).events = [] ∧ (afterFlush t).packets = [] := by
    cases t <;> exact ⟨rfl, rfl⟩
  unfold Recorder.advance at hstep
  cases htask : s.tasks t with
  | idle =>
    rw [htask] at hstep
    cases hstep
  | pushing evt =>
    rw [htask] at hstep
    cases hstep
    have hevt : s.Carries evt := by
      refine .inr ⟨t, ?_⟩
      rw [htask]
      exact List.mem_singleton_self _
    refine hplain ⟨rfl, fun e he => .inl ?_, fun p hp => .inl hp⟩ rfl rfl
    rcases he with hbuffer | htask
    · rcases List.mem_append.1 hbuffer with hbuffer | hbuffer
      · exact .inl hbuffer
      · rw [List.mem_singleton.1 hbuffer]
        exact hevt
    · exact .inr htask
  | setting active =>
    rw [htask] at hstep
    cases hstep
    have hset : Flow (fun _ => False) (s.Encodes t) s (s.setActive active) := by
      unfold Recorder.setActive
      split <;> exact hsame rfl rfl rfl rfl
    cases active <;> exact hplain hset rfl rfl
  | starting =>
    rw [htask] at hstep
    cases hstep
    exact hplain (hsame rfl rfl rfl rfl) rfl rfl
  | spawning =>
    rw [htask] at hstep
    by_cases hjoinable : s.joinable
    · simp only [hjoinable, if_true] at hstep
      cases hstep
    · simp only [hjoinable] at hstep
      cases hstep
      have hmid : Flow (fun _ => False) (s.Encodes t) s
          (Recorder.goto { s with joinable := true } t .idle) :=
        hplain (hsame rfl rfl rfl rfl) rfl rfl
      exact hmid.goto (fun _ he => absurd he List.not_mem_nil) fun _ hp =>
        absurd hp List.not_mem_nil
  | stopping =>
    rw [htask] at hstep
    cases hstep
    exact hplain (hsame rfl rfl rfl rfl) rfl rfl
  | joining =>
    rw [htask] at hstep
    by_cases hjoinable : s.joinable
    · by_cases hfinished : s.tasks .flusher = .idle
      · simp only [hjoinable, hfinished, if_true, Option.some.injEq] at hstep
        subst hstep
        exact hplain (hsame rfl rfl rfl rfl) rfl rfl
      · simp only [hjoinable, hfinished, if_true, if_false] at hstep
        cases hstep
    · simp only [hjoinable] at hstep
      cases hstep
      exact hplain (hsame rfl rfl rfl rfl) rfl rfl
  | waiting =>
    rw [htask] at hstep
    cases hstep
    split <;> exact hplain (hsame rfl rfl rfl rfl) rfl rfl
  | taking =>
    rw [htask] at hstep
    by_cases hempty : s.buffer.isEmpty
    · simp only [hempty, if_true, Option.some.injEq] at hstep
      subst hstep
      exact hplain (hsame rfl rfl rfl rfl) hafter.1 hafter.2
    · simp only [hempty] at hstep
      cases hstep
      have hmid : Flow (fun _ => False) (s.Encodes t) s { s with buffer := [] } :=
        ⟨rfl, fun e he => .inl (.inr (he.resolve_left List.not_mem_nil)), fun p hp => .inl hp⟩
      exact hmid.goto (fun e he => .inl (.inl he)) fun p hp => absurd hp List.not_mem_nil
  | encoding batch encoded =>
    rw [htask] at hstep
    cases batch with
    | nil =>
      cases hstep
      refine hplain ⟨rfl, fun e he => .inl he, fun p hp => ?_⟩ hafter.1 hafter.2
      rcases hp with ⟨e, he, hp⟩ | hp
      · rcases List.mem_append.1 he with he | he
        · exact .inl (.inl ⟨e, he, hp⟩)
        · rw [List.mem_singleton.1 he] at hp
          refine .inl (.inr ⟨t, ?_⟩)
          rw [htask]
          exact hp
      · exact .inl (.inr hp)
    | cons evt rest =>
      cases hstep
      exact flow_encodeEvent htask

end Recorder

/-! ## The tables of a recorder -/

namespace TrackRecorder

variable {rec rec' rec'' : TrackRecorder}

/-- A thread or a counter has that uuid, and that name was entered for it. -/
def Named (rec : TrackRecorder) (uuid : Nat) (trackName : String) : Prop :=
  (∃ index n, rec.threadOf index = some (n, trackName) ∧
    uuid = threadUuid rec.sequenceId index) ∨
  ∃ index, rec.counterOf index = some trackName ∧ uuid = counterUuid rec.sequenceId index

/-- The event is on a track of this recorder; that of a thread has its name. -/
def Known (rec : TrackRecorder) (evt : RawEvent) : Prop :=
  if evt.type = .counter then ∃ name, (name, evt.trackUuid) ∈ rec.counterTracks
  else (∃ n, (n, evt.trackUuid) ∈ rec.threadTracks) ∧ (rec.core.trackNames evt.trackUuid).isSome

/-- A descriptor is of a track of this recorder and has its name. -/
def Allowed (rec : TrackRecorder) : Packet → Prop
  | .trackDescriptor _ uuid trackName =>
    (∃ n, (n, uuid) ∈ rec.threadTracks) ∧ rec.Named uuid trackName
  | .counterTrackDescriptor _ uuid trackName _ =>
    (∃ name, (name, uuid) ∈ rec.counterTracks) ∧ rec.Named uuid trackName
  | _ => True

/-- What every step of a recorder keeps. -/
structure Sound (rec : TrackRecorder) : Prop where
  threadIndex : ∀ index x, rec.threadOf index = some x → index < rec.nextThreadIndex
  counterIndex : ∀ index name, rec.counterOf index = some name → index < rec.nextCounterIndex
  counterUuids : ∀ name uuid, rec.counterTrackUuids name = some uuid →
    ∃ index, rec.counterOf index = some name ∧ uuid = counterUuid rec.sequenceId index
  names : ∀ uuid trackName, rec.core.trackNames uuid = some trackName → rec.Named uuid trackName
  threadTracks : ∀ n uuid, (n, uuid) ∈ rec.threadTracks → rec.Gave n uuid
  counterTracks : ∀ name uuid, (name, uuid) ∈ rec.counterTracks →
    rec.counterTrackUuids name = some uuid
  carries : ∀ evt, rec.core.Carries evt → rec.Known evt
  emits : ∀ p, rec.core.Emits p → rec.Allowed p

/-- What was given and entered stays. -/
structure Grows (rec rec' : TrackRecorder) : Prop where
  sequenceId : rec'.sequenceId = rec.sequenceId
  threadOf : ∀ index x, rec.threadOf index = some x → rec'.threadOf index = some x
  counterOf : ∀ index x, rec.counterOf index = some x → rec'.counterOf index = some x
  counterUuids : ∀ name uuid, rec.counterTrackUuids name = some uuid →
    rec'.counterTrackUuids name = some uuid
  threadTracks : rec.threadTracks ⊆ rec'.threadTracks
  counterTracks : rec.counterTracks ⊆ rec'.counterTracks
  names : ∀ uuid, (rec.core.trackNames uuid).isSome → (rec'.core.trackNames uuid).isSome

theorem Grows.refl (rec : TrackRecorder) : rec.Grows rec :=
  ⟨rfl, fun _ _ => id, fun _ _ => id, fun _ _ => id, List.Subset.refl _, List.Subset.refl _,
    fun _ => id⟩

theorem Grows.trans (h : rec.Grows rec') (h' : rec'.Grows rec'') : rec.Grows rec'' where
  sequenceId := h'.sequenceId.trans h.sequenceId
  threadOf i x hx := h'.threadOf i x (h.threadOf i x hx)
  counterOf i x hx := h'.counterOf i x (h.counterOf i x hx)
  counterUuids c u hu := h'.counterUuids c u (h.counterUuids c u hu)
  threadTracks := List.Subset.trans h.threadTracks h'.threadTracks
  counterTracks := List.Subset.trans h.counterTracks h'.counterTracks
  names u hu := h'.names u (h.names u hu)

theorem Gave.grows {n uuid : Nat} (h : rec.Gave n uuid) (hg : rec.Grows rec') :
    rec'.Gave n uuid := by
  obtain ⟨index, trackName, hindex, huuid⟩ := h
  exact ⟨index, trackName, hg.threadOf _ _ hindex, hg.sequenceId ▸ huuid⟩

theorem Named.grows {uuid : Nat} {trackName : String} (h : rec.Named uuid trackName)
    (hg : rec.Grows rec') : rec'.Named uuid trackName := by
  rcases h with ⟨index, n, hindex, huuid⟩ | ⟨index, hindex, huuid⟩
  · exact .inl ⟨index, n, hg.threadOf _ _ hindex, hg.sequenceId ▸ huuid⟩
  · exact .inr ⟨index, hg.counterOf _ _ hindex, hg.sequenceId ▸ huuid⟩

theorem Known.grows {evt : RawEvent} (h : rec.Known evt) (hg : rec.Grows rec') :
    rec'.Known evt := by
  unfold Known at h ⊢
  split at h
  · rename_i hcounter
    obtain ⟨name, hname⟩ := h
    rw [if_pos hcounter]
    exact ⟨name, hg.counterTracks hname⟩
  · rename_i hmark
    obtain ⟨⟨n, hn⟩, hname⟩ := h
    rw [if_neg hmark]
    exact ⟨⟨n, hg.threadTracks hn⟩, hg.names _ hname⟩

theorem Allowed.grows {p : Packet} (h : rec.Allowed p) (hg : rec.Grows rec') :
    rec'.Allowed p := by
  cases p with
  | trackDescriptor timestampNs uuid trackName =>
    obtain ⟨⟨n, hn⟩, hnamed⟩ := h
    exact ⟨⟨n, hg.threadTracks hn⟩, hnamed.grows hg⟩
  | counterTrackDescriptor timestampNs uuid trackName unit =>
    obtain ⟨⟨name, hname⟩, hnamed⟩ := h
    exact ⟨⟨name, hg.counterTracks hname⟩, hnamed.grows hg⟩
  | trackEvent => trivial
  | counterEvent => trivial

/-- A step of the recorder itself. -/
theorem Sound.flow (h : rec.Sound) {core : Recorder} {In : RawEvent → Prop} {New : Packet → Prop}
    (hflow : Recorder.Flow In New rec.core core) (hin : ∀ evt, In evt → rec.Known evt)
    (hnew : ∀ p, New p → rec.Allowed p) :
    Sound { rec with core } ∧ rec.Grows { rec with core } := by
  have hgrows : rec.Grows { rec with core } :=
    ⟨rfl, fun _ _ => id, fun _ _ => id, fun _ _ => id, List.Subset.refl _, List.Subset.refl _,
      fun u hu => by rwa [hflow.names]⟩
  refine ⟨⟨h.threadIndex, h.counterIndex, h.counterUuids, fun u nm hu => ?_, h.threadTracks,
    h.counterTracks, fun evt hevt => ?_, fun p hp => ?_⟩, hgrows⟩
  · rw [hflow.names] at hu
    exact h.names u nm hu
  · exact ((hflow.carries evt hevt).elim (h.carries evt) (hin evt)).grows hgrows
  · exact ((hflow.emits p hp).elim (h.emits p) (hnew p)).grows hgrows

/-- A thread flushes, and no counter is described before its name is entered. -/
theorem Sound.advance (h : rec.Sound) {t : Thread} (hfirst : Tracing.NamedFirst rec.core t)
    {core : Recorder} (hstep : rec.core.advance t = some core) :
    Sound { rec with core } ∧ rec.Grows { rec with core } := by
  refine h.flow (Recorder.flow_advance hstep) (fun _ => False.elim) fun p hp => ?_
  obtain ⟨evt, rest, encoded, htask, rfl | ⟨rfl, hnew⟩⟩ := hp
  · unfold RawEvent.packet
    split <;> trivial
  · have hknown := h.carries evt (.inr ⟨t, by rw [htask]; exact List.mem_cons_self⟩)
    unfold Known at hknown
    unfold Recorder.descriptor
    by_cases hcounter : evt.type = .counter
    · rw [if_pos hcounter] at hknown
      obtain ⟨trackName, hname⟩ :=
        Option.isSome_iff_exists.1 (hfirst evt rest encoded htask hcounter hnew)
      simp only [hcounter, if_true, hname, Option.getD_some]
      exact ⟨hknown, h.names _ _ hname⟩
    · rw [if_neg hcounter] at hknown
      obtain ⟨trackName, hname⟩ := Option.isSome_iff_exists.1 hknown.2
      simp only [hcounter, if_false, hname, Option.getD_some]
      exact ⟨hknown.1, h.names _ _ hname⟩

theorem Sound.giveThread (h : rec.Sound) (n : Nat) (trackName : String) :
    (rec.giveThread n trackName).Sound ∧ rec.Grows (rec.giveThread n trackName) := by
  have hgrows : rec.Grows (rec.giveThread n trackName) := by
    refine ⟨rfl, fun index x hx => ?_, fun _ _ => id, fun _ _ => id, List.Subset.refl _,
      List.Subset.refl _, fun _ => id⟩
    have hne : index ≠ rec.nextThreadIndex := Nat.ne_of_lt (h.threadIndex index x hx)
    exact (Function.update_of_ne hne ..).trans hx
  refine ⟨⟨fun index x hx => ?_, h.counterIndex, h.counterUuids, fun u nm hu => ?_,
    fun m u hu => ?_, h.counterTracks, fun evt hevt => ?_, fun p hp => ?_⟩, hgrows⟩
  · by_cases heq : index = rec.nextThreadIndex
    · rw [heq]
      exact Nat.lt_succ_self _
    · have hold : rec.threadOf index = some x := (Function.update_of_ne heq ..).symm.trans hx
      exact Nat.lt_succ_of_lt (h.threadIndex index x hold)
  · exact (h.names u nm hu).grows hgrows
  · exact (h.threadTracks m u hu).grows hgrows
  · exact (h.carries evt hevt).grows hgrows
  · exact (h.emits p hp).grows hgrows

theorem Sound.giveCounter (h : rec.Sound) {name : String}
    (hnone : rec.counterTrackUuids name = none) :
    (rec.giveCounter name).Sound ∧ rec.Grows (rec.giveCounter name) := by
  have hgrows : rec.Grows (rec.giveCounter name) := by
    refine ⟨rfl, fun _ _ => id, fun index x hx => ?_, fun c u hu => ?_, List.Subset.refl _,
      List.Subset.refl _, fun _ => id⟩
    · have hne : index ≠ rec.nextCounterIndex := Nat.ne_of_lt (h.counterIndex index x hx)
      exact (Function.update_of_ne hne ..).trans hx
    · have hne : c ≠ name := by
        rintro rfl
        rw [hnone] at hu
        cases hu
      exact (Function.update_of_ne hne ..).trans hu
  refine ⟨⟨h.threadIndex, fun index x hx => ?_, fun c u hu => ?_, fun u nm hu => ?_,
    fun m u hu => (h.threadTracks m u hu).grows hgrows,
    fun c u hu => hgrows.counterUuids c u (h.counterTracks c u hu),
    fun evt hevt => (h.carries evt hevt).grows hgrows,
    fun p hp => (h.emits p hp).grows hgrows⟩, hgrows⟩
  · by_cases heq : index = rec.nextCounterIndex
    · rw [heq]
      exact Nat.lt_succ_self _
    · have hold : rec.counterOf index = some x := (Function.update_of_ne heq ..).symm.trans hx
      exact Nat.lt_succ_of_lt (h.counterIndex index x hold)
  · by_cases heq : c = name
    · subst heq
      have huuid := (Function.update_self ..).symm.trans hu
      exact ⟨rec.nextCounterIndex, Function.update_self .., (Option.some.inj huuid).symm⟩
    · obtain ⟨index, hindex, huuid⟩ :=
        h.counterUuids c u ((Function.update_of_ne heq ..).symm.trans hu)
      exact ⟨index, hgrows.counterOf index c hindex, huuid⟩
  · exact (h.names u nm hu).grows hgrows

/-- A name is entered. -/
theorem Sound.enterName (h : rec.Sound) {uuid : Nat} {trackName : String}
    (hnamed : rec.Named uuid trackName) :
    Sound { rec with core := rec.core.enterName uuid trackName } ∧
    rec.Grows { rec with core := rec.core.enterName uuid trackName } := by
  have hgrows : rec.Grows { rec with core := rec.core.enterName uuid trackName } := by
    refine ⟨rfl, fun _ _ => id, fun _ _ => id, fun _ _ => id, List.Subset.refl _,
      List.Subset.refl _, fun u hu => ?_⟩
    show (Function.update rec.core.trackNames uuid (some trackName) u).isSome
    by_cases heq : u = uuid
    · rw [heq, Function.update_self]
      rfl
    · rwa [Function.update_of_ne heq]
  refine ⟨⟨h.threadIndex, h.counterIndex, h.counterUuids, fun u nm hu => ?_, h.threadTracks,
    h.counterTracks, fun evt hevt => (h.carries evt hevt).grows hgrows,
    fun p hp => (h.emits p hp).grows hgrows⟩, hgrows⟩
  by_cases heq : u = uuid
  · subst heq
    have hsame : some trackName = some nm := by
      rwa [← Function.update_self u (some trackName) rec.core.trackNames]
    cases hsame
    exact hnamed
  · exact h.names u nm ((Function.update_of_ne heq ..).symm.trans hu)

/-- `thread_track_uuid` returns a uuid that has its name. -/
theorem Sound.pushThread (h : rec.Sound) {n : Nat} {evt : RawEvent} (htype : evt.type ≠ .counter)
    (hgave : rec.Gave n evt.trackUuid) (hname : (rec.core.trackNames evt.trackUuid).isSome) :
    (rec.pushThread n evt).Sound ∧ rec.Grows (rec.pushThread n evt) := by
  let logged := { rec with threadTracks := rec.threadTracks ++ [(n, evt.trackUuid)] }
  have hgrows : rec.Grows logged :=
    ⟨rfl, fun _ _ => id, fun _ _ => id, fun _ _ => id, List.subset_append_left _ _,
      List.Subset.refl _, fun _ => id⟩
  have hlogged : logged.Sound := by
    refine ⟨h.threadIndex, h.counterIndex, h.counterUuids, h.names, fun m u hu => ?_,
      h.counterTracks, fun e he => (h.carries e he).grows hgrows,
      fun p hp => (h.emits p hp).grows hgrows⟩
    rcases List.mem_append.1 hu with hu | hu
    · exact h.threadTracks m u hu
    · cases List.mem_singleton.1 hu
      exact hgave
  have hknown : ∀ e, e = evt → logged.Known e := by
    rintro e rfl
    unfold Known
    rw [if_neg htype]
    exact ⟨⟨n, List.mem_append_right _ (List.mem_singleton_self _)⟩, hname⟩
  have hflow : Recorder.Flow (· = evt) (fun _ => False) rec.core
      (rec.core.goto (.caller n) (.pushing evt)) := Recorder.flow_pushing _ _
  have hpushed := hlogged.flow hflow hknown fun _ => False.elim
  exact ⟨hpushed.1, hgrows.trans hpushed.2⟩

/-- `counter_track_uuid` returns. -/
theorem Sound.useCounter (h : rec.Sound) {n uuid : Nat} {name : String}
    (huuid : rec.counterTrackUuids name = some uuid) (use : CounterUse) :
    (rec.useCounter n name uuid use).Sound ∧ rec.Grows (rec.useCounter n name uuid use) := by
  let logged := { rec with counterTracks := rec.counterTracks ++ [(name, uuid)] }
  have hgrows : rec.Grows logged :=
    ⟨rfl, fun _ _ => id, fun _ _ => id, fun _ _ => id, List.Subset.refl _,
      List.subset_append_left _ _, fun _ => id⟩
  have hlogged : logged.Sound := by
    refine ⟨h.threadIndex, h.counterIndex, h.counterUuids, h.names, h.threadTracks,
      fun c u hu => ?_, fun e he => (h.carries e he).grows hgrows,
      fun p hp => (h.emits p hp).grows hgrows⟩
    rcases List.mem_append.1 hu with hu | hu
    · exact h.counterTracks c u hu
    · cases List.mem_singleton.1 hu
      exact huuid
  have hmem : (name, uuid) ∈ logged.counterTracks :=
    List.mem_append_right _ (List.mem_singleton_self _)
  have hused : ∃ In, Recorder.Flow In (fun _ => False) logged.core
      (rec.useCounter n name uuid use).core ∧ ∀ e, In e → logged.Known e := by
    cases use with
    | sample timestampNs value =>
      exact ⟨_, Recorder.flow_pushing _ _, fun e he => he ▸ ⟨name, hmem⟩⟩
    | setUnit unit =>
      exact ⟨fun _ => False, Recorder.Flow.of_eq rfl rfl rfl rfl, fun _ => False.elim⟩
  obtain ⟨In, hflow, hin⟩ := hused
  have hdone := hlogged.flow hflow hin fun _ => False.elim
  exact ⟨hdone.1, hgrows.trans hdone.2⟩

/-- Few indices give different uuids. -/
theorem Sound.identified (h : rec.Sound) (hfew : rec.Few) : rec.Identified := by
  have hthread {index : Nat} {x : Nat × String} (hx : rec.threadOf index = some x) :
      index < 2 ^ 31 :=
    Nat.lt_of_lt_of_le (h.threadIndex index x hx) hfew.1
  have hcounter {index : Nat} {name : String} (hx : rec.counterOf index = some name) :
      index < 2 ^ 31 :=
    Nat.lt_of_lt_of_le (h.counterIndex index name hx) hfew.2
  -- what a uuid says of who has it
  have hthreads {i j : Nat} {x y : Nat × String} (hi : rec.threadOf i = some x)
      (hj : rec.threadOf j = some y)
      (heq : threadUuid rec.sequenceId i = threadUuid rec.sequenceId j) : x = y := by
    rw [threadUuid_eq _ (hthread hi), threadUuid_eq _ (hthread hj)] at heq
    obtain rfl := Nat.add_left_cancel heq
    exact Option.some.inj (hi.symm.trans hj)
  have hcounters {i j : Nat} {x y : String} (hi : rec.counterOf i = some x)
      (hj : rec.counterOf j = some y)
      (heq : counterUuid rec.sequenceId i = counterUuid rec.sequenceId j) : x = y := by
    rw [counterUuid_eq _ (hcounter hi), counterUuid_eq _ (hcounter hj)] at heq
    obtain rfl := Nat.add_left_cancel (Nat.add_left_cancel heq)
    exact Option.some.inj (hi.symm.trans hj)
  have hapart {i j : Nat} {x : Nat × String} {y : String} (hi : rec.threadOf i = some x)
      (hj : rec.counterOf j = some y) :
      threadUuid rec.sequenceId i ≠ counterUuid rec.sequenceId j := by
    have hlt := hthread hi
    rw [threadUuid_eq _ hlt, counterUuid_eq _ (hcounter hj)]
    omega
  refine ⟨fun n m uuid hn hm => ?_, fun c c' uuid hc hc' => ?_, fun n c uuid hn hc => ?_,
    fun c uuid uuid' hc hc' => ?_, fun timestampNs uuid trackName hp => ?_,
    fun timestampNs uuid trackName unit hp => ?_⟩
  · obtain ⟨i, x, hi, hu⟩ := h.threadTracks n uuid hn
    obtain ⟨j, y, hj, hu'⟩ := h.threadTracks m uuid hm
    exact congrArg Prod.fst (hthreads hi hj (hu.symm.trans hu'))
  · obtain ⟨i, hi, hu⟩ := h.counterUuids c uuid (h.counterTracks c uuid hc)
    obtain ⟨j, hj, hu'⟩ := h.counterUuids c' uuid (h.counterTracks c' uuid hc')
    exact hcounters hi hj (hu.symm.trans hu')
  · obtain ⟨i, x, hi, hu⟩ := h.threadTracks n uuid hn
    obtain ⟨j, hj, hu'⟩ := h.counterUuids c uuid (h.counterTracks c uuid hc)
    exact hapart hi hj (hu.symm.trans hu')
  · have hu := h.counterTracks c uuid hc
    rw [h.counterTracks c uuid' hc'] at hu
    exact (Option.some.inj hu).symm
  · obtain ⟨⟨n, hn⟩, hnamed⟩ := h.emits _ hp
    obtain ⟨i, x, hi, hu⟩ := h.threadTracks n uuid hn
    rcases hnamed with ⟨j, m, hj, hu'⟩ | ⟨j, hj, hu'⟩
    · have hsame : n = m := congrArg Prod.fst (hthreads hi hj (hu.symm.trans hu'))
      exact ⟨n, j, hn, hsame ▸ hj, hu'⟩
    · exact (hapart hi hj (hu.symm.trans hu')).elim
  · obtain ⟨⟨c, hc⟩, hnamed⟩ := h.emits _ hp
    obtain ⟨i, hi, hu⟩ := h.counterUuids c uuid (h.counterTracks c uuid hc)
    rcases hnamed with ⟨j, m, hj, hu'⟩ | ⟨j, hj, hu'⟩
    · exact (hapart hj hi (hu'.symm.trans hu)).elim
    · rwa [← hcounters hi hj (hu.symm.trans hu')]

end TrackRecorder

/-! ## Runs -/

namespace Tracing

variable {s s' : Tracing}

/-- What every steady step keeps. -/
structure Sound (s : Tracing) : Prop where
  recorders : ∀ r rec, s.recorders r = some rec → rec.Sound
  entered : ∀ r rec, s.recorders r = some rec → ∀ index n trackName,
    rec.threadOf index = some (n, trackName) →
    (rec.core.trackNames (threadUuid rec.sequenceId index)).isSome ∨
    ∃ evt, s.tasks n = .naming r trackName evt ∧ evt.trackUuid = threadUuid rec.sequenceId index
  naming : ∀ n r trackName evt, s.tasks n = .naming r trackName evt →
    evt.type ≠ .counter ∧ ∃ rec, s.recorders r = some rec ∧ ∃ index,
      rec.threadOf index = some (n, trackName) ∧ evt.trackUuid = threadUuid rec.sequenceId index
  namingCounter : ∀ n r uuid name use, s.tasks n = .namingCounter r uuid name use →
    ∃ rec, s.recorders r = some rec ∧ rec.counterTrackUuids name = some uuid

theorem sound_init : Sound {} where
  recorders := fun _ _ h => nomatch h
  entered := fun _ _ h => nomatch h
  naming := fun _ _ _ _ h => nomatch h
  namingCounter := fun _ _ _ _ _ h => nomatch h

/-- A recorder and the tasks change. -/
theorem Sound.update (h : s.Sound) {r : Nat} {rec rec' : TrackRecorder}
    {locals : Nat → ThreadLocal} {tasks : Nat → TrackTask}
    (hrec : s.recorders r = some rec) (hsound : rec'.Sound) (hgrows : rec.Grows rec')
    (hleft : ∀ n r' trackName evt, s.tasks n = .naming r' trackName evt →
      tasks n = .naming r' trackName evt ∨
      r' = r ∧ (rec'.core.trackNames evt.trackUuid).isSome)
    (hgiven : ∀ index n trackName, rec'.threadOf index = some (n, trackName) →
      rec.threadOf index = some (n, trackName) ∨
      ∃ evt, tasks n = .naming r trackName evt ∧
        evt.trackUuid = threadUuid rec'.sequenceId index)
    (hnaming : ∀ n r' trackName evt, tasks n = .naming r' trackName evt →
      s.tasks n = .naming r' trackName evt ∨ r' = r ∧ evt.type ≠ .counter ∧ ∃ index,
        rec'.threadOf index = some (n, trackName) ∧
        evt.trackUuid = threadUuid rec'.sequenceId index)
    (hcounter : ∀ n r' uuid name use, tasks n = .namingCounter r' uuid name use →
      s.tasks n = .namingCounter r' uuid name use ∨
      r' = r ∧ rec'.counterTrackUuids name = some uuid) :
    Sound { s.setRecorder r rec' with locals, tasks } := by
  have hself : Function.update s.recorders r (some rec') r = some rec' := Function.update_self ..
  have hother {r' : Nat} (hne : r' ≠ r) :
      Function.update s.recorders r (some rec') r' = s.recorders r' :=
    Function.update_of_ne hne ..
  refine ⟨fun r' x hx => ?_, fun r' x hx index n nm hindex => ?_, fun n r' nm evt htask => ?_,
    fun n r' u name use htask => ?_⟩
  · by_cases heq : r' = r
    · subst heq
      obtain rfl := Option.some.inj (hself.symm.trans hx)
      exact hsound
    · exact h.recorders r' x ((hother heq).symm.trans hx)
  · by_cases heq : r' = r
    · subst heq
      obtain rfl := Option.some.inj (hself.symm.trans hx)
      rcases hgiven index n nm hindex with hold | hnew
      · rcases h.entered r' rec hrec index n nm hold with hname | ⟨evt, htask, huuid⟩
        · rw [← hgrows.sequenceId] at hname
          exact .inl (hgrows.names _ hname)
        · rw [← hgrows.sequenceId] at huuid
          rcases hleft n r' nm evt htask with hstill | ⟨-, hname⟩
          · exact .inr ⟨evt, hstill, huuid⟩
          · exact .inl (huuid ▸ hname)
      · exact .inr hnew
    · have hx' := (hother heq).symm.trans hx
      rcases h.entered r' x hx' index n nm hindex with hname | ⟨evt, htask, huuid⟩
      · exact .inl hname
      · rcases hleft n r' nm evt htask with hstill | ⟨hr, -⟩
        · exact .inr ⟨evt, hstill, huuid⟩
        · exact absurd hr heq
  · rcases hnaming n r' nm evt htask with hold | ⟨rfl, htype, hindex⟩
    · obtain ⟨htype, x, hx, index, hindex, huuid⟩ := h.naming n r' nm evt hold
      refine ⟨htype, ?_⟩
      by_cases heq : r' = r
      · subst heq
        obtain rfl := Option.some.inj (hrec.symm.trans hx)
        exact ⟨rec', hself, index, hgrows.threadOf _ _ hindex, hgrows.sequenceId ▸ huuid⟩
      · exact ⟨x, (hother heq).trans hx, index, hindex, huuid⟩
    · exact ⟨htype, rec', hself, hindex⟩
  · rcases hcounter n r' u name use htask with hold | ⟨rfl, huuid⟩
    · obtain ⟨x, hx, huuid⟩ := h.namingCounter n r' u name use hold
      by_cases heq : r' = r
      · subst heq
        obtain rfl := Option.some.inj (hrec.symm.trans hx)
        exact ⟨rec', hself, hgrows.counterUuids _ _ huuid⟩
      · exact ⟨x, (hother heq).trans hx, huuid⟩
    · exact ⟨rec', hself, huuid⟩

/-- A step of a recorder alone. -/
theorem Sound.replace (h : s.Sound) {r : Nat} {rec rec' : TrackRecorder}
    (hrec : s.recorders r = some rec) (hof : rec'.threadOf = rec.threadOf)
    (hnew : rec'.Sound ∧ rec.Grows rec') : (s.setRecorder r rec').Sound :=
  h.update hrec hnew.1 hnew.2 (fun _ _ _ _ htask => .inl htask)
    (fun _ _ _ hindex => .inl (hof ▸ hindex)) (fun _ _ _ _ htask => .inl htask)
    fun _ _ _ _ _ htask => .inl htask

/-- No name is being entered. -/
def Plain (task : TrackTask) : Prop :=
  (∀ r trackName evt, task ≠ .naming r trackName evt) ∧
  ∀ r uuid name use, task ≠ .namingCounter r uuid name use

theorem plain_inside (r : Nat) : Plain (.inside r) := ⟨nofun, nofun⟩

/-- A step of a thread with a recorder, after which no name is being entered. -/
theorem Sound.goto (h : s.Sound) {n r : Nat} {task : TrackTask} {rec rec' : TrackRecorder}
    (hrec : s.recorders r = some rec) (hof : rec'.threadOf = rec.threadOf)
    (hnew : rec'.Sound ∧ rec.Grows rec')
    (hfrom : ∀ r' trackName evt, s.tasks n = .naming r' trackName evt →
      r' = r ∧ (rec'.core.trackNames evt.trackUuid).isSome)
    (hto : Plain task) : ((s.setRecorder r rec').goto n task).Sound := by
  have hself : Function.update s.tasks n task n = task := Function.update_self ..
  have hother {m : Nat} (hne : m ≠ n) : Function.update s.tasks n task m = s.tasks m :=
    Function.update_of_ne hne ..
  refine h.update hrec hnew.1 hnew.2 (fun m r' nm evt htask => ?_)
    (fun _ _ _ hindex => .inl (hof ▸ hindex)) (fun m r' nm evt htask => ?_)
    fun m r' u name use htask => ?_
  · by_cases heq : m = n
    · subst heq
      exact .inr (hfrom r' nm evt htask)
    · exact .inl ((hother heq).trans htask)
  · by_cases heq : m = n
    · subst heq
      exact (hto.1 r' nm evt (hself.symm.trans htask)).elim
    · exact .inl ((hother heq).symm.trans htask)
  · by_cases heq : m = n
    · subst heq
      exact (hto.2 r' u name use (hself.symm.trans htask)).elim
    · exact .inl ((hother heq).symm.trans htask)

theorem setRecorder_self {r : Nat} {rec : TrackRecorder} (hrec : s.recorders r = some rec) :
    s.setRecorder r rec = s := by
  unfold setRecorder
  rw [← hrec, Function.update_eq_self]

/-- A step of a thread alone. -/
theorem Sound.move (h : s.Sound) {n r : Nat} {task : TrackTask} {rec : TrackRecorder}
    (hrec : s.recorders r = some rec) (hfrom : Plain (s.tasks n)) (hto : Plain task) :
    (s.goto n task).Sound := by
  have hmoved := h.goto (n := n) hrec rfl ⟨h.recorders r rec hrec, .refl rec⟩
    (fun r' nm evt htask => (hfrom.1 r' nm evt htask).elim) hto
  rwa [setRecorder_self hrec] at hmoved

theorem call_cases {n r : Nat} {task : TrackRecorder → TrackTask}
    (hcall : s.call n r task = some s') :
    ∃ rec, s.recorders r = some rec ∧ s.tasks n = .idle ∧ s' = s.goto n (task rec) := by
  obtain ⟨rec, hrec, hstep⟩ := Option.bind_eq_some_iff.1 hcall
  split at hstep
  · rename_i hidle
    cases hstep
    exact ⟨rec, hrec, hidle.1, rfl⟩
  · cases hstep

theorem Sound.call (h : s.Sound) {n r : Nat} {task : TrackRecorder → TrackTask}
    (hto : ∀ rec, Plain (task rec)) (hcall : s.call n r task = some s') : s'.Sound := by
  obtain ⟨rec, hrec, hidle, rfl⟩ := call_cases hcall
  exact h.move hrec (hidle ▸ ⟨nofun, nofun⟩) (hto rec)

/-- `thread_track_uuid` gives the thread an index. -/
theorem Sound.giveThread (h : s.Sound) {n r : Nat} {rec : TrackRecorder}
    (hrec : s.recorders r = some rec) (hplain : Plain (s.tasks n)) (trackName : String)
    {evt : RawEvent} (htype : evt.type ≠ .counter)
    (huuid : evt.trackUuid = threadUuid rec.sequenceId rec.nextThreadIndex)
    (locals : Nat → ThreadLocal) :
    Sound ({ s.setRecorder r (rec.giveThread n trackName) with locals }.goto n
      (.naming r trackName evt)) := by
  have hnew := (h.recorders r rec hrec).giveThread n trackName
  have hself {task : TrackTask} : Function.update s.tasks n task n = task :=
    Function.update_self ..
  have hother {m : Nat} {task : TrackTask} (hne : m ≠ n) :
      Function.update s.tasks n task m = s.tasks m := Function.update_of_ne hne ..
  have hindex : (rec.giveThread n trackName).threadOf rec.nextThreadIndex = some (n, trackName) :=
    Function.update_self ..
  refine h.update hrec hnew.1 hnew.2 (fun m r' nm e htask => ?_) (fun i m nm hi => ?_)
    (fun m r' nm e htask => ?_) fun m r' u name use htask => ?_
  · by_cases heq : m = n
    · subst heq
      exact (hplain.1 r' nm e htask).elim
    · exact .inl ((hother heq).trans htask)
  · by_cases heq : i = rec.nextThreadIndex
    · subst heq
      cases hindex.symm.trans hi
      exact .inr ⟨evt, hself, huuid⟩
    · exact .inl ((Function.update_of_ne heq ..).symm.trans hi)
  · by_cases heq : m = n
    · subst heq
      cases hself.symm.trans htask
      exact .inr ⟨rfl, htype, rec.nextThreadIndex, hindex, huuid⟩
    · exact .inl ((hother heq).symm.trans htask)
  · by_cases heq : m = n
    · subst heq
      cases hself.symm.trans htask
    · exact .inl ((hother heq).symm.trans htask)

/-- `counter_track_uuid` gives the counter an index. -/
theorem Sound.giveCounter (h : s.Sound) {n r : Nat} {rec : TrackRecorder}
    (hrec : s.recorders r = some rec) (hplain : Plain (s.tasks n)) {name : String}
    (hnone : rec.counterTrackUuids name = none) (use : CounterUse) :
    Sound ((s.setRecorder r (rec.giveCounter name)).goto n
      (.namingCounter r (counterUuid rec.sequenceId rec.nextCounterIndex) name use)) := by
  have hnew := (h.recorders r rec hrec).giveCounter hnone
  have hself {task : TrackTask} : Function.update s.tasks n task n = task :=
    Function.update_self ..
  have hother {m : Nat} {task : TrackTask} (hne : m ≠ n) :
      Function.update s.tasks n task m = s.tasks m := Function.update_of_ne hne ..
  refine h.update hrec hnew.1 hnew.2 (fun m r' nm e htask => ?_) (fun _ _ _ hi => .inl hi)
    (fun m r' nm e htask => ?_) fun m r' u c use' htask => ?_
  · by_cases heq : m = n
    · subst heq
      exact (hplain.1 r' nm e htask).elim
    · exact .inl ((hother heq).trans htask)
  · by_cases heq : m = n
    · subst heq
      cases hself.symm.trans htask
    · exact .inl ((hother heq).symm.trans htask)
  · by_cases heq : m = n
    · subst heq
      cases hself.symm.trans htask
      exact .inr ⟨rfl, Function.update_self ..⟩
    · exact .inl ((hother heq).symm.trans htask)

theorem event_type (mark : Mark) (timestampNs trackUuid : Nat) :
    (mark.event timestampNs trackUuid).type ≠ .counter := by
  cases mark <;> exact EventType.noConfusion

@[simp] theorem event_trackUuid (mark : Mark) (timestampNs trackUuid : Nat) :
    (mark.event timestampNs trackUuid).trackUuid = trackUuid := by
  cases mark <;> rfl

variable {threadId : Nat → String}

/-- One step of a thread in a lookup. -/
theorem Sound.resolve (h : s.Sound) {n : Nat} (hsteady : s.Steady (.advance n))
    (hstep : s.resolve threadId n = some s') : s'.Sound := by
  have hnofrom {task : TrackTask} (htask : s.tasks n = task) (hplain : Plain task) {r' : Nat}
      {nm : String} {evt : RawEvent} (hnaming : s.tasks n = .naming r' nm evt) : False :=
    hplain.1 r' nm evt (htask.symm.trans hnaming)
  unfold Tracing.resolve at hstep
  unfold Steady at hsteady
  cases htask : s.tasks n with
  | idle =>
    rw [htask] at hstep
    cases hstep
  | resolving r timestampNs mark =>
    simp only [htask] at hstep hsteady
    obtain ⟨rec, hrec, rfl⟩ := Option.map_eq_some_iff.1 hstep
    have hplain : Plain (.resolving r timestampNs mark) := ⟨nofun, nofun⟩
    split
    · exact h.giveThread hrec (htask ▸ hplain) _ (event_type mark _ _) (event_trackUuid mark _ _) _
    · rename_i huuid
      obtain ⟨index, trackName, hindex, heq⟩ := hsteady huuid rec hrec
      have hsound := h.recorders r rec hrec
      refine h.goto hrec rfl (hsound.pushThread (event_type mark _ _) ?_ ?_)
        (fun r' nm evt hnaming => (hnofrom htask hplain hnaming).elim) (plain_inside r)
      · rw [event_trackUuid]
        exact ⟨index, trackName, hindex, heq⟩
      · rw [event_trackUuid, heq]
        rcases h.entered r rec hrec index n trackName hindex with hname | ⟨evt, hnaming, -⟩
        · exact hname
        · exact (hnofrom htask hplain hnaming).elim
  | naming r trackName evt =>
    rw [htask] at hstep
    obtain ⟨rec, hrec, rfl⟩ := Option.map_eq_some_iff.1 hstep
    obtain ⟨htype, rec', hrec', index, hindex, huuid⟩ := h.naming n r trackName evt htask
    obtain rfl := Option.some.inj (hrec.symm.trans hrec')
    have hentered := (h.recorders r rec hrec).enterName (.inl ⟨index, n, hindex, huuid⟩)
    have hname : (Function.update rec.core.trackNames evt.trackUuid (some trackName)
        evt.trackUuid).isSome := by
      rw [Function.update_self]
      rfl
    have hpushed := hentered.1.pushThread htype ⟨index, trackName, hindex, huuid⟩ hname
    refine h.goto hrec rfl ⟨hpushed.1, hentered.2.trans hpushed.2⟩ (fun r' nm e hnaming => ?_)
      (plain_inside r)
    cases htask.symm.trans hnaming
    exact ⟨rfl, hname⟩
  | finding r name use =>
    rw [htask] at hstep
    obtain ⟨rec, hrec, rfl⟩ := Option.map_eq_some_iff.1 hstep
    have hplain : Plain (.finding r name use) := ⟨nofun, nofun⟩
    cases huuid : rec.counterTrackUuids name with
    | none => exact h.move hrec (htask ▸ hplain) ⟨nofun, nofun⟩
    | some uuid =>
      exact h.goto hrec rfl ((h.recorders r rec hrec).useCounter huuid use)
        (fun r' nm evt hnaming => (hnofrom htask hplain hnaming).elim) (plain_inside r)
  | allocating r name use =>
    rw [htask] at hstep
    obtain ⟨rec, hrec, rfl⟩ := Option.map_eq_some_iff.1 hstep
    have hplain : Plain (.allocating r name use) := ⟨nofun, nofun⟩
    cases huuid : rec.counterTrackUuids name with
    | none => exact h.giveCounter hrec (htask ▸ hplain) huuid use
    | some uuid =>
      exact h.goto hrec rfl ((h.recorders r rec hrec).useCounter huuid use)
        (fun r' nm evt hnaming => (hnofrom htask hplain hnaming).elim) (plain_inside r)
  | namingCounter r uuid name use =>
    rw [htask] at hstep
    obtain ⟨rec, hrec, rfl⟩ := Option.map_eq_some_iff.1 hstep
    obtain ⟨rec', hrec', huuid⟩ := h.namingCounter n r uuid name use htask
    obtain rfl := Option.some.inj (hrec.symm.trans hrec')
    have hsound := h.recorders r rec hrec
    have hentered := hsound.enterName (.inr (hsound.counterUuids name uuid huuid))
    have hused := hentered.1.useCounter (n := n) huuid use
    refine h.goto hrec rfl ⟨hused.1, hentered.2.trans hused.2⟩ (fun r' nm e hnaming => ?_)
      (plain_inside r)
    cases htask.symm.trans hnaming
  | inside r =>
    simp only [htask] at hstep hsteady
    obtain ⟨rec, hrec, hcore⟩ := Option.bind_eq_some_iff.1 hstep
    split at hcore
    · cases hcore
      exact h.move hrec (htask ▸ plain_inside r) ⟨nofun, nofun⟩
    · obtain ⟨core, hadvance, rfl⟩ := Option.map_eq_some_iff.1 hcore
      exact h.replace hrec rfl ((h.recorders r rec hrec).advance (hsteady rec hrec) hadvance)

/-- A new recorder. -/
theorem Sound.create (h : s.Sound) {r : Nat} (hnone : s.recorders r = none)
    (sequenceId : UInt32) : (s.setRecorder r { sequenceId }).Sound := by
  have hself : Function.update s.recorders r (some { sequenceId }) r = some { sequenceId } :=
    Function.update_self ..
  have hother {r' : Nat} (hne : r' ≠ r) :
      Function.update s.recorders r (some { sequenceId }) r' = s.recorders r' :=
    Function.update_of_ne hne ..
  have hthere {r' : Nat} {x : TrackRecorder} (hx : s.recorders r' = some x) : r' ≠ r := by
    rintro rfl
    rw [hnone] at hx
    cases hx
  have hfresh : TrackRecorder.Sound { sequenceId } := by
    refine ⟨nofun, nofun, nofun, nofun, nofun, nofun, ?_, ?_⟩
    · rintro evt (hbuffer | ⟨t, ht⟩)
      · exact absurd hbuffer List.not_mem_nil
      · exact absurd ht List.not_mem_nil
    · rintro p (⟨e, he, -⟩ | ⟨t, ht⟩)
      · exact absurd he List.not_mem_nil
      · exact absurd ht List.not_mem_nil
  refine ⟨fun r' x hx => ?_, fun r' x hx index n nm hindex => ?_, fun n r' nm evt htask => ?_,
    fun n r' u name use htask => ?_⟩
  · by_cases heq : r' = r
    · subst heq
      obtain rfl := Option.some.inj (hself.symm.trans hx)
      exact hfresh
    · exact h.recorders r' x ((hother heq).symm.trans hx)
  · by_cases heq : r' = r
    · subst heq
      obtain rfl := Option.some.inj (hself.symm.trans hx)
      cases hindex
    · exact h.entered r' x ((hother heq).symm.trans hx) index n nm hindex
  · obtain ⟨htype, x, hx, hindex⟩ := h.naming n r' nm evt htask
    exact ⟨htype, x, (hother (hthere hx)).trans hx, hindex⟩
  · obtain ⟨x, hx, huuid⟩ := h.namingCounter n r' u name use htask
    exact ⟨x, (hother (hthere hx)).trans hx, huuid⟩

/-- A call of `set_capture_active` begins. -/
theorem setCaptureActive_sound {rec : TrackRecorder} (h : rec.Sound) {n : Nat} {active : Bool}
    {core : Recorder} (hstep : rec.core.step (.setCaptureActive n active) = some core) :
    TrackRecorder.Sound { rec with core } ∧ rec.Grows { rec with core } := by
  have hflow : Recorder.Flow (fun _ => False) (fun _ => False) rec.core core := by
    unfold Recorder.step Recorder.call at hstep
    dsimp only at hstep
    split at hstep
    · cases hstep
      split
      · exact Recorder.Flow.goto (Recorder.Flow.of_eq rfl rfl rfl rfl)
          (fun e he => absurd he List.not_mem_nil) fun p hp => absurd hp List.not_mem_nil
      · exact Recorder.Flow.of_eq rfl rfl rfl rfl
    · cases hstep
  exact h.flow hflow (fun _ => False.elim) fun _ => False.elim

theorem Sound.step (h : s.Sound) {a : TracingAction} (hsteady : s.Steady a)
    (hstep : s.step threadId a = some s') : s'.Sound := by
  cases a with
  | create r sequenceId =>
    simp only [Tracing.step] at hstep
    split at hstep
    · cases hstep
    · rename_i hnone
      cases hstep
      exact h.create hnone sequenceId
  | destroy r =>
    obtain ⟨rec, hrec, rfl⟩ := Option.map_eq_some_iff.1 hstep
    have hsound := h.recorders r rec hrec
    exact h.replace hrec rfl ⟨⟨hsound.threadIndex, hsound.counterIndex, hsound.counterUuids,
      hsound.names, hsound.threadTracks, hsound.counterTracks, hsound.carries, hsound.emits⟩,
      ⟨rfl, fun _ _ => id, fun _ _ => id, fun _ _ => id, List.Subset.refl _, List.Subset.refl _,
        fun _ => id⟩⟩
  | setThreadTrackName n name =>
    simp only [Tracing.step] at hstep
    split at hstep
    · cases hstep
      exact ⟨h.recorders, h.entered, h.naming, h.namingCounter⟩
    · cases hstep
  | record n r timestampNs mark =>
    refine h.call (fun rec => ?_) hstep
    split <;> exact ⟨nofun, nofun⟩
  | recordCounter n r timestampNs name value =>
    refine h.call (fun rec => ?_) hstep
    split <;> exact ⟨nofun, nofun⟩
  | setCounterUnit n r name unit =>
    have hplain : Plain (.finding r name (.setUnit unit)) := ⟨nofun, nofun⟩
    exact h.call (fun _ => hplain) hstep
  | setCaptureActive n r active =>
    obtain ⟨mid, hcall, hrest⟩ := Option.bind_eq_some_iff.1 hstep
    obtain ⟨rec, hrec, hrest⟩ := Option.bind_eq_some_iff.1 hrest
    obtain ⟨core, hcore, rfl⟩ := Option.map_eq_some_iff.1 hrest
    obtain ⟨-, -, -, rfl⟩ := call_cases hcall
    have hmid : (s.goto n (.inside r)).Sound := h.call (fun _ => plain_inside r) hcall
    exact hmid.replace hrec rfl (setCaptureActive_sound (h.recorders r rec hrec) hcore)
  | advance n => exact h.resolve hsteady hstep
  | flush r =>
    obtain ⟨rec, hrec, hrest⟩ := Option.bind_eq_some_iff.1 hstep
    obtain ⟨core, hcore, rfl⟩ := Option.map_eq_some_iff.1 hrest
    exact h.replace hrec rfl ((h.recorders r rec hrec).advance (hsteady rec hrec) hcore)

end Tracing

/-- In a run of steady steps, the tracks of every recorder with few threads and counters are
identified. -/
theorem steady_identified (threadId : Nat → String) {s : Tracing} (actions : List TracingAction)
    (hsteady : Machine.Each (Tracing.step threadId) Tracing.Steady {} actions)
    (hrun : Machine.run (Tracing.step threadId) {} actions = some s) {r : Nat}
    {rec : TrackRecorder} (hrec : s.recorders r = some rec) (hfew : rec.Few) :
    rec.Identified :=
  ((Machine.run_invariant_of_each (I := Tracing.Sound)
    (fun _ _ _ h hsteady hstep => h.step hsteady hstep) Tracing.sound_init hsteady
    hrun).recorders r rec hrec).identified hfew

/-- Recorder `r` captures. -/
def captures (r : Nat) : List TracingAction :=
  .create r 5 :: .setCaptureActive 0 r true :: List.replicate 4 (.advance 0)

/-- Thread `n` records an instant in recorder `r`, which gives it a uuid. -/
def firstInstant (n r : Nat) : List TracingAction :=
  .record n r 20 (.instant "tick") :: List.replicate 4 (.advance n)

/-- Thread `n` has a uuid already. -/
def nextInstant (n r : Nat) : List TracingAction :=
  .record n r 20 (.instant "tick") :: List.replicate 3 (.advance n)

/-- Two threads record into one recorder. -/
theorem steady_identified_two : ∃ s,
    Machine.run (Tracing.step fun _ => "") {}
      (captures 0 ++ firstInstant 1 0 ++ firstInstant 2 0) = some s ∧
    ∃ rec, s.recorders 0 = some rec ∧ rec.Identified ∧
      rec.threadTracks = [(1, 5 * 2 ^ 32 + 1), (2, 5 * 2 ^ 32 + 2)] := by
  refine ⟨_, rfl, _, rfl, steady_identified (r := 0) (fun _ => "")
    (captures 0 ++ firstInstant 1 0 ++ firstInstant 2 0) ?_ rfl rfl ⟨by decide, by decide⟩,
    by decide⟩
  unfold captures firstInstant
  iterate 2 refine (Machine.each_cons rfl).2 ⟨trivial, ?_⟩
  iterate 4 refine (Machine.each_cons rfl).2 ⟨fun rec hrec => by cases hrec; exact nofun, ?_⟩
  refine (Machine.each_cons rfl).2 ⟨trivial, ?_⟩
  refine (Machine.each_cons rfl).2 ⟨fun h => absurd rfl h, ?_⟩
  refine (Machine.each_cons rfl).2 ⟨trivial, ?_⟩
  iterate 2 refine (Machine.each_cons rfl).2 ⟨fun rec hrec => by cases hrec; exact nofun, ?_⟩
  refine (Machine.each_cons rfl).2 ⟨trivial, ?_⟩
  refine (Machine.each_cons rfl).2 ⟨fun h => absurd rfl h, ?_⟩
  refine (Machine.each_cons rfl).2 ⟨trivial, ?_⟩
  iterate 2 refine (Machine.each_cons rfl).2 ⟨fun rec hrec => by cases hrec; exact nofun, ?_⟩
  exact trivial

/-- Thread 1 records into recorder 0 and then, behind thread 2, into recorder 1. -/
theorem shared_uuid : ¬ ∀ threadId actions s r rec,
    Machine.run (Tracing.step threadId) {} actions = some s → s.recorders r = some rec →
    rec.Few → rec.Identified := by
  intro h
  have hidentified := h (fun _ => "") (captures 0 ++ firstInstant 1 0 ++ captures 1 ++
    firstInstant 2 1 ++ nextInstant 1 1) _ 1 _ rfl rfl ⟨by decide, by decide⟩
  have hsame := hidentified.threads 1 2 (5 * 2 ^ 32 + 1) (by decide) (by decide)
  exact absurd hsame (by decide)

end Bison.Profiling
