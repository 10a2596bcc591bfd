import Bison.Lib.Machine
import Mathlib.Logic.Function.Basic

/-!
# The recorder

Trace events are buffered by the threads that record them and encoded when they are flushed
(profiling.hpp): by a flush thread while a capture is active, and once more by the thread that ends
the capture. A track is described in the trace before its first event.

- `Recorder.step`: one step of one thread; the events of a flush are encoded one at a time.
- `Described`: each event comes after exactly one descriptor of its track.
- `calm_described`: **main result**, in a run whose flushes do not overlap and whose captures share
  no track, every capture is described.
- `second_capture`: the tracks of an earlier capture are not described again.
-/

namespace Bison.Profiling

/-- `event_type`. -/
inductive EventType where
  | unspecified
  | sliceBegin
  | sliceEnd
  | instant
  | counter
  deriving Repr, DecidableEq

/-- The value of a counter sample: an integer, or the bits of a double. -/
inductive CounterValue where
  | int (v : Int)
  | double (bits : UInt64)
  deriving Repr, DecidableEq

/-- `raw_event`. -/
structure RawEvent where
  timestampNs : Nat
  trackUuid : Nat
  name : String := ""
  type : EventType := .unspecified
  value : CounterValue := .int 0
  deriving Repr, DecidableEq

/-- What `flush_once` encodes. -/
inductive Packet where
  | trackDescriptor (timestampNs trackUuid : Nat) (name : String)
  | counterTrackDescriptor (timestampNs trackUuid : Nat) (name : String) (unit : Nat)
  | trackEvent (timestampNs trackUuid : Nat) (type : EventType) (name : String)
  | counterEvent (timestampNs trackUuid : Nat) (value : CounterValue)
  deriving Repr, DecidableEq

namespace Packet

/-- The track that an event refers to. -/
def eventTrack : Packet → Option Nat
  | trackEvent _ uuid _ _ => some uuid
  | counterEvent _ uuid _ => some uuid
  | _ => none

/-- The track that a descriptor describes. -/
def described : Packet → Option Nat
  | trackDescriptor _ uuid _ => some uuid
  | counterTrackDescriptor _ uuid _ _ => some uuid
  | _ => none

end Packet

/-- The packet of an event. -/
def RawEvent.packet (evt : RawEvent) : Packet :=
  if evt.type = .counter then .counterEvent evt.timestampNs evt.trackUuid evt.value
  else .trackEvent evt.timestampNs evt.trackUuid evt.type evt.name

/-- The flush thread, or one that uses the recorder. -/
inductive Thread where
  | flusher
  | caller (n : Nat)
  deriving Repr, DecidableEq

/-- Where a thread is. -/
inductive Task where
  | idle
  -- record, after the check
  | pushing (evt : RawEvent)
  -- set_capture_active, after the check
  | setting (active : Bool)
  -- start_flush_thread and stop_flush_thread
  | starting
  | spawning
  | stopping
  | joining
  -- flush_loop
  | waiting
  -- flush_once, before the buffer is taken and with a batch partly encoded
  | taking
  | encoding (batch : List RawEvent) (encoded : List Packet)
  deriving Repr, DecidableEq

/-- A task outside of the loop of `flush_once`. -/
def Task.Plain (task : Task) : Prop := ∀ batch encoded, task ≠ .encoding batch encoded

/-- `recorder`. `captures` counts the captures begun, `freshTracks` has the tracks described since
the last of them began, and `sink` the batches handed to `flush_sink`, each with its capture. -/
structure Recorder where
  captureActive : Bool := false
  buffer : List RawEvent := []
  trackNames : Nat → Option String := fun _ => none
  counterUnits : Nat → Option Nat := fun _ => none
  emittedTracks : List Nat := []
  stopping : Bool := false
  joinable : Bool := false
  tasks : Thread → Task := fun _ => .idle
  captures : Nat := 0
  freshTracks : List Nat := []
  sink : List (Nat × List Packet) := []

namespace Recorder

/-- The thread goes on to `task`. -/
def goto (s : Recorder) (t : Thread) (task : Task) : Recorder :=
  { s with tasks := Function.update s.tasks t task }

/-- The descriptor of a track, from what is known when its first event is encoded. -/
def descriptor (s : Recorder) (evt : RawEvent) : Packet :=
  let trackName := (s.trackNames evt.trackUuid).getD ""
  if evt.type = .counter then
    .counterTrackDescriptor evt.timestampNs evt.trackUuid trackName
      ((s.counterUnits evt.trackUuid).getD 0)
  else .trackDescriptor evt.timestampNs evt.trackUuid trackName

/-- One round of the loop of `flush_once` (profiling.hpp:340). -/
def encodeEvent (s : Recorder) (t : Thread) (evt : RawEvent) (rest : List RawEvent)
    (encoded : List Packet) : Recorder :=
  if evt.trackUuid ∈ s.emittedTracks then s.goto t (.encoding rest (encoded ++ [evt.packet]))
  else
    { s with
      emittedTracks := s.emittedTracks ++ [evt.trackUuid]
      freshTracks := s.freshTracks ++ [evt.trackUuid]
    }.goto t (.encoding rest (encoded ++ [s.descriptor evt, evt.packet]))

/-- What a thread does after `flush_once`. -/
def afterFlush : Thread → Task
  | .flusher => .waiting
  | .caller _ => .stopping

/-- The store of `set_capture_active` (profiling.hpp:184). -/
def setActive (s : Recorder) (active : Bool) : Recorder :=
  if active && !s.captureActive then
    { s with captureActive := true, captures := s.captures + 1, freshTracks := [] }
  else { s with captureActive := active }

/-- The next step of a thread. -/
def advance (s : Recorder) (t : Thread) : Option Recorder :=
  match s.tasks t with
  | .idle => none
  | .pushing evt => some ({ s with buffer := s.buffer ++ [evt] }.goto t .idle)
  | .setting active => some ((s.setActive active).goto t (if active then .starting else .taking))
  | .starting => some ({ s with stopping := false }.goto t .spawning)
  -- to assign to a thread that is joinable ends the process
  | .spawning =>
    if s.joinable then none
    else some (({ s with joinable := true }.goto t .idle).goto .flusher .waiting)
  | .stopping => some ({ s with stopping := true }.goto t .joining)
  | .joining =>
    if s.joinable then
      if s.tasks .flusher = .idle then some ({ s with joinable := false }.goto t .idle) else none
    else some (s.goto t .idle)
  | .waiting => some (s.goto t (if s.stopping then .idle else .taking))
  | .taking =>
    if s.buffer.isEmpty then some (s.goto t (afterFlush t))
    else some ({ s with buffer := [] }.goto t (.encoding s.buffer []))
  | .encoding (evt :: rest) encoded => some (s.encodeEvent t evt rest encoded)
  | .encoding [] encoded =>
    some ({ s with sink := s.sink ++ [(s.captures, encoded)] }.goto t (afterFlush t))

end Recorder

/-- A thread calls a method of the recorder, or takes its next step. An event is given with the
track that its thread or its counter has; the name of the track is entered on its own. -/
inductive Action where
  | record (n : Nat) (evt : RawEvent)
  | setCaptureActive (n : Nat) (active : Bool)
  | nameTrack (uuid : Nat) (name : String)
  | setCounterUnit (uuid unit : Nat)
  | advance (t : Thread)
  deriving Repr, DecidableEq

namespace Recorder

/-- A method whose first check gives its thread a task, if it passes. -/
def call (s : Recorder) (n : Nat) (passes : Bool) (task : Task) : Option Recorder :=
  if s.tasks (.caller n) = .idle then some (if passes then s.goto (.caller n) task else s) else none

/-- One step. -/
def step (s : Recorder) : Action → Option Recorder
  | .record n evt => s.call n s.captureActive (.pushing evt)
  | .setCaptureActive n active => s.call n (active != s.captureActive) (.setting active)
  | .nameTrack uuid name =>
    some { s with trackNames := Function.update s.trackNames uuid (some name) }
  | .setCounterUnit uuid unit =>
    some { s with counterUnits := Function.update s.counterUnits uuid (some unit) }
  | .advance t => s.advance t

/-- The packets that a capture has handed to its sink. -/
def packets (s : Recorder) (capture : Nat) : List Packet :=
  (s.sink.filter (·.1 = capture)).flatMap (·.2)

end Recorder

/-- The descriptors of a track. -/
def descriptors (uuid : Nat) (packets : List Packet) : Nat :=
  packets.countP (·.described = some uuid)

/-- Each event comes after exactly one descriptor of its track. -/
def Described (packets : List Packet) : Prop :=
  ∀ before p after uuid, packets = before ++ p :: after → p.eventTrack = some uuid →
    descriptors uuid before = 1

/-! ## Descriptors -/

theorem described_nil : Described [] := by
  intro before p after uuid h
  exact absurd h.symm (by simp)

theorem descriptors_append (uuid : Nat) (ps qs : List Packet) :
    descriptors uuid (ps ++ qs) = descriptors uuid ps + descriptors uuid qs :=
  List.countP_append

/-- One more packet. -/
theorem described_snoc {ps : List Packet} {p : Packet} (h : Described ps)
    (hp : ∀ uuid, p.eventTrack = some uuid → descriptors uuid ps = 1) : Described (ps ++ [p]) := by
  intro before q after uuid hsplit hq
  obtain rfl | ⟨front, r, rfl⟩ := List.eq_nil_or_concat' after
  · obtain ⟨rfl, hlast⟩ := List.append_inj' hsplit rfl
    obtain rfl := List.singleton_inj.1 hlast
    exact hp uuid hq
  · rw [← List.cons_append, ← List.append_assoc] at hsplit
    obtain ⟨rfl, -⟩ := List.append_inj' hsplit rfl
    exact h before q front uuid rfl hq

theorem packet_eventTrack (evt : RawEvent) : evt.packet.eventTrack = some evt.trackUuid := by
  unfold RawEvent.packet
  split <;> rfl

theorem packet_described (evt : RawEvent) : evt.packet.described = none := by
  unfold RawEvent.packet
  split <;> rfl

theorem descriptor_described (s : Recorder) (evt : RawEvent) :
    (s.descriptor evt).described = some evt.trackUuid := by
  unfold Recorder.descriptor
  dsimp only
  split <;> rfl

theorem descriptor_eventTrack (s : Recorder) (evt : RawEvent) :
    (s.descriptor evt).eventTrack = none := by
  unfold Recorder.descriptor
  dsimp only
  split <;> rfl

theorem descriptors_packet (uuid : Nat) (evt : RawEvent) : descriptors uuid [evt.packet] = 0 := by
  simp [descriptors, packet_described]

theorem descriptors_descriptor (s : Recorder) (uuid : Nat) (evt : RawEvent) :
    descriptors uuid [s.descriptor evt] = if uuid = evt.trackUuid then 1 else 0 := by
  simp [descriptors, List.countP_singleton, descriptor_described, eq_comm]

/-! ## Calm steps -/

namespace Recorder

variable {s s' : Recorder}

/-- The thread is inside `flush_once` and has encoded that much. -/
def Encoding (s : Recorder) (t : Thread) (encoded : List Packet) : Prop :=
  ∃ rest, s.tasks t = .encoding rest encoded

/-- Some thread is inside `flush_once` with a batch. -/
def Flushing (s : Recorder) : Prop := ∃ t encoded, s.Encoding t encoded

/-- A step of a thread that cannot spoil a capture. -/
def CalmTask (s : Recorder) : Task → Prop
  -- a capture does not begin during a flush
  | .setting active => active = true → s.captureActive = false → ¬ s.Flushing
  -- flushes do not overlap
  | .taking => s.buffer ≠ [] → ¬ s.Flushing
  -- no event is on a track that was emitted in an earlier capture
  | .encoding (evt :: _) _ => evt.trackUuid ∈ s.emittedTracks → evt.trackUuid ∈ s.freshTracks
  | _ => True

/-- The condition on a step of a run. -/
def Calm (s : Recorder) : Action → Prop
  | .advance t => s.CalmTask (s.tasks t)
  | _ => True

/-- The tracks described in the packets are those that are fresh, each once. -/
def Accounted (s : Recorder) (packets : List Packet) : Prop :=
  ∀ uuid, descriptors uuid packets = if uuid ∈ s.freshTracks then 1 else 0

/-- The packets of the flush in progress, if there is one. -/
def Front (s : Recorder) (encoded : List Packet) : Prop :=
  (∃ t, s.Encoding t encoded) ∨ ¬ s.Flushing ∧ encoded = []

/-- What every calm step keeps. -/
structure Sound (s : Recorder) : Prop where
  described : ∀ k, Described (s.packets k)
  front : ∀ encoded, s.Front encoded →
    Described (s.packets s.captures ++ encoded) ∧ s.Accounted (s.packets s.captures ++ encoded)
  alone : ∀ t t' encoded encoded', s.Encoding t encoded → s.Encoding t' encoded' → t = t'
  fresh : s.freshTracks ⊆ s.emittedTracks
  past : ∀ e ∈ s.sink, e.1 ≤ s.captures

theorem sound_init : Sound {} where
  described := fun _ => described_nil
  front := by
    rintro encoded (⟨t, rest, h⟩ | ⟨-, rfl⟩)
    · cases h
    · exact ⟨described_nil, fun _ => rfl⟩
  alone := by
    rintro t t' encoded encoded' ⟨rest, h⟩
    cases h
  fresh := List.Subset.refl _
  past := fun _ h => nomatch h

/-! ## Steps that leave the flushes alone -/

/-- Nothing that concerns a flush is different. -/
structure SameFlush (s s' : Recorder) : Prop where
  encoding : ∀ t encoded, s'.Encoding t encoded ↔ s.Encoding t encoded
  captures : s'.captures = s.captures
  fresh : s'.freshTracks = s.freshTracks
  emitted : s'.emittedTracks = s.emittedTracks
  sink : s'.sink = s.sink

theorem SameFlush.transfer (h : s.SameFlush s') (hs : s.Sound) : s'.Sound := by
  have hpackets (k : Nat) : s'.packets k = s.packets k := by
    unfold packets
    rw [h.sink]
  have hflushing : s'.Flushing ↔ s.Flushing :=
    exists_congr fun t => exists_congr fun encoded => h.encoding t encoded
  constructor
  · intro k
    rw [hpackets]
    exact hs.described k
  · intro encoded hfront
    unfold Accounted
    rw [hpackets, h.captures, h.fresh]
    refine hs.front encoded (hfront.imp ?_ ?_)
    · rintro ⟨t, ht⟩
      exact ⟨t, (h.encoding t encoded).1 ht⟩
    · rintro ⟨hidle, rfl⟩
      exact ⟨fun hbusy => hidle (hflushing.2 hbusy), rfl⟩
  · intro t t' encoded encoded' ht ht'
    exact hs.alone t t' encoded encoded' ((h.encoding _ _).1 ht) ((h.encoding _ _).1 ht')
  · rw [h.fresh, h.emitted]
    exact hs.fresh
  · rw [h.sink, h.captures]
    exact hs.past

theorem goto_self (t : Thread) (task : Task) : (s.goto t task).tasks t = task :=
  Function.update_self ..

theorem goto_other {t t' : Thread} (h : t' ≠ t) (task : Task) :
    (s.goto t task).tasks t' = s.tasks t' :=
  Function.update_of_ne h ..

theorem SameFlush.of_goto {t : Thread} {task : Task} (hfrom : (s.tasks t).Plain)
    (hto : task.Plain) : s.SameFlush (s.goto t task) := by
  refine ⟨fun t' encoded => exists_congr fun rest => ?_, rfl, rfl, rfl, rfl⟩
  by_cases heq : t' = t
  · subst heq
    simp [goto, hfrom rest encoded, hto rest encoded]
  · simp [goto, Function.update_of_ne heq]

/-! ## Steps of a flush -/

theorem encoding_goto_self {t : Thread} {rest : List RawEvent} {encoded encoded' : List Packet} :
    (s.goto t (.encoding rest encoded)).Encoding t encoded' ↔ encoded' = encoded := by
  simp [Encoding, goto, eq_comm]

theorem encoding_goto_other {t t' : Thread} (h : t' ≠ t) (task : Task) (encoded : List Packet) :
    (s.goto t task).Encoding t' encoded ↔ s.Encoding t' encoded := by
  simp [Encoding, goto, Function.update_of_ne h]

theorem not_encoding_goto {t : Thread} {task : Task} (h : task.Plain) (encoded : List Packet) :
    ¬ (s.goto t task).Encoding t encoded := by
  rintro ⟨rest, ht⟩
  exact h rest encoded ((goto_self t task).symm.trans ht)

/-- With nothing in progress the capture is accounted for by its packets. -/
theorem Sound.idle (h : s.Sound) (hidle : ¬ s.Flushing) : s.Accounted (s.packets s.captures) := by
  have hfront := (h.front [] (.inr ⟨hidle, rfl⟩)).2
  rwa [List.append_nil] at hfront

/-- A capture begins. -/
theorem Sound.setActive (h : s.Sound) {active : Bool}
    (hcalm : s.CalmTask (.setting active)) : (s.setActive active).Sound := by
  unfold Recorder.setActive
  by_cases hbegins : active && !s.captureActive
  · rw [if_pos hbegins]
    simp only [Bool.and_eq_true, Bool.not_eq_true'] at hbegins
    have hidle := hcalm hbegins.1 hbegins.2
    -- nothing was handed over for it yet
    have hnone : s.packets (s.captures + 1) = [] := by
      have hfilter : s.sink.filter (·.1 = s.captures + 1) = [] := by
        refine List.filter_eq_nil_iff.2 fun e he heq => ?_
        have := h.past e he
        have := of_decide_eq_true heq
        omega
      rw [packets, hfilter]
      rfl
    refine ⟨h.described, ?_, h.alone, List.nil_subset _, fun e he => ?_⟩
    · rintro encoded (⟨t, ht⟩ | ⟨-, rfl⟩)
      · exact (hidle ⟨t, encoded, ht⟩).elim
      · show Described (s.packets (s.captures + 1) ++ []) ∧
          Accounted _ (s.packets (s.captures + 1) ++ [])
        rw [hnone]
        exact ⟨described_nil, fun _ => rfl⟩
    · exact Nat.le_succ_of_le (h.past e he)
  · rw [if_neg hbegins]
    exact SameFlush.transfer (s := s) ⟨fun _ _ => .rfl, rfl, rfl, rfl, rfl⟩ h

/-- A thread takes the buffer. -/
theorem Sound.take (h : s.Sound) {t : Thread} (hidle : ¬ s.Flushing) (batch : List RawEvent) :
    (s.goto t (.encoding batch [])).Sound := by
  have honly {t' : Thread} {encoded : List Packet}
      (ht' : (s.goto t (.encoding batch [])).Encoding t' encoded) : t' = t ∧ encoded = [] := by
    by_cases heq : t' = t
    · subst heq
      exact ⟨rfl, encoding_goto_self.1 ht'⟩
    · exact (hidle ⟨t', encoded, (encoding_goto_other heq _ _).1 ht'⟩).elim
  refine ⟨h.described, ?_, fun t₁ t₂ _ _ h₁ h₂ => ?_, h.fresh, h.past⟩
  · rintro encoded (⟨t', ht'⟩ | ⟨hnot, -⟩)
    · obtain ⟨-, rfl⟩ := honly ht'
      exact h.front [] (.inr ⟨hidle, rfl⟩)
    · exact (hnot ⟨t, [], encoding_goto_self.2 rfl⟩).elim
  · rw [(honly h₁).1, (honly h₂).1]

/-- The front after the thread in `flush_once` has encoded more. -/
theorem front_encoding {t : Thread} {rest : List RawEvent} {encoded encoded' : List Packet}
    (halone : ∀ t' e, s.Encoding t' e → t' = t) :
    (s.goto t (.encoding rest encoded)).Front encoded' ↔ encoded' = encoded := by
  constructor
  · rintro (⟨t', ht'⟩ | ⟨hnot, -⟩)
    · by_cases heq : t' = t
      · subst heq
        exact encoding_goto_self.1 ht'
      · exact absurd (halone t' encoded' ((encoding_goto_other heq _ _).1 ht')) heq
    · exact (hnot ⟨t, encoded, encoding_goto_self.2 rfl⟩).elim
  · rintro rfl
    exact .inl ⟨t, encoding_goto_self.2 rfl⟩

theorem alone_encoding {t : Thread} {rest : List RawEvent} {encoded : List Packet}
    (halone : ∀ t' e, s.Encoding t' e → t' = t) (t₁ t₂ : Thread) (e₁ e₂ : List Packet)
    (h₁ : (s.goto t (.encoding rest encoded)).Encoding t₁ e₁)
    (h₂ : (s.goto t (.encoding rest encoded)).Encoding t₂ e₂) : t₁ = t₂ := by
  have hthread {t' : Thread} {e : List Packet}
      (ht' : (s.goto t (.encoding rest encoded)).Encoding t' e) : t' = t := by
    by_cases heq : t' = t
    · exact heq
    · exact halone t' e ((encoding_goto_other heq _ _).1 ht')
  rw [hthread h₁, hthread h₂]

/-- One event is encoded. -/
theorem Sound.encode (h : s.Sound) {t : Thread} {evt : RawEvent} {rest : List RawEvent}
    {encoded : List Packet} (htask : s.tasks t = .encoding (evt :: rest) encoded)
    (hcalm : evt.trackUuid ∈ s.emittedTracks → evt.trackUuid ∈ s.freshTracks) :
    (s.encodeEvent t evt rest encoded).Sound := by
  have hhere : s.Encoding t encoded := ⟨evt :: rest, htask⟩
  have halone (t' : Thread) (e : List Packet) (ht' : s.Encoding t' e) : t' = t :=
    h.alone t' t e encoded ht' hhere
  obtain ⟨hdescribed, haccounted⟩ := h.front encoded (.inl ⟨t, hhere⟩)
  unfold encodeEvent
  by_cases hemitted : evt.trackUuid ∈ s.emittedTracks
  · rw [if_pos hemitted]
    -- the track has its descriptor in this capture
    have hone : descriptors evt.trackUuid (s.packets s.captures ++ encoded) = 1 := by
      rw [haccounted, if_pos (hcalm hemitted)]
    refine ⟨h.described, fun e he => ?_, alone_encoding halone, h.fresh, h.past⟩
    obtain rfl := (front_encoding halone).1 he
    show Described (s.packets s.captures ++ (encoded ++ [evt.packet])) ∧
      s.Accounted (s.packets s.captures ++ (encoded ++ [evt.packet]))
    rw [← List.append_assoc]
    refine ⟨described_snoc hdescribed fun uuid huuid => ?_, fun uuid => ?_⟩
    · rw [packet_eventTrack] at huuid
      cases huuid
      exact hone
    · rw [descriptors_append, descriptors_packet, Nat.add_zero]
      exact haccounted uuid
  · rw [if_neg hemitted]
    have hnew : evt.trackUuid ∉ s.freshTracks := fun hmem => hemitted (h.fresh hmem)
    have hnone : descriptors evt.trackUuid (s.packets s.captures ++ encoded) = 0 := by
      rw [haccounted, if_neg hnew]
    refine ⟨h.described, fun e he => ?_, alone_encoding halone, ?_, h.past⟩
    · obtain rfl := (front_encoding halone).1 he
      show Described (s.packets s.captures ++ (encoded ++ [s.descriptor evt, evt.packet])) ∧
        Accounted _ (s.packets s.captures ++ (encoded ++ [s.descriptor evt, evt.packet]))
      have hsplit : s.packets s.captures ++ (encoded ++ [s.descriptor evt, evt.packet]) =
          s.packets s.captures ++ encoded ++ [s.descriptor evt] ++ [evt.packet] := by
        simp only [List.append_assoc, List.cons_append, List.nil_append]
      rw [hsplit]
      constructor
      · refine described_snoc (described_snoc hdescribed fun uuid huuid => ?_) fun uuid huuid => ?_
        · rw [descriptor_eventTrack] at huuid
          cases huuid
        · rw [packet_eventTrack] at huuid
          cases huuid
          rw [descriptors_append, hnone, descriptors_descriptor, if_pos rfl]
      · intro uuid
        rw [descriptors_append, descriptors_append, descriptors_packet, descriptors_descriptor]
        show _ = if uuid ∈ s.freshTracks ++ [evt.trackUuid] then 1 else 0
        by_cases heq : uuid = evt.trackUuid
        · rw [heq, hnone, if_pos rfl, if_pos (List.mem_append_right _ (List.mem_singleton_self _))]
        · have hmem : uuid ∈ s.freshTracks ++ [evt.trackUuid] ↔ uuid ∈ s.freshTracks := by
            simp [heq]
          rw [if_neg heq, haccounted uuid]
          simp only [hmem, Nat.add_zero]
    · intro uuid huuid
      exact List.mem_append.2 ((List.mem_append.1 huuid).imp_left fun hmem => h.fresh hmem)

/-- A batch is handed to the sink. -/
theorem Sound.hand (h : s.Sound) {t : Thread} {encoded : List Packet} {task : Task}
    (htask : s.tasks t = .encoding [] encoded) (hto : task.Plain) :
    ({ s with sink := s.sink ++ [(s.captures, encoded)] }.goto t task).Sound := by
  have hhere : s.Encoding t encoded := ⟨[], htask⟩
  obtain ⟨hdescribed, haccounted⟩ := h.front encoded (.inl ⟨t, hhere⟩)
  let after : Recorder := { s with sink := s.sink ++ [(s.captures, encoded)] }.goto t task
  have hidle (t' : Thread) (e : List Packet) : ¬ after.Encoding t' e := by
    by_cases heq : t' = t
    · subst heq
      exact not_encoding_goto hto e
    · intro ht'
      exact heq (h.alone t' t e encoded ((encoding_goto_other heq task e).1 ht') hhere)
  have hpackets (k : Nat) :
      after.packets k = s.packets k ++ if k = s.captures then encoded else [] := by
    show ((s.sink ++ [(s.captures, encoded)]).filter (·.1 = k)).flatMap (·.2) = _
    rw [List.filter_append, List.flatMap_append, packets]
    by_cases heq : k = s.captures
    · simp [heq]
    · simp [heq, Ne.symm heq]
  have hcurrent : after.packets s.captures = s.packets s.captures ++ encoded := by
    rw [hpackets, if_pos rfl]
  refine ⟨fun k => ?_, ?_, fun t₁ t₂ e₁ e₂ h₁ => (hidle t₁ e₁ h₁).elim, h.fresh, fun e he => ?_⟩
  · show Described (after.packets k)
    by_cases heq : k = s.captures
    · rw [heq, hcurrent]
      exact hdescribed
    · rw [hpackets, if_neg heq, List.append_nil]
      exact h.described k
  · rintro e (⟨t', ht'⟩ | ⟨-, rfl⟩)
    · exact (hidle t' e ht').elim
    · show Described (after.packets s.captures ++ []) ∧
        s.Accounted (after.packets s.captures ++ [])
      rw [List.append_nil, hcurrent]
      exact ⟨hdescribed, haccounted⟩
  · rcases List.mem_append.1 he with he | he
    · exact h.past e he
    · rw [List.mem_singleton.1 he]
      exact Nat.le_refl _

/-! ## The flush thread -/

/-- While `flush_thread_` is not joinable, the flush thread does nothing. -/
def Joined (s : Recorder) : Prop := s.joinable = false → s.tasks .flusher = .idle

theorem Joined.goto (h : s.Joined) {m : Recorder} {t : Thread} {task : Task}
    (hjoinable : m.joinable = s.joinable) (htasks : m.tasks = s.tasks)
    (hbusy : s.tasks t ≠ .idle) : (m.goto t task).Joined := by
  intro hnot
  have hidle := h (hjoinable ▸ hnot)
  have hne : Thread.flusher ≠ t := by
    rintro rfl
    exact hbusy hidle
  exact (goto_other hne task).trans (htasks ▸ hidle)

theorem Joined.advance (h : s.Joined) {t : Thread} (hstep : s.advance t = some s') :
    s'.Joined := by
  have hbusy {task : Task} (htask : s.tasks t = task) (hne : task ≠ .idle) : s.tasks t ≠ .idle :=
    htask ▸ hne
  unfold Recorder.advance at hstep
  cases htask : s.tasks t with
  | idle =>
    rw [htask] at hstep
    cases hstep
  | setting active =>
    rw [htask] at hstep
    cases hstep
    have hkept : (s.setActive active).joinable = s.joinable ∧ (s.setActive active).tasks =
      s.tasks := by
      unfold Recorder.setActive
      split <;> exact ⟨rfl, rfl⟩
    exact h.goto hkept.1 hkept.2 (hbusy htask Task.noConfusion)
  | spawning =>
    rw [htask] at hstep
    by_cases hjoinable : s.joinable
    · simp only [hjoinable, if_true] at hstep
      cases hstep
    · simp only [hjoinable] at hstep
      cases hstep
      exact fun hnot => Bool.noConfusion hnot
  | joining =>
    rw [htask] at hstep
    by_cases hjoinable : s.joinable
    · by_cases hfinished : s.tasks .flusher = .idle
      · simp only [hjoinable, hfinished, if_true, Option.some.injEq] at hstep
        subst hstep
        intro _
        by_cases heq : Thread.flusher = t
        · rw [heq]
          exact goto_self ..
        · exact (goto_other heq _).trans hfinished
      · simp only [hjoinable, hfinished, if_true, if_false] at hstep
        cases hstep
    · simp only [hjoinable] at hstep
      cases hstep
      exact h.goto rfl rfl (hbusy htask Task.noConfusion)
  | taking =>
    rw [htask] at hstep
    by_cases hempty : s.buffer.isEmpty
    · simp only [hempty, if_true, Option.some.injEq] at hstep
      subst hstep
      exact h.goto rfl rfl (hbusy htask Task.noConfusion)
    · simp only [hempty] at hstep
      cases hstep
      exact h.goto (m := { s with buffer := [] }) rfl rfl (hbusy htask Task.noConfusion)
  | encoding batch encoded =>
    rw [htask] at hstep
    cases batch with
    | nil =>
      cases hstep
      exact h.goto (m := { s with sink := s.sink ++ [(s.captures, encoded)] }) rfl rfl
        (hbusy htask Task.noConfusion)
    | cons evt rest =>
      cases hstep
      unfold encodeEvent
      split
      · exact h.goto rfl rfl (hbusy htask Task.noConfusion)
      · exact h.goto (m := { s with
          emittedTracks := s.emittedTracks ++ [evt.trackUuid]
          freshTracks := s.freshTracks ++ [evt.trackUuid] }) rfl rfl
          (hbusy htask Task.noConfusion)
  | pushing evt =>
    rw [htask] at hstep
    cases hstep
    exact h.goto (m := { s with buffer := s.buffer ++ [evt] }) rfl rfl
      (hbusy htask Task.noConfusion)
  | starting =>
    rw [htask] at hstep
    cases hstep
    exact h.goto (m := { s with stopping := false }) rfl rfl (hbusy htask Task.noConfusion)
  | stopping =>
    rw [htask] at hstep
    cases hstep
    exact h.goto (m := { s with stopping := true }) rfl rfl (hbusy htask Task.noConfusion)
  | waiting =>
    rw [htask] at hstep
    cases hstep
    exact h.goto rfl rfl (hbusy htask Task.noConfusion)

/-! ## Runs -/

/-- A thread outside of `flush_once` goes on to a task outside of it. -/
theorem Sound.goto (h : s.Sound) {t : Thread} {task : Task} (hfrom : (s.tasks t).Plain)
    (hto : task.Plain) : (s.goto t task).Sound :=
  (SameFlush.of_goto hfrom hto).transfer h

/-- The same, with a change of what no flush reads. -/
theorem Sound.leave (h : s.Sound) {m : Recorder} {t : Thread} {task : Task}
    (hsame : s.SameFlush m) (htasks : m.tasks = s.tasks) (hfrom : (s.tasks t).Plain)
    (hto : task.Plain) : (m.goto t task).Sound :=
  (hsame.transfer h).goto (htasks ▸ hfrom) hto

theorem afterFlush_plain (t : Thread) : (afterFlush t).Plain := by
  cases t <;> exact fun _ _ => Task.noConfusion

/-- One step of a thread. -/
theorem Sound.advance (h : s.Sound) (hjoined : s.Joined) {t : Thread}
    (hcalm : s.CalmTask (s.tasks t))
    (hstep : s.advance t = some s') : s'.Sound := by
  unfold Recorder.advance at hstep
  have hplain {task : Task} (htask : s.tasks t = task) (hfrom : task.Plain) : (s.tasks t).Plain :=
    htask ▸ hfrom
  have hsame (s' : Recorder) (htasks : s'.tasks = s.tasks) (hcaptures : s'.captures = s.captures)
      (hfresh : s'.freshTracks = s.freshTracks) (hemitted : s'.emittedTracks = s.emittedTracks)
      (hsink : s'.sink = s.sink) : s.SameFlush s' :=
    ⟨fun t e => by unfold Encoding; rw [htasks], hcaptures, hfresh, hemitted, hsink⟩
  cases htask : s.tasks t with
  | idle =>
    rw [htask] at hstep
    cases hstep
  | pushing evt =>
    rw [htask] at hstep
    cases hstep
    exact h.leave (hsame _ rfl rfl rfl rfl rfl) rfl (hplain htask fun _ _ => Task.noConfusion)
      fun _ _ => Task.noConfusion
  | setting active =>
    rw [htask] at hstep hcalm
    cases hstep
    have htasks : (s.setActive active).tasks = s.tasks := by
      unfold Recorder.setActive
      split <;> rfl
    refine (h.setActive hcalm).goto ?_ ?_
    · rw [htasks]
      exact hplain htask fun _ _ => Task.noConfusion
    · cases active <;> exact fun _ _ => Task.noConfusion
  | starting =>
    rw [htask] at hstep
    cases hstep
    exact h.leave (hsame _ rfl rfl rfl rfl rfl) rfl (hplain htask fun _ _ => Task.noConfusion)
      fun _ _ => Task.noConfusion
  | spawning =>
    rw [htask] at hstep
    by_cases hjoinable : s.joinable
    · simp only [hjoinable, if_true] at hstep
      cases hstep
    · simp only [hjoinable] at hstep
      cases hstep
      have hidle : s.tasks .flusher = .idle := hjoined (Bool.eq_false_iff.2 hjoinable)
      have hmid : (Recorder.goto { s with joinable := true } t .idle).Sound :=
        h.leave (hsame _ rfl rfl rfl rfl rfl) rfl (hplain htask fun _ _ => Task.noConfusion)
          fun _ _ => Task.noConfusion
      refine hmid.goto ?_ fun _ _ => Task.noConfusion
      -- the thread that is started was not there
      by_cases heq : Thread.flusher = t
      · rw [heq, goto_self]
        exact fun _ _ => Task.noConfusion
      · rw [goto_other heq, hidle]
        exact fun _ _ => Task.noConfusion
  | stopping =>
    rw [htask] at hstep
    cases hstep
    exact h.leave (hsame _ rfl rfl rfl rfl rfl) rfl (hplain htask fun _ _ => Task.noConfusion)
      fun _ _ => Task.noConfusion
  | joining =>
    rw [htask] at hstep
    have hfrom : (s.tasks t).Plain := hplain htask fun _ _ => Task.noConfusion
    by_cases hjoinable : s.joinable
    · by_cases hfinished : s.tasks .flusher = .idle
      · simp only [hjoinable, hfinished, if_true, Option.some.injEq] at hstep
        subst hstep
        exact h.leave (hsame _ rfl rfl rfl rfl rfl) rfl hfrom fun _ _ => Task.noConfusion
      · simp only [hjoinable, hfinished, if_true, if_false] at hstep
        cases hstep
    · simp only [hjoinable] at hstep
      cases hstep
      exact h.goto hfrom fun _ _ => Task.noConfusion
  | waiting =>
    rw [htask] at hstep
    cases hstep
    refine h.goto (hplain htask fun _ _ => Task.noConfusion) ?_
    split <;> exact fun _ _ => Task.noConfusion
  | taking =>
    rw [htask] at hstep hcalm
    have hfrom : (s.tasks t).Plain := hplain htask fun _ _ => Task.noConfusion
    by_cases hempty : s.buffer.isEmpty
    · simp only [hempty, if_true, Option.some.injEq] at hstep
      subst hstep
      exact h.goto hfrom (afterFlush_plain t)
    · simp only [hempty] at hstep
      cases hstep
      have hidle := hcalm fun hnil => hempty (List.isEmpty_iff.2 hnil)
      have hbuffer := (hsame { s with buffer := [] } rfl rfl rfl rfl rfl).transfer h
      exact hbuffer.take hidle s.buffer
  | encoding batch encoded =>
    rw [htask] at hstep hcalm
    cases batch with
    | nil =>
      cases hstep
      exact h.hand htask (afterFlush_plain t)
    | cons evt rest =>
      cases hstep
      exact h.encode htask hcalm

theorem Sound.step (h : s.Sound) (hjoined : s.Joined) {a : Action} (hcalm : s.Calm a)
    (hstep : s.step a = some s') : s'.Sound ∧ s'.Joined := by
  have hcall {n : Nat} {passes : Bool} {task : Task} (hto : task.Plain)
      (hcall : s.call n passes task = some s') : s'.Sound ∧ s'.Joined := by
    unfold call at hcall
    by_cases hidle : s.tasks (.caller n) = .idle
    · rw [if_pos hidle] at hcall
      cases hcall
      cases passes with
      | false => exact ⟨h, hjoined⟩
      | true =>
        refine ⟨h.goto (hidle ▸ fun _ _ => Task.noConfusion) hto, fun hnot => ?_⟩
        exact (goto_other Thread.noConfusion _).trans (hjoined hnot)
    · rw [if_neg hidle] at hcall
      cases hcall
  cases a with
  | record n evt => exact hcall (fun _ _ => Task.noConfusion) hstep
  | setCaptureActive n active => exact hcall (fun _ _ => Task.noConfusion) hstep
  | nameTrack uuid name =>
    cases hstep
    exact ⟨SameFlush.transfer (s := s) ⟨fun _ _ => .rfl, rfl, rfl, rfl, rfl⟩ h, hjoined⟩
  | setCounterUnit uuid unit =>
    cases hstep
    exact ⟨SameFlush.transfer (s := s) ⟨fun _ _ => .rfl, rfl, rfl, rfl, rfl⟩ h, hjoined⟩
  | advance t => exact ⟨h.advance hjoined hcalm hstep, hjoined.advance hstep⟩

end Recorder

/-- In a run of calm steps, what every capture hands to its sink is described. -/
theorem calm_described {s : Recorder} (actions : List Action)
    (hcalm : Machine.Each Recorder.step Recorder.Calm {} actions)
    (hrun : Machine.run Recorder.step {} actions = some s) (capture : Nat) :
    Described (s.packets capture) :=
  (Machine.run_invariant_of_each (I := fun s : Recorder => s.Sound ∧ s.Joined)
    (fun _ _ _ h hcalm hstep => h.1.step h.2 hcalm hstep)
    ⟨Recorder.sound_init, fun _ => rfl⟩ hcalm hrun).1.described capture

/-- A capture begun by thread 0: the flush thread runs. -/
def begins : List Action :=
  [.setCaptureActive 0 true, .advance (.caller 0), .advance (.caller 0), .advance (.caller 0)]

/-- An instant on track 7, recorded by thread 1. -/
def instant : List Action := [.record 1 ⟨20, 7, "tick", .instant, .int 0⟩, .advance (.caller 1)]

/-- A capture ended by thread 0, with one event in the buffer. -/
def ends : List Action :=
  .setCaptureActive 0 false :: List.replicate 5 (.advance (.caller 0)) ++
    [.advance .flusher, .advance (.caller 0)]

/-- One capture with one event. -/
theorem calm_described_once : ∃ s, Machine.run Recorder.step {} (begins ++ instant ++ ends) =
    some s ∧
    Described (s.packets 1) ∧
    s.packets 1 = [.trackDescriptor 20 7 "", .trackEvent 20 7 .instant "tick"] := by
  refine ⟨_, rfl, calm_described (begins ++ instant ++ ends) ?_ rfl 1, rfl⟩
  unfold begins instant ends
  refine (Machine.each_cons rfl).2 ⟨trivial, ?_⟩
  refine (Machine.each_cons rfl).2 ⟨?_, ?_⟩
  · rintro - - ⟨t, encoded, rest, ht⟩
    rcases t with _ | _ | n <;> exact nomatch ht
  iterate 5 refine (Machine.each_cons rfl).2 ⟨trivial, ?_⟩
  -- no other flush is in progress when the capture ends
  refine (Machine.each_cons rfl).2 ⟨Bool.noConfusion, ?_⟩
  refine (Machine.each_cons rfl).2 ⟨?_, ?_⟩
  · rintro - ⟨t, encoded, rest, ht⟩
    rcases t with _ | _ | _ | n <;> exact nomatch ht
  refine (Machine.each_cons rfl).2 ⟨fun h => absurd h List.not_mem_nil, ?_⟩
  iterate 4 refine (Machine.each_cons rfl).2 ⟨trivial, ?_⟩
  exact trivial

/-- The second capture has an event on a track that the first has described. -/
theorem second_capture : ¬ ∀ actions s capture,
    Machine.run Recorder.step {} actions = some s → Described (s.packets capture) := by
  intro h
  have hdescribed := h (begins ++ instant ++ ends ++ (begins ++ instant ++ ends)) _ 2 rfl
  have hone := hdescribed [] (.trackEvent 20 7 .instant "tick") [] 7 rfl rfl
  exact absurd hone (by decide)

end Bison.Profiling
