import Bison.Transport.FrameParser

/-!
# Polling a shared stream

The stream transport (stream_transport.cpp) sends and receives over one `std::iostream`. Its
state bits stay set until somebody clears them, and nobody does: `peek` at the end of the data
sets `eofbit`, and from then on nothing is extracted any more, and nothing inserted either.

- `IoStream`: a stream in memory, with the state bits that both sides share.
- `receivePass`: one pass of the loop in `receive`; between two passes the other side may write.
- `polls_deliver_iff`: **main result**, the frames that are sent are the frames that polls return,
  exactly if no pass finds the stream drained while a frame is still to be sent.
-/

namespace Bison

/-! ## The stream -/

/-- What an insertion into a stream does whose `eofbit` is set. -/
inductive Insertion where
  /-- The sentry fails, and nothing is inserted. -/
  | dropped
  /-- The sentry fails and sets `failbit`. -/
  | refused
  /-- The writer has a stream object of its own over the same buffer. -/
  | separate
  deriving Repr, DecidableEq

/-- A `std::iostream` in memory. The first bit that is set is always `eofbit`. -/
structure IoStream extends Stream where
  rest := []
  good := true
  failbit : Bool := false

namespace IoStream

/-- `in.peek()`. -/
def peek (s : IoStream) : Option UInt8 × IoStream :=
  if !s.good then (none, { s with failbit := true })
  else
    match s.rest with
    | [] => (none, { s with good := false })
    | b :: _ => (some b, s)

/-- `in.read(data, n)`. A read that comes short sets `failbit` too. -/
def read (n : Nat) (s : IoStream) : List UInt8 × IoStream :=
  let (bytes, stream) := s.toStream.read n
  (bytes, { s with toStream := stream, failbit := s.failbit || !stream.good })

/-- `stream_read_frame` (stream_transport.cpp:29), with what it leaves where it throws. -/
def readFrame (s : IoStream) : Except Exn (Option (List UInt8)) × IoStream :=
  let (lenWire, s) := s.read 4
  if lenWire.length = 0 ∧ s.eof then (.ok none, s)
  else if lenWire.length ≠ 4 then
    (.error (.runtimeError "stream_transport: partial length prefix"), s)
  else
    let len := (wordOf lenWire).toNat
    if len > kMaxFrameBytes then
      (.error (.runtimeError "stream_transport: frame length exceeds kMaxFrameBytes"), s)
    else if len > 0 then
      let (frame, s) := s.read len
      if frame.length ≠ len then
        (.error (.runtimeError "stream_transport: partial frame payload"), s)
      else (.ok (some frame), s)
    else (.ok (some []), s)

/-- `stream_write_frame` (stream_transport.cpp:19). -/
def writeFrame (rule : Insertion) (frame : List UInt8) (s : IoStream) :
    Except Exn Unit × IoStream :=
  let failed : Exn := .runtimeError "stream_transport: write failed"
  if s.good then (.ok (), { s with rest := streamWriteFrame s.rest frame })
  else
    match rule with
    | .dropped => (if s.failbit then .error failed else .ok (), s)
    | .refused => (.error failed, { s with failbit := true })
    | .separate => (.ok (), { s with rest := streamWriteFrame s.rest frame })

/-- The frame `stream_read_frame` gives, or none where it gives none or throws. -/
def tryRead (s : IoStream) : Option (List UInt8) × IoStream :=
  match s.readFrame with
  | (.ok frame, s) => (frame, s)
  | (.error _, s) => (none, s)

/-- One pass of the loop in `receive` (stream_transport.cpp:61, 98): what it returns, if it does.
Where it does not, it tries again until its deadline. `in_avail` sees all bytes in memory. -/
def receivePass (s : IoStream) : Option (Option (List UInt8)) × IoStream :=
  if s.rest.length > 0 then
    let (frame, s) := s.tryRead
    (some frame, s)
  else
    match s.peek with
    | (some _, s) =>
      let (frame, s) := s.tryRead
      (some frame, s)
    | (none, s) => (none, s)

/-- `receive`, with time for `passes` passes and nobody writing meanwhile. -/
def receive : Nat → IoStream → Option (List UInt8) × IoStream
  | 0, s => (none, s)
  | passes + 1, s =>
    match s.receivePass with
    | (some frame, s) => (frame, s)
    | (none, s) => s.receive passes

/-- Where nothing throws, this is the blocking reader. -/
theorem readFrame_stream (s : IoStream) :
    streamReadFrame s.toStream = s.readFrame.1.map fun frame =>
      (frame, s.readFrame.2.toStream) := by
  unfold streamReadFrame readFrame read
  rcases s.toStream.read 4 with ⟨lenWire, stream⟩
  simp only
  split
  · rfl
  split
  · rfl
  split
  · rfl
  split
  · rcases stream.read (wordOf lenWire).toNat with ⟨frame, stream'⟩
    simp only
    split <;> rfl
  · rfl

end IoStream

/-! ## Both sides -/

/-- What the two sides do: one sends a frame, and the other makes a pass of a poll. -/
inductive LinkAction where
  | send (frame : List UInt8)
  | pass
  deriving Repr, DecidableEq

/-- The stream, and the frames that polls have returned. -/
structure Link where
  stream : IoStream := {}
  received : List (List UInt8) := []

namespace Link

def step (rule : Insertion) (l : Link) : LinkAction → Link
  | .send frame => { l with stream := (l.stream.writeFrame rule frame).2 }
  | .pass =>
    match l.stream.receivePass with
    | (some (some frame), s) => ⟨s, l.received ++ [frame]⟩
    | (_, s) => { l with stream := s }

def run (rule : Insertion) (l : Link) (actions : List LinkAction) : Link :=
  actions.foldl (step rule) l

end Link

/-- The frames that are sent. -/
def sends : List LinkAction → List (List UInt8)
  | [] => []
  | .send frame :: actions => frame :: sends actions
  | .pass :: actions => sends actions

/-- When the polling goes on, the frames that are returned are the frames that were sent. -/
def Delivers (rule : Insertion) (actions : List LinkAction) : Prop :=
  (Link.run rule {} (actions ++ List.replicate (sends actions).length .pass)).received =
    sends actions

instance (rule : Insertion) (actions : List LinkAction) : Decidable (Delivers rule actions) :=
  inferInstanceAs (Decidable (_ = _))

/-- With `unread` frames on the stream, no pass finds it drained while frames are still to be
sent. -/
def FedBy : Nat → List LinkAction → Prop
  | _, [] => True
  | unread, .send _ :: actions => FedBy (unread + 1) actions
  | 0, .pass :: actions => sends actions = []
  | unread + 1, .pass :: actions => FedBy unread actions

/-- A poll that nobody interrupts is a few passes. -/
theorem receive_passes (rule : Insertion) (passes : Nat) (s : IoStream)
    (received : List (List UInt8)) : ∃ n, Link.run rule ⟨s, received⟩ (List.replicate n .pass) =
      ⟨(s.receive passes).2, received ++ (s.receive passes).1.toList⟩ := by
  induction passes generalizing s with
  | zero => exact ⟨0, congrArg (Link.mk s) (List.append_nil received).symm⟩
  | succ passes ih =>
    unfold IoStream.receive
    rcases hpass : s.receivePass with ⟨_ | _ | frame, s'⟩
    · obtain ⟨n, hn⟩ := ih s'
      refine ⟨n + 1, ?_⟩
      rw [List.replicate_succ, Link.run, List.foldl_cons, Link.step, hpass]
      exact hn
    · refine ⟨1, ?_⟩
      simp [Link.run, Link.step, hpass]
    · refine ⟨1, ?_⟩
      simp [Link.run, Link.step, hpass]

/-! ## A stream that is not good -/

namespace IoStream

theorem read_bad {s : IoStream} (h : s.good = false) (n : Nat) :
    s.read n = ([], { s with failbit := true }) := by
  have hread : s.toStream.read n = ([], s.toStream) := by
    rw [Stream.read, h]
    rfl
  rw [read, hread]
  simp [h]

theorem readFrame_bad {s : IoStream} (h : s.good = false) :
    s.readFrame = (.ok none, { s with failbit := true }) := by
  unfold readFrame
  rw [read_bad h]
  simp [Stream.eof, h]

/-- No pass gives a frame, and none makes the stream good again. -/
theorem receivePass_bad {s : IoStream} (h : s.good = false) :
    (s.receivePass.1 = none ∨ s.receivePass.1 = some none) ∧ s.receivePass.2.good = false := by
  unfold receivePass
  split
  · rw [tryRead, readFrame_bad h]
    exact ⟨.inr rfl, h⟩
  · have hpeek : s.peek = (none, { s with failbit := true }) := by
      rw [peek, h]
      rfl
    rw [hpeek]
    exact ⟨.inl rfl, h⟩

theorem writeFrame_bad {s : IoStream} (h : s.good = false) (rule : Insertion)
    (frame : List UInt8) : (s.writeFrame rule frame).2.good = false := by
  unfold writeFrame
  rw [h]
  cases rule
  · exact h
  · exact h
  · rfl

end IoStream

namespace Link

theorem step_bad {l : Link} (h : l.stream.good = false) (rule : Insertion) (a : LinkAction) :
    (l.step rule a).stream.good = false ∧ (l.step rule a).received = l.received := by
  cases a with
  | send frame => exact ⟨IoStream.writeFrame_bad h rule frame, rfl⟩
  | pass =>
    obtain ⟨hnothing, hbad⟩ := IoStream.receivePass_bad h
    unfold step
    rcases hpass : l.stream.receivePass with ⟨_ | _ | frame, s⟩ <;> rw [hpass] at hnothing hbad
    · exact ⟨hbad, rfl⟩
    · exact ⟨hbad, rfl⟩
    · rcases hnothing with h | h <;> cases h

/-- Nothing is received any more. -/
theorem run_bad {l : Link} (h : l.stream.good = false) (rule : Insertion)
    (actions : List LinkAction) : (l.run rule actions).received = l.received := by
  induction actions generalizing l with
  | nil => rfl
  | cons a actions ih =>
    obtain ⟨hbad, hreceived⟩ := step_bad h rule a
    exact (ih hbad).trans hreceived

end Link

/-! ## A stream with whole frames -/

namespace IoStream

theorem read_good (bytes rest : List UInt8) (failbit : Bool) :
    read bytes.length ⟨⟨bytes ++ rest, true⟩, failbit⟩ = (bytes, ⟨⟨rest, true⟩, failbit⟩) := by
  rw [read, Stream.read_append]
  simp

/-- The next frame on the stream is the one that a pass returns. -/
theorem receivePass_wire {frame : List UInt8} (h : frame.length ≤ kMaxFrameBytes)
    (frames : List (List UInt8)) :
    receivePass { rest := wire (frame :: frames) } =
      (some (some frame), { rest := wire frames }) := by
  have hwire : wire (frame :: frames) =
      writeWord (UInt32.ofNat frame.length) ++ (frame ++ wire frames) := by
    rw [wire, List.flatMap_cons, enqueueFrame, List.append_assoc]
    rfl
  have hhead := read_good (writeWord (UInt32.ofNat frame.length)) (frame ++ wire frames) false
  rw [writeWord_length] at hhead
  have hframe : readFrame { rest := wire (frame :: frames) } =
      (.ok (some frame), { rest := wire frames }) := by
    unfold readFrame
    rw [hwire]
    simp only [hhead, writeWord_length, wordOf_append h]
    rw [if_neg (by simp), if_neg (by simp), if_neg (Nat.not_lt.mpr h)]
    by_cases hpos : frame.length > 0
    · simp only [if_pos hpos, read_good, ne_eq, not_true_eq_false, if_false]
    · have hnil : frame = [] := List.length_eq_zero_iff.mp (by omega)
      rw [if_neg hpos, hnil]
      rfl
  have hsome : (wire (frame :: frames)).length > 0 := by
    rw [hwire, List.length_append, writeWord_length]
    omega
  unfold receivePass
  rw [if_pos hsome, tryRead, hframe]

end IoStream

namespace Link

theorem step_send (rule : Insertion) (frames received : List (List UInt8)) (frame : List UInt8) :
    step rule ⟨{ rest := wire frames }, received⟩ (.send frame) =
      ⟨{ rest := wire (frames ++ [frame]) }, received⟩ := by
  have hwire : wire (frames ++ [frame]) = wire frames ++ enqueueFrame frame := by
    simp [wire]
  rw [hwire, ← streamWriteFrame_eq]
  rfl

theorem step_pass (rule : Insertion) {frame : List UInt8} (h : frame.length ≤ kMaxFrameBytes)
    (frames received : List (List UInt8)) :
    step rule ⟨{ rest := wire (frame :: frames) }, received⟩ .pass =
      ⟨{ rest := wire frames }, received ++ [frame]⟩ := by
  simp only [step, IoStream.receivePass_wire h]

theorem step_pass_drained (rule : Insertion) (received : List (List UInt8)) :
    (step rule ⟨{}, received⟩ .pass).stream.good = false ∧
      (step rule ⟨{}, received⟩ .pass).received = received :=
  ⟨rfl, rfl⟩

/-- A pass over the drained stream sets `eofbit`, and nothing is returned from then on. -/
theorem run_drained (rule : Insertion) (received : List (List UInt8)) (actions : List LinkAction) :
    (run rule ⟨{}, received⟩ (.pass :: actions)).received = received := by
  obtain ⟨hbad, hreceived⟩ := step_pass_drained rule received
  exact (run_bad hbad rule actions).trans hreceived

/-- What is on the stream is returned, however often it is polled after that. -/
theorem run_passes (rule : Insertion) {frames : List (List UInt8)}
    (h : ∀ frame ∈ frames, frame.length ≤ kMaxFrameBytes) (received : List (List UInt8)) {n : Nat}
    (hn : frames.length ≤ n) :
    (run rule ⟨{ rest := wire frames }, received⟩ (List.replicate n .pass)).received =
      received ++ frames := by
  induction frames generalizing received n with
  | nil =>
    rw [List.append_nil]
    cases n with
    | zero => rfl
    | succ n => exact run_drained rule received _
  | cons frame frames ih =>
    obtain ⟨n, rfl⟩ : ∃ m, n = m + 1 := ⟨n - 1, by simp at hn; omega⟩
    have hstep := step_pass rule (h frame (List.mem_cons_self ..)) frames received
    have hrest := ih (fun f hf => h f (List.mem_cons_of_mem _ hf)) (received ++ [frame])
      (Nat.le_of_succ_le_succ hn)
    rw [List.append_assoc, List.singleton_append] at hrest
    rw [List.replicate_succ, run, List.foldl_cons, hstep]
    exact hrest

/-- From a stream with whole frames, everything is returned exactly if no pass finds it drained
too early. -/
theorem delivers_from (rule : Insertion) {actions : List LinkAction}
    {frames received : List (List UInt8)} (hframes : ∀ f ∈ frames, f.length ≤ kMaxFrameBytes)
    (hsends : ∀ f ∈ sends actions, f.length ≤ kMaxFrameBytes) {n : Nat}
    (hn : frames.length + (sends actions).length ≤ n) :
    (run rule ⟨{ rest := wire frames }, received⟩ (actions ++ List.replicate n .pass)).received =
      received ++ frames ++ sends actions ↔ FedBy frames.length actions := by
  induction actions generalizing frames received with
  | nil =>
    have hall := run_passes rule hframes received hn
    simpa [sends, FedBy] using hall
  | cons a actions ih =>
    cases a with
    | send frame =>
      have hframes' : ∀ f ∈ frames ++ [frame], f.length ≤ kMaxFrameBytes := by
        intro f hf
        rcases List.mem_append.1 hf with hf | hf
        · exact hframes f hf
        · rw [List.mem_singleton.1 hf]
          exact hsends frame (List.mem_cons_self ..)
      have hn' : (frames ++ [frame]).length + (sends actions).length ≤ n := by
        simp only [sends, List.length_cons, List.length_append, List.length_nil] at hn ⊢
        omega
      have hrest := @ih _ received hframes' (fun f hf => hsends f (List.mem_cons_of_mem _ hf)) hn'
      rw [List.length_append, List.length_singleton] at hrest
      rw [List.cons_append, run, List.foldl_cons, step_send, FedBy, ← hrest, sends]
      simp only [List.append_assoc, List.singleton_append]
      exact Iff.rfl
    | pass =>
      cases frames with
      | nil =>
        have hdrained := run_drained rule received (actions ++ List.replicate n .pass)
        rw [List.cons_append, show wire [] = [] from rfl, hdrained, List.append_nil,
          List.self_eq_append_right]
        exact Iff.rfl
      | cons frame frames =>
        have hstep := step_pass rule (hframes frame (List.mem_cons_self ..)) frames received
        have hn' : frames.length + (sends actions).length ≤ n := by
          simp only [sends, List.length_cons] at hn
          omega
        have hrest := @ih _ (received ++ [frame])
          (fun f hf => hframes f (List.mem_cons_of_mem _ hf))
          hsends hn'
        rw [List.cons_append, run, List.foldl_cons, hstep, List.length_cons, FedBy, ← hrest, sends]
        simp only [List.append_assoc, List.singleton_append]
        exact Iff.rfl

/-! ## Long frames -/

theorem readFrame_length {s : IoStream} {frame : List UInt8}
    (h : s.readFrame.1 = .ok (some frame)) : frame.length ≤ kMaxFrameBytes := by
  unfold IoStream.readFrame at h
  simp only at h
  split at h
  · cases h
  split at h
  · cases h
  split at h
  · cases h
  next hlen =>
    split at h
    · split at h
      · cases h
      next hall =>
        cases h
        rw [not_not] at hall
        rw [hall]
        exact Nat.not_lt.1 hlen
    · cases h
      exact Nat.zero_le _

/-- Frames that are longer than allowed are never returned. -/
theorem receivePass_length {s : IoStream} {frame : List UInt8}
    (h : s.receivePass.1 = some (some frame)) : frame.length ≤ kMaxFrameBytes := by
  have htry {s : IoStream} (h : s.tryRead.1 = some frame) : frame.length ≤ kMaxFrameBytes := by
    unfold IoStream.tryRead at h
    rcases hread : s.readFrame with ⟨e | r, s'⟩ <;> rw [hread] at h <;> cases h
    exact readFrame_length (congrArg Prod.fst hread)
  unfold IoStream.receivePass at h
  split at h
  · exact htry (Option.some.inj h)
  · rcases hpeek : s.peek with ⟨_ | b, s'⟩ <;> rw [hpeek] at h
    · cases h
    · exact htry (Option.some.inj h)

theorem run_length (rule : Insertion) (actions : List LinkAction) {l : Link}
    (h : ∀ f ∈ l.received, f.length ≤ kMaxFrameBytes) :
    ∀ f ∈ (l.run rule actions).received, f.length ≤ kMaxFrameBytes := by
  induction actions generalizing l with
  | nil => exact h
  | cons a actions ih =>
    refine ih ?_
    cases a with
    | send frame => exact h
    | pass =>
      unfold step
      rcases hpass : l.stream.receivePass with ⟨_ | _ | frame, s⟩
      · exact h
      · exact h
      · intro f hf
        rcases List.mem_append.1 hf with hf | hf
        · exact h f hf
        · rw [List.mem_singleton.1 hf]
          exact receivePass_length (congrArg Prod.fst hpass)

end Link

/-- **Main result**: whatever an insertion does at the end of the data, the frames that are sent
are returned by polls, each once and in order, exactly if none is longer than allowed and no pass
of a poll finds the stream drained before the last is sent. -/
theorem polls_deliver_iff (rule : Insertion) (actions : List LinkAction) :
    Delivers rule actions ↔
      (∀ f ∈ sends actions, f.length ≤ kMaxFrameBytes) ∧ FedBy 0 actions := by
  have hnone : ∀ f ∈ ([] : List (List UInt8)), f.length ≤ kMaxFrameBytes := nofun
  have hfrom (hsends : ∀ f ∈ sends actions, f.length ≤ kMaxFrameBytes) :
      Delivers rule actions ↔ FedBy 0 actions :=
    Link.delivers_from rule hnone hsends (le_of_eq (Nat.zero_add _))
  constructor
  · intro h
    have hsends : ∀ f ∈ sends actions, f.length ≤ kMaxFrameBytes := by
      rw [← show _ = sends actions from h]
      exact Link.run_length rule _ hnone
    exact ⟨hsends, (hfrom hsends).1 h⟩
  · exact fun ⟨hsends, hfed⟩ => (hfrom hsends).2 hfed

/-- One idle pass, and the frame that is sent after it is never returned. -/
theorem idle_poll_loses : ¬ Delivers .dropped [.pass, .send [7]] ∧
    ¬ Delivers .refused [.pass, .send [7]] ∧ ¬ Delivers .separate [.pass, .send [7]] := by
  decide

end Bison
