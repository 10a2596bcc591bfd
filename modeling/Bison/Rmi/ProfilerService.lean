import Bison.Lib.Machine
import Bison.Core.Numbers
import Mathlib.Data.List.Nodup
import Mathlib.Logic.Function.Basic

/-!
# The profiler service

The server's trace file (profiler_service.cpp): captures are started and stopped, clients submit
trace blocks, and a writer thread takes the blocks from a queue and writes them. Threads take turns
at every critical section, so each of these is one step.

- `Service.step`: one step of one thread.
- `Orderly`: the steps of a run that lose and reorder nothing.
- `orderly_kept`: **main result**, in a run of such steps every accepted block is written once, to
  the file of its own capture and in the order of its thread.
- `stop_drops`: a capture that stops while the writer thread holds a block.
-/

namespace Bison.Profiler

/-- The path of a trace file below the output directory. -/
abbrev Path := List UInt8

/-- The name `start_capture` gives a file, from the clock and the label. It is opened as a C string,
and so up to its first NUL. -/
def captureName (ms : Int) (label : List UInt8) : Path :=
  cString <|
    ascii "trace-" ++ signedDecimal ms ++ (if label.isEmpty then [] else ascii "-" ++ label) ++
      ascii ".perfetto-trace"

/-- The writer thread, or one that runs the methods of the service. -/
inductive Thread where
  | writer
  | caller (n : Nat)
  deriving Repr, DecidableEq

/-- An accepted block: `number` blocks were accepted before it, and `path` is the file of the
capture that was active when `submit_trace_block` looked. -/
structure Block where
  number : Nat
  thread : Thread
  path : Path
  bytes : List UInt8
  deriving Repr, DecidableEq

/-- What `append_to_file` is given: a block, or a batch of the server's own recorder. -/
inductive Item where
  | block (b : Block)
  | batch (bytes : List UInt8)
  deriving Repr, DecidableEq

/-- The block of an item. -/
def Item.block? : Item → Option Block
  | .block b => some b
  | .batch _ => none

/-- Where a thread is, between two critical sections. -/
inductive Task where
  | idle
  -- submit_trace_block, after the check
  | submitting (path : Path) (bytes : List UInt8)
  -- start_capture, before the file is opened and after it
  | starting (path : Path) (creates : Bool)
  | started
  -- stop_capture, before `capture_active_` is cleared and before the file is closed
  | stopping
  | closing
  -- write_pending_blocks, before a block is popped and with a block popped
  | draining
  | writing (b : Block)
  deriving Repr, DecidableEq

/-- `profiler_service`, with every block accepted so far and what is on disk. -/
structure Service where
  captureActive : Bool := false
  -- the path under which `file` is open, and whether the stream has its failbit set
  file : Option Path := none
  failed : Bool := false
  currentPath : Path := []
  pendingBlocks : List Block := []
  tasks : Thread → Task := fun
    | .writer => .draining
    | .caller _ => .idle
  accepted : List Block := []
  disk : List (Path × Item) := []
  created : List Path := []

/-- `kMaxQueuedTraceBlocks`. -/
def kMaxQueuedTraceBlocks : Nat := 256

namespace Service

/-- The thread goes on to `task`. -/
def goto (s : Service) (t : Thread) (task : Task) : Service :=
  { s with tasks := Function.update s.tasks t task }

/-- `append_to_file` (profiler_service.cpp:35). A stream with its failbit set writes nothing. -/
def appendToFile (s : Service) (item : Item) : Service :=
  match s.file with
  | none => s
  | some path => if s.failed then s else { s with disk := s.disk ++ [(path, item)] }

/-- `enqueue_trace_block` (profiler_service.cpp:43). -/
def enqueueTraceBlock (s : Service) (t : Thread) (path : Path) (bytes : List UInt8) : Service :=
  if s.pendingBlocks.length ≥ kMaxQueuedTraceBlocks then s
  else
    let block : Block := ⟨s.accepted.length, t, path, bytes⟩
    { s with pendingBlocks := s.pendingBlocks ++ [block], accepted := s.accepted ++ [block] }

/-- `file.open` with `trunc`: an open stream refuses and keeps its file. -/
def openFile (s : Service) (path : Path) (creates : Bool) : Service :=
  if s.file.isSome ∨ !creates then { s with failed := true }
  else
    { s with
      file := some path
      failed := false
      disk := s.disk.filter (·.1 != path)
      created := s.created ++ [path] }

/-- The first critical section of `start_capture`. -/
def openCapture (s : Service) (t : Thread) (path : Path) (creates : Bool) : Service :=
  let s := s.openFile path creates
  if s.file.isSome then { s with currentPath := path }.goto t .started else s.goto t .idle

/-- One pop of `write_pending_blocks` (profiler_service.cpp:66). `writer_loop` comes back to it. -/
def popBlock (s : Service) (t : Thread) : Service :=
  match s.pendingBlocks with
  | [] => s.goto t (if t = .writer then .draining else .closing)
  | block :: rest => { s with pendingBlocks := rest }.goto t (.writing block)

/-- The next critical section of a thread. -/
def advance (s : Service) (t : Thread) : Option Service :=
  match s.tasks t with
  | .idle => none
  | .submitting path bytes => some ((s.enqueueTraceBlock t path bytes).goto t .idle)
  | .starting path creates => some (s.openCapture t path creates)
  | .started => some ({ s with captureActive := true }.goto t .idle)
  | .stopping => some ({ s with captureActive := false }.goto t .draining)
  | .draining => some (s.popBlock t)
  | .writing block => some ((s.appendToFile (.block block)).goto t .draining)
  | .closing => some ({ s with file := none }.goto t .idle)

end Service

/-- A thread calls a method of the service, or takes its next step. The label and the clock of
`start_capture` are given with whether its file can be created. -/
inductive Action where
  | submitTraceBlock (n : Nat) (bytes : List UInt8)
  | startCapture (n : Nat) (ms : Int) (label : List UInt8) (creates : Bool)
  | stopCapture (n : Nat)
  | flushSink (batch : List UInt8)
  | advance (t : Thread)
  deriving Repr, DecidableEq

/-- A method whose first check gives its thread a task, if it passes. -/
def Service.call (s : Service) (n : Nat) (passes : Bool) (task : Task) : Option Service :=
  if s.tasks (.caller n) = .idle then some (if passes then s.goto (.caller n) task else s) else none

/-- One step. -/
def Service.step (s : Service) : Action → Option Service
  | .submitTraceBlock n bytes =>
    s.call n (s.captureActive && !bytes.isEmpty) (.submitting s.currentPath bytes)
  | .startCapture n ms label creates =>
    s.call n (!s.captureActive) (.starting (captureName ms label) creates)
  | .stopCapture n => s.call n s.captureActive .stopping
  | .flushSink batch => some (s.appendToFile (.batch batch))
  | .advance t => s.advance t

/-! ## What becomes of the blocks -/

namespace Service

/-- Some thread has popped the block and not yet written it. -/
def Held (s : Service) (b : Block) : Prop := ∃ t, s.tasks t = .writing b

/-- The block is queued or held. -/
def Pending (s : Service) (b : Block) : Prop := b ∈ s.pendingBlocks ∨ s.Held b

/-- The blocks written, in order. -/
def blocks (s : Service) : List Block := s.disk.filterMap fun e => e.2.block?

/-- Blocks are written once, to the file of their own capture and in the order of their thread;
one that is not written yet can still be, for its file is open. -/
structure Kept (s : Service) : Prop where
  own : ∀ path b, (path, .block b) ∈ s.disk → b ∈ s.accepted ∧ path = b.path
  once : ∀ t, (s.blocks.filter (·.thread = t)).Pairwise (·.number < ·.number)
  written : ∀ b ∈ s.accepted,
    (b.path, .block b) ∈ s.disk ∨ s.Pending b ∧ s.file = some b.path
  numbered : s.accepted.map Block.number = List.range s.accepted.length

/-- A step that cannot lose or reorder a block. -/
def OrderlyTask (s : Service) : Task → Prop
  -- a block is queued only while its own capture has the file open
  | .submitting path _ =>
    s.pendingBlocks.length < kMaxQueuedTraceBlocks → s.file = some path ∧ s.failed = false
  -- no file is given a name again
  | .starting path _ => s.file = none → path ∉ s.created
  -- no other thread still holds an earlier block of the same thread
  | .writing b => s.failed = false ∧ ∀ b', s.Held b' → b'.thread = b.thread → b.number ≤ b'.number
  -- the file is closed when every block is written
  | .closing => s.file ≠ none → ∀ b, ¬ s.Pending b
  | _ => True

/-- The condition on a step of a run. -/
def Orderly (s : Service) : Action → Prop
  | .advance t => s.OrderlyTask (s.tasks t)
  | _ => True

/-- What every orderly step keeps. -/
structure Sound (s : Service) : Prop extends Kept s where
  accepted : ∀ b, s.Pending b → b ∈ s.accepted
  opened : ∀ b, s.Pending b → s.file = some b.path
  later : ∀ d ∈ s.blocks, ∀ b, s.Pending b → b.thread = d.thread → d.number < b.number
  queued : s.pendingBlocks.Pairwise (·.number < ·.number)
  popped : ∀ b, s.Held b → ∀ q ∈ s.pendingBlocks, b.number < q.number
  hands : ∀ t t' b b', s.tasks t = .writing b → s.tasks t' = .writing b' →
    b.number = b'.number → t = t'
  named : ∀ e ∈ s.disk, e.1 ∈ s.created
  fileNamed : ∀ path, s.file = some path → path ∈ s.created

end Service

variable {s s' : Service}

/-! ## Steps that leave the blocks alone -/

/-- Nothing that concerns a block is different. -/
structure Service.SameBlocks (s s' : Service) : Prop where
  file : s'.file = s.file
  pending : s'.pendingBlocks = s.pendingBlocks
  held : ∀ t b, s'.tasks t = .writing b ↔ s.tasks t = .writing b
  accepted : s'.accepted = s.accepted
  disk : s'.disk = s.disk
  created : s'.created = s.created

namespace Service

/-- A thread that held no block goes on to a task without one. -/
theorem goto_writing {t : Thread} {task : Task} (hfrom : ∀ b, s.tasks t ≠ .writing b)
    (hto : ∀ b, task ≠ .writing b) (t' : Thread) (b : Block) :
    (s.goto t task).tasks t' = .writing b ↔ s.tasks t' = .writing b := by
  by_cases heq : t' = t
  · subst heq
    simp [goto, hfrom, hto]
  · simp [goto, Function.update_of_ne heq]

theorem SameBlocks.of_goto {t : Thread} {task : Task} (hfrom : ∀ b, s.tasks t ≠ .writing b)
    (hto : ∀ b, task ≠ .writing b) : s.SameBlocks (s.goto t task) :=
  ⟨rfl, rfl, goto_writing hfrom hto, rfl, rfl, rfl⟩

theorem SameBlocks.pending_iff (h : s.SameBlocks s') (b : Block) : s'.Pending b ↔ s.Pending b := by
  unfold Pending Held
  rw [h.pending]
  exact or_congr_right (exists_congr fun t => h.held t b)

theorem SameBlocks.held_iff (h : s.SameBlocks s') (b : Block) : s'.Held b ↔ s.Held b :=
  exists_congr fun t => h.held t b

theorem SameBlocks.transfer (h : s.SameBlocks s') (hs : s.Sound) : s'.Sound where
  own := by rw [h.disk, h.accepted]; exact hs.own
  once := by unfold blocks; rw [h.disk]; exact hs.once
  written := by
    intro b hb
    rw [h.accepted] at hb
    rw [h.disk, h.pending_iff, h.file]
    exact hs.written b hb
  numbered := by rw [h.accepted]; exact hs.numbered
  accepted := by
    intro b hb
    rw [h.accepted]
    exact hs.accepted b ((h.pending_iff b).1 hb)
  opened := by
    intro b hb
    rw [h.file]
    exact hs.opened b ((h.pending_iff b).1 hb)
  later := by
    intro d hd b hb
    unfold blocks at hd
    rw [h.disk] at hd
    exact hs.later d hd b ((h.pending_iff b).1 hb)
  queued := by rw [h.pending]; exact hs.queued
  popped := by
    intro b hb
    rw [h.pending]
    exact hs.popped b ((h.held_iff b).1 hb)
  hands := fun t t' b b' hb hb' => hs.hands t t' b b' ((h.held t b).1 hb) ((h.held t' b').1 hb')
  named := by rw [h.disk, h.created]; exact hs.named
  fileNamed := by rw [h.file, h.created]; exact hs.fileNamed

/-! ## Steps that move a block -/

theorem sound_init : Sound {} where
  own := fun _ _ h => nomatch h
  once := fun _ => List.Pairwise.nil
  written := fun _ h => nomatch h
  numbered := rfl
  accepted := by
    rintro b (h | ⟨_ | n, h⟩) <;> cases h
  opened := by
    rintro b (h | ⟨_ | n, h⟩) <;> cases h
  later := fun _ h => nomatch h
  queued := List.Pairwise.nil
  popped := by
    rintro b ⟨_ | n, h⟩ <;> cases h
  hands := by
    rintro (_ | n) t' b b' h <;> cases h
  named := fun _ h => nomatch h
  fileNamed := fun _ h => nomatch h

theorem appendToFile_open {path : Path} (hfile : s.file = some path) (hfailed : s.failed = false)
    (item : Item) : s.appendToFile item = { s with disk := s.disk ++ [(path, item)] } := by
  simp [appendToFile, hfile, hfailed]

theorem appendToFile_lost (h : s.file = none ∨ s.failed = true) (item : Item) :
    s.appendToFile item = s := by
  unfold appendToFile
  rcases h with h | h
  · rw [h]
  · rw [h]
    split <;> rfl

theorem blocks_snoc (path : Path) (item : Item) :
    blocks { s with disk := s.disk ++ [(path, item)] } =
      s.blocks ++ item.block?.toList := by
  unfold blocks
  rw [List.filterMap_append]
  cases item <;> rfl

/-- A batch of the server's recorder. -/
theorem Sound.flush (h : s.Sound) (batch : List UInt8) : (s.appendToFile (.batch batch)).Sound := by
  by_cases hlost : s.file = none ∨ s.failed = true
  · rw [appendToFile_lost hlost]
    exact h
  · simp only [not_or, Bool.not_eq_true] at hlost
    obtain ⟨path, hfile⟩ := Option.ne_none_iff_exists'.1 hlost.1
    rw [appendToFile_open hfile hlost.2]
    have hblocks : blocks { s with disk := s.disk ++ [(path, .batch batch)] } = s.blocks := by
      rw [blocks_snoc]
      exact List.append_nil _
    have hmem (path' : Path) (b : Block) :
        (path', Item.block b) ∈ s.disk ++ [(path, .batch batch)] ↔ (path', .block b) ∈ s.disk := by
      simp
    exact {
      own := fun path' b hb => h.own path' b ((hmem path' b).1 hb)
      once := fun t => by rw [hblocks]; exact h.once t
      written := fun b hb => (h.written b hb).imp_left (hmem b.path b).2
      numbered := h.numbered
      accepted := h.accepted
      opened := h.opened
      later := by rw [hblocks]; exact h.later
      queued := h.queued
      popped := h.popped
      hands := h.hands
      named := fun e he => by
        rcases List.mem_append.1 he with he | he
        · exact h.named e he
        · rw [List.mem_singleton.1 he]
          exact h.fileNamed path hfile
      fileNamed := h.fileNamed }

theorem Sound.number_lt (h : s.Sound) {b : Block} (hb : b ∈ s.accepted) :
    b.number < s.accepted.length := by
  have hmem : b.number ∈ s.accepted.map Block.number := List.mem_map_of_mem hb
  rw [h.numbered] at hmem
  exact List.mem_range.1 hmem

theorem Sound.number_inj (h : s.Sound) {b b' : Block} (hb : b ∈ s.accepted)
    (hb' : b' ∈ s.accepted) (hnumber : b.number = b'.number) : b = b' := by
  have hnodup : (s.accepted.map Block.number).Nodup := by
    rw [h.numbered]
    exact List.nodup_range
  exact List.inj_on_of_nodup_map hnodup hb hb' hnumber

/-- A block on disk was accepted. -/
theorem Sound.blocks_accepted (h : s.Sound) {b : Block} (hb : b ∈ s.blocks) : b ∈ s.accepted := by
  obtain ⟨⟨path, item⟩, hmem, heq⟩ := List.mem_filterMap.1 hb
  cases item with
  | block b' =>
    cases heq
    exact (h.own path b hmem).1
  | batch bytes => cases heq

/-- A block joins the queue. -/
theorem Sound.enqueue (h : s.Sound) {t : Thread} {path : Path} {bytes : List UInt8}
    (horderly : s.OrderlyTask (.submitting path bytes)) :
    (s.enqueueTraceBlock t path bytes).Sound := by
  unfold enqueueTraceBlock
  by_cases hfull : s.pendingBlocks.length ≥ kMaxQueuedTraceBlocks
  · rw [if_pos hfull]
    exact h
  · rw [if_neg hfull]
    obtain ⟨hfile, -⟩ := horderly (Nat.lt_of_not_le hfull)
    let block : Block := ⟨s.accepted.length, t, path, bytes⟩
    -- its number is larger than every other
    have hlater (b : Block) (hb : b ∈ s.accepted) : b.number < block.number := h.number_lt hb
    have hpending (b : Block) :
        Pending { s with
          pendingBlocks := s.pendingBlocks ++ [block], accepted := s.accepted ++ [block] } b ↔
        s.Pending b ∨ b = block := by
      show b ∈ s.pendingBlocks ++ [block] ∨ s.Held b ↔ (b ∈ s.pendingBlocks ∨ s.Held b) ∨ b = block
      rw [List.mem_append, List.mem_singleton, or_assoc, or_comm (a := b = block), ← or_assoc]
    exact {
      own := fun path' b hb => ⟨List.mem_append_left _ (h.own path' b hb).1, (h.own path' b hb).2⟩
      once := h.once
      written := fun b hb => by
        rcases List.mem_append.1 hb with hb | hb
        · exact (h.written b hb).imp_right fun hb => ⟨(hpending b).2 (.inl hb.1), hb.2⟩
        · rw [List.mem_singleton.1 hb]
          exact .inr ⟨(hpending block).2 (.inr rfl), hfile⟩
      numbered := by
        rw [List.map_append, h.numbered, List.length_append, List.length_singleton,
          List.range_succ]
        rfl
      accepted := fun b hb => by
        rcases (hpending b).1 hb with hb | rfl
        · exact List.mem_append_left _ (h.accepted b hb)
        · exact List.mem_append_right _ (List.mem_singleton_self _)
      opened := fun b hb => by
        rcases (hpending b).1 hb with hb | rfl
        · exact h.opened b hb
        · exact hfile
      later := fun d hd b hb hthread => by
        rcases (hpending b).1 hb with hb | rfl
        · exact h.later d hd b hb hthread
        · exact hlater d (h.blocks_accepted hd)
      queued := by
        refine List.pairwise_append.2 ⟨h.queued, List.pairwise_singleton _ _, fun b hb q hq => ?_⟩
        rw [List.mem_singleton.1 hq]
        exact hlater b (h.accepted b (.inl hb))
      popped := fun b hb q hq => by
        rcases List.mem_append.1 hq with hq | hq
        · exact h.popped b hb q hq
        · rw [List.mem_singleton.1 hq]
          exact hlater b (h.accepted b (.inr hb))
      hands := h.hands
      named := h.named
      fileNamed := h.fileNamed }

/-- A file is opened: nothing is pending before. -/
theorem Sound.openFile (h : s.Sound) {path : Path} (creates : Bool)
    (horderly : s.OrderlyTask (.starting path creates)) : (s.openFile path creates).Sound := by
  unfold Service.openFile
  by_cases hrefused : s.file.isSome ∨ !creates
  · rw [if_pos hrefused]
    exact SameBlocks.transfer (s := s) ⟨rfl, rfl, fun _ _ => .rfl, rfl, rfl, rfl⟩ h
  · rw [if_neg hrefused]
    simp only [not_or, Option.not_isSome_iff_eq_none] at hrefused
    have hnone (b : Block) : ¬ s.Pending b := fun hb => by
      have hopen := h.opened b hb
      rw [hrefused.1] at hopen
      cases hopen
    have hdisk : s.disk.filter (·.1 != path) = s.disk := by
      refine List.filter_eq_self.2 fun e he => bne_iff_ne.2 ?_
      rintro rfl
      exact horderly hrefused.1 (h.named e he)
    rw [hdisk]
    exact {
      own := h.own
      once := h.once
      written := fun b hb => (h.written b hb).imp_right fun hb => (hnone b hb.1).elim
      numbered := h.numbered
      accepted := h.accepted
      opened := fun b hb => (hnone b hb).elim
      later := h.later
      queued := h.queued
      popped := h.popped
      hands := h.hands
      named := fun e he => List.mem_append_left _ (h.named e he)
      fileNamed := fun path' hpath => by
        cases hpath
        exact List.mem_append_right _ (List.mem_singleton_self _) }

/-- The file is closed: nothing is pending. -/
theorem Sound.close (h : s.Sound) (horderly : s.OrderlyTask .closing) :
    Sound { s with file := none } := by
  have hnone (b : Block) : ¬ s.Pending b := fun hb => by
    refine horderly ?_ b hb
    rw [h.opened b hb]
    exact Option.some_ne_none _
  exact {
    own := h.own
    once := h.once
    written := fun b hb => (h.written b hb).imp_right fun hb => (hnone b hb.1).elim
    numbered := h.numbered
    accepted := h.accepted
    opened := fun b hb => (hnone b hb).elim
    later := h.later
    queued := h.queued
    popped := h.popped
    hands := h.hands
    named := h.named
    fileNamed := fun _ hpath => nomatch hpath }

theorem goto_self (t : Thread) (task : Task) : (s.goto t task).tasks t = task :=
  Function.update_self ..

theorem goto_other {t t' : Thread} (h : t' ≠ t) (task : Task) :
    (s.goto t task).tasks t' = s.tasks t' :=
  Function.update_of_ne h ..

/-- A thread takes the block in front. -/
theorem Sound.pop (h : s.Sound) {t : Thread} (htask : s.tasks t = .draining) :
    (s.popBlock t).Sound := by
  unfold popBlock
  cases hqueue : s.pendingBlocks with
  | nil =>
    refine (SameBlocks.of_goto (fun b => ?_) (fun b => ?_)).transfer h
    · rw [htask]
      exact Task.noConfusion
    · split <;> exact Task.noConfusion
  | cons block rest =>
    have hfront := h.queued
    rw [hqueue, List.pairwise_cons] at hfront
    let popped : Service := { s with pendingBlocks := rest }.goto t (.writing block)
    -- what the other threads hold is unchanged
    have hheld (b : Block) : popped.Held b ↔ s.Held b ∨ b = block := by
      constructor
      · rintro ⟨t', ht'⟩
        by_cases heq : t' = t
        · subst heq
          rw [goto_self] at ht'
          cases ht'
          exact .inr rfl
        · rw [goto_other heq] at ht'
          exact .inl ⟨t', ht'⟩
      · rintro (⟨t', ht'⟩ | rfl)
        · have hne : t' ≠ t := by
            rintro rfl
            rw [htask] at ht'
            cases ht'
          exact ⟨t', (goto_other hne _).trans ht'⟩
        · exact ⟨t, goto_self t _⟩
    have hpending (b : Block) : popped.Pending b ↔ s.Pending b := by
      show b ∈ rest ∨ popped.Held b ↔ b ∈ s.pendingBlocks ∨ s.Held b
      rw [hheld, hqueue, List.mem_cons]
      tauto
    exact {
      own := h.own
      once := h.once
      written := fun b hb => (h.written b hb).imp_right fun hb => ⟨(hpending b).2 hb.1, hb.2⟩
      numbered := h.numbered
      accepted := fun b hb => h.accepted b ((hpending b).1 hb)
      opened := fun b hb => h.opened b ((hpending b).1 hb)
      later := fun d hd b hb => h.later d hd b ((hpending b).1 hb)
      queued := hfront.2
      popped := fun b hb q hq => by
        rcases (hheld b).1 hb with hb | rfl
        · exact h.popped b hb q (by rw [hqueue]; exact List.mem_cons_of_mem _ hq)
        · exact hfront.1 q hq
      hands := by
        -- no other thread holds the number of the front
        have hdistinct (t' : Thread) (b : Block) (ht' : s.tasks t' = .writing b) :
            b.number < block.number :=
          h.popped b ⟨t', ht'⟩ block (by rw [hqueue]; exact List.mem_cons_self)
        intro t₁ t₂ b₁ b₂ h₁ h₂ hnumber
        by_cases heq₁ : t₁ = t
        · by_cases heq₂ : t₂ = t
          · rw [heq₁, heq₂]
          · subst heq₁
            rw [goto_self] at h₁
            rw [goto_other heq₂] at h₂
            cases h₁
            exact absurd hnumber (Nat.ne_of_gt (hdistinct t₂ b₂ h₂))
        · rw [goto_other heq₁] at h₁
          by_cases heq₂ : t₂ = t
          · subst heq₂
            rw [goto_self] at h₂
            cases h₂
            exact absurd hnumber (Nat.ne_of_lt (hdistinct t₁ b₁ h₁))
          · rw [goto_other heq₂] at h₂
            exact h.hands t₁ t₂ b₁ b₂ h₁ h₂ hnumber
      named := h.named
      fileNamed := h.fileNamed }

/-- A thread writes the block it holds. -/
theorem Sound.write (h : s.Sound) {t : Thread} {block : Block}
    (htask : s.tasks t = .writing block) (horderly : s.OrderlyTask (.writing block)) :
    ((s.appendToFile (.block block)).goto t .draining).Sound := by
  obtain ⟨hfailed, hfirst⟩ := horderly
  have hhere : s.Held block := ⟨t, htask⟩
  rw [appendToFile_open (h.opened block (.inr hhere)) hfailed]
  let after : Service :=
    { s with disk := s.disk ++ [(block.path, Item.block block)] }.goto t .draining
  have hheld (b : Block) : after.Held b ↔ s.Held b ∧ b.number ≠ block.number := by
    constructor
    · rintro ⟨t', ht'⟩
      by_cases heq : t' = t
      · subst heq
        rw [goto_self] at ht'
        cases ht'
      · rw [goto_other heq] at ht'
        exact ⟨⟨t', ht'⟩, fun hnumber => heq (h.hands t' t b block ht' htask hnumber)⟩
    · rintro ⟨⟨t', ht'⟩, hnumber⟩
      have hne : t' ≠ t := by
        rintro rfl
        rw [htask] at ht'
        cases ht'
        exact hnumber rfl
      exact ⟨t', (goto_other hne _).trans ht'⟩
  have hpending (b : Block) : after.Pending b ↔ s.Pending b ∧ b.number ≠ block.number := by
    show b ∈ s.pendingBlocks ∨ after.Held b ↔ _
    rw [hheld]
    constructor
    · rintro (hb | ⟨hb, hnumber⟩)
      · exact ⟨.inl hb, Nat.ne_of_gt (h.popped block hhere b hb)⟩
      · exact ⟨.inr hb, hnumber⟩
    · rintro ⟨hb | hb, hnumber⟩
      · exact .inl hb
      · exact .inr ⟨hb, hnumber⟩
  have hblocks : after.blocks = s.blocks ++ [block] :=
    blocks_snoc (s := s) block.path (.block block)
  exact {
    own := fun path b hb => by
      rcases List.mem_append.1 hb with hb | hb
      · exact h.own path b hb
      · cases List.mem_singleton.1 hb
        exact ⟨h.accepted block (.inr hhere), rfl⟩
    once := fun t' => by
      rw [hblocks, List.filter_append]
      refine List.pairwise_append.2 ⟨h.once t', ?_, fun d hd b hb => ?_⟩
      · exact List.Pairwise.filter _ (List.pairwise_singleton _ _)
      · rw [List.mem_filter] at hd hb
        cases List.mem_singleton.1 hb.1
        refine h.later d hd.1 block (.inr hhere) ?_
        rw [of_decide_eq_true hd.2, of_decide_eq_true hb.2]
    written := fun b hb => by
      rcases h.written b hb with hb' | hb'
      · exact .inl (List.mem_append_left _ hb')
      · by_cases hnumber : b.number = block.number
        · rw [h.number_inj hb (h.accepted block (.inr hhere)) hnumber]
          exact .inl (List.mem_append_right _ (List.mem_singleton_self _))
        · exact .inr ⟨(hpending b).2 ⟨hb'.1, hnumber⟩, hb'.2⟩
    numbered := h.numbered
    accepted := fun b hb => h.accepted b ((hpending b).1 hb).1
    opened := fun b hb => h.opened b ((hpending b).1 hb).1
    later := fun d hd b hb hthread => by
      obtain ⟨hb, hnumber⟩ := (hpending b).1 hb
      rw [hblocks] at hd
      rcases List.mem_append.1 hd with hd | hd
      · exact h.later d hd b hb hthread
      · cases List.mem_singleton.1 hd
        rcases hb with hb | hb
        · exact h.popped block hhere b hb
        · exact Nat.lt_of_le_of_ne (hfirst b hb hthread) (Ne.symm hnumber)
    queued := h.queued
    popped := fun b hb => h.popped b ((hheld b).1 hb).1
    hands := fun t₁ t₂ b₁ b₂ h₁ h₂ => by
      have hback {t' : Thread} {b : Block} (ht' : after.tasks t' = .writing b) :
          s.tasks t' = .writing b := by
        by_cases heq : t' = t
        · subst heq
          rw [goto_self] at ht'
          cases ht'
        · rwa [goto_other heq] at ht'
      exact h.hands t₁ t₂ b₁ b₂ (hback h₁) (hback h₂)
    named := fun e he => by
      rcases List.mem_append.1 he with he | he
      · exact h.named e he
      · rw [List.mem_singleton.1 he]
        exact h.fileNamed block.path (h.opened block (.inr hhere))
    fileNamed := h.fileNamed }

/-- One step of a thread. -/
theorem Sound.advance (h : s.Sound) {t : Thread} (horderly : s.OrderlyTask (s.tasks t))
    (hstep : s.advance t = some s') : s'.Sound := by
  unfold Service.advance at hstep
  cases htask : s.tasks t with
  | idle =>
    rw [htask] at hstep
    cases hstep
  | submitting path bytes =>
    rw [htask] at hstep horderly
    cases hstep
    have htasks : (s.enqueueTraceBlock t path bytes).tasks = s.tasks := by
      unfold enqueueTraceBlock
      split <;> rfl
    refine (SameBlocks.of_goto (fun b => ?_) fun b => Task.noConfusion).transfer
      (h.enqueue horderly)
    rw [htasks, htask]
    exact Task.noConfusion
  | starting path creates =>
    rw [htask] at hstep horderly
    cases hstep
    have htasks : (s.openFile path creates).tasks = s.tasks := by
      unfold Service.openFile
      split <;> rfl
    have hfrom (b : Block) : (s.openFile path creates).tasks t ≠ .writing b := by
      rw [htasks, htask]
      exact Task.noConfusion
    have hopened := h.openFile creates horderly
    unfold openCapture
    by_cases hopen : (s.openFile path creates).file.isSome
    · have hpath : SameBlocks (s.openFile path creates)
          { s.openFile path creates with currentPath := path } :=
        ⟨rfl, rfl, fun _ _ => .rfl, rfl, rfl, rfl⟩
      simp only [hopen, if_true]
      exact (SameBlocks.of_goto (s := { s.openFile path creates with currentPath := path })
        hfrom fun b => Task.noConfusion).transfer (hpath.transfer hopened)
    · simp only [hopen]
      exact (SameBlocks.of_goto hfrom fun b => Task.noConfusion).transfer hopened
  | started =>
    rw [htask] at hstep
    cases hstep
    have hactive : s.SameBlocks { s with captureActive := true } :=
      ⟨rfl, rfl, fun _ _ => .rfl, rfl, rfl, rfl⟩
    refine (SameBlocks.of_goto (fun b => ?_) fun b => Task.noConfusion).transfer
      (hactive.transfer h)
    rw [htask]
    exact Task.noConfusion
  | stopping =>
    rw [htask] at hstep
    cases hstep
    have hactive : s.SameBlocks { s with captureActive := false } :=
      ⟨rfl, rfl, fun _ _ => .rfl, rfl, rfl, rfl⟩
    refine (SameBlocks.of_goto (fun b => ?_) fun b => Task.noConfusion).transfer
      (hactive.transfer h)
    rw [htask]
    exact Task.noConfusion
  | draining =>
    rw [htask] at hstep
    cases hstep
    exact h.pop htask
  | writing block =>
    rw [htask] at hstep horderly
    cases hstep
    exact h.write htask horderly
  | closing =>
    rw [htask] at hstep horderly
    cases hstep
    refine (SameBlocks.of_goto (fun b => ?_) fun b => Task.noConfusion).transfer (h.close horderly)
    rw [htask]
    exact Task.noConfusion

theorem Sound.call (h : s.Sound) {n : Nat} {passes : Bool} {task : Task}
    (hto : ∀ b, task ≠ .writing b) (hcall : s.call n passes task = some s') : s'.Sound := by
  unfold Service.call at hcall
  by_cases hidle : s.tasks (.caller n) = .idle
  · rw [if_pos hidle] at hcall
    cases hcall
    cases passes with
    | false => exact h
    | true =>
      refine (SameBlocks.of_goto (fun b => ?_) hto).transfer h
      rw [hidle]
      exact Task.noConfusion
  · rw [if_neg hidle] at hcall
    cases hcall

/-- One step. -/
theorem Sound.step (h : s.Sound) {a : Action} (horderly : s.Orderly a)
    (hstep : s.step a = some s') : s'.Sound := by
  cases a with
  | submitTraceBlock n bytes => exact h.call (fun b => Task.noConfusion) hstep
  | startCapture n ms label creates => exact h.call (fun b => Task.noConfusion) hstep
  | stopCapture n => exact h.call (fun b => Task.noConfusion) hstep
  | flushSink batch =>
    cases hstep
    exact h.flush batch
  | advance t => exact h.advance horderly hstep

end Service

/-- In a run whose steps are all orderly, every accepted block is written once, to the file of its
own capture and in the order of its thread. -/
theorem orderly_kept (actions : List Action)
    (horderly : Machine.Each Service.step Service.Orderly {} actions)
    (hrun : Machine.run Service.step {} actions = some s) : s.Kept :=
  (Machine.run_invariant_of_each (I := Service.Sound)
    (fun _ _ _ h horderly hstep => h.step horderly hstep) Service.sound_init horderly hrun).toKept

/-- A capture, a block submitted by another thread and popped by the writer thread. -/
def blockPopped : List Action :=
  [.startCapture 0 5 [] true, .advance (.caller 0), .advance (.caller 0),
    .submitTraceBlock 1 [7], .advance (.caller 1), .advance .writer]

/-- `stop_capture` up to the close. -/
def stops : List Action :=
  [.stopCapture 0, .advance (.caller 0), .advance (.caller 0), .advance (.caller 0)]

/-- The writer thread writes before the file is closed. -/
theorem orderly_kept_stop : ∃ s,
    Machine.run Service.step {} (blockPopped ++ .advance .writer :: stops)
    = some s ∧ s.Kept ∧ s.disk = [(captureName 5 [],
      .block ⟨0, .caller 1, captureName 5 [], [7]⟩)] := by
  refine ⟨_, rfl, orderly_kept (blockPopped ++ .advance .writer :: stops) ?_ rfl, rfl⟩
  unfold blockPopped stops
  -- the capture is opened under a name not used before
  refine (Machine.each_cons rfl).2 ⟨trivial, ?_⟩
  refine (Machine.each_cons rfl).2 ⟨fun _ => List.not_mem_nil, ?_⟩
  refine (Machine.each_cons rfl).2 ⟨trivial, ?_⟩
  refine (Machine.each_cons rfl).2 ⟨trivial, ?_⟩
  -- the block is queued and written while the file is open
  refine (Machine.each_cons rfl).2 ⟨fun _ => ⟨rfl, rfl⟩, ?_⟩
  refine (Machine.each_cons rfl).2 ⟨trivial, ?_⟩
  refine (Machine.each_cons rfl).2 ⟨⟨rfl, fun b' _ _ => Nat.zero_le b'.number⟩, ?_⟩
  refine (Machine.each_cons rfl).2 ⟨trivial, ?_⟩
  refine (Machine.each_cons rfl).2 ⟨trivial, ?_⟩
  refine (Machine.each_cons rfl).2 ⟨trivial, ?_⟩
  refine (Machine.each_cons rfl).2 ⟨fun _ b hb => ?_, trivial⟩
  -- nothing is queued or held when it is closed
  rcases hb with hb | ⟨t, ht⟩
  · exact nomatch hb
  · rcases t with _ | _ | _ | n <;> exact nomatch ht

/-- `stop_capture` closes the file while the writer thread holds a block. -/
theorem stop_drops : ¬ ∀ actions s, Machine.run Service.step {} actions = some s → s.Kept := by
  intro h
  have hkept := h (blockPopped ++ stops ++ [.advance .writer]) _ rfl
  rcases hkept.written ⟨0, .caller 1, captureName 5 [], [7]⟩
    (List.mem_singleton.2 rfl) with hdisk | hpending
  · exact nomatch hdisk
  · exact nomatch hpending.2

end Bison.Profiler
