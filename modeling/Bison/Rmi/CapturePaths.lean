import Bison.Lib.LexicalPath
import Bison.Rmi.ProfilerService

/-!
# Where captures are written

The label of a capture comes from a client and goes into the name of the file as it is.

- `openedPath`: the path that `start_capture` opens, below the configured directory.
- `Contained`: the steps of a run in which no label leaves the directory and no name is used again.
- `contained_confined`: **main result**, in a run of such steps every path that is opened is a
  direct child of the directory, no two captures have the same file, and no file loses what is in
  it.
- `label_leaves`: a label with separators leads out of the directory.
-/

namespace Bison.Profiler

open LexicalPath

/-- `/` and `.`. -/
def slash : UInt8 := 47
def dot : UInt8 := 46

/-- The directory that `enable_profiling` is given. A path has no NUL. -/
structure OutputDir where
  text : List UInt8
  no_nul : 0 ∉ text

/-- What is opened for a name: `output_dir_ / filename` as a C string, for the name up to its first
NUL. -/
def openedPath (dir : OutputDir) (path : Path) : List UInt8 := join slash dir.text path

/-- The path is a file in the output directory. -/
def InDirectory (dir : OutputDir) (path : Path) : Prop :=
  DirectChild slash dot dir.text (openedPath dir path)

/-- A step that neither leaves the directory nor truncates a file. -/
def Contained (s : Service) : Action → Prop
  -- no separator in front of the first NUL
  | .startCapture _ _ label _ => slash ∉ cString label
  -- the name of a file that is created is new
  | .advance t => ∀ path, s.tasks t = .starting path true → s.file = none → path ∉ s.created
  | _ => True

/-- Every path that is opened or about to be is in the directory, and no two captures have the same
file. -/
structure Confined (dir : OutputDir) (s : Service) : Prop where
  opening : ∀ t path creates, s.tasks t = .starting path creates → InDirectory dir path
  created : ∀ path ∈ s.created, InDirectory dir path
  distinct : (s.created.map fun path => normal slash dot (openedPath dir path)).Nodup

/-! ## Names -/

/-- The opened path is the C string of the whole path. -/
theorem openedPath_cString (dir : OutputDir) (name : List UInt8) :
    openedPath dir (cString name) = cString (join slash dir.text name) := by
  unfold openedPath join
  have hslash : 0 ∉ dir.text ++ [slash] := by
    rw [List.mem_append, not_or]
    exact ⟨dir.no_nul, by decide⟩
  split_ifs
  · rfl
  · rw [cString_append dir.no_nul]
  · rw [List.append_cons dir.text slash (cString name), List.append_cons dir.text slash name,
      cString_append hslash]

/-- A name that stays in the directory. -/
structure PlainName (path : Path) : Prop where
  isName : IsName dot path
  no_slash : slash ∉ path

theorem PlainName.inDirectory {path : Path} (h : PlainName path) (dir : OutputDir) :
    InDirectory dir path :=
  directChild_join h.isName h.no_slash

/-- What is in front of the label in the name of a file. -/
def captureStart (ms : Int) : List UInt8 := ascii "trace-" ++ signedDecimal ms

theorem captureStart_chars (ms : Int) : 0 ∉ captureStart ms ∧ slash ∉ captureStart ms := by
  have hchars := signedDecimal_chars ms
  have hstart : 0 ∉ ascii "trace-" ∧ slash ∉ ascii "trace-" := by decide +kernel
  rw [captureStart, List.mem_append, List.mem_append, not_or, not_or]
  exact ⟨⟨hstart.1, fun h => absurd (hchars _ h) (by decide)⟩, hstart.2,
    fun h => absurd (hchars _ h) (by decide)⟩

/-- A label in front of the suffix ends at its own NUL, if it has one. -/
theorem slash_mem_cString_append {label rest : List UInt8} (hrest : slash ∉ rest) :
    slash ∈ cString (label ++ rest) ↔ slash ∈ cString label := by
  have hsuffix : slash ∉ cString rest := fun h => hrest ((List.takeWhile_prefix _).subset h)
  unfold cString at hsuffix ⊢
  rw [List.takeWhile_append]
  split_ifs with hall
  · have hself : label.takeWhile (· != 0) = label :=
      (List.takeWhile_prefix (· != 0)).eq_of_length hall
    rw [List.mem_append, or_iff_left hsuffix, hself]
  · exact Iff.rfl

/-- The name of a file behind its start. -/
theorem captureName_eq (ms : Int) (label : List UInt8) : captureName ms label =
    captureStart ms ++ cString ((if label.isEmpty then [] else ascii "-" ++ label) ++
      ascii ".perfetto-trace") := by
  rw [← cString_append (captureStart_chars ms).1, captureName, captureStart, List.append_assoc]

/-- The label is all that can bring a separator into the name. -/
theorem slash_mem_captureName (ms : Int) (label : List UInt8) :
    slash ∈ captureName ms label ↔ slash ∈ cString label := by
  have hsuffix : slash ∉ ascii ".perfetto-trace" := by decide +kernel
  rw [captureName_eq, List.mem_append, or_iff_right (captureStart_chars ms).2,
    slash_mem_cString_append hsuffix]
  cases label with
  | nil => exact Iff.rfl
  | cons c label =>
    have hdash : cString (ascii "-" ++ c :: label) = ascii "-" ++ cString (c :: label) :=
      cString_append (by decide)
    have hno : slash ∉ ascii "-" := by decide
    rw [List.isEmpty_cons, if_neg Bool.false_ne_true, hdash, List.mem_append, or_iff_right hno]

theorem captureName_isName (ms : Int) (label : List UInt8) : IsName dot (captureName ms label) := by
  obtain ⟨rest, hrest⟩ : ∃ rest, captureName ms label = 116 :: rest :=
    ⟨_, captureName_eq ms label⟩
  rw [hrest]
  exact ⟨List.cons_ne_nil _ _, fun h => absurd (List.cons.inj h).1 (by decide),
    fun h => absurd (List.cons.inj h).1 (by decide)⟩

theorem plainName_captureName {label : List UInt8} (h : slash ∉ cString label) (ms : Int) :
    PlainName (captureName ms label) :=
  ⟨captureName_isName ms label, fun hmem => h ((slash_mem_captureName ms label).1 hmem)⟩

/-! ## Steps -/

/-- What every contained step keeps. -/
structure Named (s : Service) : Prop where
  opening : ∀ t path creates, s.tasks t = .starting path creates → PlainName path
  created : ∀ path ∈ s.created, PlainName path
  nodup : s.created.Nodup
  disk : ∀ e ∈ s.disk, e.1 ∈ s.created
  file : ∀ path, s.file = some path → path ∈ s.created

namespace Named

variable {s s' : Service}

theorem init : Named {} where
  opening t _ _ h := by cases t <;> cases h
  created _ h := by cases h
  nodup := List.nodup_nil
  disk _ h := by cases h
  file _ h := by cases h

/-- A thread goes on to another task. -/
theorem goto (h : Named s) (t : Thread) {task : Task}
    (htask : ∀ path creates, task = .starting path creates → PlainName path) :
    Named (s.goto t task) where
  opening t' path creates ht' := by
    change Function.update s.tasks t task t' = _ at ht'
    by_cases heq : t' = t
    · rw [heq, Function.update_self] at ht'
      exact htask path creates ht'
    · rw [Function.update_of_ne heq] at ht'
      exact h.opening t' path creates ht'
  created := h.created
  nodup := h.nodup
  disk := h.disk
  file := h.file

/-- Another task that opens nothing. -/
theorem goto_other (h : Named s) (t : Thread) {task : Task}
    (htask : ∀ path creates, task ≠ .starting path creates) : Named (s.goto t task) :=
  h.goto t fun path creates heq => absurd heq (htask path creates)

/-- What else a step changes is neither a path nor a file. -/
theorem congr (h : Named s) (htasks : s'.tasks = s.tasks) (hcreated : s'.created = s.created)
    (hdisk : s'.disk = s.disk) (hfile : s'.file = s.file ∨ s'.file = none) : Named s' where
  opening := by rw [htasks]; exact h.opening
  created := by rw [hcreated]; exact h.created
  nodup := by rw [hcreated]; exact h.nodup
  disk := by rw [hcreated, hdisk]; exact h.disk
  file path hpath := by
    rw [hcreated]
    rcases hfile with hfile | hfile
    · exact h.file path (hfile ▸ hpath)
    · rw [hfile] at hpath
      cases hpath

theorem appendToFile (h : Named s) (item : Item) :
    Named (s.appendToFile item) ∧ ∀ e ∈ s.disk, e ∈ (s.appendToFile item).disk := by
  unfold Service.appendToFile
  split
  next => exact ⟨h, fun _ he => he⟩
  next path hfile =>
    split_ifs
    · exact ⟨h, fun _ he => he⟩
    · refine ⟨⟨h.opening, h.created, h.nodup, fun e he => ?_, h.file⟩,
        fun e he => List.mem_append_left _ he⟩
      rcases List.mem_append.1 he with he | he
      · exact h.disk e he
      · rw [List.mem_singleton.1 he]
        exact h.file path hfile

/-- A file that is created has a new name, so that nothing on the disk is lost. -/
theorem openFile (h : Named s) {path : Path} {creates : Bool} (hname : PlainName path)
    (hnew : creates = true → s.file = none → path ∉ s.created) :
    Named (s.openFile path creates) ∧ ∀ e ∈ s.disk, e ∈ (s.openFile path creates).disk := by
  unfold Service.openFile
  split_ifs with hrefused
  · exact ⟨⟨h.opening, h.created, h.nodup, h.disk, h.file⟩, fun _ he => he⟩
  · rw [not_or, Bool.not_eq_true, Option.isSome_eq_false_iff, Option.isNone_iff_eq_none,
      Bool.not_eq_true, Bool.not_eq_false'] at hrefused
    have hpath := hnew hrefused.2 hrefused.1
    have hkeep : ∀ e ∈ s.disk, e ∈ s.disk.filter (·.1 != path) := by
      intro e he
      refine List.mem_filter.2 ⟨he, ?_⟩
      rw [bne_iff_ne]
      rintro rfl
      exact hpath (h.disk e he)
    refine ⟨⟨h.opening, ?_, ?_, ?_, ?_⟩, hkeep⟩
    · intro other hother
      rcases List.mem_append.1 hother with hother | hother
      · exact h.created other hother
      · rw [List.mem_singleton.1 hother]
        exact hname
    · exact h.nodup.append (List.nodup_singleton path) (by simpa using hpath)
    · intro e he
      exact List.mem_append_left _ (h.disk e (List.mem_of_mem_filter he))
    · intro other hother
      cases hother
      exact List.mem_append_right _ List.mem_cons_self

theorem enqueueTraceBlock (h : Named s) (t : Thread) (path : Path) (bytes : List UInt8) :
    Named (s.enqueueTraceBlock t path bytes) ∧
      (s.enqueueTraceBlock t path bytes).disk = s.disk := by
  unfold Service.enqueueTraceBlock
  split_ifs
  · exact ⟨h, rfl⟩
  · exact ⟨h.congr rfl rfl rfl (.inl rfl), rfl⟩

theorem openCapture (h : Named s) (t : Thread) {path : Path} {creates : Bool}
    (hname : PlainName path) (hnew : creates = true → s.file = none → path ∉ s.created) :
    Named (s.openCapture t path creates) ∧
      ∀ e ∈ s.disk, e ∈ (s.openCapture t path creates).disk := by
  obtain ⟨hopened, hdisk⟩ := h.openFile hname hnew
  unfold Service.openCapture
  dsimp only
  split_ifs
  · have hcurrent : Named { s.openFile path creates with currentPath := path } :=
      hopened.congr rfl rfl rfl (.inl rfl)
    exact ⟨hcurrent.goto_other t (by simp), hdisk⟩
  · exact ⟨hopened.goto_other t (by simp), hdisk⟩

theorem popBlock (h : Named s) (t : Thread) :
    Named (s.popBlock t) ∧ (s.popBlock t).disk = s.disk := by
  unfold Service.popBlock
  split
  next =>
    split_ifs
    · exact ⟨h.goto_other t (by simp), rfl⟩
    · exact ⟨h.goto_other t (by simp), rfl⟩
  next block rest _ =>
    have hpopped : Named { s with pendingBlocks := rest } := h.congr rfl rfl rfl (.inl rfl)
    exact ⟨hpopped.goto_other t (by simp), rfl⟩

/-- The next critical section of a thread. -/
theorem advance (h : Named s) {t : Thread} (hcontained : Contained s (.advance t))
    (hstep : s.advance t = some s') : Named s' ∧ ∀ e ∈ s.disk, e ∈ s'.disk := by
  unfold Service.advance at hstep
  split at hstep
  next => cases hstep
  next path bytes _ =>
    cases hstep
    obtain ⟨hqueued, hdisk⟩ := h.enqueueTraceBlock t path bytes
    exact ⟨hqueued.goto_other t (by simp), fun e he => hdisk ▸ he⟩
  next path creates htask =>
    cases hstep
    exact h.openCapture t (h.opening t path creates htask) fun hcreates =>
      hcontained path (hcreates ▸ htask)
  next =>
    cases hstep
    have hactive : Named { s with captureActive := true } := h.congr rfl rfl rfl (.inl rfl)
    exact ⟨hactive.goto_other t (by simp), fun _ he => he⟩
  next =>
    cases hstep
    have hinactive : Named { s with captureActive := false } := h.congr rfl rfl rfl (.inl rfl)
    exact ⟨hinactive.goto_other t (by simp), fun _ he => he⟩
  next =>
    cases hstep
    obtain ⟨hpopped, hdisk⟩ := h.popBlock t
    exact ⟨hpopped, fun e he => hdisk ▸ he⟩
  next block _ =>
    cases hstep
    obtain ⟨hwritten, hdisk⟩ := h.appendToFile (.block block)
    exact ⟨hwritten.goto_other t (by simp), hdisk⟩
  next =>
    cases hstep
    have hclosed : Named { s with file := none } := h.congr rfl rfl rfl (.inr rfl)
    exact ⟨hclosed.goto_other t (by simp), fun _ he => he⟩

/-- A method whose task opens nothing, or a file with a plain name. -/
theorem call (h : Named s) {n : Nat} {passes : Bool} {task : Task}
    (htask : ∀ path creates, task = .starting path creates → PlainName path)
    (hstep : s.call n passes task = some s') : Named s' ∧ ∀ e ∈ s.disk, e ∈ s'.disk := by
  unfold Service.call at hstep
  split_ifs at hstep
  · cases hstep
    exact ⟨h.goto (.caller n) htask, fun _ he => he⟩
  · cases hstep
    exact ⟨h, fun _ he => he⟩

theorem step (h : Named s) {a : Action} (hcontained : Contained s a) (hstep : s.step a = some s') :
    Named s' ∧ ∀ e ∈ s.disk, e ∈ s'.disk := by
  cases a with
  | submitTraceBlock n bytes => exact h.call (by simp) hstep
  | startCapture n ms label creates =>
    refine h.call ?_ hstep
    rintro path creates' heq
    cases heq
    exact plainName_captureName hcontained ms
  | stopCapture n => exact h.call (by simp) hstep
  | flushSink batch =>
    cases hstep
    exact h.appendToFile (.batch batch)
  | advance t => exact h.advance hcontained hstep

theorem confined (h : Named s) (dir : OutputDir) : Confined dir s where
  opening t path creates ht := (h.opening t path creates ht).inDirectory dir
  created path hpath := (h.created path hpath).inDirectory dir
  distinct := h.nodup.map_on fun path hpath path' hpath' heq =>
    normal_join_injective (h.created path hpath).isName (h.created path hpath).no_slash
      (h.created path' hpath').isName (h.created path' hpath').no_slash heq

/-- What is on the disk stays there for the rest of the run. -/
theorem run {as : List Action} (h : Named s) (hcontained : Machine.Each Service.step Contained s as)
    (hrun : Machine.run Service.step s as = some s') : Named s' ∧ ∀ e ∈ s.disk, e ∈ s'.disk := by
  induction as generalizing s with
  | nil =>
    cases hrun
    exact ⟨h, fun _ he => he⟩
  | cons a as ih =>
    obtain ⟨mid, hmid, hrest⟩ := Machine.run_cons hrun
    obtain ⟨hnamed, hdisk⟩ := h.step hcontained.1 hmid
    obtain ⟨hnamed', hdisk'⟩ := ih hnamed (hcontained.2 mid hmid) hrest
    exact ⟨hnamed', fun e he => hdisk' e (hdisk e he)⟩

end Named

/-- **Main result**: in a run whose steps are contained, every path that is opened is a direct child
of the output directory and no two captures have the same file, and what any capture has written
stays in its file to the end of the run. -/
theorem contained_confined (dir : OutputDir) {as bs : List Action} {mid s : Service}
    (hcontained : Machine.Each Service.step Contained {} (as ++ bs))
    (hmid : Machine.run Service.step {} as = some mid)
    (hrun : Machine.run Service.step mid bs = some s) :
    Confined dir s ∧ ∀ e ∈ mid.disk, e ∈ s.disk := by
  rw [Machine.each_append hmid] at hcontained
  have hnamed := (Named.init.run hcontained.1 hmid).1
  obtain ⟨hfinal, hdisk⟩ := hnamed.run hcontained.2 hrun
  exact ⟨hfinal.confined dir, hdisk⟩

/-- A directory for the runs below. -/
def tracesDir : OutputDir := ⟨ascii "/srv/traces", by decide +kernel⟩

/-- A capture that writes a batch and is stopped. -/
def captureOnce : List Action :=
  [.startCapture 0 5 [] true, .advance (.caller 0), .advance (.caller 0), .flushSink [1],
    .stopCapture 0, .advance (.caller 0), .advance (.caller 0), .advance (.caller 0)]

/-- Another capture with the same label, which starts in the next millisecond. -/
theorem contained_confined_next : ∃ mid s, Machine.run Service.step {} captureOnce = some mid ∧
    Machine.run Service.step mid [.startCapture 0 6 [] true, .advance (.caller 0)] = some s ∧
    Confined tracesDir s ∧ ∀ e ∈ mid.disk, e ∈ s.disk := by
  refine ⟨_, _, rfl, rfl, @contained_confined tracesDir captureOnce
    [.startCapture 0 6 [] true, .advance (.caller 0)] _ _ ?_ rfl rfl⟩
  unfold captureOnce
  -- at each step: the label is empty, or the name is new, or nothing is opened
  refine (Machine.each_cons rfl).2 ⟨List.not_mem_nil, ?_⟩
  refine (Machine.each_cons rfl).2 ⟨fun path _ _ => List.not_mem_nil, ?_⟩
  refine (Machine.each_cons rfl).2 ⟨fun path htask => (by cases htask), ?_⟩
  refine (Machine.each_cons rfl).2 ⟨trivial, ?_⟩
  refine (Machine.each_cons rfl).2 ⟨trivial, ?_⟩
  refine (Machine.each_cons rfl).2 ⟨fun path htask => (by cases htask), ?_⟩
  refine (Machine.each_cons rfl).2 ⟨fun path htask => (by cases htask), ?_⟩
  refine (Machine.each_cons rfl).2 ⟨fun path htask => (by cases htask), ?_⟩
  refine (Machine.each_cons rfl).2 ⟨List.not_mem_nil, ?_⟩
  refine (Machine.each_cons rfl).2 ⟨fun path htask _ => ?_, trivial⟩
  cases htask
  have hnew : captureName 6 [] ∉ [captureName 5 []] := by decide +kernel
  exact hnew

/-- A label with separators leads two directories up, and another capture in the same millisecond
truncates the file of the first one. -/
theorem label_leaves :
    (∃ s, Machine.run Service.step {} [.startCapture 0 5 (ascii "/../../x") true] = some s ∧
      ¬ Confined tracesDir s) ∧
    ∃ mid s, Machine.run Service.step {} captureOnce = some mid ∧
      Machine.run Service.step mid [.startCapture 0 5 [] true, .advance (.caller 0)] = some s ∧
      ∃ e ∈ mid.disk, e ∉ s.disk := by
  constructor
  · refine ⟨_, rfl, fun h => ?_⟩
    obtain ⟨-, name, -, -, hnormal⟩ := h.opening (.caller 0) _ _ rfl
    have hlength := congrArg List.length hnormal
    rw [List.length_append, List.length_singleton] at hlength
    exact absurd hlength (by decide +kernel)
  · refine ⟨_, _, rfl, rfl, (captureName 5 [], .batch [1]), List.mem_singleton.2 rfl, ?_⟩
    decide +kernel

end Bison.Profiler
