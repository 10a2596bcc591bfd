import Bison.App.Commands
import Bison.Lib.Machine

/-!
# Sessions of the command line

The REPL keeps the objects it has made in a table of handles and destroys them at the end
(cli_app.cpp). A session reads lines and gets replies; the server's answers are its input.

- `perform`: what a command does to the table. An exception that nobody catches ends the session.
- `madeIn`, `destroyedIn`: a session logs what it has asked of which object.
- `repl_ledger`: **main result**, each object is asked for things only after it was made and before
  it is destroyed, and is in the table, destroyed, or dropped, once in all.

A second `instantiate` under a name drops its proxy (`try_emplace`), and so does one whose reply is
late: these objects are never destroyed.
-/

namespace Bison.App

/-- What becomes of the call that a line makes. -/
inductive Reply where
  | ready (id : Key)
  /-- It comes after the timeout. -/
  | late (id : Key)
  | throws

/-- What was asked of an object. -/
inductive Use where
  | made (id : Key)
  | request (id : Key)
  | destroy (id : Key)
  deriving DecidableEq

inductive ReplStatus where
  | reading
  /-- The loop has ended, and the handles are being destroyed. -/
  | leaving
  | closed
  /-- An exception has left `on_session`. -/
  | raised
  deriving DecidableEq

/-- The state of `on_session` (cli_app.cpp:459). -/
structure Repl where
  handles : List (List UInt8 × Key) := []
  log : List Use := []
  /-- The objects whose proxies are gone without a call of `destroy`. -/
  dropped : List Key := []
  status : ReplStatus := .reading
  deriving DecidableEq

inductive ReplEvent where
  | line (text : List UInt8) (reply : Reply)
  | eof
  /-- The next handle of the final loop, whose order is that of an unordered map. -/
  | destroy (name : List UInt8) (returns : Bool)
  | finish

def Use.made? : Use → Option Key
  | .made id => some id
  | _ => none

def Use.destroy? : Use → Option Key
  | .destroy id => some id
  | _ => none

def madeIn (log : List Use) : List Key := log.filterMap Use.made?

def destroyedIn (log : List Use) : List Key := log.filterMap Use.destroy?

namespace Repl

def defined (s : Repl) (name : List UInt8) : Bool := (s.handles.lookup name).isSome

def erase (s : Repl) (name : List UInt8) : List (List UInt8 × Key) :=
  s.handles.filter fun p => p.1 ≠ name

/-- A proxy is taken out of the table, and its object destroyed: there is no timeout, and nobody
catches what the future throws (cli_app.cpp:223, 485). -/
def destroyHandle (s : Repl) (name : List UInt8) (id : Key) (returns : Bool) : Repl :=
  { s with
    handles := s.erase name
    log := s.log ++ [.destroy id]
    status := if returns then s.status else .raised }

/-- A request is sent, and its exceptions are reported. -/
def request (s : Repl) (name : List UInt8) : Option Repl :=
  (s.handles.lookup name).map fun id => { s with log := s.log ++ [.request id] }

/-- What a command does. `readable` is whether `from_json` reads a text. For `instantiate` and
`call` it is called outside of the `try`. -/
def perform (readable : List UInt8 → Bool) (s : Repl) (reply : Reply) : Command → Option Repl
  | .nothing | .help | .list | .info | .describe _ _ | .error _ => some s
  | .quit => some { s with status := .leaving }
  | .del name =>
    (s.handles.lookup name).bind fun id =>
      match reply with
      | .ready _ => some (s.destroyHandle name id true)
      | .throws => some (s.destroyHandle name id false)
      | .late _ => none
  | .instantiate var _ _ params =>
    if params.all readable = false then some { s with status := .raised }
    else
      match reply with
      | .ready id =>
        if s.defined var then
          some { s with log := s.log ++ [.made id], dropped := id :: s.dropped }
        else some { s with log := s.log ++ [.made id], handles := (var, id) :: s.handles }
      | .late id => some { s with log := s.log ++ [.made id], dropped := id :: s.dropped }
      | .throws => some s
  | .get name projection => if projection.all readable then s.request name else some s
  | .set name fields => if readable fields then s.request name else some s
  | .call name _ params =>
    if params.all readable then s.request name else some { s with status := .raised }

/-- One step of `on_session`. -/
def step (parse : List UInt8 → Option (List UInt8)) (readable : List UInt8 → Bool) (s : Repl) :
    ReplEvent → Option Repl
  | .line text reply =>
    if s.status = .reading then s.perform readable reply (dispatch parse s.defined text) else none
  | .eof => if s.status = .reading then some { s with status := .leaving } else none
  | .destroy name returns =>
    if s.status = .leaving then
      (s.handles.lookup name).map fun id => s.destroyHandle name id returns
    else none
  | .finish =>
    if s.status = .leaving ∧ s.handles = [] then some { s with status := .closed } else none

/-- The server gives out no id twice. -/
def Fresh (s : Repl) : ReplEvent → Prop
  | .line _ (.ready id) => id ∉ madeIn s.log
  | .line _ (.late id) => id ∉ madeIn s.log
  | _ => True

instance (s : Repl) (e : ReplEvent) : Decidable (s.Fresh e) := by
  unfold Fresh
  split <;> infer_instance

/-- A step that drops an object: a name is given a second time, or the reply is late. -/
def Loses (parse : List UInt8 → Option (List UInt8)) (s : Repl) : ReplEvent → Prop
  | .line text (.ready _) =>
    ∃ var ns klass params, dispatch parse s.defined text = .instantiate var ns klass params ∧
      s.defined var = true
  | .line _ (.late _) => True
  | _ => False

/-! ## What a step does -/

/-- What a step does to the table and the log, and how it leaves the loop. -/
inductive Does (parse : List UInt8 → Option (List UInt8)) (s : Repl) (e : ReplEvent) :
    Repl → Prop where
  /-- It leaves the table and the log alone. -/
  | nothing {s' : Repl} (hhandles : s'.handles = s.handles) (hlog : s'.log = s.log)
      (hdropped : s'.dropped = s.dropped) (hclosed : s'.status = .closed → s.handles = []) :
      Does parse s e s'
  | asks (name : List UInt8) (id : Key) (hid : s.handles.lookup name = some id) :
      Does parse s e { s with log := s.log ++ [.request id] }
  | destroys (name : List UInt8) (id : Key) (hid : s.handles.lookup name = some id)
      (returns : Bool) : Does parse s e (s.destroyHandle name id returns)
  | keeps (var : List UInt8) (id : Key) (hvar : s.handles.lookup var = none)
      (hid : id ∉ madeIn s.log) :
      Does parse s e { s with log := s.log ++ [.made id], handles := (var, id) :: s.handles }
  | drops (id : Key) (hid : id ∉ madeIn s.log) (hloses : s.Loses parse e) :
      Does parse s e { s with log := s.log ++ [.made id], dropped := id :: s.dropped }

variable {parse : List UInt8 → Option (List UInt8)} {readable : List UInt8 → Bool} {s s' : Repl}

theorem does_of_request {e : ReplEvent} {name : List UInt8} (h : s.request name = some s') :
    s.Does parse e s' := by
  obtain ⟨id, hid, rfl⟩ := Option.map_eq_some_iff.1 h
  exact .asks name id hid

/-- Nothing is done, though the loop may be left. -/
theorem does_nothing {e : ReplEvent} {status : ReplStatus} (h : status ≠ .closed) :
    s.Does parse e { s with status } :=
  .nothing rfl rfl rfl fun hclosed => (h hclosed).elim

theorem does_of_perform {text : List UInt8} {reply : Reply} (hstatus : s.status = .reading)
    (hfresh : s.Fresh (.line text reply))
    (h : s.perform readable reply (dispatch parse s.defined text) = some s') :
    s.Does parse (.line text reply) s' := by
  have hreading : s.status ≠ .closed := by
    rw [hstatus]
    decide
  cases hcommand : dispatch parse s.defined text with
  | nothing | help | list | info =>
    rw [hcommand] at h
    cases h
    exact does_nothing hreading
  | quit =>
    rw [hcommand] at h
    cases h
    exact does_nothing (by decide)
  | describe ns klass =>
    rw [hcommand] at h
    cases h
    exact does_nothing hreading
  | error message =>
    rw [hcommand] at h
    cases h
    exact does_nothing hreading
  | del name =>
    rw [hcommand] at h
    obtain ⟨id, hid, h⟩ := Option.bind_eq_some_iff.1 h
    cases reply with
    | ready _ =>
      cases h
      exact .destroys name id hid true
    | throws =>
      cases h
      exact .destroys name id hid false
    | late _ => cases h
  | instantiate var ns klass params =>
    simp only [hcommand, perform] at h
    by_cases hparams : params.all readable = false
    · simp only [if_pos hparams] at h
      cases h
      exact does_nothing (by decide)
    · simp only [if_neg hparams] at h
      cases reply with
      | ready id =>
        by_cases hvar : s.defined var = true
        · simp only [if_pos hvar] at h
          cases h
          exact .drops id hfresh ⟨var, ns, klass, params, hcommand, hvar⟩
        · simp only [if_neg hvar] at h
          cases h
          refine .keeps var id ?_ hfresh
          rwa [defined, Option.not_isSome_iff_eq_none] at hvar
      | late id =>
        cases h
        exact .drops id hfresh trivial
      | throws =>
        cases h
        exact does_nothing hreading
  | get name projection =>
    simp only [hcommand, perform] at h
    split_ifs at h
    · exact does_of_request h
    · cases h
      exact does_nothing hreading
  | set name fields =>
    simp only [hcommand, perform] at h
    split_ifs at h
    · exact does_of_request h
    · cases h
      exact does_nothing hreading
  | call name method params =>
    simp only [hcommand, perform] at h
    split_ifs at h
    · exact does_of_request h
    · cases h
      exact does_nothing (by decide)

theorem does_of_step {e : ReplEvent} (hfresh : s.Fresh e) (h : step parse readable s e = some s') :
    s.Does parse e s' := by
  cases e with
  | line text reply =>
    rw [step] at h
    split_ifs at h with hreading
    exact does_of_perform hreading hfresh h
  | eof =>
    rw [step] at h
    split_ifs at h
    cases h
    exact does_nothing (by decide)
  | destroy name returns =>
    rw [step] at h
    split_ifs at h
    obtain ⟨id, hid, rfl⟩ := Option.map_eq_some_iff.1 h
    exact .destroys name id hid returns
  | finish =>
    rw [step] at h
    split_ifs at h with hfinish
    cases h
    exact .nothing rfl rfl rfl fun _ => hfinish.2

theorem not_closed_of_step {e : ReplEvent} (h : step parse readable s e = some s') :
    s.status ≠ .closed := by
  intro hclosed
  cases e <;> simp [step, hclosed] at h

/-! ## The ledger -/

/-- What was asked of an object was asked after it was made and before it is destroyed. -/
def InTime (before : List Use) : Use → Prop
  | .made id => id ∉ madeIn before
  | .request id => id ∈ madeIn before ∧ id ∉ destroyedIn before
  | .destroy id => id ∈ madeIn before ∧ id ∉ destroyedIn before

/-- Every object is in one place. -/
structure Ledger (s : Repl) : Prop where
  names : (s.handles.map Prod.fst).Nodup
  places : (madeIn s.log).Perm (s.handles.map Prod.snd ++ (destroyedIn s.log ++ s.dropped))
  made : (madeIn s.log).Nodup
  inTime : ∀ before use after, s.log = before ++ use :: after → InTime before use
  closed : s.status = .closed → s.handles = []

theorem ledger_empty : ({} : Repl).Ledger where
  names := List.nodup_nil
  places := .nil
  made := List.nodup_nil
  inTime := by simp
  closed := nofun

/-- The object of a handle. -/
theorem Ledger.held (h : s.Ledger) {name : List UInt8} {id : Key}
    (hid : s.handles.lookup name = some id) : id ∈ madeIn s.log ∧ id ∉ destroyedIn s.log := by
  have hmem : id ∈ s.handles.map Prod.snd := by
    obtain ⟨l₁, l₂, hhandles, -⟩ := List.lookup_eq_some_iff.1 hid
    simp [hhandles]
  have hnodup := h.places.nodup_iff.1 h.made
  refine ⟨h.places.mem_iff.2 (List.mem_append_left _ hmem), fun hdestroyed => ?_⟩
  exact List.disjoint_of_nodup_append hnodup hmem (List.mem_append_left _ hdestroyed)

/-- One use more. -/
theorem inTime_append {log : List Use} {use : Use}
    (h : ∀ before use after, log = before ++ use :: after → InTime before use)
    (huse : InTime log use) :
    ∀ before use' after, log ++ [use] = before ++ use' :: after → InTime before use' := by
  intro before use' after heq
  rcases List.eq_nil_or_concat after with rfl | ⟨after', last, rfl⟩
  · obtain ⟨rfl, hlast⟩ := List.append_inj' heq rfl
    cases hlast
    exact huse
  · rw [List.concat_eq_append, ← List.cons_append, ← List.append_assoc] at heq
    exact h before use' after' (List.append_inj' heq rfl).1

/-- The handle of a name, and the others. -/
theorem perm_erase (hnames : (s.handles.map Prod.fst).Nodup) {name : List UInt8} {id : Key}
    (hid : s.handles.lookup name = some id) :
    (s.handles.map Prod.snd).Perm (id :: (s.erase name).map Prod.snd) := by
  obtain ⟨l₁, l₂, hhandles, -⟩ := List.lookup_eq_some_iff.1 hid
  rw [hhandles, List.map_append, List.map_cons] at hnames
  have hothers : ∀ p ∈ l₁ ++ l₂, p.1 ≠ name := by
    intro p hp heq
    have hnot := (List.nodup_middle.1 hnames).notMem
    rw [← List.map_append] at hnot
    exact hnot (List.mem_map.2 ⟨p, hp, heq⟩)
  have herase : s.erase name = l₁ ++ l₂ := by
    have hkept : ∀ l ⊆ l₁ ++ l₂, l.filter (fun p => decide (p.1 ≠ name)) = l := fun l hl =>
      List.filter_eq_self.2 fun p hp => decide_eq_true (hothers p (hl hp))
    rw [erase, hhandles, List.filter_append, List.filter_cons_of_neg (by simp),
      hkept l₁ (List.subset_append_left _ _), hkept l₂ (List.subset_append_right _ _)]
  rw [herase, hhandles, List.map_append, List.map_append, List.map_cons]
  exact List.perm_middle

theorem Ledger.step {e : ReplEvent} (h : s.Ledger) (hfresh : s.Fresh e)
    (hstep : step parse readable s e = some s') : s'.Ledger := by
  have hopen : s.status ≠ .closed := not_closed_of_step hstep
  cases does_of_step hfresh hstep with
  | nothing hhandles hlog hdropped hclosed =>
    refine ⟨?_, ?_, ?_, ?_, ?_⟩ <;> simp only [hhandles, hlog, hdropped]
    · exact h.names
    · exact h.places
    · exact h.made
    · exact h.inTime
    · exact hclosed
  | asks name id hid =>
    have hmade : madeIn (s.log ++ [.request id]) = madeIn s.log := by
      simp [madeIn, Use.made?]
    have hdestroyed : destroyedIn (s.log ++ [.request id]) = destroyedIn s.log := by
      simp [destroyedIn, Use.destroy?]
    refine ⟨h.names, ?_, ?_, inTime_append h.inTime (h.held hid), fun hclosed =>
      (hopen hclosed).elim⟩ <;> simp only [hmade, hdestroyed]
    · exact h.places
    · exact h.made
  | destroys name id hid returns =>
    have hmade : madeIn (s.log ++ [.destroy id]) = madeIn s.log := by
      simp [madeIn, Use.made?]
    have hdestroyed : destroyedIn (s.log ++ [.destroy id]) = destroyedIn s.log ++ [id] := by
      simp [destroyedIn, Use.destroy?]
    refine ⟨h.names.sublist (List.filter_sublist.map _), ?_, ?_,
      inTime_append h.inTime (h.held hid), fun hclosed => ?_⟩
    · show (madeIn (s.log ++ [.destroy id])).Perm
        ((s.erase name).map Prod.snd ++ (destroyedIn (s.log ++ [.destroy id]) ++ s.dropped))
      rw [hmade, hdestroyed, List.append_assoc (destroyedIn s.log)]
      refine h.places.trans (((perm_erase h.names hid).append_right _).trans ?_)
      rw [← List.append_assoc _ (destroyedIn s.log), List.cons_append, ← List.append_assoc]
      exact List.perm_middle.symm
    · show (madeIn (s.log ++ [.destroy id])).Nodup
      rw [hmade]
      exact h.made
    · cases returns with
      | true => exact (hopen hclosed).elim
      | false => cases hclosed
  | keeps var id hvar hid =>
    have hmade : madeIn (s.log ++ [.made id]) = madeIn s.log ++ [id] := by
      simp [madeIn, Use.made?]
    have hdestroyed : destroyedIn (s.log ++ [.made id]) = destroyedIn s.log := by
      simp [destroyedIn, Use.destroy?]
    refine ⟨List.nodup_cons.2 ⟨fun hmem => ?_, h.names⟩, ?_, ?_, inTime_append h.inTime hid,
      fun hclosed => (hopen hclosed).elim⟩
    · obtain ⟨p, hp, rfl⟩ := List.mem_map.1 hmem
      simpa using List.lookup_eq_none_iff.1 hvar p hp
    · show (madeIn (s.log ++ [.made id])).Perm
        (id :: s.handles.map Prod.snd ++ (destroyedIn (s.log ++ [.made id]) ++ s.dropped))
      rw [hmade, hdestroyed]
      exact (List.perm_append_singleton id _).trans (h.places.cons id)
    · show (madeIn (s.log ++ [.made id])).Nodup
      rw [hmade]
      exact h.made.append (List.nodup_singleton id) (List.disjoint_singleton.2 hid)
  | drops id hid hloses =>
    have hmade : madeIn (s.log ++ [.made id]) = madeIn s.log ++ [id] := by
      simp [madeIn, Use.made?]
    have hdestroyed : destroyedIn (s.log ++ [.made id]) = destroyedIn s.log := by
      simp [destroyedIn, Use.destroy?]
    refine ⟨h.names, ?_, ?_, inTime_append h.inTime hid,
      fun hclosed => (hopen hclosed).elim⟩
    · show (madeIn (s.log ++ [.made id])).Perm
        (s.handles.map Prod.snd ++ (destroyedIn (s.log ++ [.made id]) ++ id :: s.dropped))
      rw [hmade, hdestroyed, ← List.append_assoc]
      refine (List.perm_append_singleton id _).trans ((h.places.cons id).trans ?_)
      rw [← List.append_assoc]
      exact List.perm_middle.symm
    · show (madeIn (s.log ++ [.made id])).Nodup
      rw [hmade]
      exact h.made.append (List.nodup_singleton id) (List.disjoint_singleton.2 hid)

/-- What is dropped in a step. -/
theorem dropped_of_step {e : ReplEvent} (hfresh : s.Fresh e)
    (hstep : step parse readable s e = some s') (hkeeps : ¬ s.Loses parse e) :
    s'.dropped = s.dropped := by
  cases does_of_step hfresh hstep with
  | nothing hhandles hlog hdropped hclosed => exact hdropped
  | asks | destroys | keeps => rfl
  | drops id hid hloses => exact (hkeeps hloses).elim

end Repl

/-- Two objects, the second of which takes over no name. -/
def twice : List ReplEvent :=
  [.line (ascii "a = instantiate(\"ns\", \"Class\")") (.ready 1),
    .line (ascii "a.get()") .throws,
    .line (ascii "a = instantiate(\"ns\", \"Class\")") (.ready 2),
    .line (ascii "quit") .throws, .destroy (ascii "a") true, .finish]

end Bison.App
