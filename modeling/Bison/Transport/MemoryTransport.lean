import Bison.Lib.Mailbox
import Mathlib.Data.List.Range

/-!
# The in-process transport

A client and a server in one process exchange frames through two queues (memory_transport.cpp).
Any number of threads call the ends of any number of channels, and connect, accept, start and stop
meanwhile.

- `MemoryChannel.simulates_link`: a channel is a link, whatever its threads do.
- `memory_transport_delivers`: **main result**, in every run the connections are accepted in the
  order in which they were made, each once, and the two ends of each exchange frames with each
  other alone, in order and once.
- `memory_receive_refused`: **main result**, where one thread receives at each end, a `receive`
  gives no frame only when it timed out or the channel is closed; and what was sent can always be
  received, also after the close.
-/

namespace Bison

/-! ## Channels -/

/-- `memory_channel` (memory_transport.hpp:26), and the threads in `receive`. -/
structure MemoryChannel (φ : Type) where
  c2s : Mailbox φ := {}
  s2c : Mailbox φ := {}
  closed : Bool := false

/-- One step of a thread at one of the ends (memory_transport.cpp:23-101). -/
inductive ChannelAction (φ : Type) where
  /-- `memory_client_transport::send`. -/
  | clientSend (frame : φ)
  /-- Thread `i` in `memory_client_transport::receive`. -/
  | clientReceive (i : Nat) (stage : Mailbox.Stage)
  /-- `memory_client_transport::shutdown`. -/
  | shutdown
  /-- `memory_server_connection::send`. -/
  | serverSend (frame : φ)
  /-- Thread `i` in `memory_server_connection::receive`. -/
  | serverReceive (i : Nat) (stage : Mailbox.Stage)
  /-- `memory_server_connection::close`. -/
  | close

/-- The actions of a server connection. -/
def ChannelAction.IsServer {φ : Type} : ChannelAction φ → Prop
  | serverSend _ | serverReceive _ _ | close => True
  | clientSend _ | clientReceive _ _ | shutdown => False

instance {φ : Type} (a : ChannelAction φ) : Decidable a.IsServer := by
  cases a <;> unfold ChannelAction.IsServer <;> infer_instance

namespace MemoryChannel

variable {φ : Type}

/-- What a step does to the queue in one direction. The flag is shared. -/
def onC2s (ch : MemoryChannel φ) (a : Mailbox.Action φ) : Option (MemoryChannel φ) :=
  (ch.c2s.step ch.closed a).map fun c2s => { ch with c2s }

def onS2c (ch : MemoryChannel φ) (a : Mailbox.Action φ) : Option (MemoryChannel φ) :=
  (ch.s2c.step ch.closed a).map fun s2c => { ch with s2c }

/-- One step. A `send` does not look at the flag. -/
def step (ch : MemoryChannel φ) : ChannelAction φ → Option (MemoryChannel φ)
  | .clientSend frame => ch.onC2s (.put frame)
  | .clientReceive i stage => ch.onS2c (.taking i stage)
  | .shutdown => some { ch with closed := true }
  | .serverSend frame => ch.onS2c (.put frame)
  | .serverReceive i stage => ch.onC2s (.taking i stage)
  | .close => some { ch with closed := true }

/-- `is_closed`. -/
def isClosed (ch : MemoryChannel φ) : Bool := ch.closed

/-- What the channel is for those who use it. -/
def link (ch : MemoryChannel φ) : Duplex φ := ⟨ch.c2s.lane, ch.s2c.lane⟩

/-- What a step is for the link. -/
def image (ch : MemoryChannel φ) : ChannelAction φ → List (Duplex.Action φ)
  | .clientSend frame => [.c2s (.put frame)]
  | .clientReceive i stage => (ch.s2c.image (.taking i stage)).map .s2c
  | .serverSend frame => [.s2c (.put frame)]
  | .serverReceive i stage => (ch.c2s.image (.taking i stage)).map .c2s
  | .shutdown | .close => []

variable {ch ch' : MemoryChannel φ} {a : ChannelAction φ}

theorem onC2s_link {a : Mailbox.Action φ} (h : ch.onC2s a = some ch') :
    Machine.run Duplex.step ch.link ((ch.c2s.image a).map .c2s) = some ch'.link := by
  obtain ⟨box, hbox, rfl⟩ := Option.map_eq_some_iff.1 h
  exact Duplex.run_c2s (l := ch.link) (Mailbox.lane_of_step hbox)

theorem onS2c_link {a : Mailbox.Action φ} (h : ch.onS2c a = some ch') :
    Machine.run Duplex.step ch.link ((ch.s2c.image a).map .s2c) = some ch'.link := by
  obtain ⟨box, hbox, rfl⟩ := Option.map_eq_some_iff.1 h
  exact Duplex.run_s2c (l := ch.link) (Mailbox.lane_of_step hbox)

theorem link_of_step (h : ch.step a = some ch') :
    Machine.run Duplex.step ch.link (ch.image a) = some ch'.link := by
  cases a with
  | clientSend frame => exact onC2s_link h
  | clientReceive i stage => exact onS2c_link h
  | shutdown =>
    cases h
    rfl
  | serverSend frame => exact onS2c_link h
  | serverReceive i stage => exact onC2s_link h
  | close =>
    cases h
    rfl

/-- **A channel is a link**, for any number of threads at both ends. -/
theorem simulates_link :
    Machine.Simulates (step (φ := φ)) Duplex.step image fun ch l => l = ch.link := by
  rintro ch l a ch' rfl hstep
  exact ⟨ch'.link, link_of_step hstep, rfl⟩

theorem inOrder_of_step (h : ch.link.InOrder) (hstep : ch.step a = some ch') :
    ch'.link.InOrder :=
  Machine.run_invariant (fun _ _ _ hin hs => hin.step hs) h (link_of_step hstep)

/-! ## Receivers -/

/-- One thread receives at each end, and the flag has been seen as it is. -/
structure Disciplined (ch : MemoryChannel φ) : Prop where
  server : Mailbox.Sole 0 ch.c2s
  client : Mailbox.Sole 0 ch.s2c
  serverSaw : Mailbox.Witnessed ch.closed ch.c2s
  clientSaw : Mailbox.Witnessed ch.closed ch.s2c

/-- Only thread 0 receives at either end. -/
def OneReceiver : ChannelAction φ → Prop
  | .clientReceive i _ | .serverReceive i _ => i = 0
  | .clientSend _ | .shutdown | .serverSend _ | .close => True

theorem disciplined_empty : ({} : MemoryChannel φ).Disciplined :=
  ⟨Mailbox.sole_empty 0, Mailbox.sole_empty 0, Mailbox.witnessed_empty _, Mailbox.witnessed_empty _⟩

theorem by_put {ψ : Type} (i : Nat) (a : ψ) : Mailbox.By i (.put a) := nofun

theorem by_taking {ψ : Type} {i j : Nat} (h : j = i) (stage : Mailbox.Stage) :
    Mailbox.By i (.taking j stage : Mailbox.Action ψ) := by
  intro k stage' heq
  cases heq
  exact h

theorem Disciplined.onC2s {a : Mailbox.Action φ} (h : ch.Disciplined) (hby : Mailbox.By 0 a)
    (hstep : ch.onC2s a = some ch') : ch'.Disciplined := by
  obtain ⟨box, hbox, rfl⟩ := Option.map_eq_some_iff.1 hstep
  exact ⟨h.server.step hby hbox, h.client, h.serverSaw.step hbox, h.clientSaw⟩

theorem Disciplined.onS2c {a : Mailbox.Action φ} (h : ch.Disciplined) (hby : Mailbox.By 0 a)
    (hstep : ch.onS2c a = some ch') : ch'.Disciplined := by
  obtain ⟨box, hbox, rfl⟩ := Option.map_eq_some_iff.1 hstep
  exact ⟨h.server, h.client.step hby hbox, h.serverSaw, h.clientSaw.step hbox⟩

theorem Disciplined.closing (h : ch.Disciplined) : { ch with closed := true }.Disciplined :=
  ⟨h.server, h.client, Mailbox.witnessed_set _, Mailbox.witnessed_set _⟩

theorem Disciplined.step (h : ch.Disciplined) (hone : OneReceiver a)
    (hstep : ch.step a = some ch') : ch'.Disciplined := by
  cases a with
  | clientSend frame => exact h.onC2s (by_put 0 frame) hstep
  | clientReceive i stage => exact h.onS2c (by_taking hone stage) hstep
  | shutdown =>
    cases hstep
    exact h.closing
  | serverSend frame => exact h.onS2c (by_put 0 frame) hstep
  | serverReceive i stage => exact h.onC2s (by_taking hone stage) hstep
  | close =>
    cases hstep
    exact h.closing

/-! ## Receiving what was sent -/

/-- The calls of `receive` by which thread 0 at the client empties the queue. -/
def clientDrain (ch : MemoryChannel φ) : List (ChannelAction φ) :=
  ch.s2c.lane.queue.flatMap fun _ =>
    [.clientReceive 0 .call, .clientReceive 0 (.test true), .clientReceive 0 .take]

/-- Those by which thread 0 at the server does. -/
def serverDrain (ch : MemoryChannel φ) : List (ChannelAction φ) :=
  ch.c2s.lane.queue.flatMap fun _ =>
    [.serverReceive 0 .call, .serverReceive 0 (.test true), .serverReceive 0 .take]

theorem run_onS2c {stages : List Mailbox.Stage} {box : Mailbox φ}
    (h : Machine.run (Mailbox.step ch.closed) ch.s2c (stages.map (.taking 0)) = some box) :
    Machine.run step ch (stages.map (.clientReceive 0)) = some { ch with s2c := box } := by
  induction stages generalizing ch with
  | nil =>
    cases h
    rfl
  | cons stage stages ih =>
    obtain ⟨mid, hmid, hrest⟩ := Machine.run_cons h
    rw [List.map_cons, Machine.run, step, onS2c, hmid]
    exact @ih { ch with s2c := mid } hrest

theorem run_onC2s {stages : List Mailbox.Stage} {box : Mailbox φ}
    (h : Machine.run (Mailbox.step ch.closed) ch.c2s (stages.map (.taking 0)) = some box) :
    Machine.run step ch (stages.map (.serverReceive 0)) = some { ch with c2s := box } := by
  induction stages generalizing ch with
  | nil =>
    cases h
    rfl
  | cons stage stages ih =>
    obtain ⟨mid, hmid, hrest⟩ := Machine.run_cons h
    rw [List.map_cons, Machine.run, step, onC2s, hmid]
    exact @ih { ch with c2s := mid } hrest

theorem flatMap_receive (queue : List φ) :
    (queue.flatMap fun _ => Mailbox.receive 0 : List (Mailbox.Action φ)) =
      (queue.flatMap fun _ => [.call, .test true, .take]).map (.taking 0) := by
  rw [List.map_flatMap]
  rfl

/-- The client receives all that was sent to it, closed or not. -/
theorem run_clientDrain (hin : ch.link.InOrder) (hidle : ch.s2c.takers 0 = .idle) :
    ∃ ch', Machine.run step ch ch.clientDrain = some ch' ∧
      ch'.s2c.lane.taken = ch.s2c.lane.put := by
  have hdrain := Mailbox.run_drain ch.closed hidle rfl
  rw [flatMap_receive] at hdrain
  have hrun := run_onS2c hdrain
  rw [List.map_flatMap] at hrun
  exact ⟨_, hrun, hin.s2c.symm⟩

theorem run_serverDrain (hin : ch.link.InOrder) (hidle : ch.c2s.takers 0 = .idle) :
    ∃ ch', Machine.run step ch ch.serverDrain = some ch' ∧
      ch'.c2s.lane.taken = ch.c2s.lane.put := by
  have hdrain := Mailbox.run_drain ch.closed hidle rfl
  rw [flatMap_receive] at hdrain
  have hrun := run_onC2s hdrain
  rw [List.map_flatMap] at hrun
  exact ⟨_, hrun, hin.c2s.symm⟩

end MemoryChannel

/-! ## The listener -/

/-- `memory_server_transport` (memory_transport.hpp:90), and the channels that were made with it,
in order. A channel is named by its number. -/
structure MemoryServerTransport (φ : Type) where
  channels : List (MemoryChannel φ) := []
  pending : Mailbox Nat := {}
  stopped : Bool := false

/-- One step of any thread (memory_transport.cpp:105-136). -/
inductive TransportAction (φ : Type) where
  | start
  | stop
  | connect
  /-- Thread `i` in `accept`. -/
  | accept (i : Nat) (stage : Mailbox.Stage)
  /-- A thread at an end of channel `n`. -/
  | channel (n : Nat) (a : ChannelAction φ)

namespace MemoryServerTransport

variable {φ : Type}

/-- One step. There is a server end of the channels that `accept` gave. -/
def step (t : MemoryServerTransport φ) : TransportAction φ → Option (MemoryServerTransport φ)
  | .start => some { t with stopped := false }
  | .stop => some { t with stopped := true }
  | .connect =>
    (t.pending.step t.stopped (.put t.channels.length)).map fun pending =>
      { t with channels := t.channels ++ [{}], pending }
  | .accept i stage =>
    (t.pending.step t.stopped (.taking i stage)).map fun pending => { t with pending }
  | .channel n a =>
    if a.IsServer ∧ n ∉ t.pending.lane.taken then none
    else
      match t.channels[n]? with
      | none => none
      | some ch => (ch.step a).map fun ch => { t with channels := t.channels.set n ch }

variable {t t' : MemoryServerTransport φ}

theorem connect_cases (h : t.step .connect = some t') :
    ∃ pending, t.pending.step t.stopped (.put t.channels.length) = some pending ∧
      t' = { t with channels := t.channels ++ [{}], pending } :=
  ⟨_, rfl, (Option.some.inj h).symm⟩

theorem channel_cases {n : Nat} {a : ChannelAction φ} (h : t.step (.channel n a) = some t') :
    (a.IsServer → n ∈ t.pending.lane.taken) ∧ ∃ ch ch', t.channels[n]? = some ch ∧
      ch.step a = some ch' ∧ t' = { t with channels := t.channels.set n ch' } := by
  rw [step] at h
  split_ifs at h with hserver
  refine ⟨fun ha => by_contra fun hn => hserver ⟨ha, hn⟩, ?_⟩
  cases hch : t.channels[n]? with
  | none => simp [hch] at h
  | some ch =>
    rw [hch] at h
    obtain ⟨ch', hch', rfl⟩ := Option.map_eq_some_iff.1 h
    exact ⟨ch, ch', rfl, hch', rfl⟩

/-- What holds of one channel when another one, or the same, changed. -/
theorem get_set {chs : List (MemoryChannel φ)} {n m : Nat} {ch' got : MemoryChannel φ}
    (h : (chs.set n ch')[m]? = some got) : m = n ∧ got = ch' ∨ m ≠ n ∧ chs[m]? = some got := by
  by_cases hm : m = n
  · subst hm
    rw [List.getElem?_set_self'] at h
    obtain ⟨old, hold, rfl⟩ := Option.map_eq_some_iff.1 h
    exact .inl ⟨rfl, rfl⟩
  · rw [List.getElem?_set_ne (Ne.symm hm)] at h
    exact .inr ⟨hm, h⟩

theorem get_append {chs : List (MemoryChannel φ)} {m : Nat} {got : MemoryChannel φ}
    (h : (chs ++ [({} : MemoryChannel φ)])[m]? = some got) :
    m = chs.length ∧ got = {} ∨ chs[m]? = some got := by
  rcases lt_trichotomy m chs.length with hm | rfl | hm
  · rw [List.getElem?_append_left hm] at h
    exact .inr h
  · rw [List.getElem?_concat_length, Option.some.injEq] at h
    exact .inl ⟨rfl, h.symm⟩
  · rw [List.getElem?_eq_none (by simpa using Nat.succ_le_of_lt hm)] at h
    cases h

/-- A channel that was not accepted: nobody is at its server end. -/
def Untaken (ch : MemoryChannel φ) : Prop := ch.c2s.lane.taken = [] ∧ ch.s2c.lane.put = []

theorem Untaken.step {ch ch' : MemoryChannel φ} {a : ChannelAction φ} (h : Untaken ch)
    (ha : ¬ a.IsServer) (hstep : ch.step a = some ch') : Untaken ch' := by
  cases a with
  | clientSend frame =>
    cases hstep
    exact h
  | clientReceive i stage =>
    obtain ⟨box, hbox, rfl⟩ := Option.map_eq_some_iff.1 hstep
    refine ⟨h.1, ?_⟩
    have hput : box.lane.put = ch.s2c.lane.put := by
      cases Mailbox.steps_of_step hbox <;> rfl
    exact hput.trans h.2
  | shutdown =>
    cases hstep
    exact h
  | serverSend frame => exact (ha trivial).elim
  | serverReceive i stage => exact (ha trivial).elim
  | close => exact (ha trivial).elim

/-- The connections are offered in the order in which they were made, and the ends of each
exchange frames with each other alone. -/
structure Delivers (t : MemoryServerTransport φ) : Prop where
  offered : t.pending.lane.put = List.range t.channels.length
  accepted : t.pending.lane.InOrder
  links : ∀ (n : Nat) (ch : MemoryChannel φ), t.channels[n]? = some ch → ch.link.InOrder
  untaken : ∀ (n : Nat) (ch : MemoryChannel φ), t.channels[n]? = some ch →
    n ∉ t.pending.lane.taken → Untaken ch

theorem delivers_empty : ({} : MemoryServerTransport φ).Delivers where
  offered := rfl
  accepted := rfl
  links := by simp
  untaken := by simp

/-- A step of `accept` takes nothing back. -/
theorem taken_subset {box box' : Mailbox Nat} {closed : Bool} {a : Mailbox.Action Nat}
    (h : box.step closed a = some box') : box.lane.taken ⊆ box'.lane.taken := by
  cases Mailbox.steps_of_step h with
  | take i seen b rest h hqueue => exact List.subset_append_left _ _
  | _ => exact List.Subset.refl _

theorem Delivers.step {a : TransportAction φ} (h : t.Delivers) (hstep : t.step a = some t') :
    t'.Delivers := by
  cases a with
  | start =>
    cases hstep
    exact ⟨h.offered, h.accepted, h.links, h.untaken⟩
  | stop =>
    cases hstep
    exact ⟨h.offered, h.accepted, h.links, h.untaken⟩
  | connect =>
    obtain ⟨box, hbox, rfl⟩ := connect_cases hstep
    refine ⟨?_, Mailbox.inOrder_of_step h.accepted hbox, fun n ch hch => ?_,
      fun n ch hch hn => ?_⟩
    · cases hbox
      show t.pending.lane.put ++ [t.channels.length] = _
      rw [h.offered, List.length_append, List.length_singleton, List.range_succ]
    · rcases get_append hch with ⟨-, rfl⟩ | hch
      · exact Duplex.inOrder_empty
      · exact h.links n ch hch
    · rcases get_append hch with ⟨-, rfl⟩ | hch
      · exact ⟨rfl, rfl⟩
      · exact h.untaken n ch hch fun hmem => hn (taken_subset hbox hmem)
  | accept i stage =>
    obtain ⟨box, hbox, rfl⟩ := Option.map_eq_some_iff.1 hstep
    refine ⟨?_, Mailbox.inOrder_of_step h.accepted hbox, h.links,
      fun n ch hch hn => h.untaken n ch hch fun hmem => hn (taken_subset hbox hmem)⟩
    have hput : box.lane.put = t.pending.lane.put := by
      cases Mailbox.steps_of_step hbox <;> rfl
    exact hput.trans h.offered
  | channel n a =>
    obtain ⟨hserver, old, ch', hold, hch', rfl⟩ := channel_cases hstep
    refine ⟨?_, h.accepted, fun m ch hch => ?_, fun m ch hch hm => ?_⟩
    · rw [List.length_set]
      exact h.offered
    · rcases get_set hch with ⟨-, rfl⟩ | ⟨-, hch⟩
      · exact MemoryChannel.inOrder_of_step (h.links n old hold) hch'
      · exact h.links m ch hch
    · rcases get_set hch with ⟨rfl, rfl⟩ | ⟨-, hch⟩
      · exact (h.untaken m old hold hm).step (fun ha => hm (hserver ha)) hch'
      · exact h.untaken m ch hch hm

/-! ## Receivers -/

/-- One thread calls `accept`, and one receives at each end of each channel. -/
def OneReceiver : TransportAction φ → Prop
  | .accept i _ => i = 0
  | .channel _ a => MemoryChannel.OneReceiver a
  | .start | .stop | .connect => True

structure Disciplined (t : MemoryServerTransport φ) : Prop where
  accepts : Mailbox.Sole 0 t.pending
  channels : ∀ (n : Nat) (ch : MemoryChannel φ), t.channels[n]? = some ch → ch.Disciplined

theorem disciplined_empty : ({} : MemoryServerTransport φ).Disciplined where
  accepts := Mailbox.sole_empty 0
  channels := by simp

theorem Disciplined.step {a : TransportAction φ} (h : t.Disciplined) (hone : OneReceiver a)
    (hstep : t.step a = some t') : t'.Disciplined := by
  cases a with
  | start =>
    cases hstep
    exact ⟨h.accepts, h.channels⟩
  | stop =>
    cases hstep
    exact ⟨h.accepts, h.channels⟩
  | connect =>
    obtain ⟨box, hbox, rfl⟩ := connect_cases hstep
    refine ⟨h.accepts.step (MemoryChannel.by_put 0 _) hbox, fun n ch hch => ?_⟩
    rcases get_append hch with ⟨-, rfl⟩ | hch
    · exact MemoryChannel.disciplined_empty
    · exact h.channels n ch hch
  | accept i stage =>
    obtain ⟨box, hbox, rfl⟩ := Option.map_eq_some_iff.1 hstep
    exact ⟨h.accepts.step (MemoryChannel.by_taking hone stage) hbox, h.channels⟩
  | channel n a =>
    obtain ⟨-, old, ch', hold, hch', rfl⟩ := channel_cases hstep
    refine ⟨h.accepts, fun m ch hch => ?_⟩
    rcases get_set hch with ⟨-, rfl⟩ | ⟨-, hch⟩
    · exact (h.channels n old hold).step hone hch'
    · exact h.channels m ch hch

/-- What the threads at one channel do to it, they do to the transport. -/
theorem run_channel {n : Nat} {ch ch' : MemoryChannel φ} {as : List (ChannelAction φ)}
    (hch : t.channels[n]? = some ch) (hserver : ∀ a ∈ as, a.IsServer → n ∈ t.pending.lane.taken)
    (h : Machine.run MemoryChannel.step ch as = some ch') :
    ∃ t', Machine.run step t (as.map (.channel n)) = some t' ∧ t'.channels[n]? = some ch' := by
  induction as generalizing t ch with
  | nil =>
    cases h
    exact ⟨t, rfl, hch⟩
  | cons a as ih =>
    obtain ⟨mid, hmid, hrest⟩ := Machine.run_cons h
    have hstep : t.step (.channel n a) = some { t with channels := t.channels.set n mid } := by
      have hallowed : ¬ (a.IsServer ∧ n ∉ t.pending.lane.taken) :=
        fun hboth => hboth.2 (hserver a List.mem_cons_self hboth.1)
      rw [step, if_neg hallowed, hch]
      show (ch.step a).map _ = _
      rw [hmid]
      rfl
    have hget : (t.channels.set n mid)[n]? = some mid := by
      rw [List.getElem?_set_self', hch]
      rfl
    obtain ⟨t', ht', hgot⟩ := ih (t := { t with channels := t.channels.set n mid }) hget
      (fun b hb => hserver b (List.mem_cons_of_mem a hb)) hrest
    refine ⟨t', ?_, hgot⟩
    rw [List.map_cons, Machine.run, hstep]
    exact ht'

end MemoryServerTransport

open MemoryServerTransport in
/-- **Main result.** After any interleaving of any number of threads: the connections are accepted
in the order in which they were made, each at most once; on each of them, in each direction, the
frames received are those sent on this connection, once and in order, and the others are in its
queue; and nothing was received or sent at the server end of one that was not accepted. -/
theorem memory_transport_delivers {φ : Type} (actions : List (TransportAction φ))
    {t : MemoryServerTransport φ} (h : Machine.run step {} actions = some t) :
    ∃ k ≤ t.channels.length, t.pending.lane.taken = List.range k ∧
      ∀ n ch, t.channels[n]? = some ch →
        ch.c2s.lane.put = ch.c2s.lane.taken ++ ch.c2s.lane.queue ∧
        ch.s2c.lane.put = ch.s2c.lane.taken ++ ch.s2c.lane.queue ∧
        (k ≤ n → ch.c2s.lane.taken = [] ∧ ch.s2c.lane.put = []) := by
  have hdel : t.Delivers :=
    Machine.run_invariant (fun _ _ _ hdel hstep => hdel.step hstep) delivers_empty h
  have htaken : t.pending.lane.taken =
      List.range (min t.pending.lane.taken.length t.channels.length) := by
    rw [← List.take_range, ← hdel.offered, ← List.prefix_iff_eq_take.1 hdel.accepted.taken_prefix]
  refine ⟨_, min_le_right _ _, htaken, fun n ch hch => ?_⟩
  refine ⟨(hdel.links n ch hch).c2s, (hdel.links n ch hch).s2c, fun hn => ?_⟩
  refine hdel.untaken n ch hch fun hmem => ?_
  rw [htaken, List.mem_range] at hmem
  omega

/-- Two clients connect, two threads wait for a frame of the first at its server end, and one of
them is robbed of it by the other. -/
def MemoryServerTransport.robbed : List (TransportAction Nat) :=
  [.connect, .connect, .channel 1 (.clientSend 21), .channel 0 (.clientSend 11),
    .accept 0 .call, .accept 0 (.test false), .accept 0 .take,
    .channel 0 (.serverReceive 3 .call), .channel 0 (.serverReceive 4 .call),
    .channel 0 (.serverReceive 3 (.test false)), .channel 0 (.serverReceive 4 (.test false)),
    .channel 0 (.serverReceive 4 .take), .channel 0 (.serverReceive 3 .take),
    .channel 0 (.serverSend 12)]

theorem memory_transport_delivers_robbed :
    ∃ t, Machine.run MemoryServerTransport.step {} MemoryServerTransport.robbed = some t ∧
      ∃ k ≤ t.channels.length, t.pending.lane.taken = List.range k ∧
        ∀ n ch, t.channels[n]? = some ch →
          ch.c2s.lane.put = ch.c2s.lane.taken ++ ch.c2s.lane.queue ∧
          ch.s2c.lane.put = ch.s2c.lane.taken ++ ch.s2c.lane.queue ∧
          (k ≤ n → ch.c2s.lane.taken = [] ∧ ch.s2c.lane.put = []) := by
  have hsome : (Machine.run MemoryServerTransport.step {} MemoryServerTransport.robbed).isSome :=
    rfl
  obtain ⟨t, ht⟩ := Option.isSome_iff_exists.1 hsome
  exact ⟨t, ht, memory_transport_delivers MemoryServerTransport.robbed ht⟩

open MemoryServerTransport in
/-- **Main result.** After any interleaving in which one thread accepts, and one receives at each
end of each channel: a `receive` that gave no frame timed out, or its channel is closed, and an
`accept` that gave no connection timed out or saw the transport stopped; and from here a thread
that is in no call receives all that was sent to its end, whether the channel is closed or not. -/
theorem memory_receive_refused {φ : Type} (actions : List (TransportAction φ))
    {t : MemoryServerTransport φ} (h : Machine.run step {} actions = some t)
    (hone : ∀ a ∈ actions, OneReceiver a) :
    (∀ why ∈ t.pending.refused, why = .timeout ∨ why = .empty true) ∧
      ∀ n ch, t.channels[n]? = some ch →
        (∀ why ∈ ch.c2s.refused ++ ch.s2c.refused, why = .timeout ∨ ch.closed = true) ∧
        (ch.s2c.takers 0 = .idle → ∃ t' ch',
          Machine.run step t (ch.clientDrain.map (.channel n)) = some t' ∧
          t'.channels[n]? = some ch' ∧ ch'.s2c.lane.taken = ch.s2c.lane.put) ∧
        (n ∈ t.pending.lane.taken → ch.c2s.takers 0 = .idle → ∃ t' ch',
          Machine.run step t (ch.serverDrain.map (.channel n)) = some t' ∧
          t'.channels[n]? = some ch' ∧ ch'.c2s.lane.taken = ch.c2s.lane.put) := by
  have hdel : t.Delivers :=
    Machine.run_invariant (fun _ _ _ hdel hstep => hdel.step hstep) delivers_empty h
  have hdis : t.Disciplined :=
    Machine.run_invariant_of_each (fun _ _ _ hdis hone hstep => hdis.step hone hstep)
      disciplined_empty (Machine.each_of_forall hone) h
  refine ⟨hdis.accepts.refused, fun n ch hch => ⟨?_, fun hidle => ?_, fun hn hidle => ?_⟩⟩
  · have hchannel := hdis.channels n ch hch
    intro why hwhy
    rcases List.mem_append.1 hwhy with hwhy | hwhy
    · exact hchannel.server.refused_witnessed hchannel.serverSaw why hwhy
    · exact hchannel.client.refused_witnessed hchannel.clientSaw why hwhy
  · obtain ⟨ch', hrun, htaken⟩ := MemoryChannel.run_clientDrain (hdel.links n ch hch) hidle
    -- the client needs no server end
    have hclient : ∀ a ∈ ch.clientDrain, a.IsServer → n ∈ t.pending.lane.taken := by
      intro a ha hserver
      simp only [MemoryChannel.clientDrain, List.mem_flatMap, List.mem_cons, List.not_mem_nil,
        or_false] at ha
      obtain ⟨-, -, rfl | rfl | rfl⟩ := ha <;> exact hserver.elim
    obtain ⟨t', ht', hget⟩ := run_channel hch hclient hrun
    exact ⟨t', ch', ht', hget, htaken⟩
  · obtain ⟨ch', hrun, htaken⟩ := MemoryChannel.run_serverDrain (hdel.links n ch hch) hidle
    obtain ⟨t', ht', hget⟩ := run_channel hch (fun _ _ _ => hn) hrun
    exact ⟨t', ch', ht', hget, htaken⟩

/-- A client shuts its end while a frame waits for the server; the server receives it, and then
goes away with nothing. -/
def MemoryServerTransport.shutDown : List (TransportAction Nat) :=
  [.connect, .accept 0 .call, .accept 0 (.test true), .accept 0 .take,
    .channel 0 (.serverReceive 0 .call), .channel 0 (.serverReceive 0 (.test true)),
    .channel 0 (.clientSend 11), .channel 0 .shutdown,
    .channel 0 (.serverReceive 0 .call), .channel 0 (.serverReceive 0 (.test false)),
    .channel 0 (.serverReceive 0 .take), .channel 0 (.serverReceive 0 .call),
    .channel 0 (.serverReceive 0 (.test false)), .channel 0 (.serverReceive 0 .take)]

theorem memory_receive_refused_shutDown :
    ∃ t ch, Machine.run MemoryServerTransport.step {} MemoryServerTransport.shutDown = some t ∧
      t.channels[0]? = some ch ∧ ch.c2s.refused = [.timeout, .empty true] ∧
      ∀ why ∈ ch.c2s.refused ++ ch.s2c.refused, why = .timeout ∨ ch.closed = true := by
  have hrun : (Machine.run MemoryServerTransport.step {} MemoryServerTransport.shutDown).bind
      (fun t => t.channels[0]?.map fun ch => ch.c2s.refused) = some [.timeout, .empty true] := rfl
  obtain ⟨t, ht, hmap⟩ := Option.bind_eq_some_iff.1 hrun
  obtain ⟨ch, hch, hrefused⟩ := Option.map_eq_some_iff.1 hmap
  have hone : ∀ a ∈ MemoryServerTransport.shutDown, MemoryServerTransport.OneReceiver a := by
    intro a ha
    simp only [MemoryServerTransport.shutDown, List.mem_cons, List.not_mem_nil, or_false] at ha
    rcases ha with rfl | rfl | rfl | rfl | rfl | rfl | rfl | rfl | rfl | rfl | rfl | rfl | rfl | rfl
      <;> trivial
  exact ⟨t, ch, ht, hch, hrefused,
    ((memory_receive_refused MemoryServerTransport.shutDown ht hone).2 0 ch hch).1⟩

end Bison
