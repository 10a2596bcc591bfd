import Bison.Transport.FrameLimits

/-!
# The receive paths of a connection

What a connection does with the bytes that arrive. On a plain stream `on_read` is called with
them (uv_stream_state.hpp:307); on a TLS stream `pump_decrypt` takes them from the TLS library,
one `mbedtls_ssl_read` after the other (tls_stream_state.hpp:505). Both offer the parser the
buffer that `dequeue_frame` kept, feed it, and queue the frames.

The two differ after a length was refused: `on_read` stops reading, `pump_decrypt` only returns
and is called again when more bytes arrive.

- `recycled_eq`: **main result**, the frames delivered are those of a connection that never
  offers a buffer, in every run that offers none larger than the parser's own while bytes of a
  frame are stored there.
- `failStop_iff`: **main result**, a run treats refused lengths as fatal if and only if no read
  after one brings more than the parser can still store.
-/

namespace Bison

/-- Who reads: `on_read` or `pump_decrypt`. -/
inductive ReadPath where
  | plain
  | tls
  deriving Repr, DecidableEq

/-- The receiving half of a connection. `capacity` is that of the parser's `partial`, `spare`
that of the buffer in `recycle_slot`. -/
structure Connection where
  parser : FrameParser := {}
  capacity : Nat := 0
  spare : Nat := 0
  recvQueue : List (List UInt8) := []
  recvClosed : Bool := false
  /-- `uv_read_stop` was not called yet. -/
  reading : Bool := true
  /-- The frames `dequeue_frame` returned so far. -/
  taken : List (List UInt8) := []
  /-- A call of `feed` returned `false`. -/
  refused : Bool := false
  deriving Repr, DecidableEq

/-- What happens on a connection. -/
inductive ConnectionEvent where
  /-- `on_read` with `nread > 0`, or `mbedtls_ssl_read` giving bytes. -/
  | read (bytes : List UInt8)
  /-- `on_read` or `on_tls_read` with `nread < 0`. -/
  | ended
  /-- `mbedtls_ssl_read` finds the TLS session closed or broken. -/
  | sslClosed
  /-- `dequeue_frame`, with a buffer of this capacity. -/
  | dequeue (capacity : Nat)
  deriving Repr, DecidableEq

namespace Connection

/-! ## Capacities -/

-- the capacity a vector of some capacity takes when it has to hold so many bytes
variable (grow : Nat → Nat → Nat)

/-- `reserve(n)`, and the room `insert` makes. -/
def reserve (capacity n : Nat) : Nat := if n ≤ capacity then capacity else grow capacity n

/-- The capacity of `partial` after the passes of `FrameParser.feedLoop`. -/
def capacityLoop : Nat → FrameParser → List UInt8 → Nat → Nat
  | 0, _, _, capacity => capacity
  | fuel + 1, p, bytes, capacity =>
    if bytes.length = 0 then capacity
    else
      match FrameParser.feedHeader p bytes with
      | (_, _, false) => capacity
      | (p₁, mid, true) =>
        -- a header became complete
        let capacity := if p.hdrPos < 4 ∧ p₁.hdrPos = 4 then
          reserve grow capacity p₁.payloadLeft else capacity
        match FrameParser.feedPayload p₁ mid with
        | (p₂, rest, none) =>
          capacityLoop fuel p₂ rest (reserve grow capacity p₂.partialFrame.length)
        | (p₂, rest, some _) =>
          -- the buffer moved out with the frame
          capacityLoop fuel p₂ rest 0

/-! ## Steps -/

/-- `offer_reuse` with the recycled buffer (frame_parser.hpp:65), which is in the slot no
longer. -/
def offerReuse (c : Connection) : Connection :=
  if c.capacity < c.spare then
    { c with
      parser := { c.parser with partialFrame := [] }
      capacity := c.spare
      spare := 0 }
  else { c with spare := 0 }

/-- `on_read` and the body of the loop in `pump_decrypt`, given some bytes. `recycle` is false
for a connection that offers nothing. -/
def onRead (path : ReadPath) (recycle : Bool) (c : Connection) (bytes : List UInt8) :
    Connection :=
  if c.reading then
    let c := if recycle then c.offerReuse else { c with spare := 0 }
    let r := c.parser.feed bytes
    let c := { c with
      parser := r.parser
      capacity := capacityLoop grow (2 * bytes.length) c.parser bytes c.capacity
      recvQueue := c.recvQueue ++ r.frames }
    if r.ok then c
    else
      match path with
      | .plain => { c with recvClosed := true, reading := false, refused := true }
      | .tls => { c with recvClosed := true, refused := true }
  else c

/-- `dequeue_frame` (uv_stream_state.hpp:269) when it does not wait any longer. -/
def dequeueFrame (c : Connection) (capacity : Nat) : Connection :=
  match c.recvQueue with
  | [] => c
  | frame :: rest =>
    { c with
      spare := if c.spare < capacity then capacity else c.spare
      recvQueue := rest
      taken := c.taken ++ [frame] }

def step (path : ReadPath) (recycle : Bool) (c : Connection) : ConnectionEvent → Connection
  | .read bytes => c.onRead grow path recycle bytes
  | .ended => { c with recvClosed := true, reading := false }
  | .sslClosed =>
    match path with
    | .plain => c
    | .tls => { c with recvClosed := true }
  | .dequeue capacity => c.dequeueFrame capacity

/-- The connection after the events. -/
def run (path : ReadPath) (recycle : Bool) (c : Connection) (events : List ConnectionEvent) :
    Connection :=
  events.foldl (step grow path recycle) c

/-- Every read of the run finds a connection on which it is as `P` says. -/
def EachRead (path : ReadPath) (P : Connection → List UInt8 → Prop) (c : Connection) :
    List ConnectionEvent → Prop
  | [] => True
  | e :: events =>
    (∀ bytes, e = .read bytes → P c bytes) ∧ EachRead path P (c.step grow path true e) events

/-! ## Recycling -/

/-- An offer to this connection loses nothing: no byte of a frame is stored, or the buffer
offered is not the larger one. -/
def Harmless (c : Connection) : Prop :=
  c.parser.partialFrame = [] ∨ c.spare ≤ c.capacity

/-- Two connections that differ in their buffers only. -/
structure Alike (c d : Connection) : Prop where
  parser : c.parser = d.parser
  recvQueue : c.recvQueue = d.recvQueue
  taken : c.taken = d.taken
  reading : c.reading = d.reading
  recvClosed : c.recvClosed = d.recvClosed

variable {grow}

theorem offerReuse_harmless {c : Connection} (h : c.Harmless) :
    c.offerReuse.parser = c.parser := by
  unfold offerReuse
  split
  case isTrue hlt =>
    -- the larger buffer comes only when there is nothing to lose
    rcases h with hempty | hle
    · rw [← hempty]
    · exact absurd hlt (Nat.not_lt.2 hle)
  case isFalse => rfl

@[simp] theorem offerReuse_recvQueue (c : Connection) :
    c.offerReuse.recvQueue = c.recvQueue := by
  unfold offerReuse
  split <;> rfl

@[simp] theorem offerReuse_taken (c : Connection) : c.offerReuse.taken = c.taken := by
  unfold offerReuse
  split <;> rfl

@[simp] theorem offerReuse_reading (c : Connection) : c.offerReuse.reading = c.reading := by
  unfold offerReuse
  split <;> rfl

@[simp] theorem offerReuse_recvClosed (c : Connection) :
    c.offerReuse.recvClosed = c.recvClosed := by
  unfold offerReuse
  split <;> rfl

theorem Alike.onRead {path : ReadPath} {c d : Connection} (h : Alike c d) (hc : c.Harmless)
    (bytes : List UInt8) :
    Alike (c.onRead grow path true bytes) (d.onRead grow path false bytes) := by
  unfold Connection.onRead
  by_cases hreading : d.reading = true
  · have hreading' : c.reading = true := by rw [h.reading, hreading]
    have hparser : c.offerReuse.parser = d.parser := by rw [offerReuse_harmless hc, h.parser]
    simp only [hreading, hreading', if_true, hparser]
    by_cases hok : (d.parser.feed bytes).ok = true
    · constructor <;> simp [hok, hreading', h.recvQueue, h.taken, h.recvClosed]
    · -- both were refused, and the path does the same to both
      cases path with
      | plain => constructor <;> simp [hok, h.recvQueue, h.taken]
      | tls => constructor <;> simp [hok, hreading', h.recvQueue, h.taken]
  · have hreading' : ¬ c.reading = true := by rwa [h.reading]
    rw [if_neg hreading, if_neg hreading']
    exact h

theorem Alike.dequeueFrame {c d : Connection} (h : Alike c d) (capacity : Nat) :
    Alike (c.dequeueFrame capacity) (d.dequeueFrame capacity) := by
  unfold Connection.dequeueFrame
  rw [h.recvQueue]
  cases d.recvQueue with
  | nil => exact h
  | cons frame rest =>
    constructor
    · exact h.parser
    · rfl
    · simp [h.taken]
    · exact h.reading
    · exact h.recvClosed

/-- One event: the two connections stay alike if an offer is harmless. -/
theorem Alike.step {path : ReadPath} {c d : Connection} (h : Alike c d) {e : ConnectionEvent}
    (hc : ∀ bytes, e = .read bytes → c.Harmless) :
    Alike (c.step grow path true e) (d.step grow path false e) := by
  cases e with
  | read bytes => exact h.onRead (hc bytes rfl) bytes
  | ended => exact ⟨h.parser, h.recvQueue, h.taken, rfl, rfl⟩
  | sslClosed =>
    cases path with
    | plain => exact h
    | tls => exact ⟨h.parser, h.recvQueue, h.taken, h.reading, rfl⟩
  | dequeue capacity => exact h.dequeueFrame capacity

theorem Alike.run {path : ReadPath} {c d : Connection} (h : Alike c d)
    (events : List ConnectionEvent)
    (hc : EachRead grow path (fun c _ => c.Harmless) c events) :
    Alike (c.run grow path true events) (d.run grow path false events) := by
  induction events generalizing c d with
  | nil => exact h
  | cons e events ih => exact ih (h.step hc.1) hc.2

end Connection

open Connection in
/-- **Main result.** Whatever capacities are handed back and however vectors grow: where every
offer is harmless, the frames dequeued and the frames waiting are those of a connection that
never offers a buffer. -/
theorem recycled_eq (grow : Nat → Nat → Nat) (path : ReadPath) (events : List ConnectionEvent)
    (h : EachRead grow path (fun c _ => c.Harmless) {} events) :
    (Connection.run grow path true {} events).taken =
        (Connection.run grow path false {} events).taken ∧
      (Connection.run grow path true {} events).recvQueue =
        (Connection.run grow path false {} events).recvQueue := by
  have halike : Alike {} {} := ⟨rfl, rfl, rfl, rfl, rfl⟩
  have hrun := halike.run events h
  exact ⟨hrun.taken, hrun.recvQueue⟩

/-- The frame is cut in its payload, and a small buffer is handed back meanwhile. -/
theorem recycled_eq_small :
    (Connection.run (fun _ n => n) .plain true {}
        [.read [0, 0, 0, 1, 5, 0, 0, 0, 2, 6], .dequeue 1, .read [7]]).recvQueue =
      (Connection.run (fun _ n => n) .plain false {}
        [.read [0, 0, 0, 1, 5, 0, 0, 0, 2, 6], .dequeue 1, .read [7]]).recvQueue :=
  (recycled_eq _ .plain [.read [0, 0, 0, 1, 5, 0, 0, 0, 2, 6], .dequeue 1, .read [7]]
    (show _ ∧ _ ∧ _ ∧ _ from ⟨fun _ _ => .inl rfl, fun _ h => by (cases h),
      fun _ _ => .inr (by decide +kernel), trivial⟩)).2

/-- A larger buffer takes the byte that was stored with it. -/
theorem recycled_ne :
    ¬ ∀ (grow : Nat → Nat → Nat) (path : ReadPath) (events : List ConnectionEvent),
      (Connection.run grow path true {} events).recvQueue =
        (Connection.run grow path false {} events).recvQueue := by
  intro h
  have hevents := h (fun _ n => n) .plain
    [.read [0, 0, 0, 1, 5, 0, 0, 0, 2, 6], .dequeue 3, .read [7]]
  exact absurd hevents (by decide +kernel)

/-! ## Refused lengths -/

namespace Connection

/-- What `feed` has done to the connection's parser after so many passes, when bytes arrive. -/
def passes (c : Connection) (bytes : List UInt8) (n : Nat) : FrameParser.Fed :=
  if c.reading then FrameParser.feedLoop n c.offerReuse.parser bytes else ⟨c.parser, [], true⟩

/-- The read queues no frame that is too large, at no time stores more than allowed, and queues
nothing after a length was refused. -/
structure FailStop (grow : Nat → Nat → Nat) (path : ReadPath) (c : Connection)
    (bytes : List UInt8) : Prop where
  delivered : ∀ f ∈ (c.onRead grow path true bytes).recvQueue,
    f ∈ c.recvQueue ∨ f.length ≤ kMaxFrameBytes
  stored : ∀ n, (c.passes bytes n).parser.partialFrame.length ≤ kMaxFrameBytes
  stopped : c.refused = true → (c.onRead grow path true bytes).recvQueue = c.recvQueue

/-- If a length was refused and the connection reads on: the bytes are fewer than the refused
length still expects, and fit with what is stored. -/
def Within (c : Connection) (bytes : List UInt8) : Prop :=
  c.refused = true → c.reading = true →
    bytes.length < c.offerReuse.parser.payloadLeft ∧
      c.offerReuse.parser.partialFrame.length + bytes.length ≤ kMaxFrameBytes

/-- A connection in a run of which every read was `FailStop`. -/
structure Guarded (path : ReadPath) (c : Connection) : Prop where
  bounded : c.refused = false → c.parser.Bounded
  pos : c.refused = true → c.parser.hdrPos = 4
  left : c.refused = true → 0 < c.parser.payloadLeft
  fits : c.parser.partialFrame.length ≤ kMaxFrameBytes
  plain : path = .plain → c.refused = true → c.reading = false

variable {grow : Nat → Nat → Nat}

/-- What a read queues is what the passes of `feed` delivered. -/
theorem onRead_recvQueue (path : ReadPath) (c : Connection) (bytes : List UInt8) :
    (c.onRead grow path true bytes).recvQueue =
      c.recvQueue ++ (c.passes bytes (2 * bytes.length)).frames := by
  unfold onRead passes
  by_cases hreading : c.reading = true
  · simp only [hreading, if_true]
    by_cases hok : (c.offerReuse.parser.feed bytes).ok = true
    · simp only [hok, if_true, offerReuse_recvQueue]
      rfl
    · simp only [hok]
      cases path <;> simp only [offerReuse_recvQueue] <;> rfl
  · simp [hreading]

/-- An offer only ever drops bytes. -/
theorem offerReuse_cases (c : Connection) :
    c.offerReuse.parser = c.parser ∨
      c.offerReuse.parser = { c.parser with partialFrame := [] } := by
  unfold offerReuse
  split
  · exact .inr rfl
  · exact .inl rfl

@[simp] theorem offerReuse_hdrPos (c : Connection) :
    c.offerReuse.parser.hdrPos = c.parser.hdrPos := by
  rcases c.offerReuse_cases with h | h <;> rw [h]

@[simp] theorem offerReuse_payloadLeft (c : Connection) :
    c.offerReuse.parser.payloadLeft = c.parser.payloadLeft := by
  rcases c.offerReuse_cases with h | h <;> rw [h]

theorem offerReuse_bounded {c : Connection} (h : c.parser.Bounded) :
    c.offerReuse.parser.Bounded := by
  rcases c.offerReuse_cases with h' | h' <;> rw [h']
  · exact h
  · have hfits := h.fits
    exact ⟨by simp only [List.length_nil]; omega, fun _ => rfl⟩

theorem offerReuse_fits {c : Connection} (h : c.parser.partialFrame.length ≤ kMaxFrameBytes) :
    c.offerReuse.parser.partialFrame.length ≤ kMaxFrameBytes := by
  rcases c.offerReuse_cases with h' | h' <;> rw [h']
  · exact h
  · exact Nat.zero_le _

/-- One read, and what it takes for it to be `FailStop`. -/
theorem failStop_iff_within {path : ReadPath} {c : Connection} (h : c.Guarded path)
    (bytes : List UInt8) : c.FailStop grow path bytes ↔ c.Within bytes := by
  by_cases hreading : c.reading = true
  case neg =>
    -- nothing is fed
    have hsame : c.onRead grow path true bytes = c := if_neg hreading
    have hpasses : ∀ n, c.passes bytes n = ⟨c.parser, [], true⟩ := fun n => if_neg hreading
    refine ⟨fun _ _ hr => absurd hr hreading, fun _ => ⟨?_, ?_, ?_⟩⟩
    · intro f hf
      rw [hsame] at hf
      exact .inl hf
    · intro n
      rw [hpasses]
      exact h.fits
    · intro _
      rw [hsame]
  have hpasses : ∀ n, c.passes bytes n = FrameParser.feedLoop n c.offerReuse.parser bytes :=
    fun n => if_pos hreading
  have hqueue := @onRead_recvQueue grow path c bytes
  rw [hpasses] at hqueue
  cases hrefused : c.refused with
  | false =>
    have hbounded := offerReuse_bounded (h.bounded hrefused)
    refine ⟨fun _ hr => absurd hr (by simp [hrefused]), fun _ => ⟨?_, ?_, ?_⟩⟩
    · intro f hf
      rw [hqueue, List.mem_append] at hf
      exact hf.imp id ((FrameParser.feedLoop_bounded _ hbounded bytes).1 f)
    · intro n
      have hparser := (FrameParser.feedLoop_bounded n hbounded bytes).2
      rw [hpasses]
      split at hparser
      · exact Nat.le_of_add_right_le hparser.fits
      · rw [hparser.empty]
        exact Nat.zero_le _
    · intro hr
      exact absurd hr (by simp [hrefused])
  | true =>
    have hpos : c.offerReuse.parser.hdrPos = 4 := by
      rw [offerReuse_hdrPos]
      exact h.pos hrefused
    have hleft : 0 < c.offerReuse.parser.payloadLeft := by
      rw [offerReuse_payloadLeft]
      exact h.left hrefused
    constructor
    · intro hstop _ _
      have hlt : bytes.length < c.offerReuse.parser.payloadLeft := by
        by_contra hge
        -- as many bytes as are expected complete a frame
        obtain ⟨fuel, hfuel⟩ : ∃ fuel, 2 * bytes.length = fuel + 1 :=
          Nat.exists_eq_add_one.2 (by omega)
        rw [hfuel] at hqueue
        have hnone := List.self_eq_append_right.1 ((hstop.stopped hrefused).symm.trans hqueue)
        exact FrameParser.feedLoop_completes fuel hpos hleft (Nat.le_of_not_lt hge) hnone
      have hstored := hstop.stored 1
      rw [hpasses, FrameParser.feedLoop_within 0 hpos hlt] at hstored
      simp only [List.length_append] at hstored
      exact ⟨hlt, hstored⟩
    · intro hwithin
      obtain ⟨hlt, hfits⟩ := hwithin hrefused hreading
      have hcases : ∀ n, (FrameParser.feedLoop n c.offerReuse.parser bytes).frames = [] ∧
          (FrameParser.feedLoop n c.offerReuse.parser bytes).parser.partialFrame.length ≤
            kMaxFrameBytes := by
        intro n
        cases n with
        | zero => exact ⟨rfl, offerReuse_fits h.fits⟩
        | succ n =>
          rw [FrameParser.feedLoop_within n hpos hlt]
          refine ⟨rfl, ?_⟩
          simp only [List.length_append]
          exact hfits
      rw [(hcases _).1, List.append_nil] at hqueue
      refine ⟨?_, ?_, fun _ => hqueue⟩
      · intro f hf
        rw [hqueue] at hf
        exact .inl hf
      · intro n
        rw [hpasses]
        exact (hcases n).2

/-- A read that is `Within` keeps the connection guarded. -/
theorem Guarded.onRead {path : ReadPath} {c : Connection} (h : c.Guarded path)
    {bytes : List UInt8} (hwithin : c.Within bytes) :
    (c.onRead grow path true bytes).Guarded path := by
  unfold Connection.onRead
  by_cases hreading : c.reading = true
  case neg =>
    rw [if_neg hreading]
    exact h
  have hstop := (@failStop_iff_within grow path c h bytes).2 hwithin
  have hfits := hstop.stored (2 * bytes.length)
  have hfeed : c.passes bytes (2 * bytes.length) = c.offerReuse.parser.feed bytes := by
    simp [passes, hreading, FrameParser.feed]
  rw [hfeed] at hfits
  cases hrefused : c.refused with
  | false =>
    have hparser := (FrameParser.feedLoop_bounded (2 * bytes.length)
      (offerReuse_bounded (h.bounded hrefused)) bytes).2
    have hnot : c.offerReuse.refused = false := by
      unfold offerReuse
      split <;> exact hrefused
    simp only [hreading, if_true]
    by_cases hok : (c.offerReuse.parser.feed bytes).ok = true
    · rw [if_pos (show (FrameParser.feedLoop _ _ _).ok = true from hok)] at hparser
      simp only [hok, if_true]
      refine ⟨fun _ => hparser, ?_, ?_, hfits, ?_⟩
      · intro hr
        exact absurd hr (by simp [hnot])
      · intro hr
        exact absurd hr (by simp [hnot])
      · intro _ hr
        exact absurd hr (by simp [hnot])
    · -- a length is refused by this read
      rw [if_neg (show ¬ (FrameParser.feedLoop _ _ _).ok = true from hok)] at hparser
      have hleft : 0 < (c.offerReuse.parser.feed bytes).parser.payloadLeft :=
        Nat.zero_lt_of_lt hparser.left
      simp only [hok]
      cases path with
      | plain =>
        exact ⟨nofun, fun _ => hparser.pos, fun _ => hleft, hfits,
          fun _ _ => rfl⟩
      | tls =>
        exact ⟨nofun, fun _ => hparser.pos, fun _ => hleft, hfits,
          nofun⟩
  | true =>
    obtain ⟨hlt, -⟩ := hwithin hrefused hreading
    have hpath : path = .tls := by
      cases path with
      | plain => exact absurd (h.plain rfl hrefused) (by simp [hreading])
      | tls => rfl
    subst hpath
    have hpos : c.offerReuse.parser.hdrPos = 4 := by
      rw [offerReuse_hdrPos]
      exact h.pos hrefused
    have hkeep : (c.offerReuse.parser.feed bytes).ok = true ∧
        (c.offerReuse.parser.feed bytes).parser.hdrPos = 4 ∧
        0 < (c.offerReuse.parser.feed bytes).parser.payloadLeft := by
      unfold FrameParser.feed
      cases hn : 2 * bytes.length with
      | zero => exact ⟨rfl, hpos, Nat.zero_lt_of_lt hlt⟩
      | succ n =>
        rw [FrameParser.feedLoop_within n hpos hlt]
        exact ⟨rfl, hpos, Nat.sub_pos_of_lt hlt⟩
    have hstill : c.offerReuse.refused = true := by
      unfold offerReuse
      split <;> exact hrefused
    simp only [hreading, if_true, hkeep.1]
    exact ⟨fun hr => absurd hr (by simp [hstill]), fun _ => hkeep.2.1, fun _ => hkeep.2.2, hfits,
      nofun⟩

/-- One event keeps it guarded. -/
theorem Guarded.step {path : ReadPath} {c : Connection} (h : c.Guarded path)
    {e : ConnectionEvent} (hwithin : ∀ bytes, e = .read bytes → c.Within bytes) :
    (c.step grow path true e).Guarded path := by
  cases e with
  | read bytes => exact h.onRead (hwithin bytes rfl)
  | ended => exact ⟨h.bounded, h.pos, h.left, h.fits, fun _ _ => rfl⟩
  | sslClosed =>
    cases path with
    | plain => exact h
    | tls => exact ⟨h.bounded, h.pos, h.left, h.fits, nofun⟩
  | dequeue capacity =>
    show (c.dequeueFrame capacity).Guarded path
    unfold dequeueFrame
    cases c.recvQueue with
    | nil => exact h
    | cons frame rest => exact ⟨h.bounded, h.pos, h.left, h.fits, h.plain⟩

theorem Guarded.stops_iff {path : ReadPath} {c : Connection} (h : c.Guarded path)
    (events : List ConnectionEvent) :
    EachRead grow path (FailStop grow path) c events ↔ EachRead grow path Within c events := by
  induction events generalizing c with
  | nil => exact Iff.rfl
  | cons e events ih =>
    have hread : (∀ bytes, e = .read bytes → c.FailStop grow path bytes) ↔
        ∀ bytes, e = .read bytes → c.Within bytes :=
      forall₂_congr fun bytes _ => failStop_iff_within h bytes
    refine ⟨fun ⟨hstop, hrest⟩ => ?_, fun ⟨hwithin, hrest⟩ => ?_⟩
    · have hwithin := hread.1 hstop
      exact ⟨hwithin, (ih (h.step hwithin)).1 hrest⟩
    · exact ⟨hread.2 hwithin, (ih (h.step hwithin)).2 hrest⟩

theorem guarded_fresh (path : ReadPath) : Guarded path {} where
  bounded := fun _ => ⟨by decide, fun _ => rfl⟩
  pos := fun h => by cases h
  left := fun h => by cases h
  fits := Nat.zero_le _
  plain := fun _ h => by cases h

/-- The condition holds of every run of a plain stream. -/
theorem plain_within (grow : Nat → Nat → Nat) {c : Connection} (h : c.Guarded .plain)
    (events : List ConnectionEvent) : EachRead grow .plain Within c events := by
  induction events generalizing c with
  | nil => exact trivial
  | cons e events ih =>
    have hwithin : ∀ bytes, c.Within bytes := fun _ hrefused hreading =>
      absurd (h.plain rfl hrefused) (by simp [hreading])
    exact ⟨fun bytes _ => hwithin bytes, ih (h.step fun bytes _ => hwithin bytes)⟩

end Connection

open Connection in
/-- **Main result.** Whatever arrives, however it is cut into reads and whatever is dequeued
between them: refused lengths are fatal in a run of a plain stream, and in one of a TLS stream
if and only if no read after the refusal brings more than the parser can store. -/
theorem failStop_iff (grow : Nat → Nat → Nat) (path : ReadPath)
    (events : List ConnectionEvent) :
    EachRead grow path (FailStop grow path) {} events ↔
      (path = .tls → EachRead grow path Connection.Within {} events) := by
  rw [(guarded_fresh path).stops_iff events]
  cases path with
  | plain => exact ⟨fun h _ => h, fun _ => plain_within grow (guarded_fresh .plain) events⟩
  | tls => exact ⟨fun h _ => h, fun h => h rfl⟩

open Connection in
/-- A TLS stream on which a header declares one byte more than is allowed, and that many bytes
follow, delivers the frame. -/
theorem oversized_delivered :
    ¬ ∀ (grow : Nat → Nat → Nat) (path : ReadPath) (events : List ConnectionEvent),
      EachRead grow path (FailStop grow path) {} events := by
  intro h
  have hevents := h (fun _ n => n) .tls
    [.read [4, 0, 0, 1], .read (List.replicate (kMaxFrameBytes + 1) 0)]
  -- the parser after the refused header
  obtain ⟨c, hc⟩ : ∃ c, c = Connection.step (fun _ n => n) .tls true {} (.read [4, 0, 0, 1]) :=
    ⟨_, rfl⟩
  have hrefused : c.refused = true ∧ c.reading = true ∧ c.parser.hdrPos = 4 ∧
      c.parser.payloadLeft = kMaxFrameBytes + 1 := by
    rw [hc]
    decide +kernel
  obtain ⟨hr, hreading, hpos, hleft⟩ := hrefused
  have hstop := hevents.2.1 _ rfl
  rw [← hc] at hstop
  have hguarded : c.Guarded .tls := by
    rw [hc]
    exact (guarded_fresh .tls).step fun _ _ hr => by cases hr
  -- the bytes are as many as the header declared
  have hwithin := ((failStop_iff_within hguarded _).1 hstop hr hreading).1
  rw [offerReuse_payloadLeft, hleft, List.length_replicate] at hwithin
  exact Nat.lt_irrefl _ hwithin

end Bison
