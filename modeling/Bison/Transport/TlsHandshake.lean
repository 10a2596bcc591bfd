import Mathlib.Data.List.Basic

/-!
# The handshake loop of a TLS connection

`handshake_sync` calls `mbedtls_ssl_handshake` until it returns something else than that it wants
to read or write, and lets the loop run once in between (tls_stream_state.hpp:401-414). The
library reads what the peer has sent through `bio_recv`, which knows the end of the stream by
`recv_closed`. `on_stop` runs in that loop and closes the handles, after which nothing is read any
more.

- `SslCall`: a call of the library, by what it asks of the transport. The library is a parameter.
- `TlsStream.iterate`: one iteration of the loop.
- `handshake_ends_iff`: **main result**, behind `on_stop` the loop ends if and only if the stream
  has ended or the library needs no more than the peer has sent.
- `silent_peer`: a peer that sends nothing keeps it going.
-/

namespace Bison

/-- `MBEDTLS_ERR_SSL_WANT_READ`. -/
def mbedtlsErrSslWantRead : Int := -0x6900

/-- `MBEDTLS_ERR_SSL_WANT_WRITE`. -/
def mbedtlsErrSslWantWrite : Int := -0x6880

/-- `MBEDTLS_ERR_SSL_CONN_EOF`. -/
def mbedtlsErrSslConnEof : Int := -0x7280

/-- One call of the TLS library: it returns and leaves the context in some state, or it calls
`bio_send` or `bio_recv` and goes on with what these return. -/
inductive SslCall (σ : Type) where
  | ret (rc : Int) (ssl : σ)
  | send (data : List UInt8) (resume : Int → SslCall σ)
  | recv (len : Nat) (resume : Int → List UInt8 → SslCall σ)

/-- `tls_stream_state` while the handshake is in progress. `handlesClosed`: `on_stop` has run.
`ended`: what the loop of `handshake_sync` ended with. -/
structure TlsStream (σ : Type) where
  ssl : σ
  inboundCiphertext : List UInt8 := []
  recvClosed : Bool := false
  reading : Bool := true
  handlesClosed : Bool := false
  ended : Option Int := none

/-- What `uv_run` finds to do on a connection. -/
inductive UvEvent where
  | read (bytes : List UInt8)
  | endOfStream
  | stop
  deriving Repr, DecidableEq

/-- The loop of `handshake_sync` goes on. -/
def WantsMore (rc : Int) : Prop := rc = mbedtlsErrSslWantRead ∨ rc = mbedtlsErrSslWantWrite

instance : DecidablePred WantsMore := fun _ => inferInstanceAs (Decidable (_ ∨ _))

section

variable {σ : Type}

namespace TlsStream

/-- `bio_recv`: what it returns, the bytes, and what is left. -/
def bioRecv (s : TlsStream σ) (len : Nat) : Int × List UInt8 × TlsStream σ :=
  if s.inboundCiphertext = [] then
    (if s.recvClosed then 0 else mbedtlsErrSslWantRead, [], s)
  else
    let n := min len s.inboundCiphertext.length
    (n, s.inboundCiphertext.take n,
      { s with inboundCiphertext := s.inboundCiphertext.drop n })

-- uv_write, given whether the handle is closed
variable (uvWrite : Bool → List UInt8 → Int)

/-- `bio_send`. -/
def bioSend (s : TlsStream σ) (data : List UInt8) : Int :=
  if uvWrite s.handlesClosed data = 0 then data.length else -1

/-- What a call of the library returns, and the connection behind it. -/
def call : SslCall σ → TlsStream σ → Int × TlsStream σ
  | .ret rc ssl, s => (rc, { s with ssl })
  | .send data resume, s => call (resume (s.bioSend uvWrite data)) s
  | .recv len resume, s =>
    let (rc, bytes, s) := s.bioRecv len
    call (resume rc bytes) s

/-- `on_tls_read` before the handshake is done, and `on_stop`. -/
def onEvent (s : TlsStream σ) : UvEvent → TlsStream σ
  | .read bytes =>
    if s.handlesClosed ∨ s.reading = false then s
    else { s with inboundCiphertext := s.inboundCiphertext ++ bytes }
  | .endOfStream =>
    if s.handlesClosed ∨ s.reading = false then s
    else { s with recvClosed := true, reading := false }
  | .stop => { s with handlesClosed := true }

/-- `uv_run`. -/
def uvRun (s : TlsStream σ) (events : List UvEvent) : TlsStream σ := events.foldl onEvent s

-- mbedtls_ssl_handshake
variable (handshake : σ → SslCall σ)

/-- An iteration of the loop, in whose `uv_run` these events happen. -/
def iterate (s : TlsStream σ) (events : List UvEvent) : TlsStream σ :=
  match s.ended with
  | some _ => s
  | none =>
    let (rc, s) := s.call uvWrite (handshake s.ssl)
    if WantsMore rc then s.uvRun events else { s with ended := some rc }

/-- The connection after some iterations. -/
def after (s : TlsStream σ) (events : Nat → List UvEvent) : Nat → TlsStream σ
  | 0 => s
  | n + 1 => (s.after events n).iterate uvWrite handshake (events n)

end TlsStream

/-! ## The library -/

section

variable (handshake : σ → SslCall σ)

/-- What the library is relied on for. It wants more only when `bio_recv` did, it asks for input
again when it is called again then, and it takes the end of the stream for an error. -/
def SslCall.Resumes : SslCall σ → Prop
  | .ret rc _ => ¬ WantsMore rc
  | .send _ resume => ∀ rc, (resume rc).Resumes
  | .recv _ resume =>
    (∀ bytes, bytes ≠ [] → (resume bytes.length bytes).Resumes) ∧
    (∃ ssl len again, resume mbedtlsErrSslWantRead [] = .ret mbedtlsErrSslWantRead ssl ∧
      handshake ssl = .recv len again) ∧
    ∃ rc ssl, resume 0 [] = .ret rc ssl ∧ ¬ WantsMore rc

end

/-- The call needs more input than `bytes`, given what `bio_send` returns. -/
def SslCall.Starves (bioSend : List UInt8 → Int) : SslCall σ → List UInt8 → Prop
  | .ret _ _, _ => False
  | .send data resume, bytes => (resume (bioSend data)).Starves bioSend bytes
  | .recv len resume, bytes =>
    let n := min len bytes.length
    bytes = [] ∨ (resume n (bytes.take n)).Starves bioSend (bytes.drop n)

namespace TlsStream

variable {uvWrite : Bool → List UInt8 → Int} {handshake : σ → SslCall σ} {s : TlsStream σ}

/-! ## One call -/

theorem bioRecv_empty {len : Nat} (h : s.inboundCiphertext = []) :
    s.bioRecv len = (if s.recvClosed then 0 else mbedtlsErrSslWantRead, [], s) := if_pos h

theorem bioRecv_some {len : Nat} (h : s.inboundCiphertext ≠ []) :
    s.bioRecv len = (((min len s.inboundCiphertext.length : Nat) : Int),
      s.inboundCiphertext.take (min len s.inboundCiphertext.length),
      { s with inboundCiphertext :=
        s.inboundCiphertext.drop (min len s.inboundCiphertext.length) }) := if_neg h

/-- A call leaves the handles, the flag and the end of the loop as they are. -/
theorem call_same (c : SslCall σ) : (s.call uvWrite c).2.handlesClosed = s.handlesClosed ∧
    (s.call uvWrite c).2.recvClosed = s.recvClosed ∧ (s.call uvWrite c).2.ended = s.ended := by
  induction c generalizing s with
  | ret rc ssl => exact ⟨rfl, rfl, rfl⟩
  | send data resume ih => exact ih _
  | recv len resume ih =>
    unfold call
    by_cases hempty : s.inboundCiphertext = []
    · rw [bioRecv_empty hempty]
      exact ih _ _
    · rw [bioRecv_some hempty]
      exact ih _ _

/-- The library is fed with what `bio_recv` gives it. -/
theorem resumes_take {c : SslCall σ} {len : Nat} {resume : Int → List UInt8 → SslCall σ}
    (h : (SslCall.recv len resume).Resumes handshake) (bytes : List UInt8)
    (hc : c = resume (min len bytes.length : Nat) (bytes.take (min len bytes.length))) :
    c.Resumes handshake := by
  obtain ⟨hbytes, -, rc, ssl, heof, hrc⟩ := h
  have hlength : (bytes.take (min len bytes.length)).length = min len bytes.length := by simp
  by_cases hempty : bytes.take (min len bytes.length) = []
  · rw [hempty, List.length_nil] at hlength
    rw [hc, hempty, ← hlength, Int.natCast_zero, heof]
    exact hrc
  · have := hbytes _ hempty
    rwa [hlength, ← hc] at this

/-- With the end of the stream, or with all the input it needs, the call does not want more. -/
theorem call_ends {c : SslCall σ} (hc : c.Resumes handshake)
    (h : s.recvClosed = true ∨ ¬ c.Starves (s.bioSend uvWrite) s.inboundCiphertext) :
    ¬ WantsMore (s.call uvWrite c).1 := by
  induction c generalizing s with
  | ret rc ssl => exact hc
  | send data resume ih => exact ih _ (hc _) h
  | recv len resume ih =>
    unfold call
    by_cases hempty : s.inboundCiphertext = []
    · have hclosed : s.recvClosed = true :=
        h.resolve_right fun hnot => hnot (.inl hempty)
      obtain ⟨-, -, rc, ssl, heof, hrc⟩ := hc
      rw [bioRecv_empty hempty, if_pos hclosed]
      simp only [heof]
      exact hrc
    · rw [bioRecv_some hempty]
      refine ih _ _ (resumes_take hc _ rfl) (h.imp_right fun hnot hstarves => hnot (.inr ?_))
      exact hstarves

/-- The library waits for input, and there is none. -/
structure Starved (uvWrite : Bool → List UInt8 → Int) (handshake : σ → SslCall σ)
    (s : TlsStream σ) : Prop where
  handlesClosed : s.handlesClosed = true
  recvClosed : s.recvClosed = false
  ended : s.ended = none
  starves : (handshake s.ssl).Starves (s.bioSend uvWrite) s.inboundCiphertext

theorem call_starves {c : SslCall σ} (hc : c.Resumes handshake) (hopen : s.recvClosed = false)
    (h : c.Starves (s.bioSend uvWrite) s.inboundCiphertext) :
    (s.call uvWrite c).1 = mbedtlsErrSslWantRead ∧
      (s.call uvWrite c).2.inboundCiphertext = [] ∧
      ∃ len again, handshake (s.call uvWrite c).2.ssl = .recv len again := by
  induction c generalizing s with
  | ret rc ssl => exact h.elim
  | send data resume ih => exact ih _ (hc _) hopen h
  | recv len resume ih =>
    unfold call
    by_cases hempty : s.inboundCiphertext = []
    · obtain ⟨-, ⟨ssl, len', again, hwants, hagain⟩, -⟩ := hc
      rw [bioRecv_empty hempty, if_neg (by simp [hopen])]
      simp only [hwants]
      exact ⟨rfl, hempty, len', again, hagain⟩
    · rw [bioRecv_some hempty]
      exact ih _ _ (resumes_take hc _ rfl) hopen (h.resolve_left hempty)

/-! ## The loop behind `on_stop` -/

theorem onEvent_closed (hclosed : s.handlesClosed = true) (e : UvEvent) : s.onEvent e = s := by
  cases e with
  | read bytes => exact if_pos (.inl hclosed)
  | endOfStream => exact if_pos (.inl hclosed)
  | stop =>
    unfold onEvent
    rw [← hclosed]

theorem uvRun_closed (hclosed : s.handlesClosed = true) (events : List UvEvent) :
    s.uvRun events = s := by
  induction events with
  | nil => rfl
  | cons e events ih =>
    unfold uvRun at ih ⊢
    rw [List.foldl_cons, onEvent_closed hclosed, ih]

theorem iterate_ended (h : s.ended.isSome) (events : List UvEvent) :
    s.iterate uvWrite handshake events = s := by
  obtain ⟨rc, hrc⟩ := Option.isSome_iff_exists.1 h
  unfold iterate
  rw [hrc]

theorem Starved.iterate (hssl : ∀ ssl, (handshake ssl).Resumes handshake)
    (h : s.Starved uvWrite handshake) (events : List UvEvent) :
    (s.iterate uvWrite handshake events).Starved uvWrite handshake := by
  obtain ⟨hrc, hempty, len, again, hagain⟩ := call_starves (hssl s.ssl) h.recvClosed h.starves
  have hstep : s.iterate uvWrite handshake events =
      (s.call uvWrite (handshake s.ssl)).2.uvRun events := by
    unfold TlsStream.iterate
    rw [h.ended]
    simp only [hrc, WantsMore, true_or, if_true]
  generalize hs' : (s.call uvWrite (handshake s.ssl)).2 = s' at hempty hagain hstep
  obtain ⟨hclosed, hopen, hended⟩ := hs' ▸ call_same (handshake s.ssl)
  rw [hstep, uvRun_closed (hclosed.trans h.handlesClosed)]
  refine ⟨hclosed.trans h.handlesClosed, hopen.trans h.recvClosed, hended.trans h.ended, ?_⟩
  rw [hagain]
  exact .inl hempty

/-- It ends neither before nor afterwards. -/
theorem Starved.never_ends (hssl : ∀ ssl, (handshake ssl).Resumes handshake)
    {events : Nat → List UvEvent} {n : Nat}
    (h : (s.after uvWrite handshake events n).Starved uvWrite handshake) (m : Nat) :
    ¬ (s.after uvWrite handshake events m).ended.isSome := by
  intro hended
  have hstarved (k : Nat) :
      (s.after uvWrite handshake events (n + k)).Starved uvWrite handshake := by
    induction k with
    | zero => exact h
    | succ k ih => exact ih.iterate hssl _
  have hstays (k : Nat) : (s.after uvWrite handshake events (m + k)).ended.isSome := by
    induction k with
    | zero => exact hended
    | succ k ih =>
      rw [← Nat.add_assoc, after, iterate_ended ih]
      exact ih
  have hsome := hstays n
  rw [Nat.add_comm, (hstarved m).ended] at hsome
  cases hsome

end TlsStream

open TlsStream

variable {handshake : σ → SslCall σ}

/-- Behind `on_stop` the loop ends if and only if the stream has ended or the library needs no more
input than the peer has sent. -/
theorem handshake_ends_iff (hssl : ∀ ssl, (handshake ssl).Resumes handshake)
    (uvWrite : Bool → List UInt8 → Int) (ssl : σ) (events : Nat → List UvEvent) (n : Nat)
    {s : TlsStream σ} (hs : ({ ssl } : TlsStream σ).after uvWrite handshake events n = s)
    (hstopped : s.handlesClosed = true) (hlooping : s.ended = none) :
    (∃ m, (({ ssl } : TlsStream σ).after uvWrite handshake events m).ended.isSome) ↔
      s.recvClosed = true ∨
        ¬ (handshake s.ssl).Starves (s.bioSend uvWrite) s.inboundCiphertext := by
  constructor
  · rintro ⟨m, hended⟩
    by_contra hstarves
    obtain ⟨hopen, hstarves⟩ := not_or.1 hstarves
    have hstarved : s.Starved uvWrite handshake :=
      ⟨hstopped, Bool.eq_false_iff.2 hopen, hlooping, not_not.1 hstarves⟩
    rw [← hs] at hstarved
    exact hstarved.never_ends hssl m hended
  · intro henough
    refine ⟨n + 1, ?_⟩
    have hends : ¬ WantsMore (s.call uvWrite (handshake s.ssl)).1 :=
      call_ends (hssl s.ssl) henough
    rw [after, hs]
    unfold iterate
    simp only [hlooping]
    rw [if_neg hends]
    rfl

end

/-! ## A peer that says nothing -/

/-- `MBEDTLS_ERR_SSL_INVALID_RECORD`. -/
def mbedtlsErrSslInvalidRecord : Int := -0x7200

/-- A server's `mbedtls_ssl_handshake` at the first record header, given no valid one. -/
def awaitHeader (_ : Unit) : SslCall Unit :=
  .recv 5 fun rc _ =>
    if rc = mbedtlsErrSslWantRead then .ret rc ()
    else if rc = 0 then .ret mbedtlsErrSslConnEof ()
    else .ret mbedtlsErrSslInvalidRecord ()

theorem awaitHeader_resumes (ssl : Unit) : (awaitHeader ssl).Resumes awaitHeader := by
  refine ⟨fun bytes hbytes => ?_, ⟨(), 5, _, rfl, rfl⟩, ⟨_, (), rfl, by decide⟩⟩
  have hpos : 0 < bytes.length := List.length_pos_iff.2 hbytes
  have hne : (bytes.length : Int) ≠ mbedtlsErrSslWantRead := by
    unfold mbedtlsErrSslWantRead
    omega
  have hne' : (bytes.length : Int) ≠ 0 := by omega
  simp only [hne, hne', if_false]
  exact (by decide : ¬ WantsMore mbedtlsErrSslInvalidRecord)

/-- The peer closes the connection just before it is stopped. -/
theorem handshake_ends_iff_closed : ∃ m,
    (({ ssl := () } : TlsStream Unit).after (fun _ _ => 0) awaitHeader
      (fun n => if n = 0 then [.endOfStream, .stop] else []) m).ended.isSome :=
  (handshake_ends_iff awaitHeader_resumes (fun _ _ => 0) ()
    (fun n => if n = 0 then [.endOfStream, .stop] else []) 1 rfl rfl rfl).2 (.inl rfl)

/-- With a peer that keeps the connection open and sends nothing the loop does not end. -/
theorem silent_peer : ¬ ∀ (σ : Type) (handshake : σ → SslCall σ),
    (∀ ssl, (handshake ssl).Resumes handshake) →
    ∀ (uvWrite : Bool → List UInt8 → Int) (ssl : σ) (events : Nat → List UvEvent) (n : Nat),
    (({ ssl } : TlsStream σ).after uvWrite handshake events n).handlesClosed = true →
    ∃ m, (({ ssl } : TlsStream σ).after uvWrite handshake events m).ended.isSome := by
  intro h
  obtain ⟨m, hm⟩ := h Unit awaitHeader awaitHeader_resumes (fun _ _ => 0) ()
    (fun n => if n = 0 then [.stop] else []) 1 rfl
  have hstarved : (({ ssl := () } : TlsStream Unit).after (fun _ _ => 0) awaitHeader
      (fun n => if n = 0 then [.stop] else []) 1).Starved (fun _ _ => 0) awaitHeader :=
    ⟨rfl, rfl, rfl, .inl rfl⟩
  exact hstarved.never_ends awaitHeader_resumes m hm

end Bison
