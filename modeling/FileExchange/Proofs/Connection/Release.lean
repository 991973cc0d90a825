import FileExchange.Proofs.Serve.Steps
import FileExchange.Proofs.Stream

/-!
# Letting the socket go

A connection is closed by whoever holds it, at any moment and as often as it likes. Closing looks at the phase to
see whether it has been done already, and every other operation writes the phase. So a connection is closed once
and for all exactly if nothing that writes the phase comes after the first close.
-/

set_option autoImplicit false

namespace FileExchange

/-- A reading of what arrives, piece by piece: how large a piece may be and how far the reading is. -/
structure Iteration where
  size : Nat
  stage : Connection.ChunkStage := .fresh
  deriving Repr, DecidableEq

/-- A connection in use, with the iterations that have been begun on it, the first one first. -/
structure Session where
  exchange : Exchange
  iterations : List Iteration := []

/-- What the holder of a connection can do with it. An iteration reads only when its next piece is asked for, and
leaving the block that the connection was entered for closes it. -/
inductive Operation where
  | readLine
  | iterate (size : Nat)
  | next (index : Nat)
  | send (bytes : Bytes)
  | sendResponse (bytes : Bytes)
  | close
  | leave
  deriving Repr, DecidableEq

namespace Session

variable {s : Session} {op : Operation}

def phase (s : Session) : Phase :=
  s.exchange.connection.phase

/-- How often the socket has been told to close. -/
def releases (s : Session) : Nat :=
  s.exchange.connection.peer.endings.toList.count .close

def withConnection (s : Session) (connection : Connection) : Session :=
  { s with exchange := { s.exchange with connection } }

def serve {α : Type} (s : Session) (step : Serving α) : Except Failure Unit × Session :=
  let (result, exchange) := step s.exchange
  (result.map fun _ => (), { s with exchange })

/-- Does one operation, which may fail, and leaves the session as it is then. -/
def perform (s : Session) : Operation → Except Failure Unit × Session
  | .readLine => s.serve Serving.readLine
  | .iterate size => (.ok (), { s with iterations := s.iterations ++ [{ size }] })
  | .next index =>
    match s.iterations[index]? with
    | none => (.ok (), s)
    | some iteration =>
      let (result, connection, stage) := s.exchange.connection.nextChunk iteration.size iteration.stage
      ((result.mapError .system).map fun _ => (),
        { s.withConnection connection with iterations := s.iterations.set index { iteration with stage } })
  | .send bytes => s.serve (Serving.send bytes)
  | .sendResponse bytes => s.serve (Serving.sendResponse bytes)
  | .close | .leave => (.ok (), s.withConnection s.exchange.connection.close)

/-- The session after some operations, whether they fail or not. -/
def run (s : Session) (ops : List Operation) : Session :=
  ops.foldl (fun s op => (s.perform op).2) s

theorem run_concat (ops : List Operation) : s.run (ops ++ [op]) = ((s.run ops).perform op).2 := by
  rw [run, List.foldl_append]
  rfl

end Session

namespace Operation

/-- Whether an operation closes the connection. -/
def ends : Operation → Bool
  | .close | .leave => true
  | _ => false

/-- The phase that an operation leaves, whether it fails or not. -/
def phaseAfter (s : Session) : Operation → Phase
  | .readLine => .reading
  | .iterate _ => s.phase
  | .next index => if (s.iterations[index]?).any (·.stage == .fresh) then .receiving else s.phase
  | .send _ | .sendResponse _ => .writing
  | .close | .leave => .closed

/-- Whether an operation leaves the phase as it is once the connection is closed. -/
def isQuiet (s : Session) : Operation → Bool
  | .close | .leave | .iterate _ => true
  | .next index => !(s.iterations[index]?).any (·.stage == .fresh)
  | .readLine | .send _ | .sendResponse _ => false

theorem isQuiet_iff {s : Session} (h : s.phase = .closed) (op : Operation) :
    op.isQuiet s = true ↔ op.phaseAfter s = .closed := by
  cases op with
  | next index =>
    cases hfresh : (s.iterations[index]?).any (·.stage == .fresh) <;> simp [isQuiet, phaseAfter, hfresh, h]
  | _ => simp [isQuiet, phaseAfter, h]

end Operation

/-! ## Closing -/

namespace Peer

theorem endings_receive (p : Peer) (size : Nat) : (p.receive size).2.endings = p.endings := by
  rw [receive_frame]

/-- Taking in what still arrives ends nothing. -/
theorem endings_drain (p : Peer) (size : Nat) : (p.drain size).2.endings = p.endings := by
  fun_induction drain p size with
  | case1 p fault p' hreceive => exact (congrArg (·.2.endings) hreceive).symm.trans (p.endings_receive size)
  | case2 p p' hreceive => exact (congrArg (·.2.endings) hreceive).symm.trans (p.endings_receive size)
  | case3 p bytes p' hreceive hne ih =>
    exact ih.trans ((congrArg (·.2.endings) hreceive).symm.trans (p.endings_receive size))

theorem endings_send (p : Peer) (bytes : Bytes) : (p.send bytes).2.endings = p.endings := by
  unfold send
  split
  · rfl
  · dsimp only
    split <;> rfl

theorem count_shutdown (p : Peer) : p.shutdown.2.endings.toList.count .close = p.endings.toList.count .close := by
  unfold shutdown
  split
  · rfl
  · dsimp only
    split <;> simp [List.count_append]

theorem endings_setTimeout (p : Peer) (timeout : Option Binary64) : (p.setTimeout timeout).2.endings = p.endings := by
  unfold setTimeout
  split
  · rfl
  · split <;> rfl

theorem count_close (p : Peer) : p.close.2.endings.toList.count .close = p.endings.toList.count .close + 1 := by
  unfold close
  dsimp only
  split <;> simp [List.count_append]

end Peer

namespace Connection

theorem close_of_closed {c : Connection} (h : c.phase = .closed) : c.close = c := by
  simp [close, h]

theorem phase_close (c : Connection) : c.close.phase = .closed := by
  unfold close
  split
  · rename_i h
    exact eq_of_beq h
  · rfl

/-- Closing reaches the socket whatever the steps before that meet. -/
theorem count_close {c : Connection} (h : c.phase ≠ .closed) :
    c.close.peer.endings.toList.count .close = c.peer.endings.toList.count .close + 1 := by
  have hphase : (c.phase == .closed) = false := by simpa using h
  have hcount := c.peer.count_shutdown
  have htimeout := c.peer.shutdown.2.endings_setTimeout lingerTime
  simp only [close, hphase, Bool.false_eq_true, if_false, Peer.count_close, ← hcount, ← htimeout]
  split
  · rename_i peer hset
    rw [hset, Peer.endings_drain]
  · rename_i hset
    rw [hset]

end Connection

/-! ## One operation -/

namespace Serving

/-- A send writes the phase and leaves alone what has been done to end the connection. -/
theorem frame_send (bytes : Bytes) (x : Exchange) :
    (send bytes x).2.connection.phase = .writing ∧
      (send bytes x).2.connection.peer.endings = x.connection.peer.endings := by
  have hrun : send bytes x = sendBytes bytes (meddle (enter .writing x).2).2 := rfl
  have hmeddle : (meddle (enter .writing x).2).2.connection = { x.connection with phase := .writing } := by
    rw [run_enter, meddle, run_change]
    dsimp only
    split <;> rfl
  have hendings := x.connection.peer.endings_send bytes
  rw [hrun]
  unfold sendBytes
  rw [hmeddle]
  split
  all_goals
    rename_i hsend
    rw [hsend] at hendings
    exact ⟨rfl, hendings⟩

theorem frame_sendResponse (bytes : Bytes) (x : Exchange) :
    (sendResponse bytes x).2.connection = (send bytes x).2.connection := by
  unfold sendResponse
  rw [run_bind, run_attempt]
  cases h : (send bytes x).1 with
  | ok _ => rfl
  | error e => cases e <;> rfl

end Serving

namespace Session

variable (s : Session) (op : Operation)

theorem phase_perform : (s.perform op).2.phase = op.phaseAfter s := by
  cases op with
  | readLine =>
    obtain ⟨_, _, _, hframe⟩ := s.exchange.connection.readLine_frame
    simp only [perform, serve, phase, Serving.run_readLine, hframe, Operation.phaseAfter]
  | iterate size => rfl
  | next index =>
    cases hiteration : s.iterations[index]? with
    | none => simp [perform, hiteration, Operation.phaseAfter]
    | some iteration =>
      obtain ⟨_, _, _, hframe⟩ := s.exchange.connection.nextChunk_frame iteration.size iteration.stage
      simp [perform, hiteration, phase, withConnection, hframe, Operation.phaseAfter]
  | send bytes => exact (Serving.frame_send bytes s.exchange).1
  | sendResponse bytes =>
    exact (congrArg Connection.phase (Serving.frame_sendResponse bytes s.exchange)).trans
      (Serving.frame_send bytes s.exchange).1
  | close => exact s.exchange.connection.phase_close
  | leave => exact s.exchange.connection.phase_close

/-- Only closing tells the socket to close, and only where the phase does not show that it has been done. -/
theorem releases_perform :
    (s.perform op).2.releases = s.releases + (op.ends && s.phase != .closed).toNat := by
  have hclose : (s.withConnection s.exchange.connection.close).releases =
      s.releases + (s.phase != .closed).toNat := by
    by_cases h : s.phase = .closed
    · rw [Connection.close_of_closed h, h]
      rfl
    · rw [bne_iff_ne.mpr h]
      exact Connection.count_close h
  cases op with
  | readLine =>
    obtain ⟨_, _, _, hframe⟩ := s.exchange.connection.readLine_frame
    simp only [perform, serve, releases, Serving.run_readLine, hframe, Operation.ends]
    rfl
  | iterate size => rfl
  | next index =>
    cases hiteration : s.iterations[index]? with
    | none => simp [perform, hiteration, Operation.ends]
    | some iteration =>
      obtain ⟨_, _, _, hframe⟩ := s.exchange.connection.nextChunk_frame iteration.size iteration.stage
      simp [perform, hiteration, releases, withConnection, hframe, Operation.ends]
  | send bytes =>
    exact congrArg (fun endings => endings.toList.count .close) (Serving.frame_send bytes s.exchange).2
  | sendResponse bytes =>
    have hframe := congrArg (·.peer.endings) (Serving.frame_sendResponse bytes s.exchange)
    exact congrArg (fun endings => endings.toList.count .close)
      (hframe.trans (Serving.frame_send bytes s.exchange).2)
  | close => exact hclose
  | leave => exact hclose

end Session

/-! ## Runs -/

namespace Session

variable {s : Session} {ops : List Operation}

/-- The session after the first `k` operations. -/
def after (s : Session) (ops : List Operation) (k : Nat) : Session :=
  s.run (ops.take k)

/-- Whether one of the first `k` operations closes the connection. -/
def endedBy (ops : List Operation) (k : Nat) : Bool :=
  (ops.take k).any Operation.ends

theorem after_succ {k : Nat} (hk : k < ops.length) :
    s.after ops (k + 1) = ((s.after ops k).perform ops[k]).2 := by
  rw [after, ← List.take_append_getElem hk, run_concat]
  rfl

theorem endedBy_succ {k : Nat} (hk : k < ops.length) :
    endedBy ops (k + 1) = (endedBy ops k || ops[k].ends) := by
  rw [endedBy, ← List.take_append_getElem hk, List.any_append]
  simp [endedBy]

theorem after_of_length_le {k : Nat} (hk : ops.length ≤ k) : s.after ops (k + 1) = s.after ops k := by
  rw [after, after, List.take_of_length_le hk, List.take_of_length_le (Nat.le_succ_of_le hk)]

theorem endedBy_of_length_le {k : Nat} (hk : ops.length ≤ k) : endedBy ops (k + 1) = endedBy ops k := by
  rw [endedBy, endedBy, List.take_of_length_le hk, List.take_of_length_le (Nat.le_succ_of_le hk)]

/-- No close fails or leaves the connection open, from the first close on it is closed at every moment, and the
socket is told to close once, if there is a close at all. -/
structure ReleasedOnce (s : Session) (ops : List Operation) : Prop where
  closes : ∀ k (hk : k < ops.length), ops[k].ends = true →
    ((s.after ops k).perform ops[k]).1 = .ok () ∧ (s.after ops (k + 1)).phase = .closed
  terminal : ∀ k, endedBy ops k = true → (s.after ops k).phase = .closed
  once : ∀ k, (s.after ops k).releases = s.releases + (endedBy ops k).toNat

/-- What follows the first close leaves the phase alone. -/
def EndsQuietly (s : Session) (ops : List Operation) : Prop :=
  ∀ k (hk : k < ops.length), endedBy ops k = true → ops[k].isQuiet (s.after ops k) = true

instance : Decidable (EndsQuietly s ops) :=
  inferInstanceAs (Decidable (∀ k (hk : k < ops.length), endedBy ops k = true →
    ops[k].isQuiet (s.after ops k) = true))

theorem perform_of_ends {op : Operation} (h : op.ends = true) : (s.perform op).1 = .ok () := by
  cases op <;> first | rfl | cases h

theorem closed_of_ends {op : Operation} (h : op.ends = true) : op.phaseAfter s = .closed := by
  cases op <;> first | rfl | cases h

/-- Nothing but closing makes the phase say that the connection is closed. -/
theorem ends_of_closed {op : Operation} (hopen : s.phase ≠ .closed) (h : op.phaseAfter s = .closed) :
    op.ends = true := by
  cases op with
  | next index => cases hfresh : (s.iterations[index]?).any (·.stage == .fresh) <;> simp_all [Operation.phaseAfter]
  | _ => simp_all [Operation.phaseAfter, Operation.ends]

/-- As long as the operations behind the first close are quiet, the phase tells whether it has happened. -/
theorem EndsQuietly.closed_iff (h : s.EndsQuietly ops) (hopen : s.phase ≠ .closed) (k : Nat) :
    (s.after ops k).phase = .closed ↔ endedBy ops k = true := by
  induction k with
  | zero => simpa [after, endedBy, run] using hopen
  | succ k ih =>
    rcases Nat.lt_or_ge k ops.length with hk | hk
    · rw [after_succ hk, phase_perform, endedBy_succ hk, Bool.or_eq_true]
      by_cases hended : endedBy ops k = true
      · have hclosed := ih.mpr hended
        have hquiet := (Operation.isQuiet_iff hclosed ops[k]).mp (h k hk hended)
        exact ⟨fun _ => Or.inl hended, fun _ => hquiet⟩
      · have hlive := mt ih.mp hended
        exact ⟨fun hafter => Or.inr (ends_of_closed hlive hafter),
          fun hends => closed_of_ends (hends.resolve_left hended)⟩
    · rw [after_of_length_le hk, endedBy_of_length_le hk]
      exact ih

theorem EndsQuietly.releases (h : s.EndsQuietly ops) (hopen : s.phase ≠ .closed) (k : Nat) :
    (s.after ops k).releases = s.releases + (endedBy ops k).toNat := by
  induction k with
  | zero => rfl
  | succ k ih =>
    rcases Nat.lt_or_ge k ops.length with hk | hk
    · have hclosed := h.closed_iff hopen k
      rw [after_succ hk, releases_perform, ih, endedBy_succ hk]
      cases hended : endedBy ops k with
      | true => simp [hclosed.mpr hended]
      | false =>
        have hlive : (s.after ops k).phase ≠ .closed := by simpa [hended] using hclosed
        rw [bne_iff_ne.mpr hlive]
        simp
    · rw [after_of_length_le hk, endedBy_of_length_le hk]
      exact ih

/-- A connection that is open is released once, whatever its socket does, exactly if all that follows the first
close leaves the phase alone. -/
theorem releasedOnce_iff (hopen : s.phase ≠ .closed) : s.ReleasedOnce ops ↔ s.EndsQuietly ops := by
  refine ⟨fun h k hk hended => ?_, fun h => ⟨fun k hk hends => ⟨perform_of_ends hends, ?_⟩,
    fun k => ?_, ?_⟩⟩
  · have hlater : endedBy ops (k + 1) = true := by rw [endedBy_succ hk, hended, Bool.true_or]
    have hafter := h.terminal (k + 1) hlater
    rw [after_succ hk, phase_perform] at hafter
    exact (Operation.isQuiet_iff (h.terminal k hended) ops[k]).mpr hafter
  · rw [after_succ hk, phase_perform]
    exact closed_of_ends hends
  · exact (h.closed_iff hopen k).mpr
  · exact h.releases hopen

/-- A line and a letter arrive, and ending the connection fails at each step. -/
def unwilling : Session where
  exchange := { Exchange.ofLine {} "" with
    connection := { id := "0", clientIp := "", peer :=
      { inbound := [.data [97, 10, 98]]
        shutdownFault := some (.plain .notConnected)
        closeFault := some (.plain .inputOutput) } } }

/-- An iteration that has been begun may go on after the close, and the connection may be closed again. -/
theorem releasedOnce_unwilling :
    unwilling.phase ≠ .closed ∧
      unwilling.ReleasedOnce [.readLine, .iterate 4, .next 0, .close, .next 0, .leave, .close] := by
  have hopen : unwilling.phase ≠ .closed := by decide
  have hquiet : unwilling.EndsQuietly [.readLine, .iterate 4, .next 0, .close, .next 0, .leave, .close] := by
    decide +kernel
  exact ⟨hopen, (releasedOnce_iff hopen).mpr hquiet⟩

/-- An answer that is tried after the close fails, but then the connection no longer counts as closed. -/
theorem not_releasedOnce_late_answer :
    unwilling.phase = .new ∧
      (unwilling.after [.close, .sendResponse [97], .close] 1).phase = .closed ∧
      (unwilling.after [.close, .sendResponse [97], .close] 2).phase = .writing ∧
      (unwilling.after [.close, .sendResponse [97], .close] 3).releases = 2 ∧
      ¬ unwilling.ReleasedOnce [.close, .sendResponse [97], .close] := by
  have htwice : (unwilling.after [.close, .sendResponse [97], .close] 3).releases = 2 := by decide +kernel
  refine ⟨by decide, by decide +kernel, by decide +kernel, htwice, fun h => ?_⟩
  have honce : (unwilling.after [.close, .sendResponse [97], .close] 3).releases = 1 := h.once 3
  exact absurd (htwice.symm.trans honce) (by decide)

end Session

end FileExchange
