import FileExchange.Failure
import FileExchange.Number.Binary64
import FileExchange.Tree.Change

/-!
# The other end of a connection

A socket as its owner meets it: what will arrive and in which pieces, what can be sent before the
other end gives up, and what has been done with it so far.
-/

set_option autoImplicit false

namespace FileExchange

inductive Segment where
  | data (bytes : Bytes)
  | failure (fault : Fault)
  deriving Repr, DecidableEq

/-- How much is left of a segment; a failure counts as one. -/
def Segment.size : Segment → Nat
  | .data bytes => bytes.length
  | .failure _ => 1

inductive Ending where
  | shutdown
  | close
  deriving Repr, DecidableEq

/-- Changes that somebody makes to the tree when the `turn`-th send starts. -/
structure Meddling where
  turn : Nat
  edits : List Tree.Edit
  deriving Repr, DecidableEq

structure Peer where
  inbound : List Segment := []
  /-- The fault of a send, if it has one, given which send it is and how many bytes would have been
  sent with it in all. -/
  refusal : Nat → Nat → Option Fault := fun _ _ => none
  shutdownFault : Option Fault := none
  closeFault : Option Fault := none
  meddling : List Meddling := []
  sends : Array Bytes := #[]
  sent : Nat := 0
  attempts : Nat := 0
  timeouts : Array (Option Binary64) := #[]
  endings : Array Ending := #[]
  closed : Bool := false

namespace Peer

def wire (p : Peer) : Bytes :=
  p.sends.toList.flatten

def unread (p : Peer) : Nat :=
  p.inbound.foldr (·.size + ·) 0

def badDescriptor : Fault := .plain .badDescriptor

/-! ## Receiving -/

/-- At most `size` bytes of the first segment that has any; the end of the stream is empty. -/
def takeInbound (size : Nat) : List Segment → Except Fault Bytes × List Segment
  | [] => (.ok [], [])
  | .failure fault :: rest => (.error fault, rest)
  | .data [] :: rest => takeInbound size rest
  | .data (b :: bs) :: rest =>
    (.ok ((b :: bs).take size), .data ((b :: bs).drop size) :: rest)

def receive (p : Peer) (size : Nat) : Except Fault Bytes × Peer :=
  if p.closed then (.error badDescriptor, p)
  else
    let (result, inbound) := takeInbound size p.inbound
    (result, { p with inbound })

theorem takeInbound_unread (size : Nat) (segments : List Segment) :
    ((takeInbound size segments).2.foldr (·.size + ·) 0 ≤ segments.foldr (·.size + ·) 0) ∧
      ∀ bytes, (takeInbound size segments).1 = .ok bytes → bytes ≠ [] →
        (takeInbound size segments).2.foldr (·.size + ·) 0 < segments.foldr (·.size + ·) 0 := by
  fun_induction takeInbound size segments with
  | case1 => simp
  | case2 fault rest => simp [Segment.size]
  | case3 rest ih => simpa [Segment.size] using ih
  | case4 b bs rest =>
    cases size with
    | zero => simp
    | succ n => simp [Segment.size]; omega

/-- Every piece that arrives leaves less to come. -/
theorem receive_unread_lt {p p' : Peer} {size : Nat} {bytes : Bytes}
    (h : p.receive size = (.ok bytes, p')) (hne : bytes ≠ []) : p'.unread < p.unread := by
  unfold receive at h
  split at h
  · simp at h
  · simp only [Prod.mk.injEq] at h
    obtain ⟨h1, rfl⟩ := h
    exact (takeInbound_unread size p.inbound).2 bytes h1 hne

/-! ## Sending -/

def dueEdits (p : Peer) : List Tree.Edit :=
  (p.meddling.filter (·.turn == p.attempts + 1)).flatMap (·.edits)

/-- How many bytes others write in all: no file that they write becomes longer. -/
def meddledSize (p : Peer) : Nat :=
  (p.meddling.flatMap (·.edits)).foldr (·.size + ·) 0

/-- A send stores all its bytes or fails and stores none. -/
def send (p : Peer) (bytes : Bytes) : Except Fault Unit × Peer :=
  if p.closed then (.error badDescriptor, p)
  else
    let p := { p with attempts := p.attempts + 1 }
    match p.refusal p.attempts (p.sent + bytes.length) with
    | some fault => (.error fault, p)
    | none => (.ok (), { p with sends := p.sends.push bytes, sent := p.sent + bytes.length })

/-! ## Waiting -/

/-- Why a socket does not take a time to wait, which it keeps in nanoseconds, as a number with a sign
and 64 bits. -/
def timeoutFailure? : Option Binary64 → Option Failure
  | none => none
  | some .notANumber => some (.unfit "Invalid value NaN (not a number)")
  | some (.infinite _) => some (.unfit "timestamp out of range for platform time_t")
  | some (.finite negative m e) =>
    let (n, d) := Binary64.fraction m e
    let time := Binary64.nearest negative (n * Nat.pow 10 9) d
    let limit := if negative then Nat.pow 2 63 + 1 else Nat.pow 2 63
    if time.reaches limit then some (.unfit "timestamp out of range for platform time_t")
    else if negative && m != 0 then some (.unfit "Timeout value out of range")
    else none

def setTimeout (p : Peer) (timeout : Option Binary64) : Except Failure Unit × Peer :=
  match timeoutFailure? timeout with
  | some e => (.error e, p)
  | none =>
    if p.closed then (.error (.system badDescriptor), p)
    else (.ok (), { p with timeouts := p.timeouts.push timeout })

/-! ## Ending -/

def shutdown (p : Peer) : Except Fault Unit × Peer :=
  if p.closed then (.error badDescriptor, p)
  else
    let p := { p with endings := p.endings.push .shutdown }
    match p.shutdownFault with
    | some fault => (.error fault, p)
    | none => (.ok (), p)

/-- The socket counts as closed also where closing it fails. -/
def close (p : Peer) : Except Fault Unit × Peer :=
  let p := { p with endings := p.endings.push .close, closed := true }
  match p.closeFault with
  | some fault => (.error fault, p)
  | none => (.ok (), p)

def drain (p : Peer) (size : Nat) : Except Fault Unit × Peer :=
  match _h : p.receive size with
  | (.error fault, p') => (.error fault, p')
  | (.ok bytes, p') =>
    if _hne : bytes = [] then (.ok (), p')
    else drain p' size
termination_by p.unread
decreasing_by exact receive_unread_lt _h _hne

end Peer

end FileExchange
