import FileExchange.Proofs.Serve.Records
import FileExchange.Server.Host
import Mathlib.Data.List.Forall2

/-!
# Handlers of connections

What becomes of one connection that is accepted: it is handed over to its handler, which may be at work at
once, later or never, and in each case it is closed in the end.
-/

set_option autoImplicit false

namespace FileExchange

/-! ## Arrivals -/

namespace Event

def arrival? : Event → Option Arrival
  | .connection a => some a
  | _ => none

/-- Whether the accept loop may come to its end with the event. -/
def mayEnd : Event → Bool
  | .connection _ => false
  | .idle => false
  | .fault .timedOut => false
  | .stall _ => false
  | _ => true

end Event

/-- The connections that come in, in their order. -/
def arrivals (events : List Event) : List Arrival :=
  events.filterMap Event.arrival?

theorem arrivals_cons (e : Event) (rest : List Event) :
    arrivals (e :: rest) = arrivals [e] ++ arrivals rest :=
  List.filterMap_append (l := [e])

/-- The socket takes the time that it is to wait. -/
def Peer.Takes (p : Peer) (timeout : Option Binary64) : Prop :=
  (p.setTimeout timeout).1 = .ok ()

instance (p : Peer) (timeout : Option Binary64) : Decidable (p.Takes timeout) :=
  inferInstanceAs (Decidable ((p.setTimeout timeout).1 = .ok ()))

/-- What came in, and the connection that it was accepted as. -/
structure Admitted where
  arrival : Arrival
  connection : Connection

namespace Admitted

def starts (p : Admitted) : Bool :=
  !p.arrival.cannotStart

/-- Whether the handler is at work until the server shuts down. -/
def waits (p : Admitted) : Bool :=
  p.starts && p.arrival.blocks

end Admitted

namespace Host

section TakingIn

variable {config : ServerConfig} {name : String} {names : Nat → String} {first : Nat} {a : Arrival} {p : Admitted}
  {before after : List Arrival} {ps qs : List Admitted}

def takeIn (config : ServerConfig) (name : String) (a : Arrival) : Except Failure Admitted := do
  return ⟨a, ← Listening.connect config name a⟩

/-- Arrivals as they are accepted one after the other, `first` others having been accepted before. -/
def takeInAll (config : ServerConfig) (names : Nat → String) : Nat → List Arrival → Except Failure (List Admitted)
  | _, [] => return []
  | first, a :: rest => do
    let p ← takeIn config (names first) a
    return p :: (← takeInAll config names (first + 1) rest)

/-- A socket that takes the timeout is accepted, and one that does not fails. -/
theorem connect_eq (config : ServerConfig) (name : String) (a : Arrival) :
    Listening.connect config name a = (a.peer.setTimeout config.timeout).1.map fun _ =>
      { id := name, clientIp := a.clientIp, peer := (a.peer.setTimeout config.timeout).2,
        bufferSize := config.bufferSize.toNat } := by
  unfold Listening.connect Connection.accept
  cases a.peer.setTimeout config.timeout with
  | mk result peer => cases result <;> rfl

theorem connect_of_takeIn (h : takeIn config name a = .ok p) :
    p.arrival = a ∧ Listening.connect config name a = .ok p.connection ∧ p.connection.phase ≠ .closed := by
  rw [takeIn, connect_eq] at h
  rw [connect_eq]
  cases hset : (a.peer.setTimeout config.timeout).1 with
  | error e =>
    rw [hset] at h
    cases h
  | ok =>
    rw [hset] at h
    cases h
    exact ⟨rfl, rfl, nofun⟩

theorem exists_takeIn (config : ServerConfig) (name : String) (h : a.peer.Takes config.timeout) :
    ∃ p, takeIn config name a = .ok p := by
  rw [takeIn, connect_eq, h]
  exact ⟨_, rfl⟩

theorem takes_of_takeIn (h : takeIn config name a = .ok p) : a.peer.Takes config.timeout := by
  rw [takeIn, connect_eq] at h
  cases hset : (a.peer.setTimeout config.timeout).1 with
  | error e =>
    rw [hset] at h
    cases h
  | ok => exact hset

/-- A socket that does not take the timeout ends the accept loop, whatever its owner does with connections. -/
theorem accept_of_refused {σ : Type} (handle : Listening.Handover σ) (x : Listening σ) {e : Failure}
    (h : (a.peer.setTimeout config.timeout).1 = .error e) :
    x.accept handle config a =
      (some (.failed e), { x with world := { x.world with accepted := x.world.accepted + 1 } }) := by
  rw [Listening.accept, connect_eq, h]
  rfl

theorem takeInAll_append (h : takeInAll config names first before = .ok ps)
    (h' : takeInAll config names (first + before.length) after = .ok qs) :
    takeInAll config names first (before ++ after) = .ok (ps ++ qs) := by
  induction before generalizing first ps with
  | nil =>
    cases h
    exact h'
  | cons a rest ih =>
    obtain ⟨p, hp, h⟩ := except_bind_eq_ok h
    obtain ⟨others, hothers, h⟩ := except_bind_eq_ok h
    cases h
    have hlength : first + (a :: rest).length = first + 1 + rest.length := by
      rw [List.length_cons]
      omega
    rw [hlength] at h'
    rw [List.cons_append, takeInAll, hp, List.cons_append]
    exact congrArg (fun taken => taken.map (p :: ·)) (ih hothers h')

end TakingIn

/-! ## One handler -/

/-- What has become of a connection: it is closed, after it was served if that could be started. -/
structure Settled (s : Site) (p : Admitted) (c : Connection) : Prop where
  closed : c.peer.closed = true
  served : if p.starts then ∃ w, c = (process s p.connection w).1 else c = p.connection.close

/-- A handler while the server runs: at its end unless it waits for its connection. -/
structure Underway (s : Site) (p : Admitted) (h : Handler) : Prop where
  live : p.connection.phase ≠ .closed
  waiting : h.waiting = p.waits
  connection : if p.waits then h.connection = p.connection else Settled s p h.connection

end Host

end FileExchange
