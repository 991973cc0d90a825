import FileExchange.Proofs.Server.Handlers

/-!
# Letting the listening socket go

What is left of the listener after a run, however the run ends and whatever its owner does with a connection. The
accept loop only decides whether it goes on, and cleaning up behind it undoes all that opening the socket has done.
A failure behind binding, or one of binding that is no fault of the system, leaves the socket open, and a socket
that can be neither bound nor closed is not forgotten. A connection whose socket does not take the timeout is not
handed over.
-/

set_option autoImplicit false

namespace FileExchange

theorem Failure.exists_of_isSystem {e : Failure} (h : e.isSystem = true) : ∃ fault, e = .system fault := by
  cases e with
  | system fault => exact ⟨fault, rfl⟩
  | _ => cases h

/-- Nothing is left of a run: no socket, no handlers of signals, and nobody waits or is told to come. -/
structure Listener.AtRest (l : Listener) : Prop where
  forgotten : l.holdsSocket = false
  stopped : l.running = false
  unready : l.ready = false
  restored : l.ownSignals = false

namespace Listening

variable {σ : Type}

/-! ## What the accept loop does to the listener -/

theorem listener_stop (x : Listening σ) : x.stop.listener = { x.listener with running := false } := by
  unfold stop
  dsimp only
  split <;> rfl

theorem listener_receiveSignal (x : Listening σ) (signal : Signal) :
    ∃ running, (x.receiveSignal signal).listener = { x.listener with running } := by
  unfold receiveSignal
  split
  · exact ⟨false, listener_stop _⟩
  · exact ⟨x.listener.running, rfl⟩

theorem listener_acceptFault (x : Listening σ) (fault : Fault) : (x.acceptFault fault).listener = x.listener := by
  unfold acceptFault
  split <;> rfl

/-- An event can only keep the loop from going on. -/
theorem listener_meet (handle : Handover σ) (config : ServerConfig) (x : Listening σ) (e : Event) :
    ∃ running, (x.meet handle config e).2.listener = { x.listener with running } := by
  cases e with
  | connection a =>
    refine ⟨x.listener.running, ?_⟩
    rw [meet, accept]
    split <;> rfl
  | idle => exact ⟨x.listener.running, rfl⟩
  | fault f =>
    cases f with
    | timedOut => exact ⟨x.listener.running, rfl⟩
    | _ => exact ⟨x.listener.running, listener_acceptFault x _⟩
  | signal signal => exact listener_receiveSignal x signal
  | interrupt => exact ⟨x.listener.running, rfl⟩
  | stop => exact ⟨false, listener_stop x⟩
  | stopWithFault =>
    exact ⟨false, (listener_acceptFault x.stop (.plain .badDescriptor)).trans (listener_stop x)⟩
  | stall ms => exact ⟨x.listener.running, rfl⟩

theorem listener_acceptLoop (handle : Handover σ) (config : ServerConfig) (events : List Event) (x : Listening σ) :
    ∃ running polls, (acceptLoop handle config events x).2.1.listener = { x.listener with running, polls } := by
  induction events generalizing x with
  | nil =>
    rw [acceptLoop]
    dsimp only
    split
    · exact ⟨false, x.poll.listener.polls, listener_stop x.poll⟩
    · exact ⟨x.listener.running, x.listener.polls, rfl⟩
  | cons e rest ih =>
    rw [acceptLoop]
    split
    · obtain ⟨running, hmeet⟩ := listener_meet handle config x.poll e
      split
      · rename_i reason y hy
        rw [hy] at hmeet
        exact ⟨running, x.poll.listener.polls, hmeet⟩
      · rename_i y hy
        rw [hy] at hmeet
        obtain ⟨running', polls', hrest⟩ := ih y
        exact ⟨running', polls', by rw [hrest, hmeet]; rfl⟩
    · exact ⟨x.listener.running, x.listener.polls, rfl⟩

/-! ## From opening the socket to the end -/

theorem listener_bindFailed (config : ServerConfig) (fault : Fault) (x : Listening σ) :
    (bindFailed config fault x).2.listener = { x.listener with
      socket := { x.listener.socket with closed := true }
      holdsSocket := x.listener.socket.closeFault.isSome && x.listener.holdsSocket } := by
  simp only [bindFailed, closeSocket, log]
  cases hclose : x.listener.socket.closeFault with
  | none => simp [forgetSocket]
  | some fault' => simp

theorem listener_cleanUp {x : Listening σ} (h : x.listener.holdsSocket = true) :
    x.cleanUp.listener.AtRest ∧ x.cleanUp.listener.socket.closed = true := by
  simp only [cleanUp, h, if_true]
  exact ⟨⟨rfl, rfl, rfl, rfl⟩, rfl⟩

section Start

variable (handle : Handover σ) (config : ServerConfig) (events : List Event) {x : Listening σ} {fault : Fault}

/-- A socket that is neither bound nor closed stays with the listener. -/
theorem listener_start_of_bindFault (h : x.listener.socket.bindFailure = some (.system fault)) :
    (start handle config events x).2.1.listener = { x.listener with
      socket := { x.listener.socket with closed := true }
      holdsSocket := x.listener.socket.closeFault.isSome } := by
  simp only [start, openSocket, h]
  rw [listener_bindFailed]
  simp [h]

theorem closed_start_of_unfit {e : Failure} (h : x.listener.socket.bindFailure = some e)
    (hother : e.isSystem = false) :
    (start handle config events x).2.1.listener.socket.closed = x.listener.socket.closed := by
  cases e with
  | system => cases hother
  | _ => simp [start, openSocket, h]

variable (hbind : x.listener.socket.bindFailure = none)

include hbind

/-- A failure behind binding leaves the socket as it is then. -/
theorem closed_start_of_failure
    (h : ¬ (x.listener.socket.listenFailure = none ∧ x.listener.socket.nameFailure = none)) :
    (start handle config events x).2.1.listener.socket.closed = x.listener.socket.closed := by
  cases hlisten : x.listener.socket.listenFailure with
  | some e => simp [start, openSocket, hbind, hlisten]
  | none =>
    cases hname : x.listener.socket.nameFailure with
    | some e => simp [start, openSocket, hbind, hlisten, hname]
    | none => exact absurd ⟨hlisten, hname⟩ h

theorem exists_openSocket (hlisten : x.listener.socket.listenFailure = none)
    (hname : x.listener.socket.nameFailure = none) :
    ∃ y, openSocket config x = .ok y ∧ y.listener.holdsSocket = true := by
  simp [openSocket, hbind, hlisten, hname]

/-- Once the accept loop has begun, cleaning up is what comes last. -/
theorem atRest_start (hlisten : x.listener.socket.listenFailure = none)
    (hname : x.listener.socket.nameFailure = none) :
    (start handle config events x).2.1.listener.AtRest ∧
      (start handle config events x).2.1.listener.socket.closed = true := by
  obtain ⟨y, hopened, hholds⟩ := exists_openSocket config hbind hlisten hname
  obtain ⟨running, polls, hloop⟩ := listener_acceptLoop handle config events y.announce
  have hheld : (acceptLoop handle config events y.announce).2.1.listener.holdsSocket = true := by
    rw [hloop]
    exact hholds
  unfold start
  rw [hopened]
  exact listener_cleanUp hheld

end Start

/-! ## Calls of the handler -/

/-- The handler with a list, beside what the owner keeps, of all that it is called with. -/
def noting (handle : Handover σ) : Handover (σ × List Admitted) := fun a c w kept =>
  let (reason, w, owner) := handle a c w kept.1
  (reason, w, owner, kept.2 ++ [⟨a, c⟩])

/-- The state with such a list. -/
def withCalls (x : Listening σ) (calls : List Admitted) : Listening (σ × List Admitted) :=
  ⟨x.listener, x.world, x.owner, calls⟩

/-- The call that a connection calls for: it is handed over under some name, as the configuration has it. -/
def CallFor (config : ServerConfig) (a : Arrival) (call : Admitted) : Prop :=
  ∃ name, Host.takeIn config name a = .ok call

theorem takes_of_callFor {config : ServerConfig} {as : List Arrival} {calls : List Admitted}
    (h : List.Forall₂ (CallFor config) as calls) : ∀ a ∈ as, a.peer.Takes config.timeout := by
  induction h with
  | nil => exact fun a hmem => absurd hmem List.not_mem_nil
  | cons hcall _ ih => exact List.forall_mem_cons.mpr ⟨Host.takes_of_takeIn hcall.choose_spec, ih⟩

section Calls

variable (x : Listening σ) (calls : List Admitted)

theorem stop_withCalls : (x.withCalls calls).stop = x.stop.withCalls calls := by
  cases h : x.listener.running <;> simp [stop, withCalls, log, h]

theorem receiveSignal_withCalls (signal : Signal) :
    (x.withCalls calls).receiveSignal signal = (x.receiveSignal signal).withCalls calls := by
  cases h : x.listener.ownSignals with
  | true =>
    simp only [receiveSignal, withCalls, h, if_true]
    exact stop_withCalls (x.log .info _) calls
  | false => simp [receiveSignal, withCalls, h]

theorem acceptFault_withCalls (fault : Fault) :
    (x.withCalls calls).acceptFault fault = (x.acceptFault fault).withCalls calls := by
  cases h : x.listener.running <;> simp [acceptFault, withCalls, log, h]

theorem cleanUp_withCalls : (x.withCalls calls).cleanUp = x.cleanUp.withCalls calls := by
  cases h : x.listener.holdsSocket <;> simp [cleanUp, withCalls, closeSocket, forgetSocket, log, h]

theorem bindFailed_withCalls (config : ServerConfig) (fault : Fault) :
    bindFailed config fault (x.withCalls calls) =
      ((bindFailed config fault x).1, (bindFailed config fault x).2.withCalls calls) := by
  cases h : x.listener.socket.closeFault <;>
    simp [bindFailed, withCalls, closeSocket, forgetSocket, log, h]

theorem openSocket_withCalls (config : ServerConfig) :
    openSocket config (x.withCalls calls) =
      match openSocket config x with
      | .error (reason, y) => .error (reason, y.withCalls calls)
      | .ok y => .ok (y.withCalls calls) := by
  cases hbind : x.listener.socket.bindFailure with
  | some e =>
    have hbind' : (x.withCalls calls).listener.socket.bindFailure = some e := hbind
    cases e with
    | system fault =>
      have hfailed := bindFailed_withCalls { x with listener := { x.listener with holdsSocket := true } } calls
        config fault
      simp only [openSocket, hbind, hbind']
      exact congrArg Except.error hfailed
    | _ => simp [openSocket, withCalls, hbind]
  | none =>
    cases hlisten : x.listener.socket.listenFailure with
    | some e => simp [openSocket, withCalls, hbind, hlisten]
    | none =>
      cases hname : x.listener.socket.nameFailure <;> simp [openSocket, withCalls, hbind, hlisten, hname]

end Calls

/-- The arrivals whose sockets take the timeout. -/
def fit (config : ServerConfig) (as : List Arrival) : List Arrival :=
  as.filter fun a => a.peer.Takes config.timeout

theorem fit_append (config : ServerConfig) (as bs : List Arrival) :
    fit config (as ++ bs) = fit config as ++ fit config bs :=
  List.filter_append as bs

theorem accept_withCalls (handle : Handover σ) (config : ServerConfig) (x : Listening σ) (calls : List Admitted)
    (a : Arrival) :
    ∃ new, (x.withCalls calls).accept (noting handle) config a =
        ((x.accept handle config a).1, (x.accept handle config a).2.withCalls (calls ++ new)) ∧
      List.Forall₂ (CallFor config) (fit config [a]) new := by
  by_cases htakes : a.peer.Takes config.timeout
  · obtain ⟨p, hp⟩ := Host.exists_takeIn config (x.world.connectionNames x.world.accepted) htakes
    obtain ⟨rfl, hconnect, _⟩ := Host.connect_of_takeIn hp
    have hfit : fit config [p.arrival] = [p.arrival] := List.filter_cons_of_pos (decide_eq_true htakes)
    have hnoted : connect config ((x.withCalls calls).world.connectionNames (x.withCalls calls).world.accepted)
        p.arrival = .ok p.connection := hconnect
    refine ⟨[p], ?_, ?_⟩
    · rw [accept, accept, hconnect, hnoted]
      rfl
    · rw [hfit]
      exact .cons ⟨_, hp⟩ .nil
  · cases hset : (a.peer.setTimeout config.timeout).1 with
    | ok => exact absurd hset htakes
    | error e =>
      have hfit : fit config [a] = [] := List.filter_cons_of_neg (by simpa using htakes)
      rw [Host.accept_of_refused _ _ hset, Host.accept_of_refused _ _ hset, hfit]
      exact ⟨[], by rw [List.append_nil]; rfl, .nil⟩

/-- What an event calls for is called for once, and noting it changes nothing else. -/
theorem meet_withCalls (handle : Handover σ) (config : ServerConfig) (x : Listening σ) (calls : List Admitted)
    (e : Event) :
    ∃ new, (x.withCalls calls).meet (noting handle) config e =
        ((x.meet handle config e).1, (x.meet handle config e).2.withCalls (calls ++ new)) ∧
      List.Forall₂ (CallFor config) (fit config (arrivals [e])) new := by
  have hnone : ∀ {reason : Option Stopped} {y : Listening σ} {y' : Listening (σ × List Admitted)},
      y' = y.withCalls calls → (reason, y') = (reason, y.withCalls (calls ++ [])) := by
    rintro reason y y' rfl
    rw [List.append_nil]
  cases e with
  | connection a => exact accept_withCalls handle config x calls a
  | idle => exact ⟨[], hnone rfl, .nil⟩
  | fault f =>
    cases f with
    | timedOut => exact ⟨[], hnone rfl, .nil⟩
    | _ => exact ⟨[], hnone (acceptFault_withCalls x calls _), .nil⟩
  | signal signal => exact ⟨[], hnone (receiveSignal_withCalls x calls signal), .nil⟩
  | interrupt => exact ⟨[], hnone rfl, .nil⟩
  | stop => exact ⟨[], hnone (stop_withCalls x calls), .nil⟩
  | stopWithFault =>
    refine ⟨[], hnone ?_, .nil⟩
    rw [stop_withCalls]
    exact acceptFault_withCalls x.stop calls _
  | stall ms => exact ⟨[], hnone rfl, .nil⟩

/-- Some of the events are met, and the handler is called once for each connection among them whose socket takes the
timeout, in their order. -/
theorem acceptLoop_withCalls (handle : Handover σ) (config : ServerConfig) (events : List Event) (x : Listening σ)
    (calls : List Admitted) :
    ∃ met new, events = met ++ (acceptLoop handle config events x).2.2 ∧
      acceptLoop (noting handle) config events (x.withCalls calls) =
        ((acceptLoop handle config events x).1, (acceptLoop handle config events x).2.1.withCalls (calls ++ new),
          (acceptLoop handle config events x).2.2) ∧
      List.Forall₂ (CallFor config) (fit config (arrivals met)) new := by
  induction events generalizing x calls with
  | nil =>
    refine ⟨[], [], rfl, ?_, .nil⟩
    rw [List.append_nil]
    by_cases hrunning : x.listener.running = true
    · have hnoted : (x.withCalls calls).listener.running = true := hrunning
      rw [acceptLoop, acceptLoop, if_pos hrunning, if_pos hnoted]
      exact congrArg (fun y => (Stopped.ended, y, [])) (stop_withCalls x.poll calls)
    · have hnoted : ¬ (x.withCalls calls).listener.running = true := hrunning
      rw [acceptLoop, acceptLoop, if_neg hrunning, if_neg hnoted]
  | cons e rest ih =>
    by_cases hrunning : x.listener.running = true
    · obtain ⟨new, hmeet, hcalled⟩ := meet_withCalls handle config x.poll calls e
      have hnoted : (x.withCalls calls).listener.running = true := hrunning
      rw [acceptLoop, acceptLoop, if_pos hrunning, if_pos hnoted]
      have hpoll : (x.withCalls calls).poll = x.poll.withCalls calls := rfl
      rw [hpoll, hmeet]
      cases hfirst : x.poll.meet handle config e with
      | mk reason y =>
        cases reason with
        | some reason => exact ⟨[e], new, rfl, rfl, hcalled⟩
        | none =>
          obtain ⟨met, more, hmet, hrest, hcalls⟩ := ih y (calls ++ new)
          refine ⟨e :: met, new ++ more, congrArg (e :: ·) hmet, ?_, ?_⟩
          · dsimp only
            rw [hrest, List.append_assoc]
          · rw [arrivals_cons, fit_append]
            exact List.rel_append hcalled hcalls
    · have hnoted : ¬ (x.withCalls calls).listener.running = true := hrunning
      refine ⟨[], [], ?_, ?_, .nil⟩
      · rw [acceptLoop, if_neg hrunning]
        rfl
      · rw [acceptLoop, acceptLoop, if_neg hrunning, if_neg hnoted, List.append_nil]

theorem start_withCalls (handle : Handover σ) (config : ServerConfig) (events : List Event) (x : Listening σ) :
    ∃ met calls, events = met ++ (start handle config events x).2.2 ∧
      start (noting handle) config events (x.withCalls []) =
        ((start handle config events x).1, (start handle config events x).2.1.withCalls calls,
          (start handle config events x).2.2) ∧
      List.Forall₂ (CallFor config) (fit config (arrivals met)) calls := by
  have hopen := openSocket_withCalls x [] config
  unfold start
  rw [hopen]
  cases openSocket config x with
  | error failed => exact ⟨[], [], rfl, rfl, .nil⟩
  | ok y =>
    obtain ⟨met, calls, hmet, hloop, hcalls⟩ := acceptLoop_withCalls handle config events y.announce []
    have hannounce : (y.withCalls []).announce = y.announce.withCalls [] := rfl
    refine ⟨met, calls, hmet, ?_, hcalls⟩
    dsimp only
    rw [hannounce, hloop, cleanUp_withCalls, List.nil_append]

/-! ## A whole run -/

section Run

variable (handle : Handover σ) (config : ServerConfig) (events : List Event) (x : Listening σ)

/-- The events that are met: all but those that are left over. -/
def met : List Event :=
  events.take (events.length - (start handle config events x).2.2.length)

/-- For each connection among the events that are met the handler is called once, in their order. The list of its
calls is kept beside a run that is otherwise the same. -/
def HandsOver : Prop :=
  ∃ calls, events = met handle config events x ++ (start handle config events x).2.2 ∧
    start (noting handle) config events (x.withCalls []) =
      ((start handle config events x).1, (start handle config events x).2.1.withCalls calls,
        (start handle config events x).2.2) ∧
    List.Forall₂ (CallFor config) (arrivals (met handle config events x)) calls

theorem met_of_append {before : List Event} (h : events = before ++ (start handle config events x).2.2) :
    met handle config events x = before := by
  have hlength : events.length - (start handle config events x).2.2.length = before.length := by
    have hsum := congrArg List.length h
    rw [List.length_append] at hsum
    omega
  rw [met, hlength]
  exact (congrArg (List.take before.length) h).trans List.take_left

/-- Every connection is handed over exactly if the socket of each takes the timeout. -/
theorem handsOver_iff :
    HandsOver handle config events x ↔
      ∀ a ∈ arrivals (met handle config events x), a.peer.Takes config.timeout := by
  refine ⟨fun ⟨calls, _, _, hcalls⟩ => takes_of_callFor hcalls, fun htakes => ?_⟩
  · obtain ⟨before, calls, hmet, hstart, hcalls⟩ := start_withCalls handle config events x
    rw [met_of_append handle config events x hmet] at htakes
    have hfit : fit config (arrivals before) = arrivals before :=
      List.filter_eq_self.mpr fun a hmem => decide_eq_true (htakes a hmem)
    refine ⟨calls, ?_, hstart, ?_⟩
    · rw [met_of_append handle config events x hmet]
      exact hmet
    · rw [met_of_append handle config events x hmet, ← hfit]
      exact hcalls

end Run

/-- What a run leaves behind: the socket is closed, and the listener is at rest as before. Each connection that was
accepted has been handed over once, in its turn. -/
structure LetsGo (handle : Handover σ) (config : ServerConfig) (events : List Event) (x : Listening σ) : Prop where
  closed : (start handle config events x).2.1.listener.socket.closed = true
  atRest : (start handle config events x).2.1.listener.AtRest
  handsOver : HandsOver handle config events x

end Listening

namespace ListeningSocket

/-- All failures there are on the way to the accept loop are met: of binding if it is the system's and the socket can
be closed then, and none behind binding. -/
def IsGuarded (s : ListeningSocket) : Prop :=
  if s.bindFailure.isSome then s.bindFailure.any Failure.isSystem = true ∧ s.closeFault = none
  else s.listenFailure = none ∧ s.nameFailure = none

instance (s : ListeningSocket) : Decidable s.IsGuarded :=
  inferInstanceAs (Decidable (if s.bindFailure.isSome
    then s.bindFailure.any Failure.isSystem = true ∧ s.closeFault = none
    else s.listenFailure = none ∧ s.nameFailure = none))

end ListeningSocket

namespace Listening

/-- Whatever happens in the accept loop, the socket is let go. It is not exactly if a failure before the loop is not
met, and a connection is lost exactly if its socket does not take the timeout. -/
theorem letsGo_iff {σ : Type} (handle : Handover σ) (config : ServerConfig) (events : List Event) {x : Listening σ}
    (hrest : x.listener.AtRest) (hopen : x.listener.socket.closed = false) :
    LetsGo handle config events x ↔ x.listener.socket.IsGuarded ∧
      ∀ a ∈ arrivals (met handle config events x), a.peer.Takes config.timeout := by
  rw [← handsOver_iff]
  unfold ListeningSocket.IsGuarded
  cases hbind : x.listener.socket.bindFailure with
  | some e =>
    rw [Option.isSome_some, if_pos rfl, Option.any_some]
    cases hsystem : e.isSystem with
    | false =>
      refine ⟨fun h => ?_, fun ⟨⟨hfalse, _⟩, _⟩ => absurd hfalse Bool.false_ne_true⟩
      have hclosed := h.closed
      rw [closed_start_of_unfit handle config events hbind hsystem, hopen] at hclosed
      cases hclosed
    | true =>
      obtain ⟨fault, rfl⟩ := Failure.exists_of_isSystem hsystem
      have hend := listener_start_of_bindFault handle config events hbind
      refine ⟨fun h => ⟨⟨rfl, ?_⟩, h.handsOver⟩,
        fun ⟨⟨_, hclose⟩, hover⟩ => ⟨by rw [hend], ?_, hover⟩⟩
      · have hforgotten := h.atRest.forgotten
        rw [hend] at hforgotten
        exact Option.isNone_iff_eq_none.mp (Option.isSome_eq_false_iff.mp hforgotten)
      · rw [hend, hclose]
        exact ⟨rfl, hrest.stopped, hrest.unready, hrest.restored⟩
  | none =>
    rw [Option.isSome_none, if_neg Bool.false_ne_true]
    refine ⟨fun h => ⟨?_, h.handsOver⟩, fun ⟨⟨hlisten, hname⟩, hover⟩ => ?_⟩
    · by_contra hfailure
      have hclosed := h.closed
      rw [closed_start_of_failure handle config events hbind hfailure, hopen] at hclosed
      cases hclosed
    · obtain ⟨hatRest, hclosed⟩ := atRest_start handle config events hbind hlisten hname
      exact ⟨hclosed, hatRest, hover⟩

/-- A listener whose owner counts connections. -/
def counting (socket : ListeningSocket) : Listening Nat where
  listener := { socket }
  world := {
    tree := { nodes := [] }
    clock := { now := ⟨0⟩, stamp := "" }
    tokens := toString
    connectionNames := toString }
  owner := 0

/-- A handler that fails on a connection that blocks. -/
def impatient : Handover Nat := fun a _ w count =>
  (if a.blocks then some (.failed .embeddedNul) else none, w, count + 1)

def visits : List Event :=
  [.connection { clientIp := "1", peer := {} }, .idle, .fault .timedOut,
    .connection { clientIp := "2", peer := {}, blocks := true }, .connection { clientIp := "3", peer := {} }]

/-- The socket reports a fault when it is closed. -/
def reluctant : Listening Nat :=
  counting { closeFault := some (.plain .inputOutput) }

/-- The handler fails on the second connection, and then closing the socket fails. -/
theorem letsGo_impatient :
    reluctant.listener.AtRest ∧ reluctant.listener.socket.closed = false ∧ LetsGo impatient {} visits reluctant ∧
      (start impatient {} visits reluctant).1 = .failed .embeddedNul ∧
      (start impatient {} visits reluctant).2.1.owner = 2 ∧
      (start impatient {} visits reluctant).2.2.length = 1 := by
  have hrest : reluctant.listener.AtRest := ⟨rfl, rfl, rfl, rfl⟩
  have hguarded : reluctant.listener.socket.IsGuarded := by decide
  have htakes : ∀ a ∈ arrivals (met impatient {} visits reluctant), a.peer.Takes none := by decide
  exact ⟨hrest, rfl, (letsGo_iff impatient {} visits hrest rfl).mpr ⟨hguarded, htakes⟩, rfl, rfl, rfl⟩

/-- The address is taken, and the socket reports a fault when it is closed. -/
def unbound : Listening Nat :=
  counting { bindFailure := some (.system (.plain .addressInUse)), closeFault := some (.plain .inputOutput) }

def deaf : Listening Nat :=
  counting { listenFailure := some (.system (.plain .addressInUse)) }

def nameless : Listening Nat :=
  counting { nameFailure := some (.system (.plain .badDescriptor)) }

/-- The port does not fit the call, which the system never sees. -/
def misdirected : Listening Nat :=
  counting { bindFailure := some (.unfit "bind(): port must be 0-65535.") }

/-- A socket that is neither bound nor closed without a fault is not forgotten. One that is given a port it does not
take, cannot listen, or whose address is not to be had, stays open, in the last case with the server running and the
signals its own. A connection whose socket does not take the timeout is not handed over. -/
theorem not_letsGo_unguarded :
    ¬ LetsGo impatient {} [] unbound ∧ (start impatient {} [] unbound).2.1.listener.holdsSocket = true ∧
      (start impatient {} [] unbound).1 = .failed (.system (.plain .inputOutput)) ∧
      ¬ LetsGo impatient {} [] misdirected ∧
      (start impatient {} [] misdirected).2.1.listener.socket.closed = false ∧
      ¬ LetsGo impatient {} [] deaf ∧ (start impatient {} [] deaf).2.1.listener.socket.closed = false ∧
      ¬ LetsGo impatient {} [] nameless ∧ (start impatient {} [] nameless).2.1.listener.socket.closed = false ∧
      (start impatient {} [] nameless).2.1.listener.running = true ∧
      (start impatient {} [] nameless).2.1.listener.ownSignals = true ∧
      ¬ LetsGo impatient { timeout := some (.infinite false) } visits reluctant ∧
      (start impatient { timeout := some (.infinite false) } visits reluctant).2.1.owner = 0 := by
  have hunbound : (start impatient {} [] unbound).2.1.listener.holdsSocket = true := rfl
  have hmisdirected : (start impatient {} [] misdirected).2.1.listener.socket.closed = false := rfl
  have hdeaf : (start impatient {} [] deaf).2.1.listener.socket.closed = false := rfl
  have hnameless : (start impatient {} [] nameless).2.1.listener.socket.closed = false := rfl
  refine ⟨fun h => ?_, hunbound, rfl, fun h => ?_, hmisdirected, fun h => ?_, hdeaf, fun h => ?_, hnameless, rfl, rfl,
    fun h => ?_, rfl⟩
  · exact Bool.false_ne_true (h.atRest.forgotten.symm.trans hunbound)
  · exact Bool.false_ne_true (hmisdirected.symm.trans h.closed)
  · exact Bool.false_ne_true (hdeaf.symm.trans h.closed)
  · exact Bool.false_ne_true (hnameless.symm.trans h.closed)
  · have htakes := (handsOver_iff ..).mp h.handsOver
    exact absurd htakes (by decide)

end Listening

end FileExchange
