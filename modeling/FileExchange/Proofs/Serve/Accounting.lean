import FileExchange.Proofs.Serve.Pages
import FileExchange.Proofs.Serve.Records
import FileExchange.Proofs.Serve.Sending

/-!
# Accounting

The counters of a connection agree with its socket after every move: what is counted as received has been taken
off the bytes that wait there, and what is counted as sent is on the wire. The one access record of a dispatch
shows both counters, the request that was understood, and the status that is returned.
-/

set_option autoImplicit false

namespace FileExchange

/-! ## Bytes taken from a socket -/

def Segment.bytes : Segment → Bytes
  | .data bytes => bytes
  | .failure _ => []

/-- All bytes that have arrived and have not been taken, whatever failures lie between them. -/
def Peer.waiting (p : Peer) : Bytes :=
  p.inbound.flatMap Segment.bytes

theorem Peer.takeInbound_waiting (size : Nat) (segments : List Segment) :
    match takeInbound size segments with
    | (.ok bytes, rest) => segments.flatMap Segment.bytes = bytes ++ rest.flatMap Segment.bytes
    | (.error _, rest) => segments.flatMap Segment.bytes = rest.flatMap Segment.bytes := by
  fun_induction takeInbound size segments with
  | case1 => rfl
  | case2 fault rest => rfl
  | case3 rest ih => exact ih
  | case4 b bs rest =>
    simp only [List.flatMap_cons, Segment.bytes]
    rw [← List.append_assoc, List.take_append_drop]

namespace Connection

/-- These bytes have been taken from the socket, and they have been counted. -/
structure Took (c c' : Connection) (bytes : Bytes) : Prop where
  waiting : c.peer.waiting = bytes ++ c'.peer.waiting
  count : c'.bytesReceived = c.bytesReceived + bytes.length

theorem Took.nothing {c c' : Connection} (hwaiting : c'.peer.waiting = c.peer.waiting)
    (hcount : c'.bytesReceived = c.bytesReceived) : Took c c' [] :=
  ⟨hwaiting.symm, hcount⟩

theorem Took.trans {c c' c'' : Connection} {first second : Bytes} (h : Took c c' first)
    (h' : Took c' c'' second) : Took c c'' (first ++ second) := by
  refine ⟨?_, ?_⟩
  · rw [h.waiting, h'.waiting, List.append_assoc]
  · rw [h'.count, h.count, List.length_append, Nat.add_assoc]

theorem took_of_receive (c : Connection) (size : Nat) :
    match c.receive size with
    | (.ok bytes, c') => Took c c' bytes
    | (.error _, c') => Took c c' [] := by
  have hstep := Peer.takeInbound_waiting size c.peer.inbound
  by_cases hclosed : c.peer.closed = true
  · simp only [receive, Peer.receive_of_closed hclosed]
    exact .nothing rfl rfl
  · rw [receive, Peer.receive_of_open (Bool.eq_false_iff.mpr hclosed)]
    cases htake : Peer.takeInbound size c.peer.inbound with
    | mk result rest =>
      rw [htake] at hstep
      cases result with
      | ok bytes => exact ⟨hstep, rfl⟩
      | error fault => exact .nothing hstep.symm rfl

theorem took_of_receive_ok {c c' : Connection} {size : Nat} {bytes : Bytes}
    (h : c.receive size = (.ok bytes, c')) : Took c c' bytes := by
  have htook := c.took_of_receive size
  rwa [h] at htook

theorem took_of_receive_error {c c' : Connection} {size : Nat} {fault : Fault}
    (h : c.receive size = (.error fault, c')) : Took c c' [] := by
  have htook := c.took_of_receive size
  rwa [h] at htook

theorem exists_took_fillLine (c : Connection) (held : Bytes) (size : Nat) :
    ∃ bytes, Took c (c.fillLine held size).2 bytes := by
  fun_induction fillLine c held size with
  | case1 c held size hlong => exact ⟨[], .nothing rfl rfl⟩
  | case2 c held size hlong fault c' hreceive =>
    have htook := took_of_receive_error hreceive
    exact ⟨[], htook.waiting, htook.count⟩
  | case3 c held size hlong c' hreceive =>
    have htook := took_of_receive_ok hreceive
    exact ⟨[], htook.waiting, htook.count⟩
  | case4 c held size hlong chunk c' hreceive hne line rest hsplit =>
    have htook := took_of_receive_ok hreceive
    exact ⟨chunk, htook.waiting, htook.count⟩
  | case5 c held size hlong chunk c' hreceive hne hsplit ih =>
    obtain ⟨more, hmore⟩ := ih
    exact ⟨chunk ++ more, (took_of_receive_ok hreceive).trans hmore⟩

theorem exists_took_readLine (c : Connection) : ∃ bytes, Took c c.readLine.2 bytes := by
  unfold readLine
  dsimp only
  split
  · exact ⟨[], .nothing rfl rfl⟩
  · obtain ⟨bytes, htook⟩ := exists_took_fillLine { c with phase := .reading } c.buffer.reverse c.buffer.length
    exact ⟨bytes, htook.waiting, htook.count⟩

theorem exists_took_takeLive (c : Connection) (size : Nat) (before : List Bytes) :
    ∃ bytes, Took c (c.takeLive size before).2 bytes := by
  fun_induction takeLive c size before with
  | case1 c before fault c' hreceive => exact ⟨[], took_of_receive_error hreceive⟩
  | case2 c before c' hreceive => exact ⟨[], took_of_receive_ok hreceive⟩
  | case3 c before chunk c' hreceive hne ih =>
    obtain ⟨more, hmore⟩ := ih
    exact ⟨chunk ++ more, (took_of_receive_ok hreceive).trans hmore⟩

theorem exists_took_takeBody (c : Connection) (size : Nat) : ∃ bytes, Took c (c.takeBody size).2 bytes := by
  obtain ⟨bytes, htook⟩ := exists_took_takeLive { c with phase := .receiving, buffer := [] } size
    (piecesOnto size [] c.buffer)
  exact ⟨bytes, htook.waiting, htook.count⟩

end Connection

/-! ## Counters -/

namespace Exchange

open Serving

/-- These bytes have been put on the wire and those taken from the socket, and the counters have grown by their
numbers. -/
structure Counts (x y : Exchange) (sent taken : Bytes) : Prop where
  wire : y.wire = x.wire ++ sent
  count : y.connection.bytesSent = x.connection.bytesSent + sent.length
  took : x.connection.Took y.connection taken

theorem Counts.nothing {x y : Exchange} (hsends : y.connection.peer.sends = x.connection.peer.sends)
    (hsent : y.connection.bytesSent = x.connection.bytesSent) {taken : Bytes}
    (htook : x.connection.Took y.connection taken) : Counts x y [] taken := by
  refine ⟨?_, hsent, htook⟩
  rw [Exchange.wire, Exchange.wire, Peer.wire, Peer.wire, hsends, List.append_nil]

/-- Whatever leaves the socket and the counters alone sends and takes nothing. -/
theorem Counts.untouched {x y : Exchange} (hpeer : y.connection.peer.inbound = x.connection.peer.inbound)
    (hsends : y.connection.peer.sends = x.connection.peer.sends)
    (hsent : y.connection.bytesSent = x.connection.bytesSent)
    (hreceived : y.connection.bytesReceived = x.connection.bytesReceived) : Counts x y [] [] :=
  .nothing hsends hsent (.nothing (by rw [Peer.waiting, hpeer, Peer.waiting]) hreceived)

theorem Counts.trans {x y z : Exchange} {sent sent' taken taken' : Bytes} (h : Counts x y sent taken)
    (h' : Counts y z sent' taken') : Counts x z (sent ++ sent') (taken ++ taken') := by
  refine ⟨?_, ?_, h.took.trans h'.took⟩
  · rw [h'.wire, h.wire, List.append_assoc]
  · rw [h'.count, h.count, List.length_append, Nat.add_assoc]

theorem exists_counts_of_send (x : Exchange) (bytes : Bytes) :
    ∃ sent, Counts x (sendBytes bytes x).2 sent [] := by
  unfold sendBytes Peer.send
  split
  · rename_i peer hsend
    split at hsend
    · cases hsend
    · dsimp only at hsend
      split at hsend
      · cases hsend
      · cases hsend
        refine ⟨bytes, ?_, rfl, .nothing rfl rfl⟩
        simp [Exchange.wire, Peer.wire]
  · rename_i fault peer hsend
    split at hsend
    · cases hsend
      exact ⟨[], by apply Counts.untouched <;> rfl⟩
    · dsimp only at hsend
      split at hsend
      · cases hsend
        exact ⟨[], by apply Counts.untouched <;> rfl⟩
      · cases hsend

theorem exists_counts_of_move {x y : Exchange} (h : Move x y) : ∃ sent taken, Counts x y sent taken := by
  cases h with
  | report level speaker message hspeaker => exact ⟨[], [], by apply Counts.untouched <;> rfl⟩
  | enter phase hphase => exact ⟨[], [], by apply Counts.untouched <;> rfl⟩
  | line =>
    obtain ⟨taken, htook⟩ := x.connection.exists_took_readLine
    obtain ⟨_, _, _, hframe⟩ := x.connection.readLine_frame
    exact ⟨[], taken, .nothing (by rw [hframe]) (by rw [hframe]) htook⟩
  | body size =>
    obtain ⟨taken, htook⟩ := x.connection.exists_took_takeBody size
    obtain ⟨_, _, hframe⟩ := x.connection.takeBody_frame size
    exact ⟨[], taken, .nothing (by rw [hframe]) (by rw [hframe]) htook⟩
  | change tree drawn => exact ⟨[], [], by apply Counts.untouched <;> rfl⟩
  | send bytes =>
    obtain ⟨sent, hcounts⟩ := exists_counts_of_send x bytes
    exact ⟨sent, [], hcounts⟩

theorem exists_counts_of_moves {x y : Exchange} (h : Moves x y) : ∃ sent taken, Counts x y sent taken := by
  induction h with
  | refl => exact ⟨[], [], by apply Counts.untouched <;> rfl⟩
  | tail _ hmove ih =>
    obtain ⟨sent, taken, hcounts⟩ := ih
    obtain ⟨sent', taken', hcounts'⟩ := exists_counts_of_move hmove
    exact ⟨sent ++ sent', taken ++ taken', hcounts.trans hcounts'⟩

end Exchange

/-! ## The access record of a dispatch -/

namespace Site

open Serving

/-- What the access record of a dispatch says; a dispatch that fails tells nothing about its request. -/
def entry (s : Site) (x : Exchange) : AccessRecord :=
  match (s.answer x).1 with
  | .ok (request, outcome) => accessRecord (s.answer x).2 request outcome
  | .error _ => accessRecord (s.answer x).2 none none

/-- Dispatching is answering, and then putting the record of it into the journal. -/
theorem run_dispatch (s : Site) (x : Exchange) :
    s.dispatch x = ((s.answer x).1.map fun answered => outcomeCode answered.2,
      { (s.answer x).2 with toWorld := { (s.answer x).2.toWorld with
        journal := (s.answer x).2.journal.add ((s.entry x).record s.logFormat .info) } }) := by
  unfold entry
  cases hanswer : s.answer x with
  | mk result z =>
    have hattempt : attempt s.answer x = (.ok result, z) := by rw [run_attempt, hanswer]
    rw [dispatch, run_bind_ok hattempt]
    cases result with
    | ok answered => rfl
    | error e => rfl

/-- The request that is recorded is the one that the line at the front of the stream makes. -/
theorem request_of_answer {s : Site} {x z : Exchange} {request : Option Request} {outcome : Outcome}
    (h : s.answer x = (.ok (request, outcome), z)) : request = x.request? := by
  cases hrequest : x.request? with
  | some r =>
    rw [run_answer_of_request hrequest] at h
    obtain ⟨_, _, _, hpure⟩ := run_bind_eq_ok h
    cases hpure
    rfl
  | none =>
    by_cases hfault : ∃ fault, x.connection.readLine.1 = .error (.system fault)
    · obtain ⟨fault, hfault⟩ := hfault
      obtain ⟨_, _, _, hanswer⟩ := answer_of_fault (s := s) hfault
      cases hanswer.symm.trans h
      rfl
    · obtain ⟨_, _, _, hanswer⟩ := answer_of_no_request (s := s) hrequest fun fault hread =>
        hfault ⟨fault, hread⟩
      obtain ⟨_, _, _, hpure⟩ := run_bind_eq_ok (hanswer.symm.trans h)
      cases hpure
      rfl

theorem entry_of_answer_ok {s : Site} {x z : Exchange} {request : Option Request} {outcome : Outcome}
    (h : s.answer x = (.ok (request, outcome), z)) : s.entry x = accessRecord z request outcome := by
  rw [entry, h]

theorem entry_of_answer_error {s : Site} {x z : Exchange} {e : Failure} (h : s.answer x = (.error e, z)) :
    s.entry x = accessRecord z none none := by
  rw [entry, h]

/-- The counters in the record are those of the connection, whether answering succeeds or fails. -/
theorem entry_counters (s : Site) (x : Exchange) :
    (s.entry x).bytesSent = (s.answer x).2.connection.bytesSent ∧
      (s.entry x).bytesReceived = (s.answer x).2.connection.bytesReceived := by
  unfold entry
  split <;> exact ⟨rfl, rfl⟩

/-- The record as it should be: the only one that the dispatch adds to the access log, with the bytes that were
sent and those that were taken meanwhile, and, where the dispatch returns, with its request and its status. -/
structure Accounts (s : Site) (x : Exchange) : Prop where
  sole : (s.dispatch x).2.journal.access =
    x.journal.access ++ x.journal.kept [(s.entry x).record s.logFormat .info]
  sent : ∃ sent, (s.dispatch x).2.wire = x.wire ++ sent ∧
    (s.entry x).bytesSent = (x.connection.bytesSent + sent.length : Nat)
  received : ∃ taken, x.connection.peer.waiting = taken ++ (s.dispatch x).2.connection.peer.waiting ∧
    (s.entry x).bytesReceived = (x.connection.bytesReceived + taken.length : Nat)
  returned : ∀ code, (s.dispatch x).1 = .ok code → (s.entry x).statusCode = code ∧
    (s.entry x).method = (x.request?.map (·.method.name)).getD "-" ∧
    (s.entry x).target = (x.request?.map (·.target)).getD "-"
  failed : ∀ e, (s.dispatch x).1 = .error e →
    (s.entry x).statusCode = 0 ∧ (s.entry x).method = "-" ∧ (s.entry x).target = "-"

theorem access_dispatch (s : Site) (x : Exchange) : (s.dispatch x).2.journal.access =
    x.journal.access ++ x.journal.kept [(s.entry x).record s.logFormat .info] := by
  have hnotes := (Exchange.goes_of_moves (walks_answer s x)).notes
  have hsilent : (s.answer x).2.journal.access = x.journal.access := by
    have haccess := hnotes.access
    rwa [Journal.kept, List.filter_nil, List.append_nil] at haccess
  rw [run_dispatch]
  dsimp only
  rw [Journal.access_add_of_eq _ rfl, hsilent, Journal.kept, Journal.kept, hnotes.threshold]

/-- Every dispatch is accounted for, however its reads and sends go. -/
theorem accounts_of_dispatch (s : Site) (x : Exchange) : s.Accounts x := by
  obtain ⟨sent, taken, hcounts⟩ := Exchange.exists_counts_of_moves (walks_answer s x)
  obtain ⟨hsent, hreceived⟩ := entry_counters s x
  have hconnection : (s.dispatch x).2.connection = (s.answer x).2.connection := by rw [run_dispatch]
  refine ⟨access_dispatch s x, ⟨sent, ?_, ?_⟩, ⟨taken, ?_, ?_⟩, fun code hcode => ?_, fun e he => ?_⟩
  · rw [Exchange.wire, hconnection]
    exact hcounts.wire
  · rw [hsent, hcounts.count]
  · rw [hconnection]
    exact hcounts.took.waiting
  · rw [hreceived, hcounts.took.count]
  · rw [run_dispatch] at hcode
    obtain ⟨⟨request, outcome⟩, hanswer, hcode⟩ := except_map_eq_ok hcode
    have hpair : s.answer x = (.ok (request, outcome), (s.answer x).2) := Prod.ext hanswer rfl
    rw [entry_of_answer_ok hpair, ← request_of_answer hpair, ← hcode]
    exact ⟨rfl, rfl, rfl⟩
  · rw [run_dispatch] at he
    have hpair : s.answer x = (.error e, (s.answer x).2) := Prod.ext (except_map_eq_error he) rfl
    rw [entry_of_answer_error hpair]
    exact ⟨rfl, rfl, rfl⟩

end Site

end FileExchange
