import FileExchange.Proofs.Client.Sending

/-!
# Deliveries

What one upload comes to, whatever the file, the size of the pieces and the other end: nothing without a name and
a file; on a socket that works the line and the file, then the end of the stream; and where a send fails a front of
that without an end of the stream, so that the other end can tell the two apart.
-/

set_option autoImplicit false

namespace FileExchange

/-- All that can be asked of the other end: it takes everything, lets the stream be ended and the socket be closed,
and ends its own stream without a failure. -/
structure Peer.Works (p : Peer) : Prop where
  taken : ∀ turn size, p.refusal turn size = none
  ends : p.shutdownFault = none
  closes : p.closeFault = none
  answers : (Incoming.ofSegments p.inbound).fault = none

namespace Sender

/-- The next connection is made, to a socket that nothing has been done with yet, and nobody changes the file tree
while the socket is in use. -/
structure Dialled (w : ClientWorld) : Prop where
  connected : (w.dials.headD {}).fault = none
  live : (w.dials.headD {}).peer.closed = false
  quiet : (w.dials.headD {}).peer.meddling = []
  unsent : (w.dials.headD {}).peer.sends = #[]
  unended : (w.dials.headD {}).peer.endings = #[]

/-- What has been done with a socket to send a line and a file, and what comes of it. Which of the cases it is depends
on the socket alone, and none of them on the size of the pieces. -/
structure Delivery (line content : Bytes) (p : Peer) (acts : List Act) (p' : Peer)
    (result : Except Failure Nat) : Prop where
  course : ∃ talk told last, Talk line content talk told ∧
    acts = talk ++ [.close last] ∧ result = closing told last
  done : p.Acts acts p'
  closed : p'.closed = true
  whole : p.Works → result = .ok content.length ∧ p'.wire = line ++ content ∧
    p'.endings = #[.shutdown, .close] ∧ p'.inbound = []
  broken : ∀ bytes fault, .send bytes (.error fault) ∈ acts →
    result = .error (.system (p.closeFault.getD fault)) ∧ p'.endings = #[.close] ∧
      (p'.wire = [] ∨ ∃ count, p'.wire = line ++ content.take count)

section Delivery

variable {line content : Bytes} {talk : List Act} {told : Except Failure Nat} {last : Except Fault Unit}
  {q q' : Peer}

theorem delivery_of_talk (htalk : Talk line content talk told) (hacts : q.Acts (talk ++ [.close last]) q')
    (hlive : q.closed = false) (hunsent : q.sends = #[]) (hunended : q.endings = #[]) :
    Delivery line content q (talk ++ [.close last]) q' (closing told last) := by
  obtain ⟨ended, htalked, hclose⟩ := hacts.last
  have hreaches := htalked.reaches hlive htalk.ne_close
  obtain ⟨hlast, hclosed, hwire, hendings, hinbound⟩ := Peer.close_of_leads hclose
  have hsent : q'.wire = talk.flatMap Act.sent := by
    rw [hwire, hreaches.wire, Peer.wire, hunsent]
    rfl
  have hended : q'.endings.toList = talk.filterMap Act.ending? ++ [.close] := by
    rw [hendings, hreaches.endings, hunended]
    rfl
  refine ⟨⟨talk, told, last, htalk, rfl, rfl⟩, hacts, hclosed, fun hworks => ?_, fun bytes fault hmem => ?_⟩
  · obtain ⟨hanswers, hanswered⟩ := hreaches.answers hworks.answers
    obtain ⟨hbytes, hshutdown⟩ := htalk.sent_of_taken (hreaches.taken hworks.taken)
    obtain ⟨rfl, front, hfront⟩ := htalk.complete_of_faultless (hreaches.taken hworks.taken)
      (hreaches.ends hworks.ends) hanswered
    refine ⟨?_, hsent.trans hbytes, ?_, ?_⟩
    · rw [hlast, hreaches.closeFault, hworks.closes]
      rfl
    · rw [← Array.toList_inj, hended, hshutdown]
      rfl
    · rw [hfront] at htalked
      obtain ⟨heard', hfront', hend⟩ := htalked.last
      have hopen : ∀ a ∈ front, a.ending? ≠ some .close := fun a ha =>
        htalk.ne_close a (hfront ▸ List.mem_append_left _ ha)
      rw [hinbound, Peer.inbound_of_leads (hfront'.reaches hlive hopen).live (by decide) hend]
  · have hmem' : .send bytes (.error fault) ∈ talk := by simpa using hmem
    obtain ⟨rfl, hnone, hbytes⟩ := htalk.sent_of_refused hmem'
    refine ⟨?_, ?_, by rwa [hsent]⟩
    · rw [hlast, hreaches.closeFault]
      cases q.closeFault <;> rfl
    · rw [← Array.toList_inj, hended, hnone]
      rfl

end Delivery

variable {c : ClientConfig} {p : Path} {remoteName : Option String} {w : ClientWorld}

/-- Without a name that can be announced, or without the file, no connection is made. -/
theorem upload_of_refused {e : Failure} (hline : preamble (announced p remoteName) = .error e) :
    upload c p remoteName w = (.error e, w) := by
  rw [upload_steps, run_bind, hline]

theorem upload_of_unopened {line : Bytes} {e : Failure} (hline : preamble (announced p remoteName) = .ok line)
    (hfile : w.tree.openFile p = .error e) : upload c p remoteName w = (.error e, w) := by
  rw [upload_steps, run_bind, hline]
  dsimp only
  rw [run_bind, hfile]

/-- What an upload does and what comes of it: without a name and a file there is no connection, and with both there is
one delivery. -/
structure Delivers (c : ClientConfig) (p : Path) (remoteName : Option String) (w : ClientWorld) : Prop where
  refused : ∀ e, preamble (announced p remoteName) = .error e → upload c p remoteName w = (.error e, w)
  unopened : ∀ line e, preamble (announced p remoteName) = .ok line → w.tree.openFile p = .error e →
    upload c p remoteName w = (.error e, w)
  delivery : Dialled w → ∀ line file, preamble (announced p remoteName) = .ok line →
    w.tree.openFile p = .ok file →
    ∃ acts peer, Delivery line (w.tree.content file) (w.dials.headD {}).peer acts peer (upload c p remoteName w).1 ∧
      (upload c p remoteName w).2.calls = w.calls.push ⟨c.host, c.port, c.connectTimeout, some peer⟩

theorem delivers_of_upload (p : Path) (remoteName : Option String) (w : ClientWorld) (hchunk : 1 ≤ c.chunkSize) :
    Delivers c p remoteName w := by
  refine ⟨fun e hline => upload_of_refused hline, fun line e hline hfile => upload_of_unopened hline hfile,
    fun hw line file hline hfile => ?_⟩
  obtain ⟨talk, told, last, peer, htalk, hacts, hrun⟩ :=
    run_connectAndSend hchunk hw.connected hw.live hw.quiet line file
  obtain ⟨hresult, hcalls⟩ := upload_connects (c := c) hline hfile
  rw [hrun] at hresult hcalls
  refine ⟨talk ++ [.close last], peer, ?_, hcalls⟩
  rw [hresult]
  exact delivery_of_talk htalk hacts hw.live hw.unsent hw.unended

/-- The other end takes twelve bytes, ten of which are the line. -/
def narrowClient : ClientWorld where
  tree :=
    { nodes := [(["home"], .directory), (["home", "a"], .file 0)], contents := #[Utf8.encode "hello"] }
  clock := { now := ⟨0⟩, stamp := "" }
  tokens := toString
  connectionNames := toString
  dials := [{ peer := { refusal := fun _ size => if 12 < size then some (.plain .brokenPipe) else none } }]

theorem delivers_front :
    1 ≤ ({ chunkSize := 2 } : ClientConfig).chunkSize ∧ Dialled narrowClient ∧
      Delivers { chunkSize := 2 } ⟨.root, ["home", "a"]⟩ none narrowClient ∧
      ∃ acts peer, Delivery (Utf8.encode "UPLOAD a\r\n") (Utf8.encode "hello") (narrowClient.dials.headD {}).peer acts
          peer (.error (.system (.plain .brokenPipe))) ∧
        peer.wire = Utf8.encode "UPLOAD a\r\nhe" := by
  have hchunk : 1 ≤ ({ chunkSize := 2 } : ClientConfig).chunkSize := by decide
  have hw : Dialled narrowClient := ⟨rfl, rfl, rfl, rfl, rfl⟩
  have hline : preamble (announced ⟨.root, ["home", "a"]⟩ none) = .ok (Utf8.encode "UPLOAD a\r\n") := by
    decide +kernel
  have hfile : narrowClient.tree.openFile ⟨.root, ["home", "a"]⟩ = .ok 0 := by decide +kernel
  have hresult : (upload { chunkSize := 2 } ⟨.root, ["home", "a"]⟩ none narrowClient).1 =
      .error (.system (.plain .brokenPipe)) := by decide +kernel
  have hwire : (upload { chunkSize := 2 } ⟨.root, ["home", "a"]⟩ none narrowClient).2.lastWire =
      some (Utf8.encode "UPLOAD a\r\nhe") := by decide +kernel
  have hdelivers := delivers_of_upload ⟨.root, ["home", "a"]⟩ none narrowClient hchunk
  obtain ⟨acts, peer, hdelivery, hcalls⟩ := hdelivers.delivery hw _ _ hline hfile
  rw [hresult] at hdelivery
  rw [ClientWorld.lastWire, hcalls, Array.back?_push, Option.bind_some, Option.map_some, Option.some.injEq] at hwire
  exact ⟨hchunk, hw, hdelivers, acts, peer, hdelivery, hwire⟩

end Sender

end FileExchange
