import FileExchange.Client.Sender
import FileExchange.Proofs.Client.Acts
import FileExchange.Proofs.Serve.Sending

/-!
# What a client sends

How one upload talks to the other end: the line that announces the name, the file in pieces, the end of the
stream, and then listening until the other end has ended its own. Every call on the way may fail, and the first
one that does is the last but for letting the socket go.
-/

set_option autoImplicit false

namespace FileExchange

namespace Sender

/-- The name under which a file is announced. -/
def announced (p : Path) (remoteName : Option String) : String :=
  match remoteName with
  | some name => if name == "" then p.name else name
  | none => p.name

/-- The other end takes everything, and nobody else changes the tree. -/
structure Ready (p : Peer) : Prop where
  live : p.closed = false
  taken : ∀ turn size, p.refusal turn size = none
  quiet : p.meddling = []

def accepted (bytes : Bytes) : Act :=
  .send bytes (.ok ())

def heard (bytes : Bytes) : Act :=
  .receive 1024 (.ok bytes)

section Effects

variable (bytes : Bytes)

@[simp] theorem sent_accepted : (accepted bytes).sent = bytes := rfl
@[simp] theorem ending?_accepted : (accepted bytes).ending? = none := rfl
@[simp] theorem sent_heard : (heard bytes).sent = [] := rfl
@[simp] theorem ending?_heard : (heard bytes).ending? = none := rfl

end Effects

/-! ## Pieces of a file -/

/-- Some bytes are sent piece by piece, up to the first piece that is not taken. -/
inductive Sends (bytes : Bytes) : List Act → Option Fault → Prop
  | all (pieces : List Bytes) (h : pieces.flatten = bytes) : Sends bytes (pieces.map accepted) none
  | cut (pieces : List Bytes) (piece : Bytes) (fault : Fault) (h : pieces.flatten ++ piece <+: bytes) :
      Sends bytes (pieces.map accepted ++ [.send piece (.error fault)]) (some fault)

theorem Sends.cons {bytes : Bytes} {acts : List Act} {fault : Option Fault} (piece : Bytes)
    (h : Sends bytes acts fault) : Sends (piece ++ bytes) (accepted piece :: acts) fault := by
  cases h with
  | all pieces h => exact .all (piece :: pieces) (by rw [List.flatten_cons, h])
  | cut pieces last fault h =>
    refine .cut (piece :: pieces) last fault ?_
    rw [List.flatten_cons, List.append_assoc]
    exact (List.prefix_append_right_inj piece).mpr h

theorem sendBytes_of_quiet {l : Line} (h : l.peer.meddling = []) (bytes : Bytes) :
    sendBytes bytes l = ((l.peer.send bytes).1.mapError .system, ⟨l.tree, (l.peer.send bytes).2⟩) := by
  have htree : (if l.peer.closed then l.tree else l.tree.applyAll l.peer.dueEdits) = l.tree := by
    rw [Peer.dueEdits_of_quiet h]
    split <;> rfl
  rw [sendBytes, htree]
  rcases l.peer.send bytes with ⟨_ | _, _⟩ <;> rfl

theorem meddling_send (p : Peer) (bytes : Bytes) : (p.send bytes).2.meddling = p.meddling := by
  unfold Peer.send
  split
  · rfl
  · dsimp only
    split <;> rfl

/-- All that is left of the file goes out unless a piece is not taken, if there may be more pieces than bytes. -/
theorem run_sendPieces {chunkSize : Nat} (hchunk : 1 ≤ chunkSize) {r : Reader} (sent : Nat) {most : Nat}
    {l : Line} (hquiet : l.peer.meddling = []) (hmost : (r.rest l.tree).length < most) :
    ∃ acts fault peer, Sends (r.rest l.tree) acts fault ∧ l.peer.Acts acts peer ∧
      sendPieces chunkSize r sent most l =
        (fault.elim (.ok (sent + (r.rest l.tree).length)) fun fault => .error (.system fault),
          ⟨l.tree, peer⟩) := by
  induction most generalizing r sent l with
  | zero => omega
  | succ most ih =>
    obtain ⟨hpiece, hrest⟩ := Reader.read_takes (t := l.tree) (r := r) chunkSize
    have hbytes := List.take_append_drop chunkSize (r.rest l.tree)
    rw [← hpiece, ← hrest] at hbytes
    rw [sendPieces]
    dsimp only
    split
    · rename_i hend
      have hnone : r.rest l.tree = [] := by
        rw [List.isEmpty_iff.mp hend] at hpiece
        rcases List.take_eq_nil_iff.mp hpiece.symm with hzero | hnone
        · omega
        · exact hnone
      exact ⟨[], none, l.peer, .all [] hnone.symm, .nil _, by rw [hnone]; rfl⟩
    · rename_i hmore
      have hpos := List.length_pos_iff.mpr (mt List.isEmpty_iff.mpr hmore)
      generalize r.read l.tree chunkSize = taken at hbytes hpos ⊢
      obtain ⟨piece, r'⟩ := taken
      have hlength := congrArg List.length hbytes
      dsimp only at hbytes hpos hlength ⊢
      rw [List.length_append] at hlength
      have hquiet' := (meddling_send l.peer piece).trans hquiet
      rw [sendBytes_of_quiet hquiet]
      cases hsend : l.peer.send piece with
      | mk result peer =>
        rw [hsend] at hquiet'
        cases result with
        | error fault =>
          refine ⟨[.send piece (.error fault)], some fault, peer, .cut [] piece fault ?_, .single hsend, rfl⟩
          rw [← hbytes]
          exact List.prefix_append piece _
        | ok =>
          obtain ⟨acts, fault, peer', hsends, hacts, hrun⟩ :=
            ih (r := r') (sent + piece.length) (l := ⟨l.tree, peer⟩) hquiet' (by dsimp only; omega)
          have hfirst : (accepted piece).Leads l.peer peer := hsend
          refine ⟨_, fault, peer', hbytes ▸ hsends.cons piece, .cons hfirst hacts, hrun.trans ?_⟩
          rw [← hlength, Nat.add_assoc]

/-! ## One connection -/

/-- Listening goes on until a reception brings nothing, or fails. -/
theorem run_drain (p : Peer) (size : Nat) :
    ∃ (replies : List Bytes) (last : Except Fault Bytes), (∀ reply ∈ replies, reply ≠ []) ∧
      p.Acts (replies.map (fun reply => .receive size (.ok reply)) ++ [.receive size last]) (p.drain size).2 ∧
      (p.drain size).1 = last.map (fun _ => ()) ∧ ∀ bytes, last = .ok bytes → bytes = [] := by
  fun_induction Peer.drain p size with
  | case1 p fault p' hreceive =>
    have hlast : (Act.receive size (.error fault)).Leads p p' := hreceive
    exact ⟨[], .error fault, by simp, .single hlast, rfl, by simp⟩
  | case2 p p' hreceive =>
    have hlast : (Act.receive size (.ok [])).Leads p p' := hreceive
    exact ⟨[], .ok [], by simp, .single hlast, rfl, by simp⟩
  | case3 p bytes p' hreceive hne ih =>
    obtain ⟨replies, last, hreplies, hacts, hresult, hend⟩ := ih
    have hfirst : (Act.receive size (.ok bytes)).Leads p p' := hreceive
    exact ⟨bytes :: replies, last, List.forall_mem_cons.mpr ⟨hne, hreplies⟩, .cons hfirst hacts, hresult, hend⟩

/-- The calls of a transfer in front of the file. -/
def opened (line : Bytes) : List Act :=
  [.setTimeout none (.ok ()), accepted line]

@[simp] theorem sent_opened (line : Bytes) : (opened line).flatMap Act.sent = line := by
  simp [opened]

@[simp] theorem endings_opened (line : Bytes) : (opened line).filterMap Act.ending? = [] := by
  simp [opened]

/-- How a transfer goes until the socket is let go, and its result: the line or a piece of the file is not taken,
the stream cannot be ended, listening fails, or all goes well. -/
inductive Talk (line content : Bytes) : List Act → Except Failure Nat → Prop
  | unannounced (fault : Fault) :
      Talk line content [.setTimeout none (.ok ()), .send line (.error fault)] (.error (.system fault))
  | interrupted {sends : List Act} {fault : Fault} (hsends : Sends content sends (some fault)) :
      Talk line content (opened line ++ sends) (.error (.system fault))
  | unended {sends : List Act} (hsends : Sends content sends none) (fault : Fault) :
      Talk line content (opened line ++ (sends ++ [.shutdown (.error fault)])) (.error (.system fault))
  | unanswered {sends : List Act} (hsends : Sends content sends none) (replies : List Bytes) (fault : Fault) :
      Talk line content
        (opened line ++ (sends ++ .shutdown (.ok ()) :: (replies.map heard ++ [.receive 1024 (.error fault)])))
        (.error (.system fault))
  | complete {sends : List Act} (hsends : Sends content sends none) (replies : List Bytes)
      (hreplies : ∀ reply ∈ replies, reply ≠ []) :
      Talk line content (opened line ++ (sends ++ .shutdown (.ok ()) :: (replies.map heard ++ [heard []])))
        (.ok content.length)

section Transfer

variable {l : Line} {content line : Bytes} {sends : List Act}

theorem run_endStream (hsends : Sends content sends none) :
    ∃ acts result peer, Talk line content (opened line ++ (sends ++ acts)) result ∧ l.peer.Acts acts peer ∧
      endStream content.length l = (result, ⟨l.tree, peer⟩) := by
  unfold endStream
  cases hshutdown : l.peer.shutdown with
  | mk result peer =>
    cases result with
    | error fault => exact ⟨_, _, peer, .unended hsends fault, .single hshutdown, rfl⟩
    | ok =>
      have hended : (Act.shutdown (.ok ())).Leads l.peer peer := hshutdown
      obtain ⟨replies, last, hreplies, hacts, hresult, hend⟩ := run_drain peer 1024
      cases last with
      | error fault =>
        refine ⟨_, _, _, .unanswered hsends replies fault, .cons hended hacts, ?_⟩
        dsimp only
        rw [← Prod.eta (peer.drain 1024), hresult]
        rfl
      | ok bytes =>
        cases hend bytes rfl
        refine ⟨_, _, _, .complete hsends replies hreplies, .cons hended hacts, ?_⟩
        dsimp only
        rw [← Prod.eta (peer.drain 1024), hresult]
        rfl

theorem run_transfer {chunkSize : Nat} (hchunk : 1 ≤ chunkSize) (line : Bytes) (file : FileId)
    (hlive : l.peer.closed = false) (hquiet : l.peer.meddling = []) :
    ∃ acts result peer, Talk line (l.tree.content file) acts result ∧ l.peer.Acts acts peer ∧
      transfer chunkSize line file l = (result, ⟨l.tree, peer⟩) := by
  have htimeout : (Act.setTimeout none (.ok ())).Leads l.peer (l.peer.setTimeout none).2 := by
    simp [Act.Leads, Peer.setTimeout, Peer.timeoutFailure?, hlive]
  have hwaits : (l.peer.setTimeout none).2.meddling = [] := by
    simp [Peer.setTimeout, Peer.timeoutFailure?, hlive, hquiet]
  generalize hpatient : (l.peer.setTimeout none).2 = patient at htimeout hwaits
  have hquiet' := (meddling_send patient line).trans hwaits
  rw [transfer, hpatient, sendBytes_of_quiet hwaits]
  cases hsend : patient.send line with
  | mk result peer =>
    rw [hsend] at hquiet'
    cases result with
    | error fault => exact ⟨_, _, peer, .unannounced fault, .cons htimeout (.single hsend), rfl⟩
    | ok =>
      have hopened : l.peer.Acts (opened line) peer := by
        have hline : (accepted line).Leads patient peer := hsend
        exact .cons htimeout (.single hline)
      have hmost : (({ file } : Reader).rest l.tree).length < lengthBound ⟨l.tree, peer⟩ file + 1 :=
        Nat.lt_succ_of_le (Nat.le_add_right _ _)
      obtain ⟨sends, fault, peer', hsends, hacts, hrun⟩ :=
        run_sendPieces hchunk 0 (l := ⟨l.tree, peer⟩) hquiet' hmost
      have hrest : ({ file } : Reader).rest l.tree = l.tree.content file := rfl
      rw [hrest] at hsends hrun
      dsimp only [Except.mapError]
      rw [hrun]
      cases fault with
      | some fault => exact ⟨_, _, peer', .interrupted hsends, hopened.append hacts, rfl⟩
      | none =>
        obtain ⟨acts, result, peer'', htalk, hacts', hend⟩ := run_endStream (l := ⟨l.tree, peer'⟩) hsends
        refine ⟨_, result, peer'', htalk, hopened.append (hacts.append hacts'), ?_⟩
        rw [Nat.zero_add]
        exact hend

end Transfer

/-- The result once the socket has been let go, which may fail as well. -/
def closing (result : Except Failure Nat) : Except Fault Unit → Except Failure Nat
  | .ok () => result
  | .error fault => .error (.system fault)

theorem run_letGo (result : Except Failure Nat) (l : Line) :
    ∃ last peer, (Act.close last).Leads l.peer peer ∧
      letGo result l = (closing result last, ⟨l.tree, peer⟩) := by
  unfold letGo
  cases hclose : l.peer.close with
  | mk last peer =>
    refine ⟨last, peer, hclose, ?_⟩
    cases last <;> rfl

/-! ## What a transfer comes to -/

theorem Sends.sent_of_none {bytes : Bytes} {acts : List Act} (h : Sends bytes acts none) :
    acts.flatMap Act.sent = bytes := by
  cases h with
  | all pieces h => simpa [List.flatMap_map] using h

theorem Sends.sent_of_some {bytes : Bytes} {acts : List Act} {fault : Fault} (h : Sends bytes acts (some fault)) :
    acts.flatMap Act.sent <+: bytes := by
  cases h with
  | cut pieces piece fault h =>
    have hfront := (List.prefix_append _ _).trans h
    simpa [List.flatMap_map] using hfront

theorem Sends.endings {bytes : Bytes} {acts : List Act} {fault : Option Fault} (h : Sends bytes acts fault) :
    acts.filterMap Act.ending? = [] := by
  cases h with
  | all pieces h => simp
  | cut pieces piece fault h => simp

/-- Only the last of the sends can be one that failed. -/
theorem Sends.failed {bytes piece : Bytes} {acts : List Act} {fault : Option Fault} {e : Fault}
    (h : Sends bytes acts fault) (hmem : .send piece (.error e) ∈ acts) : fault = some e := by
  cases h with
  | all pieces h => simp [accepted] at hmem
  | cut pieces last fault h =>
    simp only [accepted, List.mem_append, List.mem_map, List.mem_singleton, Act.send.injEq, reduceCtorEq, and_false,
      exists_false, false_or, Except.error.injEq] at hmem
    rw [hmem.2]

namespace Talk

variable {line content : Bytes} {acts : List Act} {result : Except Failure Nat}

theorem endings_eq (h : Talk line content acts result) :
    acts.filterMap Act.ending? = [] ∨ acts.filterMap Act.ending? = [.shutdown] := by
  cases h with
  | unannounced fault => exact Or.inl (by simp)
  | interrupted hsends => exact Or.inl (by simp [hsends.endings])
  | unended hsends fault => exact Or.inr (by simp [hsends.endings])
  | unanswered hsends replies fault => exact Or.inr (by simp [hsends.endings])
  | complete hsends replies hreplies => exact Or.inr (by simp [hsends.endings])

/-- Nothing of a transfer lets the socket go. -/
theorem ne_close (h : Talk line content acts result) : ∀ a ∈ acts, a.ending? ≠ some .close := by
  intro a ha hclose
  have hmem := List.mem_filterMap.mpr ⟨a, ha, hclose⟩
  rcases h.endings_eq with hnone | hshutdown
  · rw [hnone] at hmem
    cases hmem
  · rw [hshutdown] at hmem
    cases List.mem_singleton.mp hmem

/-- Where no send fails, the line and the file are sent, and then the stream is ended. -/
theorem sent_of_taken (h : Talk line content acts result)
    (htaken : ∀ bytes fault, .send bytes (.error fault) ∉ acts) :
    acts.flatMap Act.sent = line ++ content ∧ acts.filterMap Act.ending? = [.shutdown] := by
  cases h with
  | unannounced fault => exact absurd (by simp) (htaken line fault)
  | @interrupted sends fault hsends =>
    cases hsends with
    | cut pieces piece fault h => exact absurd (by simp) (htaken piece fault)
  | unended hsends fault => simp [hsends.sent_of_none, hsends.endings]
  | unanswered hsends replies fault => simp [hsends.sent_of_none, hsends.endings]
  | complete hsends replies hreplies => simp [hsends.sent_of_none, hsends.endings]

/-- A send that fails is the last call, and the stream is not ended. -/
theorem sent_of_refused (h : Talk line content acts result) {bytes : Bytes} {fault : Fault}
    (hmem : .send bytes (.error fault) ∈ acts) :
    result = .error (.system fault) ∧ acts.filterMap Act.ending? = [] ∧
      (acts.flatMap Act.sent = [] ∨ ∃ count, acts.flatMap Act.sent = line ++ content.take count) := by
  cases h with
  | unannounced e =>
    simp only [List.mem_cons, reduceCtorEq, Act.send.injEq, Except.error.injEq, List.not_mem_nil, or_false,
      false_or] at hmem
    exact ⟨by rw [hmem.2], rfl, Or.inl rfl⟩
  | @interrupted sends e hsends =>
    have hfailed : .send bytes (.error fault) ∈ sends := by simpa [opened, accepted] using hmem
    cases hsends.failed hfailed
    refine ⟨rfl, by simp [hsends.endings], Or.inr ⟨(sends.flatMap Act.sent).length, ?_⟩⟩
    rw [← List.prefix_iff_eq_take.mp hsends.sent_of_some]
    simp
  | @unended sends hsends e =>
    have hfailed : .send bytes (.error fault) ∈ sends := by simpa [opened, accepted] using hmem
    cases hsends.failed hfailed
  | @unanswered sends hsends replies e =>
    have hfailed : .send bytes (.error fault) ∈ sends := by simpa [opened, accepted, heard] using hmem
    cases hsends.failed hfailed
  | @complete sends hsends replies hreplies =>
    have hfailed : .send bytes (.error fault) ∈ sends := by simpa [opened, accepted, heard] using hmem
    cases hsends.failed hfailed

/-- Where no call fails, the last one has met the end of the other stream. -/
theorem complete_of_faultless (h : Talk line content acts result)
    (htaken : ∀ bytes fault, .send bytes (.error fault) ∉ acts)
    (hended : ∀ fault, .shutdown (.error fault) ∉ acts)
    (hanswered : ∀ size fault, .receive size (.error fault) ∉ acts) :
    result = .ok content.length ∧ ∃ front, acts = front ++ [heard []] := by
  cases h with
  | unannounced fault => exact absurd (by simp) (htaken line fault)
  | @interrupted sends fault hsends =>
    cases hsends with
    | cut pieces piece fault h => exact absurd (by simp) (htaken piece fault)
  | unended hsends fault => exact absurd (by simp) (hended fault)
  | unanswered hsends replies fault => exact absurd (by simp) (hanswered 1024 fault)
  | @complete sends hsends replies hreplies =>
    exact ⟨rfl, opened line ++ (sends ++ .shutdown (.ok ()) :: replies.map heard), by simp⟩

end Talk

end Sender

/-! ## One upload -/

/-- What the last connection of a client has sent, if there was one. -/
def ClientWorld.lastWire (w : ClientWorld) : Option Bytes :=
  w.calls.back?.bind fun call => call.peer.map Peer.wire

namespace Sender

variable {c : ClientConfig} {p : Path} {remoteName : Option String} {w : ClientWorld} {file : FileId}
  {line : Bytes}

/-- A connection that is made talks to the other end, lets the socket go, and is the last one of the client. -/
theorem run_connectAndSend (hchunk : 1 ≤ c.chunkSize) (hconnected : (w.dials.headD {}).fault = none)
    (hlive : (w.dials.headD {}).peer.closed = false) (hquiet : (w.dials.headD {}).peer.meddling = [])
    (line : Bytes) (file : FileId) :
    ∃ acts result last peer, Talk line (w.tree.content file) acts result ∧
      (w.dials.headD {}).peer.Acts (acts ++ [.close last]) peer ∧
      connectAndSend c line file w = (closing result last, { w with
        dials := w.dials.tail, calls := w.calls.push ⟨c.host, c.port, c.connectTimeout, some peer⟩ }) := by
  have hsize : 1 ≤ c.chunkSize.toNat := by omega
  obtain ⟨acts, result, peer, htalk, hacts, hrun⟩ :=
    run_transfer (l := ⟨w.tree, (w.dials.headD {}).peer⟩) hsize line file hlive hquiet
  obtain ⟨last, peer', hclose, hletGo⟩ := run_letGo result ⟨w.tree, peer⟩
  refine ⟨acts, result, last, peer', htalk, hacts.append (.single hclose), ?_⟩
  rw [connectAndSend]
  dsimp only
  rw [hconnected]
  dsimp only
  rw [hrun]
  dsimp only
  rw [hletGo]

theorem run_bind {α β : Type} (f : Sending α) (g : α → Sending β) (w : ClientWorld) :
    (f >>= g) w = match f w with
      | (.ok a, w') => g a w'
      | (.error e, w') => (.error e, w') := by
  change (match f w with | (r, w') => (ExceptT.bindCont g r : StateM ClientWorld _) w') = _
  rcases f w with ⟨r | r, w'⟩ <;> rfl

/-- An upload announces a name, opens a file and sends it. -/
theorem upload_steps (c : ClientConfig) (p : Path) (remoteName : Option String) :
    upload c p remoteName =
      ((fun w => (preamble (announced p remoteName), w) : Sending Bytes) >>= fun line =>
        (fun w => (w.tree.openFile p, w) : Sending FileId) >>= fun file =>
          connectAndSend c line file >>= fun sent w => (.ok sent, { w with
            toWorld := w.toWorld.log .info .client
              ("Uploaded " ++ p.text ++ " (" ++ toString sent ++ " bytes)") })) := by
  cases remoteName <;> rfl

/-- Once the name and the file are there, the connection makes the call and decides the result. -/
theorem upload_connects (hline : preamble (announced p remoteName) = .ok line)
    (hfile : w.tree.openFile p = .ok file) :
    (upload c p remoteName w).1 = (connectAndSend c line file w).1 ∧
      (upload c p remoteName w).2.calls = (connectAndSend c line file w).2.calls := by
  rw [upload_steps, run_bind, hline]
  dsimp only
  rw [run_bind, hfile]
  dsimp only
  rw [run_bind]
  split
  · rename_i sent w' h
    rw [h]
    exact ⟨rfl, rfl⟩
  · rename_i e w' h
    rw [h]
    exact ⟨rfl, rfl⟩

/-- An upload that returns had a name that it could announce and a file that it could open. -/
theorem exists_file_of_upload {sent : Nat} (h : (upload c p remoteName w).1 = .ok sent) :
    ∃ line file, preamble (announced p remoteName) = .ok line ∧ w.tree.openFile p = .ok file := by
  rw [upload_steps, run_bind] at h
  cases hline : preamble (announced p remoteName) with
  | error e =>
    rw [hline] at h
    cases h
  | ok line =>
    rw [hline] at h
    dsimp only at h
    rw [run_bind] at h
    cases hfile : w.tree.openFile p with
    | error e =>
      rw [hfile] at h
      cases h
    | ok file => exact ⟨line, file, rfl, rfl⟩

/-- The next connection is made, to a socket that nothing has been sent on yet and that takes
everything. -/
structure Answered (w : ClientWorld) : Prop where
  connected : (w.dials.headD {}).fault = none
  ready : Ready (w.dials.headD {}).peer
  fresh : (w.dials.headD {}).peer.sends = #[]

/-- A connection to a socket that takes everything has sent the line and the file. -/
theorem lastWire_upload (hchunk : 1 ≤ c.chunkSize) (hdial : Answered w)
    (hline : preamble (announced p remoteName) = .ok line) (hfile : w.tree.openFile p = .ok file) :
    (upload c p remoteName w).2.lastWire = some (line ++ w.tree.content file) := by
  obtain ⟨acts, result, last, peer, htalk, hacts, hrun⟩ :=
    run_connectAndSend hchunk hdial.connected hdial.ready.live hdial.ready.quiet line file
  obtain ⟨ended, htalked, hclose⟩ := hacts.last
  have hreaches := htalked.reaches hdial.ready.live htalk.ne_close
  have hempty : (w.dials.headD {}).peer.wire = [] := by
    rw [Peer.wire, hdial.fresh]
    rfl
  have hwire : peer.wire = line ++ w.tree.content file := by
    rw [(Peer.close_of_leads hclose).2.2.1, hreaches.wire, hempty, List.nil_append,
      (htalk.sent_of_taken (hreaches.taken hdial.ready.taken)).1]
  rw [ClientWorld.lastWire, (upload_connects hline hfile).2, hrun]
  dsimp only
  rw [Array.back?_push, Option.bind_some, Option.map_some, hwire]

end Sender

end FileExchange
