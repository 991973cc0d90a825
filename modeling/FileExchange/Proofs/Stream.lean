import FileExchange.Connection

/-!
# Streams

What a connection can still receive, as one run of bytes and the fault that ends it. Reading the
request line takes the line off the front of that run, and reading the rest takes all of it, however
the bytes are cut into segments.
-/

set_option autoImplicit false

namespace FileExchange

/-- Bytes to come, and the fault that ends the stream, if one does. -/
structure Incoming where
  bytes : Bytes
  fault : Option Fault
  deriving DecidableEq

namespace Incoming

def after (front : Bytes) (a : Incoming) : Incoming :=
  ⟨front ++ a.bytes, a.fault⟩

theorem after_nil (a : Incoming) : a.after [] = a := rfl

theorem after_after (first second : Bytes) (a : Incoming) :
    (a.after second).after first = a.after (first ++ second) := by
  simp [after]

/-- What segments bring until one of them is a failure. -/
def ofSegments : List Segment → Incoming
  | [] => ⟨[], none⟩
  | .failure fault :: _ => ⟨[], some fault⟩
  | .data bytes :: rest => (ofSegments rest).after bytes

end Incoming

/-- A closed socket brings a fault and nothing else. -/
def Peer.arriving (p : Peer) : Incoming :=
  if p.closed then ⟨[], some Peer.badDescriptor⟩ else .ofSegments p.inbound

/-- What is in the buffer comes before what arrives. -/
def Connection.pending (c : Connection) : Incoming :=
  c.peer.arriving.after c.buffer

/-! ## Receiving -/

namespace Peer

theorem takeInbound_arriving (size : Nat) (segments : List Segment) :
    match takeInbound size segments with
    | (.ok bytes, rest) =>
      Incoming.ofSegments segments = (Incoming.ofSegments rest).after bytes ∧
        (1 ≤ size → bytes = [] → Incoming.ofSegments rest = ⟨[], none⟩)
    | (.error fault, _) => Incoming.ofSegments segments = ⟨[], some fault⟩ := by
  fun_induction takeInbound size segments with
  | case1 => exact ⟨rfl, fun _ _ => rfl⟩
  | case2 fault rest => rfl
  | case3 rest ih => exact ih
  | case4 b bs rest =>
    refine ⟨?_, fun hsize hnil => ?_⟩
    · simp only [Incoming.ofSegments]
      rw [Incoming.after_after, List.take_append_drop]
    · obtain ⟨n, rfl⟩ := Nat.exists_eq_add_of_le hsize
      rw [Nat.add_comm, List.take_succ_cons] at hnil
      cases hnil

theorem receive_of_closed {p : Peer} {size : Nat} (h : p.closed = true) :
    p.receive size = (.error badDescriptor, p) := by
  simp [receive, h]

theorem receive_of_open {p : Peer} {size : Nat} (h : p.closed = false) :
    p.receive size =
      ((takeInbound size p.inbound).1, { p with inbound := (takeInbound size p.inbound).2 }) := by
  simp [receive, h]

/-- Receiving changes nothing but what is left to come. -/
theorem receive_frame (p : Peer) (size : Nat) :
    (p.receive size).2 = { p with inbound := (p.receive size).2.inbound } := by
  by_cases h : p.closed = true
  · rw [receive_of_closed h]
  · rw [receive_of_open (Bool.eq_false_iff.mpr h)]

theorem receive_ok {p p' : Peer} {size : Nat} {bytes : Bytes}
    (h : p.receive size = (.ok bytes, p')) :
    p.arriving = p'.arriving.after bytes ∧ (1 ≤ size → bytes = [] → p'.arriving = ⟨[], none⟩) := by
  by_cases hclosed : p.closed = true
  · rw [receive_of_closed hclosed] at h
    cases h
  · have hopen := Bool.eq_false_iff.mpr hclosed
    rw [receive_of_open hopen] at h
    obtain ⟨hbytes, rfl⟩ := Prod.mk.inj h
    have hstep := takeInbound_arriving size p.inbound
    rw [← Prod.eta (takeInbound size p.inbound), hbytes] at hstep
    simpa [arriving, hopen] using hstep

theorem receive_error {p p' : Peer} {size : Nat} {fault : Fault}
    (h : p.receive size = (.error fault, p')) : p.arriving = ⟨[], some fault⟩ := by
  by_cases hclosed : p.closed = true
  · rw [receive_of_closed hclosed] at h
    cases h
    simp [arriving, hclosed]
  · have hopen := Bool.eq_false_iff.mpr hclosed
    rw [receive_of_open hopen] at h
    obtain ⟨hfault, rfl⟩ := Prod.mk.inj h
    have hstep := takeInbound_arriving size p.inbound
    rw [← Prod.eta (takeInbound size p.inbound), hfault] at hstep
    simpa [arriving, hopen] using hstep

end Peer

namespace Connection

theorem receive_ok {c c' : Connection} {size : Nat} {bytes : Bytes}
    (h : c.receive size = (.ok bytes, c')) :
    c.peer.arriving = c'.peer.arriving.after bytes ∧
      (1 ≤ size → bytes = [] → c'.peer.arriving = ⟨[], none⟩) ∧
      c' = { c with
        peer := { c.peer with inbound := c'.peer.inbound },
        bytesReceived := c.bytesReceived + bytes.length } := by
  unfold receive at h
  split at h
  · rename_i bytes' peer hreceive
    cases h
    obtain ⟨harriving, hend⟩ := Peer.receive_ok hreceive
    have hframe := Peer.receive_frame c.peer size
    rw [hreceive] at hframe
    exact ⟨harriving, hend, by rw [← hframe]⟩
  · cases h

theorem receive_error {c c' : Connection} {size : Nat} {fault : Fault}
    (h : c.receive size = (.error fault, c')) :
    c.peer.arriving = ⟨[], some fault⟩ ∧
      c' = { c with peer := { c.peer with inbound := c'.peer.inbound } } := by
  unfold receive at h
  split at h
  · cases h
  · rename_i fault' peer hreceive
    cases h
    have hframe := Peer.receive_frame c.peer size
    rw [hreceive] at hframe
    exact ⟨Peer.receive_error hreceive, by rw [← hframe]⟩

/-! ## The request line -/

theorem splitLine_eq_some {bytes line rest : Bytes} (h : splitLine bytes = some (line, rest)) :
    bytes = line ++ rest := by
  unfold splitLine at h
  dsimp only at h
  split at h
  · cases h
  · rename_i b tail hdrop
    cases h
    have hsplit := List.takeWhile_append_dropWhile (p := (· != 0x0A)) (l := bytes)
    have htake : bytes.take (bytes.takeWhile (· != 0x0A)).length = bytes.takeWhile (· != 0x0A) :=
      List.prefix_iff_eq_take.mp (List.takeWhile_prefix _) |>.symm
    calc bytes = bytes.take (bytes.takeWhile (· != 0x0A)).length ++
          bytes.drop (bytes.takeWhile (· != 0x0A)).length := (List.take_append_drop _ _).symm
      _ = bytes.takeWhile (· != 0x0A) ++ ([b] ++ rest) := by rw [htake, hdrop]; rfl
      _ = bytes.takeWhile (· != 0x0A) ++ [b] ++ rest := (List.append_assoc _ _ _).symm

/-- Only the stream's fault or a line that is too long keeps a line from being read. -/
theorem fillLine_error {c c' : Connection} {held : Bytes} {size : Nat} {e : Failure}
    (h : c.fillLine held size = (.error e, c')) :
    (∃ fault, e = .system fault) ∨ e = .lineTooLong c.maxLine := by
  fun_induction fillLine c held size with
  | case1 c held size hlong => exact Or.inr (by cases h; rfl)
  | case2 c held size hlong fault c₁ hreceive =>
    cases h
    exact Or.inl ⟨fault, rfl⟩
  | case3 => cases h
  | case4 => cases h
  | case5 c held size hlong chunk c₁ hreceive hne hsplit ih =>
    have hmax : c₁.maxLine = c.maxLine := by rw [(receive_ok hreceive).2.2]
    simpa [hmax] using ih h

theorem readLine_error {c : Connection} {e : Failure} (h : c.readLine.1 = .error e) :
    (∃ fault, e = .system fault) ∨ e = .lineTooLong c.maxLine := by
  unfold readLine at h
  dsimp only at h
  split at h
  · cases h
  · exact fillLine_error (c := { c with phase := .reading }) (Prod.ext h rfl)

/-- A line takes the bytes of it off the front of the stream and leaves all others. -/
theorem fillLine_pending {c c' : Connection} {held line : Bytes} {size : Nat}
    (h : c.fillLine held size = (.ok (some line), c')) :
    c.peer.arriving.after held.reverse = c'.pending.after line := by
  fun_induction fillLine c held size with
  | case1 => cases h
  | case2 => cases h
  | case3 c held size hlong c₁ hreceive =>
    obtain ⟨harriving, _, _⟩ := receive_ok hreceive
    rw [harriving, Incoming.after_nil]
    split at h
    · cases h
    · cases h
      rfl
  | case4 c held size hlong chunk c₁ hreceive hne line' rest hsplit =>
    obtain ⟨harriving, _, _⟩ := receive_ok hreceive
    cases h
    rw [harriving, splitLine_eq_some hsplit]
    simp [pending, Incoming.after_after]
  | case5 c held size hlong chunk c₁ hreceive hne hsplit ih =>
    obtain ⟨harriving, _, _⟩ := receive_ok hreceive
    rw [← ih h, harriving]
    simp [Incoming.after_after]

theorem readLine_pending {c : Connection} {line : Bytes} (h : c.readLine.1 = .ok (some line)) :
    c.pending = c.readLine.2.pending.after line := by
  have hpair : c.readLine = (.ok (some line), c.readLine.2) := Prod.ext h rfl
  generalize c.readLine.2 = c' at hpair
  unfold readLine at hpair
  dsimp only at hpair
  split at hpair
  · rename_i line' rest hsplit
    cases hpair
    simp [pending, splitLine_eq_some hsplit, Incoming.after_after]
  · have hfill := fillLine_pending hpair
    rwa [List.reverse_reverse] at hfill

/-- Reading moves bytes from the socket to the buffer and changes nothing else. -/
theorem fillLine_frame (c : Connection) (held : Bytes) (size : Nat) :
    ∃ inbound received buffer, (c.fillLine held size).2 = { c with
      peer := { c.peer with inbound }, bytesReceived := received, buffer } := by
  fun_induction fillLine c held size with
  | case1 c held size hlong => exact ⟨_, _, _, rfl⟩
  | case2 c held size hlong fault c' hreceive =>
    obtain ⟨_, hframe⟩ := receive_error hreceive
    exact ⟨_, _, _, by rw [hframe]⟩
  | case3 c held size hlong c' hreceive =>
    obtain ⟨_, _, hframe⟩ := receive_ok hreceive
    exact ⟨_, _, _, by rw [hframe]⟩
  | case4 c held size hlong chunk c' hreceive hne line rest hsplit =>
    obtain ⟨_, _, hframe⟩ := receive_ok hreceive
    exact ⟨_, _, _, by rw [hframe]⟩
  | case5 c held size hlong chunk c' hreceive hne hsplit ih =>
    obtain ⟨_, _, hframe⟩ := receive_ok hreceive
    obtain ⟨inbound, received, buffer, hrun⟩ := ih
    exact ⟨inbound, received, buffer, by rw [hrun, hframe]⟩

theorem readLine_frame (c : Connection) :
    ∃ inbound received buffer, c.readLine.2 = { c with
      peer := { c.peer with inbound }, bytesReceived := received, buffer, phase := .reading } := by
  unfold readLine
  dsimp only
  split
  · exact ⟨_, _, _, rfl⟩
  · obtain ⟨inbound, received, buffer, hrun⟩ :=
      fillLine_frame { c with phase := .reading } c.buffer.reverse c.buffer.length
    exact ⟨inbound, received, buffer, hrun⟩

/-! ## What follows the line -/

theorem flatten_piecesOnto {size : Nat} (hsize : 1 ≤ size) (before : List Bytes) (bytes : Bytes) :
    (piecesOnto size before bytes).reverse.flatten = before.reverse.flatten ++ bytes := by
  fun_induction piecesOnto size before bytes with
  | case1 before bytes hnil =>
    have hbytes : bytes = [] := by
      rcases hnil with h | h
      · exact h
      · omega
    simp [hbytes]
  | case2 before bytes hne ih =>
    rw [ih]
    simp

/-- Reading on takes all that arrives, in any pieces. -/
theorem takeLive_eq {c : Connection} {size : Nat} (hsize : 1 ≤ size) (before : List Bytes) :
    (c.takeLive size before).1.bytes = before.reverse.flatten ++ c.peer.arriving.bytes ∧
      (c.takeLive size before).1.fault = c.peer.arriving.fault := by
  fun_induction takeLive c size before with
  | case1 c before fault c' hreceive =>
    rw [(receive_error hreceive).1]
    simp [Body.bytes]
  | case2 c before c' hreceive =>
    obtain ⟨harriving, hend, _⟩ := receive_ok hreceive
    rw [harriving, hend hsize rfl]
    simp [Body.bytes, Incoming.after]
  | case3 c before chunk c' hreceive hne ih =>
    obtain ⟨harriving, _, _⟩ := receive_ok hreceive
    rw [ih.1, ih.2, harriving]
    simp [Incoming.after]

theorem takeLive_frame (c : Connection) (size : Nat) (before : List Bytes) :
    ∃ inbound received, (c.takeLive size before).2 = { c with
      peer := { c.peer with inbound }, bytesReceived := received } := by
  fun_induction takeLive c size before with
  | case1 c before fault c' hreceive =>
    obtain ⟨_, hframe⟩ := receive_error hreceive
    exact ⟨_, _, by rw [hframe]⟩
  | case2 c before c' hreceive =>
    obtain ⟨_, _, hframe⟩ := receive_ok hreceive
    exact ⟨_, _, hframe⟩
  | case3 c before chunk c' hreceive hne ih =>
    obtain ⟨_, _, hframe⟩ := receive_ok hreceive
    obtain ⟨inbound, received, hrun⟩ := ih
    exact ⟨inbound, received, by rw [hrun, hframe]⟩

theorem takeBody_frame (c : Connection) (size : Nat) :
    ∃ inbound received, (c.takeBody size).2 = { c with
      peer := { c.peer with inbound }, bytesReceived := received, phase := .receiving,
      buffer := [] } :=
  takeLive_frame { c with phase := .receiving, buffer := [] } size (piecesOnto size [] c.buffer)

theorem takeBody_eq {c : Connection} {size : Nat} (hsize : 1 ≤ size) :
    (c.takeBody size).1.bytes = c.pending.bytes ∧ (c.takeBody size).1.fault = c.pending.fault := by
  obtain ⟨hbytes, hfault⟩ := takeLive_eq (c := { c with phase := .receiving, buffer := [] }) hsize
    (piecesOnto size [] c.buffer)
  rw [flatten_piecesOnto hsize] at hbytes
  exact ⟨hbytes, hfault⟩

/-! ## One piece at a time -/

theorem nextLive_frame (c : Connection) (size : Nat) :
    ∃ inbound received, (c.nextLive size).2.1 = { c with
      peer := { c.peer with inbound }, bytesReceived := received } := by
  unfold nextLive
  split
  · rename_i fault c' hreceive
    obtain ⟨_, hframe⟩ := receive_error hreceive
    exact ⟨_, _, by rw [hframe]⟩
  all_goals
    rename_i hreceive
    obtain ⟨_, _, hframe⟩ := receive_ok hreceive
    exact ⟨_, _, hframe⟩

theorem nextBuffered_frame (c : Connection) (size : Nat) :
    ∃ inbound received buffer, (c.nextBuffered size).2.1 = { c with
      peer := { c.peer with inbound }, bytesReceived := received, buffer } := by
  unfold nextBuffered
  split
  · obtain ⟨inbound, received, hframe⟩ := c.nextLive_frame size
    exact ⟨inbound, received, _, hframe⟩
  · exact ⟨_, _, _, rfl⟩

/-- Only the first piece of an iteration changes the phase. -/
theorem nextChunk_frame (c : Connection) (size : Nat) (stage : ChunkStage) :
    ∃ inbound received buffer, (c.nextChunk size stage).2.1 = { c with
      peer := { c.peer with inbound }, bytesReceived := received, buffer,
      phase := if stage = .fresh then .receiving else c.phase } := by
  cases stage with
  | fresh => exact nextBuffered_frame { c with phase := .receiving } size
  | buffered => exact c.nextBuffered_frame size
  | live =>
    obtain ⟨inbound, received, hframe⟩ := c.nextLive_frame size
    exact ⟨inbound, received, _, hframe⟩
  | finished => exact ⟨_, _, _, rfl⟩

end Connection

end FileExchange
