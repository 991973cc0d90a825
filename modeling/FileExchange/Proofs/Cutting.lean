import FileExchange.Proofs.Arrival

/-!
# Cuts of a stream

Whether the first line of a stream can be read without regard to how the stream is cut. What is held is
measured only between two receptions, so a line feed behind the longest line that is allowed is met or
missed depending on where the pieces end. Every other stream is read in one way only. What follows the line
is always taken in one way, whatever the size of the pieces.
-/

set_option autoImplicit false

namespace FileExchange

/-- The first line feed, if there is one, is not behind the longest line that is allowed. -/
def InSight (limit : Nat) (bytes : Bytes) : Prop :=
  0x0A ∈ bytes → 0x0A ∈ bytes.take (limit + 1)

instance decidableInSight (limit : Nat) (bytes : Bytes) : Decidable (InSight limit bytes) :=
  inferInstanceAs (Decidable (0x0A ∈ bytes → 0x0A ∈ bytes.take (limit + 1)))

/-- How a stream begins whose first line can be read in one way only: with a line, with all that comes
before it ends, or with more than a line may have. -/
inductive Opening (limit : Nat) : Bytes → Prop
  | line (front rest : Bytes) (hfront : 0x0A ∉ front) (hsize : front.length ≤ limit) :
      Opening limit (front ++ 0x0A :: rest)
  | whole (front : Bytes) (hfront : 0x0A ∉ front) (hsize : front.length ≤ limit) : Opening limit front
  | long (front : Bytes) (hfront : 0x0A ∉ front) (hsize : limit < front.length) : Opening limit front

theorem opening_of_inSight {limit : Nat} {bytes : Bytes} (h : InSight limit bytes) :
    Opening limit bytes := by
  by_cases hmem : 0x0A ∈ bytes
  · obtain ⟨front, rest, rfl, hfront⟩ := List.eq_append_cons_of_mem hmem
    refine .line front rest hfront (Nat.le_of_not_lt fun hlong => hfront ?_)
    have hseen := h hmem
    rw [List.take_append_of_le_length hlong] at hseen
    exact List.mem_of_mem_take hseen
  · by_cases hsize : bytes.length ≤ limit
    · exact .whole bytes hmem hsize
    · exact .long bytes hmem (Nat.lt_of_not_le hsize)

namespace Connection

variable {c c' : Connection} {bytes : Bytes}

/-! ## Each opening is read in one way -/

theorem fillLine_of_long (held : Bytes) {front : Bytes} {size : Nat} {fault : Option Fault}
    (hbuffer : 1 ≤ c.bufferSize) (hfront : 0x0A ∉ front) (hsize : c.maxLine < size + front.length)
    (harriving : c.peer.arriving = ⟨front, fault⟩) :
    (c.fillLine held size).1 = .error (.lineTooLong c.maxLine) ∧
      (c.fillLine held size).2.pending = c.peer.arriving.after held.reverse := by
  fun_induction fillLine c held size generalizing front with
  | case1 c held size hlong => exact ⟨rfl, rfl⟩
  | case2 c held size hlong e c' hreceive =>
    obtain ⟨rfl, _⟩ := receive_fault harriving hreceive
    exact absurd hsize hlong
  | case3 c held size hlong c' hreceive =>
    obtain ⟨rfl, _⟩ := receive_end harriving hbuffer hreceive
    exact absurd hsize hlong
  | case4 c held size hlong chunk c' hreceive hne line rest hsplit =>
    obtain ⟨left, rfl, _⟩ := receive_front harriving hreceive
    rw [splitLine_eq_none.mpr fun hmem => hfront (List.mem_append_left _ hmem)] at hsplit
    cases hsplit
  | case5 c held size hlong chunk c' hreceive hne hsplit ih =>
    obtain ⟨left, rfl, harriving', hsame, hmax⟩ := receive_front harriving hreceive
    have hleft : 0x0A ∉ left := fun hmem => hfront (List.mem_append_right _ hmem)
    have hsize' : c'.maxLine < size + chunk.length + left.length := by
      rw [hmax]
      rw [List.length_append] at hsize
      omega
    obtain ⟨hresult, hpending⟩ := ih (hsame ▸ hbuffer) hleft hsize' harriving'
    refine ⟨by rw [hresult, hmax], ?_⟩
    rw [hpending, (receive_ok hreceive).1, List.reverseAux_eq]
    simp [Incoming.after_after]

theorem Brings.readLine_of_long (h : c.Brings bytes) (hbuffer : 1 ≤ c.bufferSize)
    (hfront : 0x0A ∉ bytes) (hsize : c.maxLine < bytes.length) :
    c.readLine.1 = .error (.lineTooLong c.maxLine) ∧ c.readLine.2.pending = ⟨bytes, none⟩ := by
  have hlength : c.maxLine < 0 + bytes.length := by omega
  rw [readLine_of_fresh h.fresh]
  obtain ⟨hresult, hpending⟩ := fillLine_of_long (c := { c with phase := .reading }) []
    hbuffer hfront hlength h.arriving
  exact ⟨hresult, hpending.trans h.arriving⟩

/-! ## Two cuts of one stream -/

/-- Two cuts of a stream whose first line is in sight give the same line and leave the same bytes. -/
theorem Brings.readLine_agree (h : c.Brings bytes) (h' : c'.Brings bytes) (hbuffer : 1 ≤ c.bufferSize)
    (hbuffer' : 1 ≤ c'.bufferSize) (hlimit : c'.maxLine = c.maxLine) (hsight : InSight c.maxLine bytes) :
    c'.readLine.1 = c.readLine.1 ∧ c'.readLine.2.pending = c.readLine.2.pending ∧
      c.readLine.2.pending.fault = none := by
  cases opening_of_inSight hsight with
  | line front rest hfront hsize =>
    obtain ⟨hline, hleft⟩ := h.readLine hbuffer hfront hsize
    obtain ⟨hline', hleft'⟩ := h'.readLine hbuffer' hfront (hlimit ▸ hsize)
    rw [hline, hline', hleft, hleft']
    exact ⟨rfl, rfl, rfl⟩
  | whole _ hfront hsize =>
    obtain ⟨hline, hleft⟩ := h.readLine_of_whole hbuffer hfront hsize
    obtain ⟨hline', hleft'⟩ := h'.readLine_of_whole hbuffer' hfront (hlimit ▸ hsize)
    rw [hline, hline', hleft, hleft']
    exact ⟨rfl, rfl, rfl⟩
  | long _ hfront hsize =>
    obtain ⟨hline, hleft⟩ := h.readLine_of_long hbuffer hfront hsize
    obtain ⟨hline', hleft'⟩ := h'.readLine_of_long hbuffer' hfront (hlimit ▸ hsize)
    rw [hline, hline', hleft, hleft', hlimit]
    exact ⟨rfl, rfl, rfl⟩

/-- The bytes come one segment for each entry. -/
def cutInto (c : Connection) (segments : List Bytes) : Connection :=
  { c with peer := { c.peer with inbound := segments.map .data } }

theorem receive_cutInto {segment : Bytes} (segments : List Bytes) {size : Nat}
    (hlive : c.peer.closed = false) (hne : segment ≠ []) (hsize : segment.length ≤ size) :
    (c.cutInto (segment :: segments)).receive size =
      (.ok segment, { c.cutInto ([] :: segments) with
        bytesReceived := c.bytesReceived + segment.length }) := by
  obtain ⟨b, segment, rfl⟩ := List.exists_cons_of_ne_nil hne
  have htake := List.take_of_length_le hsize
  have hdrop := List.drop_of_length_le hsize
  simp [receive, cutInto, Peer.receive, Peer.takeInbound, hlive, htake, hdrop]

theorem fillLine_of_excess {held : Bytes} {size : Nat} (h : c.maxLine < size) :
    (c.fillLine held size).1 = .error (.lineTooLong c.maxLine) := by
  rw [fillLine, if_pos h]

section Received

variable {held chunk : Bytes} {size : Nat} (hsize : size ≤ c.maxLine)
  (hreceive : c.receive c.bufferSize = (.ok chunk, c'))

include hsize hreceive

theorem fillLine_of_line {line rest : Bytes} (hsplit : splitLine chunk = some (line, rest)) :
    (c.fillLine held size).1 = .ok (some (held.reverse ++ line)) := by
  have hne : chunk ≠ [] := by
    rintro rfl
    cases hsplit
  rw [fillLine, if_neg (Nat.not_lt.mpr hsize)]
  split
  · rename_i hfault
    rw [hreceive] at hfault
    cases hfault
  · rename_i hchunk
    rw [hreceive] at hchunk
    cases hchunk
    rw [dif_neg hne, hsplit]

theorem fillLine_of_more (hne : chunk ≠ []) (hsplit : splitLine chunk = none) :
    c.fillLine held size = c'.fillLine (chunk.reverseAux held) (size + chunk.length) := by
  rw [fillLine, if_neg (Nat.not_lt.mpr hsize)]
  split
  · rename_i hfault
    rw [hreceive] at hfault
    cases hfault
  · rename_i hchunk
    rw [hreceive] at hchunk
    cases hchunk
    rw [dif_neg hne, hsplit]

end Received

theorem readLine_cutInto (hfresh : c.buffer = []) (segments : List Bytes) :
    (c.cutInto segments).readLine = fillLine ({ c with phase := .reading }.cutInto segments) [] 0 :=
  readLine_of_fresh hfresh

/-- Received at once, a line is read however long it is. -/
theorem readLine_of_one_piece {front rest : Bytes} (hlive : c.peer.closed = false)
    (hfresh : c.buffer = []) (hfront : 0x0A ∉ front)
    (hbuffer : (front ++ 0x0A :: rest).length ≤ c.bufferSize) :
    (c.cutInto [front ++ 0x0A :: rest]).readLine.1 = .ok (some (front ++ [0x0A])) := by
  have hreceive := receive_cutInto (c := { c with phase := .reading }) [] hlive (by simp) hbuffer
  rw [readLine_cutInto hfresh]
  exact fillLine_of_line (Nat.zero_le _) hreceive (splitLine_of_mem hfront rest)

/-- Received up to where the longest line that is allowed would end, a longer one is refused. -/
theorem readLine_of_two_pieces (hlive : c.peer.closed = false) (hfresh : c.buffer = [])
    (hsize : c.maxLine < bytes.length) (hfront : 0x0A ∉ bytes.take (c.maxLine + 1))
    (hbuffer : c.maxLine + 1 ≤ c.bufferSize) :
    (c.cutInto [bytes.take (c.maxLine + 1), bytes.drop (c.maxLine + 1)]).readLine.1 =
      .error (.lineTooLong c.maxLine) := by
  have hlength : (bytes.take (c.maxLine + 1)).length = c.maxLine + 1 := by
    rw [List.length_take]
    omega
  have hne : bytes.take (c.maxLine + 1) ≠ [] := by
    intro hnil
    rw [hnil] at hlength
    cases hlength
  have hreceive := receive_cutInto (c := { c with phase := .reading }) [bytes.drop (c.maxLine + 1)]
    hlive hne (hlength ▸ hbuffer)
  have hlong : c.maxLine < 0 + (bytes.take (c.maxLine + 1)).length := by omega
  rw [readLine_cutInto hfresh, fillLine_of_more (Nat.zero_le _) hreceive hne
    (splitLine_eq_none.mpr hfront)]
  exact fillLine_of_excess hlong

end Connection

/-! ## What follows the line -/

namespace Peer

/-- What is left of segments once all that comes before a failure, and the failure, has been received. -/
def leftOver : List Segment → List Segment
  | [] => []
  | .failure _ :: rest => rest
  | .data _ :: rest => leftOver rest

/-- The other end once all that it had to say has been received. -/
def exhausted (p : Peer) : Peer :=
  if p.closed then p else { p with inbound := leftOver p.inbound }

theorem exhausted_of_open {p : Peer} (h : p.closed = false) :
    p.exhausted = { p with inbound := leftOver p.inbound } := by
  simp [exhausted, h]

theorem takeInbound_leftOver (size : Nat) (segments : List Segment) :
    match takeInbound size segments with
    | (.ok bytes, rest) => leftOver rest = leftOver segments ∧ (1 ≤ size → bytes = [] → rest = [])
    | (.error _, rest) => rest = leftOver segments := by
  fun_induction takeInbound size segments with
  | case1 => exact ⟨rfl, fun _ _ => rfl⟩
  | case2 fault rest => rfl
  | case3 rest ih => exact ih
  | case4 b bs rest =>
    refine ⟨rfl, fun hsize hnil => ?_⟩
    rw [List.take_eq_nil_iff] at hnil
    rcases hnil with hzero | hcons
    · omega
    · cases hcons

theorem exhausted_of_ok {p p' : Peer} {size : Nat} {bytes : Bytes}
    (h : p.receive size = (.ok bytes, p')) :
    p'.exhausted = p.exhausted ∧ (1 ≤ size → bytes = [] → p' = p.exhausted) := by
  by_cases hclosed : p.closed = true
  · rw [receive_of_closed hclosed] at h
    cases h
  · have hopen := Bool.eq_false_iff.mpr hclosed
    rw [receive_of_open hopen] at h
    obtain ⟨hbytes, rfl⟩ := Prod.mk.inj h
    have hstep := takeInbound_leftOver size p.inbound
    rw [← Prod.eta (takeInbound size p.inbound), hbytes] at hstep
    obtain ⟨hsame, hend⟩ := hstep
    refine ⟨?_, fun hsize hnil => ?_⟩
    · simp [exhausted, hopen, hsame]
    · rw [hend hsize hnil] at hsame ⊢
      simp [exhausted, hopen, ← hsame, leftOver]

theorem exhausted_of_error {p p' : Peer} {size : Nat} {fault : Fault}
    (h : p.receive size = (.error fault, p')) : p' = p.exhausted := by
  by_cases hclosed : p.closed = true
  · rw [receive_of_closed hclosed] at h
    cases h
    simp [exhausted, hclosed]
  · have hopen := Bool.eq_false_iff.mpr hclosed
    rw [receive_of_open hopen] at h
    obtain ⟨hfault, rfl⟩ := Prod.mk.inj h
    have hstep := takeInbound_leftOver size p.inbound
    rw [← Prod.eta (takeInbound size p.inbound), hfault] at hstep
    simp [exhausted, hopen, hstep]

end Peer

namespace Connection

variable {c c' : Connection}

/-- The connection once all that arrives has been received and counted. -/
def exhausted (c : Connection) : Connection :=
  { c with
    peer := c.peer.exhausted, bytesReceived := c.bytesReceived + c.peer.arriving.bytes.length }

theorem exhausted_of_ok {size : Nat} {bytes : Bytes} (h : c.receive size = (.ok bytes, c')) :
    c'.exhausted = c.exhausted ∧ (1 ≤ size → bytes = [] → c' = c.exhausted) := by
  unfold receive at h
  split at h
  · rename_i bytes' peer hreceive
    cases h
    obtain ⟨hsame, hlast⟩ := Peer.exhausted_of_ok hreceive
    obtain ⟨harriving, _⟩ := Peer.receive_ok hreceive
    refine ⟨?_, fun hsize hnil => ?_⟩
    · simp only [exhausted, hsame, harriving, Incoming.after, List.length_append, Nat.add_assoc]
    · have hend := (Peer.receive_ok hreceive).2 hsize hnil
      simp only [exhausted, ← hlast hsize hnil, harriving, hend, Incoming.after, List.append_nil]
  · cases h

theorem exhausted_of_error {size : Nat} {fault : Fault} (h : c.receive size = (.error fault, c')) :
    c' = c.exhausted := by
  unfold receive at h
  split at h
  · cases h
  · rename_i fault' peer hreceive
    cases h
    rw [exhausted, ← Peer.exhausted_of_error hreceive, Peer.receive_error hreceive]
    rfl

theorem takeLive_exhausted {size : Nat} (hsize : 1 ≤ size) (before : List Bytes) :
    (c.takeLive size before).2 = c.exhausted := by
  fun_induction takeLive c size before with
  | case1 c before fault c' hreceive => exact exhausted_of_error hreceive
  | case2 c before c' hreceive => exact (exhausted_of_ok hreceive).2 hsize rfl
  | case3 c before chunk c' hreceive hne ih => rw [ih, (exhausted_of_ok hreceive).1]

/-- What is taken, and what becomes of the connection, does not depend on the size of the pieces. -/
theorem takeBody_exhausted {size : Nat} (hsize : 1 ≤ size) :
    (c.takeBody size).2 = { c with phase := .receiving, buffer := [] }.exhausted :=
  takeLive_exhausted hsize _

end Connection

end FileExchange
