import FileExchange.Proofs.Stream
import Mathlib.Data.List.Basic

/-!
# Lines that arrive

A line that is not too long is read whole, however its bytes and those behind it are cut into segments.
-/

set_option autoImplicit false

namespace FileExchange

theorem Incoming.ofSegments_data (segments : List Bytes) :
    ofSegments (segments.map .data) = ⟨segments.flatten, none⟩ := by
  induction segments with
  | nil => rfl
  | cons bytes segments ih =>
    rw [List.map_cons, ofSegments, ih]
    rfl

namespace Connection

variable {c : Connection}

/-- Nothing has been read yet, and these bytes come, cut in any way, before the stream ends. -/
structure Brings (c : Connection) (bytes : Bytes) : Prop where
  live : c.peer.closed = false
  fresh : c.buffer = []
  inbound : ∃ segments : List Bytes, c.peer.inbound = segments.map .data ∧ segments.flatten = bytes

theorem Brings.arriving {bytes : Bytes} (h : c.Brings bytes) : c.peer.arriving = ⟨bytes, none⟩ := by
  obtain ⟨segments, hinbound, hbytes⟩ := h.inbound
  rw [Peer.arriving, h.live, hinbound, Incoming.ofSegments_data, hbytes]
  rfl

theorem Brings.pending {bytes : Bytes} (h : c.Brings bytes) : c.pending = ⟨bytes, none⟩ := by
  rw [Connection.pending, h.arriving, h.fresh]
  rfl

/-! ## The first line feed -/

theorem splitLine_cons (b : UInt8) (bytes : Bytes) :
    splitLine (b :: bytes) =
      if b = 0x0A then some ([b], bytes) else (splitLine bytes).map fun cut => (b :: cut.1, cut.2) := by
  by_cases hb : b = 0x0A
  · subst hb
    rfl
  · rw [if_neg hb]
    simp only [splitLine, List.takeWhile_cons, bne_iff_ne.mpr hb, if_true, List.length_cons,
      List.drop_succ_cons]
    cases bytes.drop (bytes.takeWhile (· != 0x0A)).length <;> rfl

theorem splitLine_eq_none {bytes : Bytes} : splitLine bytes = none ↔ 0x0A ∉ bytes := by
  induction bytes with
  | nil => simp [splitLine]
  | cons b bytes ih =>
    rw [splitLine_cons, List.mem_cons, not_or, ← ih]
    split
    · rename_i hb
      simp [hb]
    · rename_i hb
      rw [Option.map_eq_none_iff]
      exact ⟨fun hnone => ⟨Ne.symm hb, hnone⟩, fun h => h.2⟩

theorem splitLine_of_mem {front : Bytes} (hfront : 0x0A ∉ front) (rest : Bytes) :
    splitLine (front ++ 0x0A :: rest) = some (front ++ [0x0A], rest) := by
  induction front with
  | nil => rfl
  | cons b front ih =>
    rw [List.mem_cons, not_or] at hfront
    rw [List.cons_append, splitLine_cons, if_neg (Ne.symm hfront.1), ih hfront.2]
    rfl

theorem splitLine_append {bytes line rest : Bytes} (h : splitLine bytes = some (line, rest))
    (more : Bytes) : splitLine (bytes ++ more) = some (line, rest ++ more) := by
  induction bytes generalizing line with
  | nil => cases h
  | cons b bytes ih =>
    rw [splitLine_cons] at h
    rw [List.cons_append, splitLine_cons]
    split at h
    · rename_i hb
      cases h
      rw [if_pos hb]
    · rename_i hb
      obtain ⟨⟨line', rest'⟩, hcut, hpair⟩ := Option.map_eq_some_iff.mp h
      cases hpair
      rw [if_neg hb, ih hcut]
      rfl

/-- A piece of the stream without a line feed ends before the line does. -/
theorem append_eq_of_notMem {chunk more front rest : Bytes} (hchunk : 0x0A ∉ chunk)
    (h : front ++ 0x0A :: rest = chunk ++ more) :
    ∃ left, front = chunk ++ left ∧ more = left ++ 0x0A :: rest := by
  rcases List.append_eq_append_iff.mp h with ⟨left, hchunk', hrest⟩ | ⟨left, hfront, hmore⟩
  · cases left with
    | nil => exact ⟨[], by simpa using hchunk'.symm, hrest.symm⟩
    | cons b left =>
      cases hrest
      rw [hchunk'] at hchunk
      simp at hchunk
  · exact ⟨left, hfront, hmore⟩

/-! ## One reception -/

section Reception

variable {c' : Connection} {front chunk : Bytes} {size : Nat} {fault : Option Fault}
  (harriving : c.peer.arriving = ⟨front, fault⟩)

include harriving

/-- What is received is the front of what arrives, and the rest still arrives. -/
theorem receive_front (h : c.receive size = (.ok chunk, c')) :
    ∃ rest, front = chunk ++ rest ∧ c'.peer.arriving = ⟨rest, fault⟩ ∧
      c'.bufferSize = c.bufferSize ∧ c'.maxLine = c.maxLine := by
  obtain ⟨hmore, _, hframe⟩ := receive_ok h
  rw [harriving] at hmore
  have hfault : c'.peer.arriving.fault = fault := (congrArg Incoming.fault hmore).symm
  refine ⟨c'.peer.arriving.bytes, congrArg Incoming.bytes hmore, ?_, ?_, ?_⟩
  · exact congrArg (Incoming.mk c'.peer.arriving.bytes) hfault
  · rw [hframe]
  · rw [hframe]

theorem receive_end (hsize : 1 ≤ size) (h : c.receive size = (.ok [], c')) :
    front = [] ∧ c'.peer.arriving = ⟨[], none⟩ := by
  obtain ⟨hmore, hend, _⟩ := receive_ok h
  have hended := hend hsize rfl
  rw [hended, harriving] at hmore
  exact ⟨congrArg Incoming.bytes hmore, hended⟩

theorem receive_fault {f : Fault} (h : c.receive size = (.error f, c')) :
    front = [] ∧ fault = some f := by
  have hnone := harriving.symm.trans (receive_error h).1
  exact ⟨congrArg Incoming.bytes hnone, congrArg Incoming.fault hnone⟩

end Reception

/-! ## Reading the line -/

/-- A line that ends in a line feed is read although the stream may fail later. -/
theorem fillLine_of_arriving {held front rest : Bytes} {size : Nat} {fault : Option Fault}
    (hbuffer : 1 ≤ c.bufferSize) (hfront : 0x0A ∉ front) (hsize : size + front.length ≤ c.maxLine)
    (harriving : c.peer.arriving = ⟨front ++ 0x0A :: rest, fault⟩) :
    (c.fillLine held size).1 = .ok (some (held.reverse ++ front ++ [0x0A])) := by
  fun_induction fillLine c held size generalizing front with
  | case1 c held size hlong => omega
  | case2 c held size hlong e c' hreceive =>
    have hnone := (receive_fault harriving hreceive).1
    simp at hnone
  | case3 c held size hlong c' hreceive =>
    have hnone := (receive_end harriving hbuffer hreceive).1
    simp at hnone
  | case4 c held size hlong chunk c' hreceive hne line rest' hsplit =>
    obtain ⟨left, hbytes, _⟩ := receive_front harriving hreceive
    have hline : splitLine (front ++ 0x0A :: rest) = some (line, rest' ++ left) := by
      rw [hbytes]
      exact splitLine_append hsplit _
    rw [splitLine_of_mem hfront] at hline
    cases hline
    rw [List.append_assoc]
  | case5 c held size hlong chunk c' hreceive hne hsplit ih =>
    obtain ⟨later, hbytes, harriving', hsame, hmax⟩ := receive_front harriving hreceive
    obtain ⟨left, rfl, rfl⟩ := append_eq_of_notMem (splitLine_eq_none.mp hsplit) hbytes
    have hsize' : size + chunk.length + left.length ≤ c'.maxLine := by
      rw [hmax]
      rw [List.length_append] at hsize
      omega
    have hleft : 0x0A ∉ left := fun hmem => hfront (List.mem_append_right _ hmem)
    rw [ih (hsame ▸ hbuffer) hleft hsize' harriving']
    simp

/-- A stream that ends before its first line does is the line, unless it is empty. -/
theorem fillLine_of_whole (held : Bytes) {front : Bytes} {size : Nat} (hbuffer : 1 ≤ c.bufferSize)
    (hfront : 0x0A ∉ front) (hsize : size + front.length ≤ c.maxLine)
    (harriving : c.peer.arriving = ⟨front, none⟩) :
    (c.fillLine held size).1 =
        .ok (if (held.reverse ++ front).isEmpty then none else some (held.reverse ++ front)) ∧
      (c.fillLine held size).2.pending = ⟨[], none⟩ := by
  fun_induction fillLine c held size generalizing front with
  | case1 c held size hlong => omega
  | case2 c held size hlong e c' hreceive => cases (receive_fault harriving hreceive).2
  | case3 c held size hlong c' hreceive =>
    obtain ⟨rfl, hended⟩ := receive_end harriving hbuffer hreceive
    exact ⟨by simp, congrArg (Incoming.after []) hended⟩
  | case4 c held size hlong chunk c' hreceive hne line rest hsplit =>
    obtain ⟨left, rfl, _⟩ := receive_front harriving hreceive
    rw [splitLine_eq_none.mpr fun hmem => hfront (List.mem_append_left _ hmem)] at hsplit
    cases hsplit
  | case5 c held size hlong chunk c' hreceive hne hsplit ih =>
    obtain ⟨left, rfl, harriving', hsame, hmax⟩ := receive_front harriving hreceive
    have hleft : 0x0A ∉ left := fun hmem => hfront (List.mem_append_right _ hmem)
    have hsize' : size + chunk.length + left.length ≤ c'.maxLine := by
      rw [hmax]
      rw [List.length_append] at hsize
      omega
    obtain ⟨hresult, hpending⟩ := ih (hsame ▸ hbuffer) hleft hsize' harriving'
    refine ⟨?_, hpending⟩
    rw [hresult]
    simp

theorem readLine_of_fresh (h : c.buffer = []) :
    c.readLine = fillLine { c with phase := .reading } [] 0 := by
  unfold readLine
  dsimp only
  rw [h]
  rfl

/-- A line is read, whatever part of it is in the buffer already, and what comes behind it is left. -/
theorem readLine_of_pending {front rest : Bytes} {fault : Option Fault} (hbuffer : 1 ≤ c.bufferSize)
    (hfront : 0x0A ∉ front) (hsize : front.length ≤ c.maxLine)
    (h : c.pending = ⟨front ++ 0x0A :: rest, fault⟩) :
    c.readLine.1 = .ok (some (front ++ [0x0A])) ∧ c.readLine.2.pending = ⟨rest, fault⟩ := by
  have hbytes : front ++ 0x0A :: rest = c.buffer ++ c.peer.arriving.bytes := (congrArg Incoming.bytes h).symm
  have hline : c.readLine.1 = .ok (some (front ++ [0x0A])) := by
    unfold readLine
    dsimp only
    split
    · rename_i line rest' hsplit
      have hwhole := splitLine_append hsplit c.peer.arriving.bytes
      rw [← hbytes, splitLine_of_mem hfront] at hwhole
      cases hwhole
      rfl
    · rename_i hsplit
      obtain ⟨left, rfl, harriving⟩ := append_eq_of_notMem (splitLine_eq_none.mp hsplit) hbytes
      rw [List.length_append] at hsize
      have hleft : 0x0A ∉ left := fun hmem => hfront (List.mem_append_right _ hmem)
      have hfault : c.peer.arriving.fault = fault := congrArg Incoming.fault h
      have hcomes : c.peer.arriving = ⟨left ++ 0x0A :: rest, fault⟩ := by rw [← harriving, ← hfault]
      have hfill : (fillLine { c with phase := .reading } c.buffer.reverse c.buffer.length).1 =
          .ok (some (c.buffer.reverse.reverse ++ left ++ [0x0A])) :=
        fillLine_of_arriving hbuffer hleft hsize hcomes
      rwa [List.reverse_reverse] at hfill
  refine ⟨hline, ?_⟩
  have hpending := readLine_pending hline
  rw [h] at hpending
  have hleft := congrArg Incoming.bytes hpending
  have hfault := congrArg Incoming.fault hpending
  simp only [Incoming.after, List.append_assoc, List.singleton_append, List.append_cancel_left_eq,
    List.cons.injEq, true_and] at hleft hfault
  rw [hleft, hfault]

theorem Brings.readLine {front rest : Bytes} (h : c.Brings (front ++ 0x0A :: rest))
    (hbuffer : 1 ≤ c.bufferSize) (hfront : 0x0A ∉ front) (hsize : front.length ≤ c.maxLine) :
    c.readLine.1 = .ok (some (front ++ [0x0A])) ∧ c.readLine.2.pending = ⟨rest, none⟩ :=
  readLine_of_pending hbuffer hfront hsize h.pending

theorem Brings.readLine_of_whole {front : Bytes} (h : c.Brings front) (hbuffer : 1 ≤ c.bufferSize)
    (hfront : 0x0A ∉ front) (hsize : front.length ≤ c.maxLine) :
    c.readLine.1 = .ok (if front.isEmpty then none else some front) ∧
      c.readLine.2.pending = ⟨[], none⟩ := by
  have hlength : 0 + front.length ≤ c.maxLine := by omega
  rw [readLine_of_fresh h.fresh]
  exact fillLine_of_whole (c := { c with phase := .reading }) [] hbuffer hfront hlength h.arriving

/-- A line that only the end of the stream ends. -/
theorem Brings.readLine_of_ending {front : Bytes} (h : c.Brings front) (hbuffer : 1 ≤ c.bufferSize)
    (hfront : 0x0A ∉ front) (hsize : front.length ≤ c.maxLine) (hne : front ≠ []) :
    c.readLine.1 = .ok (some front) := by
  rw [(h.readLine_of_whole hbuffer hfront hsize).1, if_neg (mt List.isEmpty_iff.mp hne)]

end Connection

end FileExchange
