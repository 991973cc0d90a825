import FileExchange.Proofs.Connection.Conservation
import Mathlib.Logic.Function.Iterate

/-!
# Bounds of a line

Reading a line as it goes on, one reception after the other. The buffer never holds more than a line may have and
one reception on top of it, a line that is short enough is read however it is cut, and a stream is refused only
for more bytes than a line may have, all of which are still there.
-/

set_option autoImplicit false

namespace FileExchange

namespace Connection

/-! ## Rounds -/

/-- A line that is being read: it goes on with what is in the buffer, or it has come to its end. -/
inductive Reading where
  | goesOn (c : Connection)
  | ended (result : Except Failure (Option Bytes)) (c : Connection)

/-- One round: a line in the buffer is cut off it. Without one the buffer is too long or takes in what is received. -/
def round (c : Connection) : Reading :=
  match splitLine c.buffer with
  | some (line, rest) => .ended (.ok (some line)) { c with buffer := rest }
  | none =>
    if c.maxLine < c.buffer.length then .ended (.error (.lineTooLong c.maxLine)) c
    else
      match c.receive c.bufferSize with
      | (.error fault, c) => .ended (.error (.system fault)) c
      | (.ok chunk, c) =>
        if chunk = [] then
          .ended (.ok (if c.buffer.isEmpty then none else some c.buffer)) { c with buffer := [] }
        else .goesOn { c with buffer := c.buffer ++ chunk }

namespace Reading

def connection : Reading → Connection
  | .goesOn c => c
  | .ended _ c => c

def next : Reading → Reading
  | .goesOn c => c.round
  | .ended result c => .ended result c

end Reading

/-- How far a line is read after so many rounds. -/
def readingAfter (c : Connection) (rounds : Nat) : Reading :=
  Reading.next^[rounds] (.goesOn { c with phase := .reading })

/-! ## Rounds come to the line -/

theorem splitLine_append_of_notMem {front : Bytes} (hfront : 0x0A ∉ front) (bytes : Bytes) :
    splitLine (front ++ bytes) = (splitLine bytes).map fun cut => (front ++ cut.1, cut.2) := by
  induction front with
  | nil => simp
  | cons b front ih =>
    rw [List.mem_cons, not_or] at hfront
    rw [List.cons_append, splitLine_cons, if_neg (Ne.symm hfront.1), ih hfront.2, Option.map_map]
    rfl

/-- Receiving does not look at the buffer. -/
theorem receive_with_buffer (c : Connection) (buffer : Bytes) (size : Nat) :
    ({ c with buffer } : Connection).receive size =
      ((c.receive size).1, { (c.receive size).2 with buffer }) := by
  unfold receive
  dsimp only
  split <;> rfl

section Round

variable {c c' : Connection} {held : Bytes} (hheld : 0x0A ∉ held)

include hheld

theorem round_of_long (hlong : c.maxLine < held.length) :
    ({ c with buffer := held } : Connection).round =
      .ended (.error (.lineTooLong c.maxLine)) { c with buffer := held } := by
  simp [round, splitLine_eq_none.mpr hheld, hlong]

variable (hsize : ¬ c.maxLine < held.length)

include hsize

theorem round_of_fault {fault : Fault} (hreceive : c.receive c.bufferSize = (.error fault, c')) :
    ({ c with buffer := held } : Connection).round =
      .ended (.error (.system fault)) { c' with buffer := held } := by
  simp [round, splitLine_eq_none.mpr hheld, hsize, receive_with_buffer, hreceive]

theorem round_of_end (hreceive : c.receive c.bufferSize = (.ok [], c')) :
    ({ c with buffer := held } : Connection).round =
      .ended (.ok (if held.isEmpty then none else some held)) { c' with buffer := [] } := by
  simp [round, splitLine_eq_none.mpr hheld, hsize, receive_with_buffer, hreceive]

theorem round_of_chunk {chunk : Bytes} (hreceive : c.receive c.bufferSize = (.ok chunk, c'))
    (hne : chunk ≠ []) :
    ({ c with buffer := held } : Connection).round = .goesOn { c' with buffer := held ++ chunk } := by
  simp [round, splitLine_eq_none.mpr hheld, hsize, receive_with_buffer, hreceive, hne]

end Round

theorem round_of_line {c : Connection} {line rest : Bytes} (h : splitLine c.buffer = some (line, rest)) :
    c.round = .ended (.ok (some line)) { c with buffer := rest } := by
  simp [round, h]

/-- Filling a line up is going round until the line has come to its end. -/
theorem exists_rounds_fillLine (c : Connection) {held : Bytes} (hheld : 0x0A ∉ held.reverse) {size : Nat}
    (hsize : size = held.length) :
    ∃ rounds, Reading.next^[rounds] (.goesOn { c with buffer := held.reverse }) =
      .ended (c.fillLine held size).1 (c.fillLine held size).2 := by
  fun_induction fillLine c held size with
  | case1 c held size hlong =>
    rw [hsize, ← List.length_reverse] at hlong
    exact ⟨1, round_of_long hheld hlong⟩
  | case2 c held size hlong fault c' hreceive =>
    rw [hsize, ← List.length_reverse] at hlong
    exact ⟨1, round_of_fault hheld hlong hreceive⟩
  | case3 c held size hlong c' hreceive =>
    rw [hsize, ← List.length_reverse] at hlong
    refine ⟨1, (round_of_end hheld hlong hreceive).trans ?_⟩
    rw [List.isEmpty_reverse]
  | case4 c held size hlong chunk c' hreceive hne line rest hsplit =>
    -- The line feed is received in one round and found in the next.
    rw [hsize, ← List.length_reverse] at hlong
    refine ⟨2, ?_⟩
    have hfirst := round_of_chunk hheld hlong hreceive hne
    have hsecond : ({ c' with buffer := held.reverse ++ chunk } : Connection).round =
        .ended (.ok (some (held.reverse ++ line))) { c' with buffer := rest } := by
      refine round_of_line (c := { c' with buffer := held.reverse ++ chunk }) ?_
      rw [splitLine_append_of_notMem hheld, hsplit]
      rfl
    exact (congrArg Reading.next hfirst).trans hsecond
  | case5 c held size hlong chunk c' hreceive hne hsplit ih =>
    have hlonger : (chunk.reverseAux held).reverse = held.reverse ++ chunk := by
      rw [List.reverseAux_eq, List.reverse_append, List.reverse_reverse]
    have hheld' : 0x0A ∉ (chunk.reverseAux held).reverse := by
      rw [hlonger, List.mem_append, not_or]
      exact ⟨hheld, splitLine_eq_none.mp hsplit⟩
    obtain ⟨rounds, hrounds⟩ := ih hheld' (by simp [List.reverseAux_eq, hsize, Nat.add_comm])
    rw [hsize, ← List.length_reverse] at hlong
    refine ⟨rounds + 1, ?_⟩
    rw [Function.iterate_succ_apply, Reading.next, round_of_chunk hheld hlong hreceive hne, ← hlonger]
    exact hrounds

/-- Reading a line ends after some number of rounds, with what they come to. -/
theorem exists_rounds_readLine (c : Connection) :
    ∃ rounds, c.readingAfter rounds = .ended c.readLine.1 c.readLine.2 := by
  unfold readLine readingAfter
  dsimp only
  split
  · rename_i line rest hsplit
    exact ⟨1, round_of_line (c := { c with phase := .reading }) hsplit⟩
  · rename_i hsplit
    have hheld : 0x0A ∉ c.buffer.reverse.reverse := by
      rw [List.reverse_reverse]
      exact splitLine_eq_none.mp hsplit
    have hrounds := exists_rounds_fillLine { c with phase := .reading } hheld List.length_reverse.symm
    rwa [List.reverse_reverse] at hrounds

/-! ## The buffer -/

/-- The limits are those of the beginning, and the buffer holds no more than both together. -/
structure Reading.Fits (maxLine bufferSize : Nat) (r : Reading) : Prop where
  maxLine_eq : r.connection.maxLine = maxLine
  bufferSize_eq : r.connection.bufferSize = bufferSize
  length_le : r.connection.buffer.length ≤ maxLine + bufferSize

theorem fits_round {c : Connection} {maxLine bufferSize : Nat}
    (h : (Reading.goesOn c).Fits maxLine bufferSize) : c.round.Fits maxLine bufferSize := by
  obtain ⟨hmax, hbuffer, hlength⟩ := h
  unfold round
  split
  · rename_i line rest hsplit
    have hbytes : c.buffer = line ++ rest := splitLine_eq_some hsplit
    have hrest : rest.length ≤ c.buffer.length := by rw [hbytes, List.length_append]; omega
    exact ⟨hmax, hbuffer, hrest.trans hlength⟩
  · split
    · exact ⟨hmax, hbuffer, hlength⟩
    · rename_i hshort
      have hheld : c.buffer.length ≤ maxLine := (Nat.le_of_not_lt hshort).trans hmax.le
      split
      · rename_i fault c' hreceive
        obtain ⟨_, hframe⟩ := receive_error hreceive
        rw [hframe]
        exact ⟨hmax, hbuffer, hlength⟩
      · rename_i chunk c' hreceive
        obtain ⟨_, _, hframe⟩ := receive_ok hreceive
        have hchunk : chunk.length ≤ bufferSize := (length_le_of_receive hreceive).trans hbuffer.le
        rw [hframe]
        split
        · exact ⟨hmax, hbuffer, Nat.zero_le _⟩
        · refine ⟨hmax, hbuffer, ?_⟩
          calc (c.buffer ++ chunk).length = c.buffer.length + chunk.length := List.length_append
            _ ≤ maxLine + bufferSize := Nat.add_le_add hheld hchunk

theorem Reading.Fits.next {r : Reading} {maxLine bufferSize : Nat} (h : r.Fits maxLine bufferSize) :
    r.next.Fits maxLine bufferSize := by
  cases r with
  | goesOn c => exact fits_round h
  | ended result c => exact h

theorem fits_readingAfter {c : Connection} (hfresh : c.buffer = []) (rounds : Nat) :
    (c.readingAfter rounds).Fits c.maxLine c.bufferSize := by
  induction rounds with
  | zero => exact ⟨rfl, rfl, by simp [readingAfter, Reading.connection, hfresh]⟩
  | succ rounds ih =>
    rw [readingAfter, Function.iterate_succ_apply']
    exact ih.next

/-! ## Lines that are refused -/

/-- What is refused for its length is in the buffer, without a line feed. -/
theorem long_of_fillLine {c : Connection} {held : Bytes} (hheld : 0x0A ∉ held) {size limit : Nat}
    (hsize : size = held.length) (h : (c.fillLine held size).1 = .error (.lineTooLong limit)) :
    0x0A ∉ (c.fillLine held size).2.buffer ∧ c.maxLine < (c.fillLine held size).2.buffer.length ∧
      c.peer.arriving.after held.reverse = (c.fillLine held size).2.pending := by
  fun_induction fillLine c held size with
  | case1 c held size hlong =>
    refine ⟨by simpa using hheld, by simpa [hsize] using hlong, rfl⟩
  | case2 => cases h
  | case3 => cases h
  | case4 => cases h
  | case5 c held size hlong chunk c' hreceive hne hsplit ih =>
    obtain ⟨harriving, _, hframe⟩ := receive_ok hreceive
    have hheld' : 0x0A ∉ chunk.reverseAux held := by
      rw [List.reverseAux_eq, List.mem_append, List.mem_reverse, not_or]
      exact ⟨splitLine_eq_none.mp hsplit, hheld⟩
    have hmax : c'.maxLine = c.maxLine := by rw [hframe]
    obtain ⟨hfeed, hlonger, hpending⟩ := ih hheld' (by simp [List.reverseAux_eq, hsize, Nat.add_comm]) h
    refine ⟨hfeed, hmax ▸ hlonger, ?_⟩
    rw [← hpending, harriving]
    simp [Incoming.after_after, List.reverseAux_eq]

theorem long_of_readLine {c : Connection} (hfresh : c.buffer = []) {limit : Nat}
    (h : c.readLine.1 = .error (.lineTooLong limit)) :
    0x0A ∉ c.readLine.2.buffer ∧ c.maxLine < c.readLine.2.buffer.length ∧
      c.peer.arriving = c.readLine.2.pending := by
  rw [readLine_of_fresh hfresh] at h ⊢
  have hsize : 0 = ([] : Bytes).length := rfl
  exact long_of_fillLine (c := { c with phase := .reading }) List.not_mem_nil hsize h

/-! ## Reading within bounds -/

/-- What reading a line can do. It ends after some number of rounds, and up to then the buffer stays within its
bounds. A line feed that arrives among the first bytes, one more than a line may have, ends the line; a stream that
ends before is the line. What is refused for its length has none among those bytes, and is all still there. -/
structure ReadsWithinBounds (c : Connection) : Prop where
  ends : ∃ rounds, c.readingAfter rounds = .ended c.readLine.1 c.readLine.2
  buffer : ∀ rounds, (c.readingAfter rounds).connection.buffer.length ≤ c.maxLine + c.bufferSize
  line : ∀ front, 0x0A ∉ front → front.length ≤ c.maxLine → front ++ [0x0A] <+: c.peer.arriving.bytes →
    c.readLine.1 = .ok (some (front ++ [0x0A]))
  whole : ∀ bytes, c.peer.arriving = ⟨bytes, none⟩ → 0x0A ∉ bytes → bytes.length ≤ c.maxLine →
    c.readLine.1 = .ok (if bytes.isEmpty then none else some bytes)
  long : ∀ limit, c.readLine.1 = .error (.lineTooLong limit) →
    limit = c.maxLine ∧ 0x0A ∉ c.peer.arriving.bytes.take (c.maxLine + 1) ∧
      c.maxLine < c.readLine.2.buffer.length ∧
      c.peer.arriving.bytes = c.readLine.2.buffer ++ c.readLine.2.peer.arriving.bytes ∧
      c.readLine.2.bytesReceived = c.bytesReceived + c.readLine.2.buffer.length

theorem readsWithinBounds {c : Connection} (hbuffer : 1 ≤ c.bufferSize) (hfresh : c.buffer = []) :
    c.ReadsWithinBounds := by
  refine ⟨c.exists_rounds_readLine, fun rounds => (fits_readingAfter hfresh rounds).length_le, ?_, ?_, ?_⟩
  · rintro front hfront hsize ⟨rest, hbytes⟩
    have hpending : c.pending = ⟨front ++ 0x0A :: rest, c.peer.arriving.fault⟩ := by
      rw [pending, hfresh, Incoming.after_nil, List.append_cons, hbytes]
    exact (readLine_of_pending hbuffer hfront hsize hpending).1
  · intro bytes harriving hfeed hsize
    rw [readLine_of_fresh hfresh]
    have hlength : 0 + bytes.length ≤ c.maxLine := by omega
    exact (fillLine_of_whole (c := { c with phase := .reading }) [] hbuffer hfeed hlength harriving).1
  · intro limit hlong
    obtain ⟨taken, htook, hbytes⟩ := c.conserves_of_readLine
    have hlimit : limit = c.maxLine := by
      rcases readLine_error hlong with ⟨fault, hfault⟩ | hlimit
      · cases hfault
      · cases hlimit
        rfl
    obtain ⟨hfeed, hlonger, hpending⟩ := long_of_readLine hfresh hlong
    rw [hlong, hfresh] at hbytes
    have htaken : taken = c.readLine.2.buffer := hbytes
    have harriving : c.peer.arriving.bytes = c.readLine.2.buffer ++ c.readLine.2.peer.arriving.bytes :=
      congrArg Incoming.bytes hpending
    refine ⟨hlimit, ?_, hlonger, harriving, htaken ▸ htook.count⟩
    rw [harriving, List.take_append_of_le_length hlonger]
    exact fun hmem => hfeed (List.mem_of_mem_take hmem)

/-- Six bytes in two segments, more than a line may have here, then the line feed. -/
def overlong : Connection where
  id := "0"
  clientIp := ""
  bufferSize := 3
  maxLine := 4
  peer := { inbound := [.data [97, 98], .data [99, 100, 101, 10], .failure (.plain .connectionReset)] }

/-- One more byte than a line may have is received, and then no more, though the line feed is next. -/
theorem readsWithinBounds_overlong :
    1 ≤ overlong.bufferSize ∧ overlong.buffer = [] ∧ overlong.ReadsWithinBounds ∧
      overlong.readLine.1 = .error (.lineTooLong 4) ∧ overlong.readLine.2.buffer = [97, 98, 99, 100, 101] := by
  have hbuffer : 1 ≤ overlong.bufferSize := by decide
  exact ⟨hbuffer, rfl, readsWithinBounds hbuffer rfl, by decide +kernel, by decide +kernel⟩

end Connection

end FileExchange
