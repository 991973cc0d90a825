import FileExchange.Proofs.Arrival
import FileExchange.Proofs.Serve.Accounting

/-!
# Every byte once

A connection is read in two ways: line by line, and in pieces until the stream ends. Whatever is read, in which
order and however it fails, what has been handed over followed by what is in the buffer is what has been taken
from the socket.
-/

set_option autoImplicit false

namespace FileExchange

namespace Peer

theorem length_le_of_takeInbound {size : Nat} {segments : List Segment} {bytes : Bytes}
    (h : (takeInbound size segments).1 = .ok bytes) : bytes.length ≤ size := by
  fun_induction takeInbound size segments with
  | case1 => cases h; exact Nat.zero_le _
  | case2 => cases h
  | case3 rest ih => exact ih h
  | case4 b bs rest => cases h; exact List.length_take_le _ _

theorem length_le_of_receive {p p' : Peer} {size : Nat} {bytes : Bytes}
    (h : p.receive size = (.ok bytes, p')) : bytes.length ≤ size := by
  by_cases hclosed : p.closed = true
  · rw [receive_of_closed hclosed] at h
    cases h
  · rw [receive_of_open (Bool.eq_false_iff.mpr hclosed)] at h
    exact length_le_of_takeInbound (congrArg Prod.fst h)

end Peer

namespace Connection

/-- What was in the buffer and what has been taken since has been handed over or is in the buffer. -/
def Conserves (c c' : Connection) (handed : Bytes) : Prop :=
  ∃ taken, Took c c' taken ∧ c.buffer ++ taken = handed ++ c'.buffer

theorem conserves_of_buffer (c : Connection) (phase : Phase) {handed rest : Bytes} (h : c.buffer = handed ++ rest) :
    Conserves c { c with phase, buffer := rest } handed :=
  ⟨[], .nothing rfl rfl, by rw [List.append_nil, h]⟩

/-- The phase does not matter. -/
theorem Conserves.of_phase {c c' : Connection} {phase : Phase} {handed : Bytes}
    (h : Conserves { c with phase } c' handed) : Conserves c c' handed := by
  obtain ⟨taken, htook, hbytes⟩ := h
  exact ⟨taken, ⟨htook.waiting, htook.count⟩, hbytes⟩

theorem Conserves.trans {c c' c'' : Connection} {first second : Bytes} (h : Conserves c c' first)
    (h' : Conserves c' c'' second) : Conserves c c'' (first ++ second) := by
  obtain ⟨taken, htook, hbytes⟩ := h
  obtain ⟨taken', htook', hbytes'⟩ := h'
  refine ⟨taken ++ taken', htook.trans htook', ?_⟩
  rw [← List.append_assoc, hbytes, List.append_assoc, hbytes', List.append_assoc]

/-! ## Lines -/

/-- The bytes of a line, if there is one. -/
def lineBytes : Except Failure (Option Bytes) → Bytes
  | .ok (some line) => line
  | .ok none | .error _ => []

/-- A line has a line feed at its end or none. -/
def IsLine (line : Bytes) : Prop :=
  0x0A ∉ line.dropLast

theorem isLine_of_notMem {line : Bytes} (h : 0x0A ∉ line) : IsLine line :=
  fun hmem => h ((List.dropLast_sublist line).subset hmem)

theorem notMem_dropLast_of_splitLine {bytes line rest : Bytes} (h : splitLine bytes = some (line, rest)) :
    ∃ front b, line = front ++ [b] ∧ 0x0A ∉ front := by
  unfold splitLine at h
  dsimp only at h
  split at h
  · cases h
  · rename_i b tail hdrop
    cases h
    refine ⟨_, b, rfl, fun hmem => ?_⟩
    exact absurd (List.mem_takeWhile_imp hmem) (by decide)

theorem isLine_of_splitLine {held bytes line rest : Bytes} (hheld : 0x0A ∉ held)
    (h : splitLine bytes = some (line, rest)) : IsLine (held ++ line) := by
  obtain ⟨front, b, rfl, hfront⟩ := notMem_dropLast_of_splitLine h
  rw [IsLine, ← List.append_assoc, List.dropLast_concat, List.mem_append, not_or]
  exact ⟨hheld, hfront⟩

theorem conserves_of_fillLine (c : Connection) (held : Bytes) (size : Nat) :
    ∃ taken, Took c (c.fillLine held size).2 taken ∧
      held.reverse ++ taken = lineBytes (c.fillLine held size).1 ++ (c.fillLine held size).2.buffer := by
  fun_induction fillLine c held size with
  | case1 c held size hlong => exact ⟨[], .nothing rfl rfl, List.append_nil _⟩
  | case2 c held size hlong fault c' hreceive =>
    have htook := took_of_receive_error hreceive
    exact ⟨[], ⟨htook.waiting, htook.count⟩, List.append_nil _⟩
  | case3 c held size hlong c' hreceive =>
    have htook := took_of_receive_ok hreceive
    refine ⟨[], ⟨htook.waiting, htook.count⟩, ?_⟩
    cases held with
    | nil => rfl
    | cons b held => rfl
  | case4 c held size hlong chunk c' hreceive hne line rest hsplit =>
    have htook := took_of_receive_ok hreceive
    refine ⟨chunk, ⟨htook.waiting, htook.count⟩, ?_⟩
    rw [splitLine_eq_some hsplit, lineBytes, List.append_assoc]
  | case5 c held size hlong chunk c' hreceive hne hsplit ih =>
    obtain ⟨more, hmore, hbytes⟩ := ih
    refine ⟨chunk ++ more, (took_of_receive_ok hreceive).trans hmore, ?_⟩
    rw [← hbytes, List.reverseAux_eq, List.reverse_append, List.reverse_reverse, List.append_assoc]

theorem isLine_of_fillLine {c : Connection} {held : Bytes} (hheld : 0x0A ∉ held) {size : Nat} {line : Bytes}
    (h : (c.fillLine held size).1 = .ok (some line)) : IsLine line := by
  fun_induction fillLine c held size with
  | case1 => cases h
  | case2 => cases h
  | case3 c held size hlong c' hreceive =>
    split at h
    · cases h
    · cases h
      exact isLine_of_notMem (by simpa using hheld)
  | case4 c held size hlong chunk c' hreceive hne line' rest hsplit =>
    cases h
    exact isLine_of_splitLine (by simpa using hheld) hsplit
  | case5 c held size hlong chunk c' hreceive hne hsplit ih =>
    refine ih ?_ h
    rw [List.reverseAux_eq, List.mem_append, List.mem_reverse, not_or]
    exact ⟨splitLine_eq_none.mp hsplit, hheld⟩

theorem conserves_of_readLine (c : Connection) : Conserves c c.readLine.2 (lineBytes c.readLine.1) := by
  unfold readLine
  dsimp only
  split
  · rename_i line rest hsplit
    exact c.conserves_of_buffer .reading (splitLine_eq_some hsplit)
  · obtain ⟨taken, htook, hbytes⟩ :=
      conserves_of_fillLine { c with phase := .reading } c.buffer.reverse c.buffer.length
    rw [List.reverse_reverse] at hbytes
    exact ⟨taken, ⟨htook.waiting, htook.count⟩, hbytes⟩

theorem isLine_of_readLine {c : Connection} {line : Bytes} (h : c.readLine.1 = .ok (some line)) : IsLine line := by
  unfold readLine at h
  dsimp only at h
  split at h
  · rename_i line' rest hsplit
    cases h
    exact isLine_of_splitLine List.not_mem_nil hsplit
  · rename_i hsplit
    refine isLine_of_fillLine ?_ h
    rw [List.mem_reverse]
    exact splitLine_eq_none.mp hsplit

/-! ## Pieces -/

/-- A piece is never empty and not longer than it may be. -/
def IsPiece (size : Nat) (chunk : Bytes) : Prop :=
  chunk ≠ [] ∧ chunk.length ≤ size

/-- What is left to hand over: bytes in the buffer, and bytes and failures that have not been met. -/
def remaining (c : Connection) : Nat :=
  c.buffer.length + c.peer.unread

/-- An iteration has left the buffer behind only when nothing was in it. -/
def Tidy (c : Connection) (stage : ChunkStage) : Prop :=
  stage = .live → c.buffer = []

theorem tidy_fresh (c : Connection) : c.Tidy .fresh := nofun

theorem length_le_of_receive {c c' : Connection} {size : Nat} {bytes : Bytes}
    (h : c.receive size = (.ok bytes, c')) : bytes.length ≤ size := by
  unfold receive at h
  split at h
  · rename_i got peer hreceive
    cases h
    exact Peer.length_le_of_receive hreceive
  · cases h

/-- What asking for one more piece can do. -/
inductive Piece (c : Connection) (size : Nat) : Except Fault (Option Bytes) × Connection × ChunkStage → Prop
  | some (chunk : Bytes) (c' : Connection) (stage : ChunkStage) (hpiece : IsPiece size chunk)
      (hconserves : Conserves c c' chunk) (htidy : c'.Tidy stage) (hless : c'.remaining < c.remaining) :
      Piece c size (.ok (some chunk), c', stage)
  | none (c' : Connection) (hconserves : Conserves c c' []) : Piece c size (.ok none, c', .finished)
  | fault (fault : Fault) (c' : Connection) (hconserves : Conserves c c' []) :
      Piece c size (.error fault, c', .finished)

theorem Piece.of_phase {c : Connection} {phase : Phase} {size : Nat}
    {step : Except Fault (Option Bytes) × Connection × ChunkStage} (h : Piece { c with phase } size step) :
    Piece c size step := by
  cases h with
  | some chunk c' stage hpiece hconserves htidy hless =>
    exact .some chunk c' stage hpiece hconserves.of_phase htidy hless
  | none c' hconserves => exact .none c' hconserves.of_phase
  | fault fault c' hconserves => exact .fault fault c' hconserves.of_phase

theorem piece_of_nextLive {c : Connection} (hbuffer : c.buffer = []) (size : Nat) :
    Piece c size (c.nextLive size) := by
  have hconserves : ∀ {c' : Connection} {bytes : Bytes}, Took c c' bytes → c'.buffer = c.buffer →
      Conserves c c' bytes :=
        fun htook hsame => ⟨_, htook, by rw [hsame, hbuffer, List.nil_append, List.append_nil]⟩
  unfold nextLive
  split
  · rename_i fault c' hreceive
    exact .fault _ _ (hconserves (took_of_receive_error hreceive) (by rw [(receive_error hreceive).2]))
  · rename_i c' hreceive
    exact .none _ (hconserves (took_of_receive_ok hreceive) (by rw [(receive_ok hreceive).2.2]))
  · rename_i chunk c' hne hreceive
    have hchunk : chunk ≠ [] := fun hnil => hne hnil
    have hsame : c'.buffer = c.buffer := by rw [(receive_ok hreceive).2.2]
    refine .some _ _ _ ⟨hchunk, length_le_of_receive hreceive⟩
      (hconserves (took_of_receive_ok hreceive) hsame) (fun _ => hsame.trans hbuffer) ?_
    rw [remaining, remaining, hsame]
    exact Nat.add_lt_add_left (receive_unread_lt hreceive hchunk) _

theorem piece_of_nextBuffered (c : Connection) {size : Nat} (hsize : 1 ≤ size) :
    Piece c size (c.nextBuffered size) := by
  unfold nextBuffered
  split
  · rename_i hempty
    exact piece_of_nextLive (List.isEmpty_iff.mp hempty) size
  · rename_i hfull
    have hbuffer : c.buffer ≠ [] := mt List.isEmpty_iff.mpr hfull
    have hpositive := List.length_pos_iff.mpr hbuffer
    refine .some _ _ _ ⟨?_, List.length_take_le _ _⟩
      (c.conserves_of_buffer c.phase (List.take_append_drop _ _).symm) nofun ?_
    · rw [← List.length_pos_iff, List.length_take]
      omega
    · simp only [remaining, List.length_drop]
      omega

theorem piece_of_nextChunk {c : Connection} {size : Nat} (hsize : 1 ≤ size) {stage : ChunkStage}
    (htidy : c.Tidy stage) :
    Piece c size (c.nextChunk size stage) := by
  cases stage with
  | fresh => exact (piece_of_nextBuffered { c with phase := .receiving } hsize).of_phase
  | buffered => exact piece_of_nextBuffered c hsize
  | live => exact piece_of_nextLive (htidy rfl) size
  | finished => exact .none _ (c.conserves_of_buffer c.phase rfl)

/-! ## Iterations -/

/-- Asks for the next piece so many times, or until there is none. -/
def draw (size : Nat) : Nat → Connection → ChunkStage → Body × Connection × ChunkStage
  | 0, c, stage => (⟨[], none⟩, c, stage)
  | asked + 1, c, stage =>
    match c.nextChunk size stage with
    | (.error fault, after) => (⟨[], some fault⟩, after)
    | (.ok none, after) => (⟨[], none⟩, after)
    | (.ok (some chunk), c', stage') =>
      let (body, after) := draw size asked c' stage'
      ({ body with chunks := chunk :: body.chunks }, after)

/-- What an iteration has done, wherever it stops. -/
structure Draws (c : Connection) (size : Nat) (result : Body × Connection × ChunkStage) : Prop where
  conserves : Conserves c result.2.1 result.1.bytes
  pieces : ∀ chunk ∈ result.1.chunks, IsPiece size chunk

theorem draws_of_draw {size : Nat} (hsize : 1 ≤ size) (asked : Nat) {c : Connection} {stage : ChunkStage}
    (htidy : c.Tidy stage) : Draws c size (draw size asked c stage) := by
  induction asked generalizing c stage with
  | zero => exact ⟨c.conserves_of_buffer c.phase rfl, nofun⟩
  | succ asked ih =>
    have hpiece := piece_of_nextChunk hsize htidy
    unfold draw
    generalize c.nextChunk size stage = step at hpiece
    cases hpiece with
    | some chunk c' stage' hpiece hconserves htidy' hless =>
      obtain ⟨hmore, hpieces⟩ := ih htidy'
      exact ⟨hconserves.trans hmore, List.forall_mem_cons.mpr ⟨hpiece, hpieces⟩⟩
    | none c' hconserves => exact ⟨hconserves, nofun⟩
    | fault fault c' hconserves => exact ⟨hconserves, nofun⟩

/-- Whoever asks more often than there are bytes and failures left comes to the end. -/
theorem finished_of_draw {size : Nat} (hsize : 1 ≤ size) {asked : Nat} {c : Connection} {stage : ChunkStage}
    (htidy : c.Tidy stage) (hasked : c.remaining < asked) : (draw size asked c stage).2.2 = .finished := by
  induction asked generalizing c stage with
  | zero => exact absurd hasked (Nat.not_lt_zero _)
  | succ asked ih =>
    have hpiece := piece_of_nextChunk hsize htidy
    unfold draw
    generalize c.nextChunk size stage = step at hpiece
    cases hpiece with
    | some chunk c' stage' hpiece hconserves htidy' hless => exact ih htidy' (by omega)
    | none c' hconserves => rfl
    | fault fault c' hconserves => rfl

/-! ## Iterations that are run to their end -/

/-- The pieces from the socket that are taken in one go are those that are asked for one at a time. -/
theorem takeLive_eq_draw {size : Nat} (c : Connection) (before : List Bytes) {asked : Nat}
    (hasked : c.peer.unread < asked) :
    takeLive c size before =
      (⟨before.reverse ++ (draw size asked c .live).1.chunks, (draw size asked c .live).1.fault⟩,
      (draw size asked c .live).2.1) := by
  fun_induction takeLive c size before generalizing asked with
  | case1 c before fault c' hreceive =>
    obtain ⟨n, rfl⟩ := Nat.exists_eq_add_of_lt hasked
    simp [draw, nextChunk, nextLive, hreceive]
  | case2 c before c' hreceive =>
    obtain ⟨n, rfl⟩ := Nat.exists_eq_add_of_lt hasked
    simp [draw, nextChunk, nextLive, hreceive]
  | case3 c before chunk c' hreceive hne ih =>
    obtain ⟨n, rfl⟩ := Nat.exists_eq_add_of_lt hasked
    have hless := receive_unread_lt hreceive hne
    rw [ih (by omega : c'.peer.unread < c.peer.unread + n)]
    simp [draw, nextChunk, nextLive, hreceive]

theorem draw_of_empty {c : Connection} (hbuffer : c.buffer = []) (size asked : Nat) :
    draw size (asked + 1) c .buffered = draw size (asked + 1) c .live := by
  have hnext : c.nextChunk size .buffered = c.nextChunk size .live := by
    simp [nextChunk, nextBuffered, hbuffer]
  rw [draw, draw, hnext]

/-- The buffer cut up beforehand gives the pieces that are cut off it one at a time. -/
theorem takeLive_piecesOnto {size : Nat} (hsize : 1 ≤ size) {asked : Nat} (c : Connection) (before : List Bytes)
    (hasked : c.remaining < asked) :
    takeLive { c with buffer := [] } size (piecesOnto size before c.buffer) =
      (⟨before.reverse ++ (draw size asked c .buffered).1.chunks, (draw size asked c .buffered).1.fault⟩,
        (draw size asked c .buffered).2.1) := by
  induction asked generalizing c before with
  | zero => exact absurd hasked (Nat.not_lt_zero _)
  | succ asked ih =>
    by_cases hbuffer : c.buffer = []
    · have hsame : { c with buffer := [] } = c := by rw [← hbuffer]
      rw [draw_of_empty hbuffer, piecesOnto, dif_pos (Or.inl hbuffer), hsame]
      exact takeLive_eq_draw c before (by rw [remaining] at hasked; omega)
    · have hpositive := List.length_pos_iff.mpr hbuffer
      have hnext : c.nextChunk size .buffered =
          (.ok (some (c.buffer.take size)), { c with buffer := c.buffer.drop size }, .buffered) := by
        simp [nextChunk, nextBuffered, hbuffer]
      have hrest : ({ c with buffer := c.buffer.drop size } : Connection).remaining < asked := by
        simp only [remaining, List.length_drop] at hasked ⊢
        omega
      have hcut : ¬ (c.buffer = [] ∨ size = 0) := by
        rw [not_or]
        exact ⟨hbuffer, by omega⟩
      rw [piecesOnto, dif_neg hcut, draw, hnext]
      refine (ih { c with buffer := c.buffer.drop size } (c.buffer.take size :: before) hrest).trans ?_
      rw [List.reverse_cons, List.append_assoc, List.singleton_append]

/-- An iteration that is run to its end takes the whole body. -/
theorem draw_eq_takeBody {size : Nat} (hsize : 1 ≤ size) {asked : Nat} {c : Connection}
    (hasked : c.remaining < asked) :
    draw size asked c .fresh = ((c.takeBody size).1, (c.takeBody size).2, .finished) := by
  obtain ⟨n, rfl⟩ := Nat.exists_eq_add_of_lt hasked
  have hbegun : draw size (c.remaining + n + 1) c .fresh =
      draw size (c.remaining + n + 1) { c with phase := .receiving } .buffered := rfl
  have hbody := takeLive_piecesOnto hsize { c with phase := .receiving } [] hasked
  have hfinished := finished_of_draw hsize c.tidy_fresh hasked
  rw [takeBody, hbody, ← hbegun, ← hfinished]
  rfl

/-! ## Calls -/

/-- What a reader calls for: a line, or some pieces of at most so many bytes. An iteration for which more pieces
are asked than there are is run to its end; any other one is abandoned. -/
inductive Call where
  | line
  | pieces (size asked : Nat)
  deriving Repr, DecidableEq

/-- What a call gives. -/
inductive Given where
  | line (result : Except Failure (Option Bytes))
  | pieces (body : Body)

def Given.bytes : Given → Bytes
  | .line result => lineBytes result
  | .pieces body => body.bytes

def give (c : Connection) : Call → Given × Connection
  | .line => (.line c.readLine.1, c.readLine.2)
  | .pieces size asked => (.pieces (draw size asked c .fresh).1, (draw size asked c .fresh).2.1)

/-- One call after another, whether they fail or not. -/
def giveAll (c : Connection) : List Call → List Given × Connection
  | [] => ([], c)
  | call :: calls =>
    let (given, c) := c.give call
    let (more, c) := c.giveAll calls
    (given :: more, c)

/-- All bytes that have been handed over. -/
def handed (c : Connection) (calls : List Call) : Bytes :=
  (c.giveAll calls).1.flatMap Given.bytes

def Call.IsSized : Call → Prop
  | .line => True
  | .pieces size _ => 1 ≤ size

/-- Whether what is given is what the call is for. -/
def Call.Allows : Call → Given → Prop
  | .line, .line result => ∀ line, result = .ok (some line) → IsLine line
  | .pieces size _, .pieces body => ∀ chunk ∈ body.chunks, IsPiece size chunk
  | _, _ => False

theorem conserves_of_give (c : Connection) {call : Call} (hcall : call.IsSized) :
    Conserves c (c.give call).2 (c.give call).1.bytes ∧ call.Allows (c.give call).1 := by
  cases call with
  | line => exact ⟨c.conserves_of_readLine, fun line hline => isLine_of_readLine hline⟩
  | pieces size asked =>
    have hdraws := draws_of_draw hcall asked c.tidy_fresh
    exact ⟨hdraws.conserves, hdraws.pieces⟩

/-- Reading keeps every byte: what has been taken from the socket is counted, and follows in the buffer on what has
been handed over, all lines and pieces are as they should be, and an iteration that is begun then comes to its end,
with the whole body, for whoever asks often enough. -/
structure Accountable (c : Connection) (calls : List Call) : Prop where
  conserves : Conserves c (c.giveAll calls).2 (c.handed calls)
  allowed : List.Forall₂ Call.Allows calls (c.giveAll calls).1
  ends : ∀ size, 1 ≤ size → ∀ asked, (c.giveAll calls).2.remaining < asked →
    draw size asked (c.giveAll calls).2 .fresh =
      (((c.giveAll calls).2.takeBody size).1, ((c.giveAll calls).2.takeBody size).2, .finished)

/-- Every byte is handed over or kept once, whatever is called for, in which order, and however it fails. Each moment
of a run, also one between two pieces of an iteration, is the end of a shorter run, so this holds all the time. -/
theorem accountable_of_calls (c : Connection) {calls : List Call} (hcalls : ∀ call ∈ calls, call.IsSized) :
    c.Accountable calls := by
  induction calls generalizing c with
  | nil => exact ⟨c.conserves_of_buffer c.phase rfl, .nil,
    fun size hsize asked hasked => draw_eq_takeBody hsize hasked⟩
  | cons call calls ih =>
    obtain ⟨hcall, hcalls⟩ := List.forall_mem_cons.mp hcalls
    obtain ⟨hfirst, hallowed⟩ := c.conserves_of_give hcall
    obtain ⟨hrest, hothers, hends⟩ := ih (c.give call).2 hcalls
    exact ⟨hfirst.trans hrest, .cons hallowed hothers, hends⟩

/-- Two lines and a half arrive in three segments, with a reset before the last. -/
def broken : Connection where
  id := "0"
  clientIp := ""
  bufferSize := 4
  peer := { inbound := [.data [97, 10, 98, 99], .data [10, 100], .failure (.plain .connectionReset), .data [101]] }

/-- An iteration that is abandoned, a line that the reset keeps from being read, and an iteration to the end. -/
theorem accountable_broken :
    (∀ call ∈ [Call.line, .pieces 2 1, .line, .line, .pieces 8 9], call.IsSized) ∧
      broken.Accountable [.line, .pieces 2 1, .line, .line, .pieces 8 9] ∧
      broken.handed [.line, .pieces 2 1, .line, .line, .pieces 8 9] = [97, 10, 98, 99, 10, 100, 101] := by
  have hcalls : ∀ call ∈ [Call.line, .pieces 2 1, .line, .line, .pieces 8 9], call.IsSized := by
    simp [Call.IsSized]
  exact ⟨hcalls, broken.accountable_of_calls hcalls, by decide +kernel⟩

end Connection

end FileExchange
