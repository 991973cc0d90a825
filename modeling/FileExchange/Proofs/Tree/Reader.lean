import FileExchange.Tree.Reader

/-!
# What open files give

As long as nobody changes a file, reading it piece by piece gives its bytes from the front, and reading
it line by line gives its lines, wherever the blocks end that the bytes come in.
-/

set_option autoImplicit false

namespace FileExchange

theorem drop_length_take {α : Type} (l : List α) (n : Nat) : l.drop (l.take n).length = l.drop n := by
  rw [List.length_take]
  by_cases h : n ≤ l.length
  · rw [Nat.min_eq_left h]
  · have hle : l.length ≤ n := by omega
    rw [Nat.min_eq_right hle, List.drop_length, List.drop_eq_nil_of_le hle]

theorem take_append_take_drop {α : Type} (l : List α) {k n : Nat} (h : k ≤ n) :
    l.take k ++ (l.drop k).take (n - (l.take k).length) = l.take n := by
  have hsum : n = k + (n - k) := by omega
  by_cases hk : k ≤ l.length
  · rw [List.length_take, Nat.min_eq_left hk, ← List.take_add, ← hsum]
  · rw [List.drop_eq_nil_of_le (by omega), List.take_nil, List.append_nil,
      List.take_of_length_le (by omega), List.take_of_length_le (by omega)]

/-! ## Bytes -/

namespace Reader

def rest (t : Tree) (r : Reader) : Bytes :=
  r.ahead ++ (t.content r.file).drop r.position

/-- A step of reading takes bytes off the front of what is left. -/
def Takes (t : Tree) (r : Reader) (size : Nat) (step : Bytes × Reader) : Prop :=
  step.1 = (r.rest t).take size ∧ step.2.rest t = (r.rest t).drop size

variable {t : Tree} {r : Reader}

theorem readWhole_takes (size : Nat) (h : r.ahead = []) : r.Takes t size (r.readWhole t size) := by
  simp only [Takes, rest, readWhole, Tree.bytesAt, h, List.nil_append, true_and]
  rw [← List.drop_drop, drop_length_take]

theorem readBlock_takes {size : Nat} (h : r.ahead = []) (hsize : size ≤ blockSize) :
    r.Takes t size (r.readBlock t size) := by
  simp only [Takes, rest, readBlock, Tree.bytesAt, h, List.nil_append]
  refine ⟨?_, ?_⟩
  · rw [List.take_take, Nat.min_eq_left hsize]
  · rw [← List.drop_drop, drop_length_take, List.drop_take]
    have hsplit : ((t.content r.file).drop r.position).drop blockSize =
        (((t.content r.file).drop r.position).drop size).drop (blockSize - size) := by
      rw [List.drop_drop (i := blockSize - size), Nat.add_sub_of_le hsize]
    rw [hsplit, List.take_append_drop]

theorem readThrough_takes (size : Nat) (h : r.ahead = []) : r.Takes t size (r.readThrough t size) := by
  have hblock : 0 < blockSize := by decide
  have hmod := Nat.mod_lt size hblock
  have hle := Nat.mod_le size blockSize
  unfold readThrough
  dsimp only
  split
  · rename_i hwhole
    have hwhole' : size - size % blockSize = 0 := by simpa using hwhole
    exact readBlock_takes h (by omega)
  · obtain ⟨hfront, hrest⟩ := readWhole_takes (t := t) (size - size % blockSize) h
    have hahead : (r.readWhole t (size - size % blockSize)).2.ahead = [] := h
    split
    · -- The file ends in the whole blocks, or there is nothing beside them.
      rename_i hend
      simp only [Bool.or_eq_true, decide_eq_true_eq, beq_iff_eq] at hend
      rcases hend with hshort | hall
      · rw [hfront, List.length_take] at hshort
        have hlen : (r.rest t).length < size - size % blockSize := by omega
        refine ⟨?_, ?_⟩
        · rw [hfront, List.take_of_length_le (by omega), List.take_of_length_le (by omega)]
        · rw [hrest, List.drop_eq_nil_of_le (by omega), List.drop_eq_nil_of_le (by omega)]
      · rw [hall] at hfront hrest ⊢
        exact ⟨hfront, hrest⟩
    · have hmodBlock : size - (size - size % blockSize) ≤ blockSize := by omega
      obtain ⟨hback, hlast⟩ := readBlock_takes (t := t) hahead hmodBlock
      have hsize : size = size - size % blockSize + (size - (size - size % blockSize)) := by omega
      refine ⟨?_, ?_⟩
      · rw [hback, hfront, hrest, ← List.take_add, ← hsize]
      · rw [hlast, hrest, List.drop_drop, ← hsize]

theorem read_takes (size : Nat) : r.Takes t size (r.read t size) := by
  unfold read
  split
  · rename_i hahead
    refine ⟨?_, ?_⟩
    · rw [rest, List.take_append_of_le_length hahead]
    · simp only [rest]
      rw [List.drop_append_of_le_length hahead]
  · rename_i hahead
    obtain ⟨hbytes, hleft⟩ := readThrough_takes (t := t) (r := { r with ahead := [] })
      (size - r.ahead.length) rfl
    have hrest : r.rest t = r.ahead ++ Reader.rest t { r with ahead := [] } := by
      simp [rest]
    have hlen : r.ahead.length ≤ size := by omega
    refine ⟨?_, ?_⟩
    · rw [hrest, List.take_append, List.take_of_length_le hlen, ← hbytes]
    · rw [hrest, List.drop_append, List.drop_eq_nil_of_le hlen, List.nil_append, ← hleft]

end Reader

/-! ## Lines -/

theorem cutLineOnto_eq (front bytes : Bytes) :
    cutLineOnto front bytes = (cutLine bytes).map fun cut => (front.reverse ++ cut.1, cut.2) := by
  have hgeneral : ∀ bytes front more : Bytes, cutLineOnto (front ++ more) bytes =
      (cutLineOnto front bytes).map fun cut => (more.reverse ++ cut.1, cut.2) := by
    intro bytes
    induction bytes with
    | nil => intro front more; rfl
    | cons b rest ih =>
      intro front more
      unfold cutLineOnto
      split
      · simp
      · split
        · cases rest with
          | nil => rfl
          | cons c rest =>
            dsimp only
            split <;> simp
        · exact ih (b :: front) more
  have h := hgeneral bytes [] front
  rwa [List.nil_append] at h

theorem cutLine_cons {b : UInt8} (bytes : Bytes) (hfeed : b ≠ 0x0A) (hreturn : b ≠ 0x0D) :
    cutLine (b :: bytes) = (cutLine bytes).map fun cut => (b :: cut.1, cut.2) := by
  have hstep : cutLine (b :: bytes) = cutLineOnto [b] bytes := by
    simp [cutLine, cutLineOnto.eq_def [] (b :: bytes), hfeed, hreturn]
  rw [hstep, cutLineOnto_eq]
  rfl

theorem cutLine_eq_some {bytes line rest : Bytes} (h : cutLine bytes = some (line, rest)) :
    bytes = line ++ rest ∧ line ≠ [] := by
  induction bytes generalizing line with
  | nil => cases h
  | cons b bytes ih =>
    by_cases hfeed : b = 0x0A
    · subst hfeed
      cases h
      exact ⟨rfl, by simp⟩
    · by_cases hreturn : b = 0x0D
      · subst hreturn
        cases bytes with
        | nil => cases h
        | cons c bytes =>
          by_cases hc : c = 0x0A
          · subst hc
            cases h
            exact ⟨rfl, by simp⟩
          · have hcut : cutLine (0x0D :: c :: bytes) = some ([0x0D], c :: bytes) := by
              simp [cutLine, cutLineOnto, hc]
            rw [hcut] at h
            cases h
            exact ⟨rfl, by simp⟩
      · rw [cutLine_cons bytes hfeed hreturn, Option.map_eq_some_iff] at h
        obtain ⟨⟨line', rest'⟩, hcut, hpair⟩ := h
        cases hpair
        exact ⟨by rw [(ih hcut).1, List.cons_append], by simp⟩

/-- A line that shows where it ends is the first line of all longer bytes too. -/
theorem cutLine_append {bytes line rest : Bytes} (h : cutLine bytes = some (line, rest))
    (more : Bytes) : cutLine (bytes ++ more) = some (line, rest ++ more) := by
  induction bytes generalizing line with
  | nil => cases h
  | cons b bytes ih =>
    by_cases hfeed : b = 0x0A
    · subst hfeed
      cases h
      rfl
    · by_cases hreturn : b = 0x0D
      · subst hreturn
        cases bytes with
        | nil => cases h
        | cons c bytes =>
          by_cases hc : c = 0x0A
          · subst hc
            cases h
            rfl
          · have hcut : ∀ bytes, cutLine (0x0D :: c :: bytes) = some ([0x0D], c :: bytes) := by
              simp [cutLine, cutLineOnto, hc]
            rw [hcut] at h
            cases h
            exact hcut (bytes ++ more)
      · rw [cutLine_cons bytes hfeed hreturn, Option.map_eq_some_iff] at h
        obtain ⟨⟨line', rest'⟩, hcut, hpair⟩ := h
        cases hpair
        rw [List.cons_append, cutLine_cons _ hfeed hreturn, ih hcut]
        rfl

/-- All lines of some bytes; what stands behind the last terminator is a line too. -/
def lines (bytes : Bytes) : List Bytes :=
  match _h : cutLine bytes with
  | some (line, rest) => line :: lines rest
  | none => if bytes.isEmpty then [] else [bytes]
termination_by bytes.length
decreasing_by
  obtain ⟨heq, hne⟩ := cutLine_eq_some _h
  have hlen := congrArg List.length heq
  have hpos := List.length_pos_iff.mpr hne
  rw [List.length_append] at hlen
  omega

theorem lines_of_cutLine {bytes line rest : Bytes} (h : cutLine bytes = some (line, rest)) :
    lines bytes = line :: lines rest := by
  rw [lines]
  split
  · rename_i hcut
    rw [h] at hcut
    cases hcut
    rfl
  · rename_i hcut
    rw [h] at hcut
    cases hcut

theorem lines_of_none {bytes : Bytes} (h : cutLine bytes = none) :
    lines bytes = if bytes.isEmpty then [] else [bytes] := by
  rw [lines]
  split
  · rename_i hcut
    rw [h] at hcut
    cases hcut
  · rfl

theorem lines_nil : lines [] = [] := lines_of_none rfl

theorem length_lines_le (bytes : Bytes) : (lines bytes).length ≤ bytes.length := by
  fun_induction lines bytes with
  | case1 bytes line rest hcut ih =>
    obtain ⟨heq, hne⟩ := cutLine_eq_some hcut
    have hpos := List.length_pos_iff.mpr hne
    rw [heq, List.length_append, List.length_cons]
    omega
  | case2 => exact Nat.zero_le _
  | case3 bytes hcut hne =>
    have hpos : 0 < bytes.length := List.length_pos_iff.mpr (by simpa using hne)
    rw [List.length_singleton]
    omega

namespace LineReader

def rest (t : Tree) (r : LineReader) : Bytes :=
  r.pending ++ (t.content r.file).drop r.position

theorem next_eq (t : Tree) (r : LineReader) :
    (r.next t).1 = (lines (r.rest t)).head? ∧
      lines ((r.next t).2.rest t) = (lines (r.rest t)).tail := by
  fun_induction next t r with
  | case1 r line rest hcut =>
    have hlines := lines_of_cutLine (cutLine_append hcut ((t.content r.file).drop r.position))
    rw [LineReader.rest, hlines]
    exact ⟨rfl, rfl⟩
  | case2 r hcut block hblock =>
    have hend : (t.content r.file).drop r.position = [] := by
      cases hdrop : (t.content r.file).drop r.position with
      | nil => rfl
      | cons b bytes =>
        have hne : block = (b :: bytes).take blockSize := by
          simp only [block, Tree.bytesAt, hdrop]
        rw [hblock] at hne
        cases hne
    have hrest : r.rest t = r.pending := by rw [LineReader.rest, hend, List.append_nil]
    have hflushed : r.flush.2.rest t = [] := by
      simp only [LineReader.rest, flush, hend, List.append_nil]
    rw [hrest, lines_of_none hcut, hflushed, lines_nil, flush]
    split <;> exact ⟨rfl, rfl⟩
  | case3 r hcut block hblock ih =>
    have hrest : LineReader.rest t { r with
        position := r.position + block.length, pending := r.pending ++ block } = r.rest t := by
      have hcontent : block ++ (t.content r.file).drop (r.position + block.length) =
          (t.content r.file).drop r.position := by
        rw [← List.drop_drop]
        simp only [block, Tree.bytesAt]
        rw [drop_length_take, List.take_append_drop]
      rw [LineReader.rest, LineReader.rest, List.append_assoc, hcontent]
    rwa [hrest] at ih

end LineReader

end FileExchange
