import FileExchange.Proofs.Text.Decoding
import FileExchange.Proofs.Tree.Reader

/-!
# Lines of texts

A line ends behind a line feed, and behind a carriage return that no line feed follows. The lines that a reader
of bytes cuts, decoded one by one, are the lines of the decoded text.
-/

set_option autoImplicit false

namespace FileExchange

namespace Text

section Cutting

variable {α : Type} [DecidableEq α]

/-- One more character at the front of the first line. -/
def consFirst (c : α) : List (List α) → List (List α)
  | [] => [[c]]
  | line :: more => (c :: line) :: more

/-- All lines with their ends; what stands behind the last end is a line too, unless it is empty. -/
def linesBy (feed ret : α) : List α → List (List α)
  | [] => []
  | c :: rest =>
    if c = feed ∨ c = ret ∧ rest.head? ≠ some feed then [c] :: linesBy feed ret rest
    else consFirst c (linesBy feed ret rest)

variable {feed ret : α}

theorem linesBy_end {c : α} {rest : List α} (h : c = feed ∨ c = ret ∧ rest.head? ≠ some feed) :
    linesBy feed ret (c :: rest) = [c] :: linesBy feed ret rest := by
  rw [linesBy, if_pos h]

theorem linesBy_inner {c : α} {rest : List α} (h : ¬ (c = feed ∨ c = ret ∧ rest.head? ≠ some feed)) :
    linesBy feed ret (c :: rest) = consFirst c (linesBy feed ret rest) := by
  rw [linesBy, if_neg h]

theorem linesBy_eq_nil {s : List α} : linesBy feed ret s = [] ↔ s = [] := by
  cases s with
  | nil => simp [linesBy]
  | cons c rest =>
    rw [linesBy]
    split
    · simp
    · cases linesBy feed ret rest <;> simp [consFirst]

/-- What stands in front of the first end belongs to the first line. -/
theorem linesBy_append {front s line : List α} {more : List (List α)} (hfeed : feed ∉ front)
    (hret : ret ∉ front) (h : linesBy feed ret s = line :: more) :
    linesBy feed ret (front ++ s) = (front ++ line) :: more := by
  induction front with
  | nil => exact h
  | cons c front ih =>
    rw [List.mem_cons, not_or] at hfeed hret
    have hinner : ¬ (c = feed ∨ c = ret ∧ (front ++ s).head? ≠ some feed) := by
      rintro (hc | ⟨hc, _⟩)
      · exact hfeed.1 hc.symm
      · exact hret.1 hc.symm
    rw [List.cons_append, linesBy_inner hinner, ih hfeed.2 hret.2]
    rfl

theorem linesBy_of_notMem {front : List α} (hne : front ≠ []) (hfeed : feed ∉ front) (hret : ret ∉ front) :
    linesBy feed ret front = [front] := by
  have hinit : ∀ {init : List α} {c : α}, front = init ++ [c] → linesBy feed ret front = [front] := by
    rintro init c rfl
    rw [List.mem_append, not_or] at hfeed hret
    have hinner : ¬ (c = feed ∨ c = ret ∧ ([] : List α).head? ≠ some feed) := by
      rintro (rfl | ⟨rfl, _⟩)
      · exact hfeed.2 (List.mem_singleton_self c)
      · exact hret.2 (List.mem_singleton_self c)
    exact linesBy_append hfeed.1 hret.1 (linesBy_inner hinner)
  exact hinit (List.dropLast_concat_getLast hne).symm

section Ends

variable {front : List α} (hfeed : feed ∉ front) (hret : ret ∉ front) (rest : List α)

include hfeed hret

theorem linesBy_feed :
    linesBy feed ret (front ++ feed :: rest) = (front ++ [feed]) :: linesBy feed ret rest :=
  linesBy_append hfeed hret (linesBy_end (Or.inl rfl))

theorem linesBy_return (h : rest.head? ≠ some feed) :
    linesBy feed ret (front ++ ret :: rest) = (front ++ [ret]) :: linesBy feed ret rest :=
  linesBy_append hfeed hret (linesBy_end (Or.inr ⟨rfl, h⟩))

theorem linesBy_both (hne : ret ≠ feed) :
    linesBy feed ret (front ++ ret :: feed :: rest) =
      (front ++ [ret, feed]) :: linesBy feed ret rest := by
  refine linesBy_append hfeed hret ?_
  have hinner : ¬ (ret = feed ∨ ret = ret ∧ (feed :: rest).head? ≠ some feed) := by simp [hne]
  rw [linesBy_inner hinner, linesBy_end (Or.inl rfl)]
  rfl

end Ends

/-! ## Line by line -/

/-- A text as its lines, by the way in which they end. -/
inductive Lined (feed ret : α) : List α → Prop
  | last (front : List α) (hfeed : feed ∉ front) (hret : ret ∉ front) : Lined feed ret front
  | feed (front rest : List α) (hfeed : feed ∉ front) (hret : ret ∉ front) (hrest : Lined feed ret rest) :
      Lined feed ret (front ++ feed :: rest)
  | both (front rest : List α) (hfeed : feed ∉ front) (hret : ret ∉ front)
      (hrest : Lined feed ret rest) : Lined feed ret (front ++ ret :: feed :: rest)
  | ret (front rest : List α) (hfeed : feed ∉ front) (hret : ret ∉ front)
      (hnext : rest.head? ≠ some feed) (hrest : Lined feed ret rest) : Lined feed ret (front ++ ret :: rest)

/-- The front of a text up to the first character that may end a line. -/
theorem exists_front (feed ret : α) (s : List α) :
    ∃ front rest, s = front ++ rest ∧ feed ∉ front ∧ ret ∉ front ∧
      ∀ c, rest.head? = some c → c = feed ∨ c = ret := by
  induction s with
  | nil => exact ⟨[], [], rfl, by simp, by simp, by simp⟩
  | cons c s ih =>
    by_cases hc : c = feed ∨ c = ret
    · exact ⟨[], c :: s, rfl, by simp, by simp, by simpa using hc⟩
    · rw [not_or] at hc
      obtain ⟨front, rest, rfl, hfeed, hret, hhead⟩ := ih
      refine ⟨c :: front, rest, rfl, ?_, ?_, hhead⟩
      · simpa [hfeed] using Ne.symm hc.1
      · simpa [hret] using Ne.symm hc.2

theorem lined (feed ret : α) (s : List α) : Lined feed ret s := by
  generalize hlen : s.length = len
  induction len using Nat.strongRecOn generalizing s with
  | ind len ih =>
    obtain ⟨front, rest, rfl, hfeed, hret, hhead⟩ := exists_front feed ret s
    cases rest with
    | nil =>
      rw [List.append_nil]
      exact .last front hfeed hret
    | cons c rest =>
      rw [List.length_append, List.length_cons] at hlen
      have hrest : Lined feed ret rest := ih rest.length (by omega) rest rfl
      rcases hhead c rfl with rfl | rfl
      · exact .feed front rest hfeed hret hrest
      · by_cases hnext : rest.head? = some feed
        · obtain ⟨rest', rfl⟩ := List.head?_eq_some_iff.mp hnext
          rw [List.length_cons] at hlen
          exact .both front rest' hfeed hret (ih rest'.length (by omega) rest' rfl)
        · exact .ret front rest hfeed hret hnext hrest

end Cutting

/-- The lines of a text. -/
def lines (s : List Char) : List (List Char) :=
  linesBy '\n' '\r' s

end Text

/-! ## Lines of bytes -/

theorem lines_cons {b : UInt8} (bytes : Bytes) (hfeed : b ≠ 0x0A) (hreturn : b ≠ 0x0D) :
    lines (b :: bytes) = Text.consFirst b (lines bytes) := by
  have hcut := cutLine_cons bytes hfeed hreturn
  cases hrest : cutLine bytes with
  | none =>
    rw [hrest] at hcut
    rw [lines_of_none hcut, lines_of_none hrest]
    cases bytes <;> rfl
  | some cut =>
    rw [hrest] at hcut
    rw [lines_of_cutLine hcut, lines_of_cutLine hrest]
    rfl

/-- The reader of bytes cuts them at the ends of lines. -/
theorem lines_eq (bytes : Bytes) : lines bytes = Text.linesBy 0x0A 0x0D bytes := by
  induction bytes with
  | nil => exact lines_nil
  | cons b bytes ih =>
    by_cases hfeed : b = 0x0A
    · subst hfeed
      rw [Text.linesBy_end (Or.inl rfl), ← ih]
      exact lines_of_cutLine rfl
    · by_cases hreturn : b = 0x0D
      · subst hreturn
        cases bytes with
        | nil => exact lines_of_none rfl
        | cons c bytes =>
          by_cases hc : c = 0x0A
          · subst hc
            have hinner : ¬ ((0x0D : UInt8) = 0x0A ∨
                (0x0D : UInt8) = 0x0D ∧ (0x0A :: bytes).head? ≠ some 0x0A) := by simp
            have hrest : lines (0x0A :: bytes) = [0x0A] :: lines bytes := lines_of_cutLine rfl
            rw [Text.linesBy_inner hinner, ← ih, hrest]
            exact lines_of_cutLine rfl
          · rw [Text.linesBy_end (Or.inr ⟨rfl, by simpa using hc⟩), ← ih]
            exact lines_of_cutLine (by simp [cutLine, cutLineOnto, hc])
      · rw [lines_cons bytes hfeed hreturn, ih, Text.linesBy_inner (by simp [hfeed, hreturn])]

/-! ## Decoded lines -/

namespace Encoding

variable (e : Encoding)

theorem decodeChars_feed (front rest : Bytes) :
    e.decodeChars (front ++ 0x0A :: rest) = e.decodeChars front ++ '\n' :: e.decodeChars rest :=
  e.decodeChars_ascii front (by decide) rest

theorem decodeChars_return (front rest : Bytes) :
    e.decodeChars (front ++ 0x0D :: rest) = e.decodeChars front ++ '\r' :: e.decodeChars rest :=
  e.decodeChars_ascii front (by decide) rest

theorem feed_notMem_decodeChars {bytes : Bytes} (h : 0x0A ∉ bytes) : '\n' ∉ e.decodeChars bytes :=
  fun hmem => h (e.mem_decodeChars (by decide) (by decide) hmem)

theorem return_notMem_decodeChars {bytes : Bytes} (h : 0x0D ∉ bytes) : '\r' ∉ e.decodeChars bytes :=
  fun hmem => h (e.mem_decodeChars (by decide) (by decide) hmem)

/-- A text starts with a line feed only if its bytes do. -/
theorem head?_decodeChars {bytes : Bytes} (h : bytes.head? ≠ some 0x0A) :
    (e.decodeChars bytes).head? ≠ some '\n' := by
  intro hhead
  have hmem : '\n' ∈ e.decodeChars bytes := List.mem_of_mem_head? hhead
  have hbyte : 0x0A ∈ bytes := e.mem_decodeChars (by decide) (by decide) hmem
  obtain ⟨front, rest, rfl, hfront⟩ := List.eq_append_cons_of_mem hbyte
  cases front with
  | nil => exact h rfl
  | cons b front =>
    have hne : e.decodeChars (b :: front) ≠ [] := e.decodeChars_ne_nil (by simp)
    obtain ⟨c, text, htext⟩ := List.exists_cons_of_ne_nil hne
    have hfeed := e.feed_notMem_decodeChars hfront
    have hsplit := e.decodeChars_feed (b :: front) rest
    rw [htext] at hfeed hsplit
    rw [hsplit] at hhead
    exact hfeed (Option.some.inj hhead ▸ List.mem_cons_self)

/-- Cutting into lines and decoding can change places. -/
theorem map_lines (bytes : Bytes) :
    (lines bytes).map e.decodeChars = Text.lines (e.decodeChars bytes) := by
  rw [lines_eq, Text.lines]
  induction Text.lined 0x0A 0x0D bytes with
  | last front hfeed hreturn =>
    by_cases hne : front = []
    · rw [hne, e.decodeChars_nil]
      rfl
    · rw [Text.linesBy_of_notMem hne hfeed hreturn, Text.linesBy_of_notMem (e.decodeChars_ne_nil hne)
        (e.feed_notMem_decodeChars hfeed) (e.return_notMem_decodeChars hreturn)]
      rfl
  | feed front rest hfeed hreturn _ ih =>
    rw [Text.linesBy_feed hfeed hreturn, e.decodeChars_feed,
      Text.linesBy_feed (e.feed_notMem_decodeChars hfeed) (e.return_notMem_decodeChars hreturn),
      List.map_cons, ih, e.decodeChars_feed, e.decodeChars_nil]
  | both front rest hfeed hreturn _ ih =>
    have hpair : ∀ rest, e.decodeChars (front ++ 0x0D :: 0x0A :: rest) =
        e.decodeChars front ++ '\r' :: '\n' :: e.decodeChars rest := by
      intro rest
      rw [e.decodeChars_return, ← List.nil_append (0x0A :: rest), e.decodeChars_feed, e.decodeChars_nil,
        List.nil_append]
    rw [Text.linesBy_both hfeed hreturn rest (by decide), hpair,
      Text.linesBy_both (e.feed_notMem_decodeChars hfeed) (e.return_notMem_decodeChars hreturn) _
        (by decide), List.map_cons, ih, hpair, e.decodeChars_nil]
  | ret front rest hfeed hreturn hnext _ ih =>
    rw [Text.linesBy_return hfeed hreturn rest hnext, e.decodeChars_return,
      Text.linesBy_return (e.feed_notMem_decodeChars hfeed) (e.return_notMem_decodeChars hreturn) _
        (e.head?_decodeChars hnext), List.map_cons, ih, e.decodeChars_return, e.decodeChars_nil]

end Encoding

end FileExchange
