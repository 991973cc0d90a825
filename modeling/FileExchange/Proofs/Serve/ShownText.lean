import FileExchange.Proofs.Text.Lines
import FileExchange.Proofs.Text.Markup
import FileExchange.Serve.File

/-!
# Texts that are shown

The lines of a stored text are escaped one by one, each of them completed by a line feed. Together they are the
escaped text, itself completed by a line feed, exactly if no carriage return stands alone in the text.
-/

set_option autoImplicit false

namespace FileExchange

/-- Every carriage return is followed by a line feed. -/
def ReturnsEndLines (s : List Char) : Prop :=
  ∀ before after, s = before ++ '\r' :: after → after.head? = some '\n'

/-- No carriage return is followed by anything but a line feed. -/
def NoLoneReturn (s : List Char) : Prop :=
  ∀ before c after, s = before ++ '\r' :: c :: after → c = '\n'

theorem ReturnsEndLines.noLoneReturn {s : List Char} (h : ReturnsEndLines s) : NoLoneReturn s := by
  intro before c after hs
  exact Option.some.inj (h before (c :: after) hs)

theorem noLoneReturn_cons {c : Char} {s : List Char} (hs : s ≠ []) :
    NoLoneReturn (c :: s) ↔ (c = '\r' → s.head? = some '\n') ∧ NoLoneReturn s := by
  obtain ⟨d, s, rfl⟩ := List.exists_cons_of_ne_nil hs
  constructor
  · intro h
    refine ⟨?_, fun before e after hsplit => h (c :: before) e after (by rw [hsplit]; rfl)⟩
    rintro rfl
    exact congrArg some (h [] d s rfl)
  · rintro ⟨hfirst, hrest⟩ before e after hsplit
    cases before with
    | nil =>
      obtain ⟨hc, he⟩ := List.cons.inj hsplit
      exact Option.some.inj ((congrArg List.head? he).symm.trans (hfirst hc))
    | cons b before => exact hrest before e after (List.cons.inj hsplit).2

theorem noLoneReturn_singleton (c : Char) : NoLoneReturn [c] := by
  intro before d after hsplit
  have hlen := congrArg List.length hsplit
  simp only [List.length_append, List.length_cons, List.length_nil] at hlen
  omega

namespace FileService

/-! ## Completed texts -/

/-- A text as it is shown: something that does not end in a line feed gets one. -/
def shown (s : List Char) : List Char :=
  if s.isEmpty then [] else completeLine s

/-- A text with every line of it completed. -/
def completed (s : List Char) : List Char :=
  (Text.lines s).flatMap completeLine

theorem completeLine_cons {c : Char} (hc : c ≠ '\n') (line : List Char) :
    completeLine (c :: line) = c :: completeLine line := by
  cases line with
  | nil => simp [completeLine, hc]
  | cons d line =>
    simp only [completeLine, List.getLast?_cons_cons]
    split <;> rfl

theorem shown_cons (c : Char) {s : List Char} (hs : s ≠ []) : shown (c :: s) = c :: shown s := by
  obtain ⟨d, s, rfl⟩ := List.exists_cons_of_ne_nil hs
  simp only [shown, completeLine, List.isEmpty_cons, List.getLast?_cons_cons]
  split
  · rename_i h
    cases h
  · split <;> rfl

theorem head?_shown (s : List Char) : (shown s).head? = s.head? := by
  cases s with
  | nil => rfl
  | cons c s =>
    simp only [shown, completeLine, List.isEmpty_cons]
    split
    · rename_i h
      cases h
    · split <;> rfl

theorem completed_end {c : Char} {s : List Char} (h : c = '\n' ∨ c = '\r' ∧ s.head? ≠ some '\n') :
    completed (c :: s) = completeLine [c] ++ completed s := by
  rw [completed, Text.lines, Text.linesBy_end h]
  rfl

theorem completed_inner {c : Char} {s : List Char} (hs : s ≠ []) (hc : c ≠ '\n')
    (h : c = '\r' → s.head? = some '\n') : completed (c :: s) = c :: completed s := by
  have hinner : ¬ (c = '\n' ∨ c = '\r' ∧ s.head? ≠ some '\n') := by
    rintro (hfeed | ⟨hreturn, hnext⟩)
    · exact hc hfeed
    · exact hnext (h hreturn)
  rw [completed, completed, Text.lines, Text.lines, Text.linesBy_inner hinner]
  cases hlines : Text.linesBy '\n' '\r' s with
  | nil => exact absurd (Text.linesBy_eq_nil.mp hlines) hs
  | cons line more =>
    simp only [Text.consFirst, List.flatMap_cons, completeLine_cons hc, List.cons_append]

/-- Completing every line is completing the text, unless a carriage return ends a line alone. -/
theorem completed_eq_shown_iff (s : List Char) : completed s = shown s ↔ NoLoneReturn s := by
  induction s with
  | nil =>
    refine ⟨fun _ before c after hsplit => ?_, fun _ => rfl⟩
    cases before <;> cases hsplit
  | cons c s ih =>
    by_cases hs : s = []
    · subst hs
      refine ⟨fun _ => noLoneReturn_singleton c, fun _ => ?_⟩
      have hlines : Text.lines [c] = [[c]] := by
        rw [Text.lines, Text.linesBy]
        split <;> rfl
      rw [completed, hlines]
      exact List.append_nil _
    · rw [noLoneReturn_cons hs, shown_cons c hs]
      by_cases hfeed : c = '\n'
      · subst hfeed
        rw [completed_end (Or.inl rfl), ← ih]
        have hline : completeLine ['\n'] ++ completed s = '\n' :: completed s := rfl
        simp [hline]
      · by_cases hreturn : c = '\r' ∧ s.head? ≠ some '\n'
        · -- The line feed that completes the line is not in the text.
          obtain ⟨rfl, hnext⟩ := hreturn
          refine iff_of_false (fun heq => ?_) fun h => hnext (h.1 rfl)
          have hline : completeLine ['\r'] ++ completed s = '\r' :: '\n' :: completed s := rfl
          rw [completed_end (Or.inr ⟨rfl, hnext⟩), hline] at heq
          have hhead := congrArg List.head? (List.cons.inj heq).2
          rw [head?_shown] at hhead
          exact hnext hhead.symm
        · have hpair : c = '\r' → s.head? = some '\n' := by
            intro hc
            rw [not_and, Classical.not_not] at hreturn
            exact hreturn hc
          rw [completed_inner hs hfeed hpair, List.cons.injEq, ih]
          exact ⟨fun h => ⟨hpair, h.2⟩, fun h => ⟨rfl, h.2⟩⟩

theorem getLast?_completeLine (line : List Char) : (completeLine line).getLast? = some '\n' := by
  unfold completeLine
  split
  · rename_i h
    simpa using h
  · exact List.getLast?_concat

/-- Completed lines are nothing or end in a line feed. -/
theorem getLast?_flatMap_completeLine (ls : List (List Char)) :
    ls.flatMap completeLine = [] ∨ (ls.flatMap completeLine).getLast? = some '\n' := by
  rcases List.eq_nil_or_concat ls with hnil | ⟨init, line, hlines⟩
  · exact Or.inl (by rw [hnil]; rfl)
  · right
    rw [hlines, List.concat_eq_append, List.flatMap_append, List.flatMap_singleton, List.getLast?_append,
      getLast?_completeLine]
    rfl

/-! ## Lines that are sent -/

/-- The lines that are sent are the escaped lines, decoded and completed. -/
theorem flatMap_lineBytes (e : Encoding) (ls : List Bytes) :
    ls.flatMap (lineBytes e) =
      Utf8.encodeChars (Markup.escapeChars ((ls.map e.decodeChars).flatMap completeLine)) := by
  induction ls with
  | nil => rfl
  | cons line more ih =>
    simp only [List.flatMap_cons, List.map_cons, ih, lineBytes, Markup.escapeChars, List.flatMap_append,
      Utf8.encodeChars_append]

theorem flatMap_completeLine_lines (e : Encoding) (bytes : Bytes) :
    ((lines bytes).map e.decodeChars).flatMap completeLine = completed (e.decodeChars bytes) := by
  rw [e.map_lines, completed]

end FileService

end FileExchange
