import FileExchange.Text.Blank

/-!
# Words of a line

A text that starts with a run of characters other than blanks, and then is over or goes on with a blank,
has that run as its first word. Every text is its words with blanks between, in front and behind, and it is so
in one way only.
-/

set_option autoImplicit false

namespace FileExchange.Text

/-- No character is blank, and there is at least one. -/
structure IsWord (w : List Char) : Prop where
  ne_nil : w ≠ []
  solid : ∀ c ∈ w, isBlank c = false

theorem prependToWords_eq (c : Char) (ws : List (List Char)) (joined : Bool) :
    prependToWords c (ws, joined) =
      bif isBlank c then (ws, false)
      else match ws, joined with
        | w :: rest, true => ((c :: w) :: rest, true)
        | ws, _ => ([c] :: ws, true) := by
  delta prependToWords
  dsimp only
  generalize isBlank c = blank
  cases blank <;> rfl

theorem prependToWords_blank {c : Char} (hc : isBlank c = true) (state : List (List Char) × Bool) :
    prependToWords c state = (state.1, false) := by
  obtain ⟨ws, joined⟩ := state
  rw [prependToWords_eq, hc, cond_true]

theorem prependToWords_first {c : Char} (hc : isBlank c = false) (ws : List (List Char)) :
    prependToWords c (ws, false) = ([c] :: ws, true) := by
  rw [prependToWords_eq, hc, cond_false]
  cases ws <;> rfl

theorem prependToWords_joined {c : Char} (hc : isBlank c = false) (w : List Char)
    (ws : List (List Char)) : prependToWords c (w :: ws, true) = ((c :: w) :: ws, true) := by
  rw [prependToWords_eq, hc, cond_false]

theorem foldr_word {w : List Char} (hw : IsWord w) (ws : List (List Char)) :
    w.foldr prependToWords (ws, false) = (w :: ws, true) := by
  obtain ⟨hne, hsolid⟩ := hw
  induction w with
  | nil => exact absurd rfl hne
  | cons c w ih =>
    have hc : isBlank c = false := hsolid c List.mem_cons_self
    have hrest : ∀ a ∈ w, isBlank a = false := fun a ha => hsolid a (List.mem_cons_of_mem c ha)
    rw [List.foldr_cons]
    cases w with
    | nil => exact prependToWords_first hc ws
    | cons b w =>
      rw [ih (List.cons_ne_nil b w) hrest]
      exact prependToWords_joined hc (b :: w) ws

theorem words_of_isWord {w : List Char} (hw : IsWord w) : words w = [w] := by
  rw [words, foldr_word hw]

theorem words_append {w : List Char} {c : Char} (hw : IsWord w) (hc : isBlank c = true)
    (rest : List Char) : words (w ++ c :: rest) = w :: words rest := by
  rw [words, List.foldr_append, List.foldr_cons, prependToWords_blank hc, foldr_word hw]
  rfl

theorem words_cons_blank {c : Char} (hc : isBlank c = true) (s : List Char) : words (c :: s) = words s := by
  rw [words, List.foldr_cons, prependToWords_blank hc]
  rfl

theorem words_of_blank {gap : List Char} (hgap : isBlankText gap = true) (s : List Char) :
    words (gap ++ s) = words s := by
  induction gap with
  | nil => rfl
  | cons c gap ih =>
    obtain ⟨hc, hrest⟩ := List.forall_mem_cons.mp (List.all_eq_true.mp hgap)
    rw [List.cons_append, words_cons_blank hc, ih (List.all_eq_true.mpr hrest)]

/-! ## Texts by their words -/

theorem dropWhile_isWord {gap w : List Char} (hgap : isBlankText gap = true) (hw : IsWord w) (rest : List Char) :
    (gap ++ (w ++ rest)).dropWhile isBlank = w ++ rest := by
  obtain ⟨c, w', rfl⟩ := List.exists_cons_of_ne_nil hw.ne_nil
  have hc : isBlank c = false := hw.solid c List.mem_cons_self
  rw [List.dropWhile_append_of_pos (List.all_eq_true.mp hgap), List.cons_append, List.dropWhile_cons, hc]
  rfl

/-- A text by its words: blanks stand between two of them, and may stand in front of the first one and behind
the last one. -/
inductive Spaced : List Char → List (List Char) → Prop
  | blank {gap : List Char} (hgap : isBlankText gap = true) : Spaced gap []
  | word {gap w rest : List Char} {ws : List (List Char)} (hgap : isBlankText gap = true) (hw : IsWord w)
      (hend : ∀ c, rest.head? = some c → isBlank c = true) (hrest : Spaced rest ws) :
      Spaced (gap ++ (w ++ rest)) (w :: ws)

theorem Spaced.isWord {s : List Char} {ws : List (List Char)} (h : Spaced s ws) : ∀ w ∈ ws, IsWord w := by
  induction h with
  | blank hgap => exact fun _ hmem => absurd hmem List.not_mem_nil
  | word hgap hw hend hrest ih => exact List.forall_mem_cons.mpr ⟨hw, ih⟩

theorem Spaced.blank_of_nil {s : List Char} (h : Spaced s []) : isBlankText s = true := by
  cases h with
  | blank hgap => exact hgap

/-- The first word is what stands behind the blanks at the front, up to the next blank. -/
theorem Spaced.first_eq {s w : List Char} {ws : List (List Char)} (h : Spaced s (w :: ws)) :
    (s.dropWhile isBlank).takeWhile (fun c => !isBlank c) = w := by
  cases h with
  | @word gap _ rest _ hgap hw hend _ =>
    have hsolid : ∀ d ∈ w, (!isBlank d) = true := fun d hd => by rw [hw.solid d hd]; rfl
    rw [dropWhile_isWord hgap hw, List.takeWhile_append_of_pos hsolid]
    cases rest with
    | nil => simp
    | cons d rest => simp [hend d rfl]

theorem Spaced.words_eq {s : List Char} {ws : List (List Char)} (h : Spaced s ws) : words s = ws := by
  induction h with
  | @blank gap hgap =>
    have hnil := words_of_blank hgap []
    rwa [List.append_nil] at hnil
  | @word gap w rest ws hgap hw hend hrest ih =>
    rw [words_of_blank hgap]
    cases rest with
    | nil =>
      rw [List.append_nil, words_of_isWord hw, ← ih]
      rfl
    | cons c rest =>
      have hc := hend c rfl
      rw [words_append hw hc, ← ih, words_cons_blank hc]

theorem Spaced.cons_blank {c : Char} {s : List Char} {ws : List (List Char)} (hc : isBlank c = true)
    (h : Spaced s ws) : Spaced (c :: s) ws := by
  cases h with
  | blank hgap => exact .blank (by simpa [isBlankText, hc] using hgap)
  | @word gap w rest ws hgap hw hend hrest =>
    have hlonger : isBlankText (c :: gap) = true := by simpa [isBlankText, hc] using hgap
    exact .word hlonger hw hend hrest

/-- The first word of a text that starts with no blank stands at its front. -/
theorem Spaced.front {c : Char} {s w : List Char} {ws : List (List Char)} (hc : isBlank c = false)
    (h : Spaced (c :: s) (w :: ws)) :
    ∃ rest, c :: s = w ++ rest ∧ (∀ d, rest.head? = some d → isBlank d = true) ∧ Spaced rest ws := by
  generalize htext : c :: s = text at h
  cases h with
  | @word gap _ rest _ hgap hw hend hrest =>
    cases gap with
    | nil => exact ⟨rest, rfl, hend, hrest⟩
    | cons d gap =>
      cases htext
      simp [isBlankText, hc] at hgap

/-- A character goes to the front of a word exactly if that word starts right behind it. -/
theorem foldr_joined (s : List Char) :
    (s.foldr prependToWords ([], false)).2 = s.head?.any fun c => !isBlank c := by
  cases s with
  | nil => rfl
  | cons c s =>
    rw [List.foldr_cons]
    generalize s.foldr prependToWords ([], false) = state
    obtain ⟨ws, joined⟩ := state
    cases hc : isBlank c with
    | true => simp [prependToWords_blank hc, hc]
    | false =>
      cases joined with
      | false => simp [prependToWords_first hc, hc]
      | true =>
        cases ws with
        | nil => simp [prependToWords_eq, hc]
        | cons w ws => simp [prependToWords_joined hc, hc]

theorem words_cons_first {c : Char} {s : List Char} (hc : isBlank c = false)
    (hs : ∀ d, s.head? = some d → isBlank d = true) : words (c :: s) = [c] :: words s := by
  have hjoined : (s.foldr prependToWords ([], false)).2 = false := by
    rw [foldr_joined]
    cases h : s.head? with
    | none => rfl
    | some d => simp [hs d h]
  have hstate : s.foldr prependToWords ([], false) = (words s, false) := Prod.ext rfl hjoined
  rw [words, List.foldr_cons, hstate, prependToWords_first hc]

theorem words_cons_joined {c d : Char} {s w : List Char} {ws : List (List Char)} (hc : isBlank c = false)
    (hd : isBlank d = false) (h : words (d :: s) = w :: ws) : words (c :: d :: s) = (c :: w) :: ws := by
  have hjoined : ((d :: s).foldr prependToWords ([], false)).2 = true := by
    rw [foldr_joined]
    simp [hd]
  have hstate : (d :: s).foldr prependToWords ([], false) = (w :: ws, true) := Prod.ext h hjoined
  rw [words, List.foldr_cons, hstate, prependToWords_joined hc]

theorem spaced_words (s : List Char) : Spaced s (words s) := by
  induction s with
  | nil => exact .blank rfl
  | cons c s ih =>
    cases hc : isBlank c with
    | true =>
      rw [words_cons_blank hc]
      exact ih.cons_blank hc
    | false =>
      by_cases hs : ∀ d, s.head? = some d → isBlank d = true
      · have hw : IsWord [c] := ⟨List.cons_ne_nil c [], by simpa using hc⟩
        have hnone : isBlankText [] = true := rfl
        exact words_cons_first hc hs ▸ .word hnone hw hs ih
      · simp only [Classical.not_forall, Bool.not_eq_true] at hs
        obtain ⟨d, hhead, hd⟩ := hs
        obtain ⟨s, rfl⟩ := List.head?_eq_some_iff.mp hhead
        cases hwords : words (d :: s) with
        | nil =>
          have hblank := (hwords ▸ ih).blank_of_nil
          simp [isBlankText, hd] at hblank
        | cons w ws =>
          rw [hwords] at ih
          obtain ⟨rest, hrest, hend, hbehind⟩ := ih.front hd
          have hw := ih.isWord w List.mem_cons_self
          have hword : IsWord (c :: w) := ⟨List.cons_ne_nil c w, List.forall_mem_cons.mpr ⟨hc, hw.solid⟩⟩
          have hnone : isBlankText [] = true := rfl
          rw [words_cons_joined hc hd hwords, hrest]
          exact .word hnone hword hend hbehind

/-- The words of a text are what it is cut into at its blanks, in one way only. -/
theorem words_eq_iff {s : List Char} {ws : List (List Char)} : words s = ws ↔ Spaced s ws :=
  ⟨fun h => h ▸ spaced_words s, Spaced.words_eq⟩

theorem isWord_of_mem_words {s w : List Char} (h : w ∈ words s) : IsWord w :=
  (spaced_words s).isWord w h

/-! ## Trimming -/

/-- A text is what is left of it after trimming, with blanks in front and behind. -/
theorem exists_gaps (s : List Char) :
    ∃ gap gap', isBlankText gap = true ∧ isBlankText gap' = true ∧ s = gap ++ (trim s ++ gap') := by
  have hfront : isBlankText (s.takeWhile isBlank) = true := List.all_takeWhile
  have hback : isBlankText ((s.dropWhile isBlank).reverse.takeWhile isBlank).reverse = true := by
    rw [isBlankText, List.all_reverse]
    exact List.all_takeWhile
  refine ⟨_, _, hfront, hback, ?_⟩
  have hrest : trim s ++ ((s.dropWhile isBlank).reverse.takeWhile isBlank).reverse = s.dropWhile isBlank := by
    rw [trim, trimBy, trimEnd, ← List.reverse_append, List.takeWhile_append_dropWhile, List.reverse_reverse]
  rw [hrest, List.takeWhile_append_dropWhile]

/-- Trimming a text of one word leaves that word. -/
theorem trim_eq_iff {s w : List Char} (hw : IsWord w) : trim s = w ↔ Spaced s [w] := by
  refine ⟨fun h => ?_, fun h => ?_⟩
  · obtain ⟨gap, gap', hgap, hgap', hs⟩ := exists_gaps s
    rw [hs, h]
    refine .word hgap hw (fun c hc => ?_) (.blank hgap')
    exact List.all_eq_true.mp hgap' c (List.mem_of_mem_head? hc)
  · cases h with
    | @word gap _ rest _ hgap _ _ hrest =>
      have hback : isBlankText rest.reverse = true := by
        rw [isBlankText, List.all_reverse]
        exact hrest.blank_of_nil
      have hw' : IsWord w.reverse :=
        ⟨mt List.reverse_eq_nil_iff.mp hw.ne_nil, fun c hc => hw.solid c (List.mem_reverse.mp hc)⟩
      have hdrop := dropWhile_isWord hback hw' []
      rw [List.append_nil] at hdrop
      rw [trim, trimBy, trimEnd, dropWhile_isWord hgap hw, List.reverse_append, hdrop, List.reverse_reverse]

end FileExchange.Text
