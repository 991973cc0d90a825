import FileExchange.Proofs.Tree.Real

/-!
# Loops of links

Where following runs into a loop, the names behind the looping link stay as they were written. Enough
names `..` among them take the link itself and everything in front of it away, and what stands behind
those is then a path that nobody has followed.
-/

set_option autoImplicit false

namespace FileExchange.Tree

/-! ## Texts of loops -/

theorem isAbsoluteText_joinTexts {names : List String} (h : ∀ n ∈ names, Path.IsName n) :
    isAbsoluteText (Text.joinTexts "/" names) = false := by
  cases names with
  | nil => rfl
  | cons a rest =>
    have ha := h a (by simp)
    have hne : a.toList ≠ [] := fun e => ha.1 (String.toList_eq_nil_iff.mp e)
    have hhead : (Text.joinTexts "/" (a :: rest)).toList.head? = a.toList.head? := by
      cases rest with
      | nil => simp [Text.joinTexts]
      | cons b rest =>
        obtain ⟨c, cs, hcs⟩ := List.exists_cons_of_ne_nil hne
        rw [Text.joinTexts, String.intercalate_cons_cons, String.toList_append, String.toList_append,
          hcs]
        rfl
    have hslash := Path.head?_ne_slash ha
    simpa [isAbsoluteText, hhead] using hslash

theorem isAbsoluteText_joinTextually {front : String} (h : isAbsoluteText front = true)
    (rest : List String) : isAbsoluteText (joinTextually front rest) = true := by
  obtain ⟨cs, hcs⟩ := List.head?_eq_some_iff.mp (by simpa [isAbsoluteText] using h)
  unfold joinTextually
  dsimp only
  split
  · assumption
  · split <;> simp [isAbsoluteText, hcs]

def closed (front : String) : String :=
  if front.toList.getLast? == some '/' then front else front ++ "/"

theorem joinTextually_eq {front : String} {rest : List String} (h : ∀ n ∈ rest, Path.IsName n) :
    joinTextually front rest = closed front ++ Text.joinTexts "/" rest := by
  by_cases hlast : front.toList.getLast? = some '/'
  · simp [joinTextually, isAbsoluteText_joinTexts h, closed, hlast]
  · simp [joinTextually, isAbsoluteText_joinTexts h, closed, hlast, String.append_assoc]

theorem namesOf_closed (front tail : String) :
    Path.namesOf (closed front ++ tail) = Path.namesOf front ++ Path.namesOf tail := by
  unfold closed
  split
  · rename_i hlast
    have hlast' : front.toList.getLast? = some '/' := by simpa using hlast
    obtain ⟨init, hinit⟩ := List.getLast?_eq_some_iff.mp hlast'
    have hfront : front = String.ofList init ++ "/" := by
      rw [← String.toList_inj, hinit]
      simp
    rw [hfront, String.append_assoc, Path.namesOf_append,
      ← String.append_empty (s := String.ofList init ++ "/"), String.append_assoc,
      Path.namesOf_append, Path.namesOf_empty, List.append_nil]
  · rw [String.append_assoc, Path.namesOf_append]

theorem namesOf_joinTextually {front : String} {rest : List String}
    (h : ∀ n ∈ rest, Path.IsName n) :
    Path.namesOf (joinTextually front rest) = Path.namesOf front ++ rest := by
  rw [joinTextually_eq h, namesOf_closed, Path.namesOf_joinTexts h]

theorem anchorOf_joinTextually {front : String} {rest : List String}
    (h : ∀ n ∈ rest, Path.IsName n) :
    Path.anchorOf (joinTextually front rest).toList = Path.anchorOf (closed front).toList := by
  have habsolute := isAbsoluteText_joinTexts h
  rw [joinTextually_eq h, String.toList_append]
  exact Path.anchorOf_append (by simpa [isAbsoluteText] using habsolute)

/-! ## Running into a loop -/

/-- A loop that names run into is met by every longer list of names too, and the names behind the
looping link are kept in both. -/
theorem followOn_looped {t : Tree} {enter : Location → Location → List String → Resolution}
    {here : Location} {names : List String} {text : String}
    (h : followOn t enter here names = .looped text) :
    ∃ front rest, rest <:+ names ∧ text = joinTextually front rest ∧
      ∀ more, followOn t enter here (names ++ more) = .looped (joinTextually front (rest ++ more)) := by
  induction names generalizing here with
  | nil => cases h
  | cons name names ih =>
    have honward : ∀ there, (∀ rest, followOn t enter here (name :: rest) = followOn t enter there rest) →
        ∃ front rest, rest <:+ name :: names ∧ text = joinTextually front rest ∧
          ∀ more, followOn t enter here (name :: names ++ more) =
            .looped (joinTextually front (rest ++ more)) := by
      intro there hthere
      rw [hthere] at h
      obtain ⟨front, rest, hrest, htext, hmore⟩ := ih h
      exact ⟨front, rest, hrest.trans (List.suffix_cons name names), htext,
        fun more => (hthere _).trans (hmore more)⟩
    cases t.followsFirst enter here name with
    | stay hrest => exact honward _ hrest
    | up hrest => exact honward _ hrest
    | down _ _ _ hrest => exact honward _ hrest
    | through _ _ _ hrest => exact honward _ hrest
    | loop target front hentered hrest =>
      rw [hrest] at h
      cases h
      exact ⟨front, names, List.suffix_cons name names, rfl, fun more => hrest _⟩
    | refuse hrest =>
      rw [hrest] at h
      cases h

theorem follow_looped {t : Tree} {depth : Nat} {active : List Location} {here : Location}
    {names : List String} {text : String} (h : follow t depth active here names = .looped text) :
    ∃ front rest, rest <:+ names ∧ text = joinTextually front rest ∧
      ∀ more, follow t depth active here (names ++ more) =
        .looped (joinTextually front (rest ++ more)) := by
  cases depth <;> exact followOn_looped h

/-- The text of a loop starts at the root, as the text of the looping link does. -/
theorem followOn_looped_absolute {t : Tree} {enter : Location → Location → List String → Resolution}
    (henter : ∀ link start names text, enter link start names = .looped text →
      isAbsoluteText text = true)
    {here : Location} {names : List String} {text : String}
    (h : followOn t enter here names = .looped text) : isAbsoluteText text = true := by
  induction names generalizing here with
  | nil => cases h
  | cons name rest ih =>
    cases t.followsFirst enter here name with
    | stay hrest => exact ih (hrest _ ▸ h)
    | up hrest => exact ih (hrest _ ▸ h)
    | down _ _ _ hrest => exact ih (hrest _ ▸ h)
    | through _ _ _ hrest => exact ih (hrest _ ▸ h)
    | loop target front hentered hrest =>
      rw [hrest] at h
      cases h
      exact isAbsoluteText_joinTextually (henter _ _ _ _ hentered) rest
    | refuse hrest =>
      rw [hrest] at h
      cases h

theorem follow_looped_absolute {t : Tree} {depth : Nat} {active : List Location} {here : Location}
    {names : List String} {text : String} (h : follow t depth active here names = .looped text) :
    isAbsoluteText text = true := by
  have hlink : ∀ link : Location, isAbsoluteText link.text = true := by
    intro link
    rw [Location.text, Path.text_of_isAbsolute rfl]
    simp [isAbsoluteText, Location.path, Path.anchorText]
  induction depth generalizing active here names text with
  | zero =>
    refine followOn_looped_absolute ?_ h
    intro link start names text hentered
    cases hentered
    exact hlink link
  | succ depth ih =>
    refine followOn_looped_absolute ?_ h
    intro link start names text hentered
    split at hentered
    · cases hentered
      exact hlink link
    · exact ih hentered

/-! ## What is left of the names -/

theorem foldl_pushName_append {names more : List String} (h : ".." ∉ more) :
    more.foldl pushName names = names ++ more := by
  induction more generalizing names with
  | nil => simp
  | cons name more ih =>
    have hname : name ≠ ".." := fun e => h (by simp [e])
    have hmore : ".." ∉ more := fun hm => h (List.mem_cons_of_mem name hm)
    rw [List.foldl_cons, ih hmore]
    simp [pushName, hname]

theorem length_foldl_pushName_le (front names : List String) :
    (names.foldl pushName front).length ≤ front.length + names.length := by
  induction names generalizing front with
  | nil => simp
  | cons name names ih =>
    have hpush : (pushName front name).length ≤ front.length + 1 := by
      unfold pushName
      split
      · simp only [List.length_dropLast]
        omega
      · simp
    have hrest := ih (pushName front name)
    rw [List.foldl_cons, List.length_cons]
    omega

theorem foldl_pushName_dots {names : List String} {k : Nat} (h : names.length ≤ k) :
    (List.replicate k "..").foldl pushName names = [] := by
  induction k generalizing names with
  | zero =>
    have hnil : names = [] := List.length_eq_zero_iff.mp (Nat.le_zero.mp h)
    rw [hnil]
    rfl
  | succ k ih =>
    have hpush : pushName names ".." = names.dropLast := rfl
    rw [List.replicate_succ, List.foldl_cons, hpush]
    apply ih
    simp only [List.length_dropLast]
    omega

/-- Behind as many names `..` as there are names before them only what follows is left. -/
theorem foldl_pushName_climb {names more : List String} (h : ".." ∉ more) :
    (names ++ (List.replicate names.length ".." ++ more)).foldl pushName [] = more := by
  have hle := length_foldl_pushName_le [] names
  rw [List.foldl_append, List.foldl_append, foldl_pushName_dots (by simpa using hle),
    foldl_pushName_append h, List.nil_append]

theorem mem_foldl_pushName {front names : List String} {n : String}
    (h : n ∈ names.foldl pushName front) : n ∈ front ∨ (n ∈ names ∧ n ≠ "..") := by
  induction names generalizing front with
  | nil => exact Or.inl h
  | cons name names ih =>
    rcases ih (by simpa using h) with hpush | ⟨hmem, hne⟩
    · unfold pushName at hpush
      split at hpush
      · exact Or.inl (List.dropLast_subset front hpush)
      · rename_i hname
        rcases List.mem_append.mp hpush with hfront | hlast
        · exact Or.inl hfront
        · rw [List.mem_singleton.mp hlast]
          exact Or.inr ⟨by simp, by simpa using hname⟩
    · exact Or.inr ⟨List.mem_cons_of_mem name hmem, hne⟩

/-- No name of a collapsed path leads up or stays where it is. -/
theorem isPlain_of_mem_collapse {text n : String}
    (h : n ∈ (collapse (Path.ofString text)).names) : Path.IsPlain n := by
  rcases mem_foldl_pushName h with hnil | ⟨hmem, hne⟩
  · cases hnil
  · exact ⟨Path.isName_of_mem_namesOf hmem, hne⟩

end FileExchange.Tree
