import FileExchange.Proofs.Path
import FileExchange.Tree.Snapshot

/-!
# Places

What is at each place of a tree, and what one change does to it. In a sound tree nothing is below a
place that is no directory, and every file has its bytes.
-/

set_option autoImplicit false

namespace FileExchange.Tree

structure Sound (t : Tree) : Prop where
  parent : ∀ l name, t.node? (l ++ [name]) ≠ none → t.node? l = some .directory
  stored : ∀ l id, t.node? l = some (.file id) → id < t.contents.size

/-- What is at a place, a file with its bytes. -/
def view (t : Tree) (l : Location) : Option Snapshot.What :=
  (t.node? l).map (Snapshot.whatOf t)

theorem node?_of_ne {t : Tree} {l : Location} (h : l ≠ []) : t.node? l = t.nodes.lookup l := by
  have hempty : l.isEmpty = false := by simpa using h
  rw [node?, hempty]
  rfl

theorem mem_nodes {t : Tree} {l : Location} {n : Node} (hl : l ≠ []) (h : t.node? l = some n) :
    (l, n) ∈ t.nodes := by
  rw [node?_of_ne hl, List.lookup_eq_some_iff] at h
  obtain ⟨before, after, hnodes, _⟩ := h
  rw [hnodes]
  exact List.mem_append_right before List.mem_cons_self

theorem view_eq_none {t : Tree} {l : Location} : t.view l = none ↔ t.node? l = none := by
  rw [view, Option.map_eq_none_iff]

/-! ## Sound trees -/

theorem Sound.directory_above {t : Tree} (ht : t.Sound) {k l : Location} (hk : t.node? k ≠ none) (h : l <+: k)
    (hne : l ≠ k) : t.node? l = some .directory := by
  generalize hlen : k.length = len
  induction len generalizing k with
  | zero =>
    have hnil : k = [] := List.length_eq_zero_iff.mp hlen
    subst hnil
    exact absurd (List.prefix_nil.mp h) hne
  | succ len ih =>
    have hk' : k ≠ [] := by
      rintro rfl
      cases hlen
    obtain ⟨k', name, rfl⟩ : ∃ k' name, k = k' ++ [name] :=
      ⟨k.dropLast, k.getLast hk', (List.dropLast_concat_getLast hk').symm⟩
    have hparent := ht.parent k' name hk
    rcases List.prefix_concat_iff.mp h with rfl | hprefix
    · exact absurd rfl hne
    · by_cases heq : l = k'
      · rw [heq, hparent]
      · refine ih (by rw [hparent]; simp) hprefix heq ?_
        rw [List.length_append, List.length_singleton] at hlen
        omega

theorem Sound.directories_above {t : Tree} (ht : t.Sound) {d : Location}
    (hd : t.node? d = some .directory) (k : Location) (hk : k <+: d) :
    t.node? k = some .directory := by
  by_cases heq : k = d
  · rw [heq, hd]
  · exact ht.directory_above (by rw [hd]; simp) hk heq

theorem Sound.none_below {t : Tree} (ht : t.Sound) {k l : Location} (hl : t.node? l ≠ some .directory)
    (h : l <+: k) (hne : l ≠ k) : t.node? k = none :=
  Classical.byContradiction fun hk => hl (ht.directory_above hk h hne)

def hasBytes (t : Tree) : Node → Bool
  | .file id => decide (id < t.contents.size)
  | _ => true

theorem sound_of_nodes {t : Tree}
    (h : ∀ e ∈ t.nodes, t.node? e.1.dropLast = some .directory ∧ t.hasBytes e.2 = true) : t.Sound := by
  refine ⟨fun l name hne => ?_, fun l id hid => ?_⟩
  · obtain ⟨n, hn⟩ := Option.ne_none_iff_exists'.mp hne
    have hparent := (h _ (mem_nodes (by simp) hn)).1
    rwa [List.dropLast_concat] at hparent
  · by_cases hl : l = []
    · rw [hl] at hid
      cases hid
    · have hbytes := (h _ (mem_nodes hl hid)).2
      simpa [hasBytes] using hbytes

/-! ## One change -/

theorem lookup_filter {α β : Type} [BEq α] [LawfulBEq α] (p : α → Bool) (k : α) (l : List (α × β)) :
    (l.filter fun e => p e.1).lookup k = if p k then l.lookup k else none := by
  induction l with
  | nil => simp
  | cons e l ih =>
    obtain ⟨key, value⟩ := e
    rw [List.filter_cons, List.lookup_cons]
    by_cases hk : k = key
    · subst hk
      by_cases hp : p k = true
      · simp [hp]
      · simp [hp, ih]
    · have hne : (k == key) = false := by simpa using hk
      by_cases hp : p key = true
      · simp [hp, hne, List.lookup_cons, ih]
      · simp [hp, hne, ih]

theorem node?_put_self {t : Tree} {l : Location} {n : Node} (h : l ≠ []) :
    (t.put l n).node? l = some n := by
  rw [node?_of_ne h, put]
  simp

theorem node?_put_of_ne {t : Tree} {l k : Location} {n : Node} (h : k ≠ l) :
    (t.put l n).node? k = t.node? k := by
  by_cases hk : k = []
  · subst hk
    rfl
  · rw [node?_of_ne hk, node?_of_ne hk, put, List.lookup_cons]
    have hne : (k == l) = false := by simpa using h
    rw [hne, lookup_filter (· != l)]
    simp [h]

theorem node?_drop {t : Tree} {l k : Location} (h : l ≠ []) :
    (t.drop l).node? k = if l <+: k then none else t.node? k := by
  by_cases hk : k = []
  · subst hk
    rw [if_neg (fun hprefix => h (List.prefix_nil.mp hprefix))]
    rfl
  · rw [node?_of_ne hk, node?_of_ne hk, drop, lookup_filter (fun k => !l.isPrefixOf k)]
    by_cases hprefix : l <+: k
    · have hbool : l.isPrefixOf k = true := List.isPrefixOf_iff_prefix.mpr hprefix
      rw [if_pos hprefix, if_neg (by simp [hbool])]
    · have hbool : l.isPrefixOf k = false := by
        rw [Bool.eq_false_iff]
        exact fun h => hprefix (List.isPrefixOf_iff_prefix.mp h)
      rw [if_neg hprefix, if_pos (by simp [hbool])]

theorem node?_addContent (t : Tree) (bytes : Bytes) (l : Location) :
    (t.addContent bytes).2.node? l = t.node? l := rfl

theorem node?_setContent (t : Tree) (id : FileId) (bytes : Bytes) (l : Location) :
    (t.setContent id bytes).node? l = t.node? l := rfl

theorem content_push_of_lt {t : Tree} {bytes : Bytes} {id : FileId} (h : id < t.contents.size) :
    (t.addContent bytes).2.content id = t.content id := by
  simp only [addContent, content, Array.getD_eq_getD_getElem?]
  rw [Array.getElem?_push_lt h, Array.getElem?_eq_getElem h]

theorem content_setContent_self {t : Tree} {id : FileId} (bytes : Bytes) (h : id < t.contents.size) :
    (t.setContent id bytes).content id = bytes := by
  simp only [setContent, content, Array.getD_eq_getD_getElem?]
  rw [Array.getElem?_setIfInBounds_self_of_lt h]
  rfl

theorem content_setContent_of_ne {t : Tree} {id id' : FileId} (bytes : Bytes) (h : id' ≠ id) :
    (t.setContent id bytes).content id' = t.content id' := by
  simp only [setContent, content, Array.getD_eq_getD_getElem?]
  rw [Array.getElem?_setIfInBounds_ne (Ne.symm h)]

/-! ## Staying sound -/

namespace Sound

variable {t : Tree} {d l : Location} {name : String} {n : Node}

/-- A child may be put into a directory, but nothing else in the place of a directory. -/
theorem put (ht : t.Sound) (hd : t.node? d = some .directory)
    (hn : n = .directory ∨ t.node? (d ++ [name]) ≠ some .directory)
    (hstored : ∀ id, n = .file id → id < t.contents.size) : (t.put (d ++ [name]) n).Sound := by
  have hself : (t.put (d ++ [name]) n).node? (d ++ [name]) = some n := node?_put_self (by simp)
  refine ⟨fun k m hm => ?_, fun k id hid => ?_⟩
  · have hdirectory : t.node? k = some .directory := by
      by_cases hkm : k ++ [m] = d ++ [name]
      · rw [(List.append_inj' hkm rfl).1]
        exact hd
      · rw [node?_put_of_ne hkm] at hm
        exact ht.parent k m hm
    by_cases hk : k = d ++ [name]
    · rcases hn with rfl | hne
      · rw [hk, hself]
      · exact absurd (hk ▸ hdirectory) hne
    · rw [node?_put_of_ne hk, hdirectory]
  · by_cases hk : k = d ++ [name]
    · rw [hk, hself] at hid
      exact hstored id (Option.some.inj hid)
    · rw [node?_put_of_ne hk] at hid
      exact ht.stored k id hid

theorem drop (ht : t.Sound) (hl : l ≠ []) : (t.drop l).Sound := by
  refine ⟨fun k m hm => ?_, fun k id hid => ?_⟩
  · rw [node?_drop hl] at hm ⊢
    split at hm
    · exact absurd rfl hm
    · rename_i hkm
      rw [if_neg fun hk => hkm (hk.trans (List.prefix_append k [m]))]
      exact ht.parent k m hm
  · rw [node?_drop hl] at hid
    split at hid
    · cases hid
    · exact ht.stored k id hid

theorem addContent (ht : t.Sound) (bytes : Bytes) : (t.addContent bytes).2.Sound := by
  refine ⟨ht.parent, fun k id hid => ?_⟩
  rw [Tree.addContent, Array.size_push]
  exact Nat.lt_succ_of_lt (ht.stored k id hid)

theorem setContent (ht : t.Sound) (id : FileId) (bytes : Bytes) : (t.setContent id bytes).Sound := by
  refine ⟨ht.parent, fun k id' hid => ?_⟩
  have hlt := ht.stored k id' hid
  rwa [Tree.setContent, Array.size_setIfInBounds]

end Sound

end FileExchange.Tree
