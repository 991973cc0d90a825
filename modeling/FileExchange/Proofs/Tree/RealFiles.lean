import FileExchange.Proofs.Tree.RealPath
import FileExchange.Proofs.Tree.Storing

/-!
# Files at real places

The path of a real place is its own real path. A place stays real as long as no new link stands on the way to
it, and a file that is stored at a real place can be opened under the path of that place.
-/

set_option autoImplicit false

namespace FileExchange.Tree

variable {t t' : Tree} {l d : Location} {name : String} {bytes : Bytes}

/-! ## Real places are their own real paths -/

theorem followOn_real {enter : Location → Location → List String → Resolution} (h : t.IsReal l)
    (hne : ∀ n ∈ l, n ≠ "") {here : Location} {rest : List String} (hl : here ++ rest = l) :
    followOn t enter here rest = if rest.any hasNul then .refused else .reached l := by
  induction rest generalizing here with
  | nil =>
    rw [List.append_nil] at hl
    rw [followOn, hl]
    rfl
  | cons name rest ih =>
    have hnext : here ++ [name] ++ rest = l := by simpa using hl
    have hmem : name ∈ l := by simp [← hl]
    have hname : name ≠ "" ∧ name ≠ "." ∧ name ≠ ".." := ⟨hne name hmem, h.2 name hmem⟩
    rw [List.any_cons]
    cases hnul : hasNul name with
    | true => exact followOn_refused hname hnul rest
    | false => exact (followOn_down hname hnul (h.1 (here ++ [name]) ⟨rest, hnext⟩) rest).trans (ih hnext)

theorem following_of_isReal (h : t.IsReal l) (hne : ∀ n ∈ l, n ≠ "") :
    t.following l.path = if l.any hasNul then .refused else .reached l :=
  followOn_real h hne rfl

theorem realPath_of_isReal (h : t.IsReal l) (hne : ∀ n ∈ l, n ≠ "") :
    t.realPath l.path = if l.any hasNul then .error .embeddedNul else .ok l.path := by
  rw [realPath_eq, following_of_isReal h hne]
  cases l.any hasNul <;> rfl

/-- The path of the place at which following ends leads to that place. -/
theorem following_of_reached {p : Path} (hp : p.isAbsolute = true) (hnames : ∀ n ∈ p.names, '/' ∉ n.toList)
    (h : t.following p = .reached l) : t.following l.path = .reached l := by
  rw [following, start_of_isAbsolute hp] at h
  have hplain := isPlain_of_follow (by simp) hnames h
  have hnul : l.any hasNul = false := by
    rw [List.any_eq_false]
    exact fun n hn => Bool.eq_false_iff.mp (hasNul_of_follow (by simp) h n hn)
  rw [following_of_isReal (isReal_of_follow (isReal_root t) h) fun n hn => (hplain n hn).1.1, hnul]
  rfl

theorem any_hasNul (l : Location) : l.any hasNul = hasNul l.path.text := by
  rw [Bool.eq_iff_iff, List.any_eq_true, hasNul_text]
  simp [hasNul, Location.path]

theorem hasNul_of_stat {p : Path} (h : t.stat p = .error .embeddedNul) : hasNul p.text = true := by
  cases hnul : hasNul p.text with
  | true => rfl
  | false =>
    unfold stat locate at h
    rw [if_neg (by simp [hnul])] at h
    split at h
    · cases h
    · cases h
    · rename_i hlocate
      cases h
      split at hlocate
      · cases hlocate
      · split at hlocate <;> cases hlocate

/-- The path of a real place can be resolved, whether or not there is anything. -/
theorem resolve_of_isReal (h : t.IsReal l) (hne : ∀ n ∈ l, n ≠ "") (hnul : hasNul l.path.text = false) :
    t.resolve l.path = .ok l.path := by
  have hpath : t.realPath l.path = .ok l.path := by
    rw [realPath_of_isReal h hne, any_hasNul, hnul]
    rfl
  rw [resolve, hpath]
  dsimp only [confirm]
  split
  · rename_i texts hstat
    exact absurd hstat (stat_real_ne h texts)
  · rename_i hstat
    rw [hasNul_of_stat hstat] at hnul
    cases hnul
  · rfl

/-! ## One name more -/

theorem followOn_append {enter : Location → Location → List String → Resolution} {here : Location}
    {names : List String} (h : followOn t enter here names = .reached l) (more : List String) :
    followOn t enter here (names ++ more) = followOn t enter l more := by
  induction names generalizing here with
  | nil =>
    rw [followOn, Resolution.reached.injEq] at h
    rw [List.nil_append, h]
  | cons name names ih =>
    have honward : ∀ there, (∀ rest, followOn t enter here (name :: rest) = followOn t enter there rest) →
        followOn t enter here (name :: (names ++ more)) = followOn t enter l more := by
      intro there hthere
      rw [hthere] at h ⊢
      exact ih h
    cases t.followsFirst enter here name with
    | stay hrest => exact honward _ hrest
    | up hrest => exact honward _ hrest
    | down _ _ _ hrest => exact honward _ hrest
    | through _ _ _ hrest => exact honward _ hrest
    | loop target text _ hrest =>
      rw [hrest] at h
      cases h
    | refuse hrest =>
      rw [hrest] at h
      cases h

theorem follow_append {depth : Nat} {active : List Location} {here : Location} {names : List String}
    (h : follow t depth active here names = .reached l) (more : List String) :
    follow t depth active here (names ++ more) = follow t depth active l more := by
  cases depth <;> exact followOn_append h more

/-- From where a path leads, one name more leads on as it does behind the path. -/
theorem following_child {p : Path} (hp : p.isAbsolute = true) (hnames : ∀ n ∈ p.names, '/' ∉ n.toList)
    (h : t.following p = .reached l) (name : String) :
    t.following (p.child name) = t.following (l.path.child name) := by
  have hstart := start_of_isAbsolute (t := t) hp
  have hreal : follow t (t.linkCount + 1) [] [] l = .reached l := following_of_reached hp hnames h
  rw [following, hstart] at h
  have hchild : t.start (p.child name) = [] := hstart
  rw [following, hchild]
  exact (follow_append h [name]).trans (follow_append hreal [name]).symm

theorem hasNul_child (p : Path) (name : String) :
    hasNul (p.child name).text = (hasNul p.text || hasNul name) := by
  have hname : hasNul name = true ↔ '\x00' ∈ name.toList := by simp [hasNul]
  rw [Bool.eq_iff_iff, Bool.or_eq_true, hasNul_text, hasNul_text, hname, Path.child]
  simp only [List.mem_append, List.mem_singleton, or_and_right, exists_or, exists_eq_left]

theorem resolve_child {p : Path} (hp : p.isAbsolute = true) (hnames : ∀ n ∈ p.names, '/' ∉ n.toList)
    (h : t.following p = .reached l) (name : String) :
    t.resolve (p.child name) = t.resolve (l.path.child name) := by
  simp only [resolve, realPath_eq, following_child hp hnames h name]

/-! ## Staying real -/

theorem view_eq_link {target : String} :
    t.view l = some (.link target) ↔ t.node? l = some (.link target) := by
  rw [view, Option.map_eq_some_iff]
  constructor
  · rintro ⟨n, hn, hwhat⟩
    cases n with
    | directory => cases hwhat
    | file id => cases hwhat
    | link target' =>
      cases hwhat
      exact hn
  · exact fun h => ⟨_, h, rfl⟩

theorem linkAt?_eq_none (h : ∀ target, t.node? l ≠ some (.link target)) : t.linkAt? l = none := by
  unfold linkAt?
  split
  · rename_i target hnode
    exact absurd hnode (h target)
  · rfl

theorem IsReal.of_view (h : t.IsReal l) (hview : ∀ k, k <+: l → ∀ target,
    t'.view k = some (.link target) → t.view k = some (.link target)) : t'.IsReal l := by
  refine ⟨fun k hk => ?_, h.2⟩
  by_cases hnode : ∃ target, t'.node? k = some (.link target)
  · obtain ⟨target, hnode⟩ := hnode
    have hnode' := view_eq_link.mp (hview k hk target (view_eq_link.mpr hnode))
    have hlink := h.1 k hk
    rw [linkAt?, hnode'] at hlink
    rw [linkAt?, hnode]
    exact hlink
  · exact linkAt?_eq_none fun target hlink => hnode ⟨target, hlink⟩

theorem IsReal.grown {P : Location → Prop} (h : t.IsReal l) (hgrown : Grown P t t') : t'.IsReal l := by
  refine h.of_view fun k _ target hlink => ?_
  rcases hgrown.view k with hsame | ⟨_, hnew, _⟩
  · rwa [← hsame]
  · rw [hnew] at hlink
    cases hlink

/-- A new file in a real directory is at a real place. -/
theorem IsReal.gains (h : t.IsReal d) (hname : Path.Descends name)
    (hgains : Gains t t' (d ++ [name]) bytes) : t'.IsReal (d ++ [name]) := by
  have hd : t'.IsReal d := by
    refine h.of_view fun k hk target hlink => ?_
    have hne : k ≠ d ++ [name] := by
      rintro rfl
      exact not_prefix_concat d name hk
    rcases hgains.others k hne with hsame | ⟨_, hnew, _⟩
    · rwa [← hsame]
    · rw [hnew] at hlink
      cases hlink
  refine hd.child hname.1 hname.2 (linkAt?_eq_none fun target hnode => ?_)
  have hfile := hgains.file
  rw [view_eq_link.mpr hnode] at hfile
  cases hfile

theorem leadsTo_of_isReal {d' : Location} (h : t.IsReal d) (hd : t.LeadsTo d.path d') : d' = d :=
  congrArg Place.location (locate_real h hd)

/-! ## Opening -/

theorem stat_of_look? {p : Path} (h : t.look? p = some (.file bytes)) :
    hasNul p.text = false ∧ ∃ id, t.stat p = .ok (.file id) ∧ t.content id = bytes := by
  unfold look? at h
  split at h
  · rename_i l n hlocate
    obtain ⟨hnul, hshort, hwalk⟩ := locate_eq_ok hlocate
    cases n with
    | directory => cases h
    | link target => cases h
    | file id =>
      cases h
      have hthrough := (walk_through (by rw [hwalk]; simp)).trans hwalk
      exact ⟨hnul, id, stat_of_locate (locate_of_walk hnul hshort hthrough), rfl⟩
  · cases h

end FileExchange.Tree
