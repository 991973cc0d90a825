import FileExchange.Proofs.Interleaving.Steps

/-!
# What every interleaving keeps

The temporary files of uploads are told apart by their bytes for ever and by their names while they are
being written. Each of them holds what its own upload has written.
-/

set_option autoImplicit false

namespace FileExchange.Interleaving

variable {ι : Type} {d : Location} {jobs : ι → Job} {events : List (Event ι)}
  {s s' : State ι} {e : Event ι}

namespace State

def Holds (s : State ι) (i : ι) (p : Part) : Prop :=
  (s.stage i).part? = some p

def Fills (s : State ι) (i : ι) (p : Part) : Prop :=
  s.stage i = .filling p

theorem Fills.holds {i : ι} {p : Part} (h : s.Fills i p) : s.Holds i p := by
  rw [Holds, h]
  rfl

end State

/-! ## Names and creations -/

/-- Each part was created once, under a name of its own that goes with the name of its upload. -/
structure Named (d : Location) (jobs : ι → Job) (events : List (Event ι)) (s : State ι) : Prop where
  fresh : ∀ i token, s.stage i = .waiting → .create i token ∉ events
  created : ∀ i p, s.Holds i p → ∃ token, .create i token ∈ events
  called : ∀ i p token, s.Holds i p → .create i token ∈ events →
    p.name = World.partName (jobs i).name token
  nameable : ∀ i p, s.Holds i p → Tree.Nameable d.path p.name

theorem Named.ne_name (h : Named d jobs events s) {i : ι} {p : Part} (hp : s.Holds i p) :
    (jobs i).name ≠ p.name := by
  obtain ⟨token, htoken⟩ := h.created i p hp
  rw [h.called i p token hp htoken]
  exact World.partName_ne _ _

theorem Named.nameable_name (h : Named d jobs events s) (hjobs : ∀ i, Path.Descends (jobs i).name)
    {i : ι} {p : Part} (hp : s.Holds i p) : Tree.Nameable d.path (jobs i).name := by
  obtain ⟨token, htoken⟩ := h.created i p hp
  have hname := h.nameable i p hp
  rw [h.called i p token hp htoken] at hname
  exact World.nameable_of_partName (p := d.path) rfl (hjobs i) hname

theorem named_initial (t : Tree) : Named d jobs [] (initial t : State ι) := by
  refine ⟨fun _ _ _ => List.not_mem_nil, ?_, ?_, ?_⟩
  · intro i p hp
    cases hp
  · intro i p token hp
    cases hp
  · intro i p hp
    cases hp

variable [DecidableEq ι]

namespace State

theorem tree_advance (s : State ι) (i : ι) (stage : Stage) (t : Tree) :
    (s.advance i stage t).tree = t := rfl

theorem stage_advance (s : State ι) (i j : ι) (stage : Stage) (t : Tree) :
    (s.advance i stage t).stage j = if j = i then stage else s.stage j := rfl

theorem holds_advance {i j : ι} {stage : Stage} {t : Tree} {q : Part}
    (h : (s.advance i stage t).Holds j q) :
    j = i ∧ stage.part? = some q ∨ j ≠ i ∧ s.Holds j q := by
  rw [Holds, stage_advance] at h
  by_cases hj : j = i
  · rw [if_pos hj] at h
    exact Or.inl ⟨hj, h⟩
  · rw [if_neg hj] at h
    exact Or.inr ⟨hj, h⟩

/-- Where one part is replaced by another that agrees with it in something, that was there before. -/
theorem holds_keep {α : Type} {i j : ι} {p q r : Part} {stage : Stage} {t : Tree} (f : Part → α)
    (hp : s.Holds i p) (hq : stage.part? = some q) (hf : f q = f p)
    (h : (s.advance i stage t).Holds j r) : ∃ r', s.Holds j r' ∧ f r' = f r := by
  rcases holds_advance h with ⟨rfl, hstage⟩ | ⟨_, hold⟩
  · rw [hq] at hstage
    cases hstage
    exact ⟨p, hp, hf.symm⟩
  · exact ⟨r, hold, rfl⟩

theorem fills_advance {i j : ι} {stage : Stage} {t : Tree} {q : Part}
    (h : (s.advance i stage t).Fills j q) : j = i ∧ stage = .filling q ∨ j ≠ i ∧ s.Fills j q := by
  rw [Fills, stage_advance] at h
  by_cases hj : j = i
  · rw [if_pos hj] at h
    exact Or.inl ⟨hj, h⟩
  · rw [if_neg hj] at h
    exact Or.inr ⟨hj, h⟩

end State

/-- A step that keeps the name of a part keeps all of this. -/
theorem Named.keep (h : Named d jobs events s) {i : ι} {p q : Part} {stage : Stage} {t : Tree}
    (hp : s.Fills i p) (hq : stage.part? = some q) (hname : q.name = p.name)
    (he : ∀ j token, e ≠ .create j token) : Named d jobs (events ++ [e]) (s.advance i stage t) := by
  have hmem : ∀ j token, .create j token ∈ events ++ [e] → .create j token ∈ events := by
    intro j token hin
    rcases List.mem_append.mp hin with hin | hin
    · exact hin
    · exact absurd (List.mem_singleton.mp hin).symm (he j token)
  have hback := fun j r => State.holds_keep (j := j) (r := r) (t := t) Part.name hp.holds hq hname
  refine ⟨fun j token hwaiting hin => ?_, fun j r hr => ?_, fun j r token hr hin => ?_,
    fun j r hr => ?_⟩
  · rw [State.stage_advance] at hwaiting
    split at hwaiting
    · rw [hwaiting] at hq
      cases hq
    · exact h.fresh j token hwaiting (hmem j token hin)
  · obtain ⟨r', hr', _⟩ := hback j r hr
    obtain ⟨token, hin⟩ := h.created j r' hr'
    exact ⟨token, List.mem_append_left _ hin⟩
  · obtain ⟨r', hr', heq⟩ := hback j r hr
    rw [← heq]
    exact h.called j r' token hr' (hmem j token hin)
  · obtain ⟨r', hr', heq⟩ := hback j r hr
    rw [← heq]
    exact h.nameable j r' hr'

theorem Named.did (h : Named d jobs events s) (hdid : Did d jobs s e s') :
    Named d jobs (events ++ [e]) s' := by
  cases hdid with
  | create i token hwaiting hname hfree =>
    have hmem : ∀ j token', j ≠ i → .create j token' ∈ events ++ [.create i token] →
        .create j token' ∈ events := by
      intro j token' hj hin
      rcases List.mem_append.mp hin with hin | hin
      · exact hin
      · cases List.mem_singleton.mp hin
        exact absurd rfl hj
    refine ⟨fun j token' hj hin => ?_, fun j r hr => ?_, fun j r token' hr hin => ?_,
      fun j r hr => ?_⟩
    · rw [State.stage_advance] at hj
      split at hj
      · cases hj
      · rename_i hne
        exact h.fresh j token' hj (hmem j token' hne hin)
    · rcases State.holds_advance hr with ⟨rfl, _⟩ | ⟨_, hold⟩
      · exact ⟨token, List.mem_append_right _ (by simp)⟩
      · obtain ⟨token', hin⟩ := h.created j r hold
        exact ⟨token', List.mem_append_left _ hin⟩
    · rcases State.holds_advance hr with ⟨rfl, hstage⟩ | ⟨hne, hold⟩
      · cases hstage
        rcases List.mem_append.mp hin with hin | hin
        · exact absurd hin (h.fresh j token' hwaiting)
        · cases List.mem_singleton.mp hin
          rfl
      · exact h.called j r token' hold (hmem j token' hne hin)
    · rcases State.holds_advance hr with ⟨rfl, hstage⟩ | ⟨_, hold⟩
      · cases hstage
        exact hname
      · exact h.nameable j r hold
  | append i bytes p hfilling hbody => exact h.keep hfilling rfl rfl fun _ _ => nofun
  | publish i p hfilling hbody n hnode hfree => exact h.keep hfilling rfl rfl fun _ _ => nofun
  | abort i p hfilling => exact h.keep hfilling rfl rfl fun _ _ => nofun

/-! ## Bytes -/

/-- Each part has bytes of its own, and they are what its upload has written. -/
structure Stored (jobs : ι → Job) (s : State ι) : Prop where
  bound : ∀ i p, s.Holds i p → p.id < s.tree.contents.size
  content : ∀ i p, s.Holds i p → s.tree.content p.id = p.written
  body : ∀ i p, s.Holds i p → p.written <+: (jobs i).body
  complete : ∀ i p, s.stage i = .published p → p.written = (jobs i).body
  apart : ∀ i j p q, s.Holds i p → s.Holds j q → p.id = q.id → i = j

omit [DecidableEq ι] in
theorem stored_initial (t : Tree) : Stored jobs (initial t : State ι) := by
  refine ⟨?_, ?_, ?_, ?_, ?_⟩
  · intro i p hp
    cases hp
  · intro i p hp
    cases hp
  · intro i p hp
    cases hp
  · intro i p hp
    cases hp
  · intro i j p q hp
    cases hp

theorem Stored.create (h : Stored jobs s) {i : ι} {name : String} {l : Location} :
    Stored jobs (s.advance i (.filling ⟨name, s.tree.contents.size, []⟩) (s.tree.newFile l)) := by
  refine ⟨fun j r hr => ?_, fun j r hr => ?_, fun j r hr => ?_, fun j r hr => ?_,
    fun j k r q hr hq hid => ?_⟩
  · rw [State.tree_advance, Tree.size_newFile]
    rcases State.holds_advance hr with ⟨_, hstage⟩ | ⟨_, hold⟩
    · cases hstage
      exact Nat.lt_succ_self _
    · exact Nat.lt_succ_of_lt (h.bound j r hold)
  · rcases State.holds_advance hr with ⟨_, hstage⟩ | ⟨_, hold⟩
    · cases hstage
      exact Tree.content_newFile_self s.tree l
    · exact (Tree.content_newFile_of_lt (h.bound j r hold)).trans (h.content j r hold)
  · rcases State.holds_advance hr with ⟨_, hstage⟩ | ⟨_, hold⟩
    · cases hstage
      exact List.nil_prefix
    · exact h.body j r hold
  · rw [State.stage_advance] at hr
    split at hr
    · cases hr
    · exact h.complete j r hr
  · rcases State.holds_advance hr with ⟨rfl, hstage⟩ | ⟨_, hold⟩
    · cases hstage
      rcases State.holds_advance hq with ⟨rfl, _⟩ | ⟨_, hold'⟩
      · rfl
      · exact absurd hid.symm (Nat.ne_of_lt (h.bound k q hold'))
    · rcases State.holds_advance hq with ⟨rfl, hstage⟩ | ⟨_, hold'⟩
      · cases hstage
        exact absurd hid (Nat.ne_of_lt (h.bound j r hold))
      · exact h.apart j k r q hold hold' hid

/-- A step that keeps the bytes of a part where they are and all other bytes as they were. -/
theorem Stored.keep (h : Stored jobs s) {i : ι} {p q : Part} {stage : Stage} {t : Tree}
    (hp : s.Holds i p) (hq : stage.part? = some q) (hid : q.id = p.id)
    (hsize : t.contents.size = s.tree.contents.size) (hcontent : t.content p.id = q.written)
    (hothers : ∀ id, id ≠ p.id → t.content id = s.tree.content id)
    (hbody : q.written <+: (jobs i).body)
    (hcomplete : stage = .published q → q.written = (jobs i).body) :
    Stored jobs (s.advance i stage t) := by
  have hback := fun j r => State.holds_keep (j := j) (r := r) (t := t) Part.id hp hq hid
  refine ⟨fun j r hr => ?_, fun j r hr => ?_, fun j r hr => ?_, fun j r hr => ?_,
    fun j k r r' hr hr' heq => ?_⟩
  · obtain ⟨r', hr', heq⟩ := hback j r hr
    rw [← heq]
    exact Nat.lt_of_lt_of_eq (h.bound j r' hr') hsize.symm
  · rcases State.holds_advance hr with ⟨rfl, hstage⟩ | ⟨hne, hold⟩
    · rw [hq] at hstage
      cases hstage
      rw [hid]
      exact hcontent
    · have hother : r.id ≠ p.id := fun heq => hne (h.apart j i r p hold hp heq)
      exact (hothers r.id hother).trans (h.content j r hold)
  · rcases State.holds_advance hr with ⟨rfl, hstage⟩ | ⟨_, hold⟩
    · rw [hq] at hstage
      cases hstage
      exact hbody
    · exact h.body j r hold
  · rw [State.stage_advance] at hr
    split at hr
    · rename_i hji
      rw [hr] at hq
      cases hq
      rw [hji]
      exact hcomplete hr
    · exact h.complete j r hr
  · obtain ⟨q₁, hq₁, heq₁⟩ := hback j r hr
    obtain ⟨q₂, hq₂, heq₂⟩ := hback k r' hr'
    exact h.apart j k q₁ q₂ hq₁ hq₂ (heq₁.trans (heq.trans heq₂.symm))

theorem Stored.did (h : Stored jobs s) (hdid : Did d jobs s e s') : Stored jobs s' := by
  cases hdid with
  | create i token hwaiting hname hfree => exact h.create
  | append i bytes p hfilling hbody =>
    have hp : s.Holds i p := State.Fills.holds hfilling
    refine h.keep hp rfl rfl ?_ ?_ (fun id hid => Tree.content_setContent_of_ne _ hid) hbody nofun
    · rw [Tree.setContent, Array.size_setIfInBounds]
    · rw [Tree.content_setContent_self _ (h.bound i p hp), h.content i p hp]
  | publish i p hfilling hbody n hnode hfree =>
    have hp : s.Holds i p := State.Fills.holds hfilling
    exact h.keep hp rfl rfl rfl (h.content i p hp) (fun _ _ => rfl) (h.body i p hp) fun _ => hbody
  | abort i p hfilling =>
    have hp : s.Holds i p := State.Fills.holds hfilling
    refine h.keep hp rfl rfl rfl (h.content i p hp) (fun _ _ => rfl) (h.body i p hp) fun hstage => ?_
    cases hstage

/-! ## Places -/

/-- The directory stays, and a part that is being written has a name of its own, under which there is
a file. -/
structure Placed (d : Location) (s : State ι) : Prop where
  sound : s.tree.Sound
  leads : s.tree.LeadsTo d.path d
  present : ∀ i p, s.Fills i p → ∃ id, s.tree.node? (d ++ [p.name]) = some (.file id)
  apart : ∀ i j p q, s.Fills i p → s.Fills j q → p.name = q.name → i = j

omit [DecidableEq ι] in
theorem placed_initial {t : Tree} (ht : t.Sound) (hd : t.LeadsTo d.path d) :
    Placed d (initial t : State ι) := by
  refine ⟨ht, hd, ?_, ?_⟩
  · intro i p hp
    cases hp
  · intro i j p q hp
    cases hp

theorem child_inj {a b : String} : d ++ [a] = d ++ [b] ↔ a = b := by
  simp

theorem prefix_ne_child {k : Location} (hk : k <+: d) (name : String) : k ≠ d ++ [name] := by
  rintro rfl
  exact Tree.not_prefix_concat d name hk

omit [DecidableEq ι] in
theorem Placed.directory (h : Placed d s) : s.tree.node? d = some .directory :=
  Tree.leadsTo_node h.sound rfl h.leads

omit [DecidableEq ι] in
theorem Placed.node?_moved (h : Placed d s) {i : ι} {p : Part} (hp : s.Fills i p) (name : String)
    (n : Node) (k : Location) :
    (s.tree.moved (d ++ [p.name]) (d ++ [name]) n).node? k =
      if k = d ++ [name] then some n else if k = d ++ [p.name] then none else s.tree.node? k := by
  refine Tree.node?_moved (by simp) (by simp) (fun m hm hne => ?_) k
  obtain ⟨id, hid⟩ := h.present i p hp
  exact h.sound.none_below (by rw [hid]; simp) hm hne

theorem Placed.create (h : Placed d s) {i : ι} {name : String}
    (hfree : s.tree.node? (d ++ [name]) = none) :
    Placed d (s.advance i (.filling ⟨name, s.tree.contents.size, []⟩)
      (s.tree.newFile (d ++ [name]))) := by
  have hnode := Tree.node?_newFile (t := s.tree) (l := d ++ [name]) (by simp)
  have htaken : ∀ j q, s.Fills j q → q.name ≠ name := by
    rintro j q hq rfl
    obtain ⟨id, hid⟩ := h.present j q hq
    rw [hid] at hfree
    cases hfree
  refine ⟨h.sound.newFile h.directory hfree, Tree.leadsTo_extends (Tree.extends_newFile hfree) h.leads,
    fun j r hr => ?_, fun j k r q hr hq heq => ?_⟩
  · rcases State.fills_advance hr with ⟨_, hstage⟩ | ⟨_, hold⟩
    · cases hstage
      exact ⟨_, (hnode _).trans (if_pos rfl)⟩
    · obtain ⟨id, hid⟩ := h.present j r hold
      refine ⟨id, (hnode _).trans ?_⟩
      rw [if_neg fun heq => htaken j r hold (child_inj.mp heq), hid]
  · rcases State.fills_advance hr with ⟨rfl, hstage⟩ | ⟨_, hold⟩
    · cases hstage
      rcases State.fills_advance hq with ⟨rfl, _⟩ | ⟨_, hold'⟩
      · rfl
      · exact absurd heq.symm (htaken k q hold')
    · rcases State.fills_advance hq with ⟨rfl, hstage⟩ | ⟨_, hold'⟩
      · cases hstage
        exact absurd heq (htaken j r hold)
      · exact h.apart j k r q hold hold' heq

/-- A step that leaves all nodes as they are and gives no part another name. -/
theorem Placed.keep (h : Placed d s) {i : ι} {p : Part} {stage : Stage} {t : Tree} (hp : s.Fills i p)
    (hstage : ∀ q, stage = .filling q → q.name = p.name) (ht : t.Sound) (hleads : t.LeadsTo d.path d)
    (hnode : ∀ l, t.node? l = s.tree.node? l) : Placed d (s.advance i stage t) := by
  have hback : ∀ j r, (s.advance i stage t).Fills j r → ∃ r', s.Fills j r' ∧ r'.name = r.name := by
    intro j r hr
    rcases State.fills_advance hr with ⟨rfl, hfills⟩ | ⟨_, hold⟩
    · exact ⟨p, hp, (hstage r hfills).symm⟩
    · exact ⟨r, hold, rfl⟩
  refine ⟨ht, hleads, fun j r hr => ?_, fun j k r q hr hq heq => ?_⟩
  · obtain ⟨r', hr', hname⟩ := hback j r hr
    obtain ⟨id, hid⟩ := h.present j r' hr'
    exact ⟨id, (hnode _).trans (hname ▸ hid)⟩
  · obtain ⟨r', hr', hname⟩ := hback j r hr
    obtain ⟨q', hq', hname'⟩ := hback k q hq
    exact h.apart j k r' q' hr' hq' (hname.trans (heq.trans hname'.symm))

theorem Placed.publish (h : Placed d s) {i : ι} {p : Part} {name : String} {n : Node}
    (hp : s.Fills i p) (hnode : s.tree.node? (d ++ [p.name]) = some n)
    (hfree : s.tree.node? (d ++ [name]) ≠ some .directory) :
    Placed d (s.advance i (.published p) (s.tree.moved (d ++ [p.name]) (d ++ [name]) n)) := by
  have hmoved := h.node?_moved hp name n
  refine ⟨h.sound.moved h.directory hnode hfree, ?_, fun j r hr => ?_, fun j k r q hr hq heq => ?_⟩
  · refine Tree.leadsTo_path_of_same h.sound (fun k hk => ?_) h.leads
    rw [State.tree_advance, hmoved, if_neg (prefix_ne_child hk name),
      if_neg (prefix_ne_child hk p.name)]
  · rcases State.fills_advance hr with ⟨_, hstage⟩ | ⟨hne, hold⟩
    · cases hstage
    · obtain ⟨id, hid⟩ := h.present i p hp
      rw [hnode] at hid
      rw [State.tree_advance, hmoved]
      split
      · exact ⟨id, hid⟩
      · rw [if_neg fun heq => hne (h.apart j i r p hold hp (child_inj.mp heq))]
        exact h.present j r hold
  · rcases State.fills_advance hr with ⟨_, hstage⟩ | ⟨_, hold⟩
    · cases hstage
    · rcases State.fills_advance hq with ⟨_, hstage⟩ | ⟨_, hold'⟩
      · cases hstage
      · exact h.apart j k r q hold hold' heq

theorem Placed.did (h : Placed d s) (hdid : Did d jobs s e s') : Placed d s' := by
  cases hdid with
  | create i token hwaiting hname hfree => exact h.create hfree
  | append i bytes p hfilling hbody =>
    refine h.keep hfilling (fun q hq => ?_) (h.sound.setContent _ _)
      (Tree.leadsTo_extends (Tree.extends_setContent _ _ _) h.leads) fun _ => rfl
    cases hq
    rfl
  | publish i p hfilling hbody n hnode hfree => exact h.publish hfilling hnode hfree
  | abort i p hfilling => exact h.keep hfilling nofun h.sound h.leads fun _ => rfl

/-! ## Runs -/

structure Orderly (d : Location) (jobs : ι → Job) (events : List (Event ι)) (s : State ι) : Prop where
  named : Named d jobs events s
  stored : Stored jobs s
  placed : Placed d s

theorem Orderly.did_of_step (h : Orderly d jobs events s) (hjobs : ∀ i, Path.Descends (jobs i).name)
    (hstep : s.step d.path jobs e = some s') : Did d jobs s e s' :=
  Interleaving.did_of_step h.placed.leads hjobs
    (fun i p hp => (h.named.nameable i p (State.Fills.holds hp)).descends) hstep

theorem Orderly.did (h : Orderly d jobs events s) (hdid : Did d jobs s e s') :
    Orderly d jobs (events ++ [e]) s' :=
  ⟨h.named.did hdid, h.stored.did hdid, h.placed.did hdid⟩

theorem Orderly.run {rest : List (Event ι)} (h : Orderly d jobs events s)
    (hjobs : ∀ i, Path.Descends (jobs i).name) (hrun : run d.path jobs s rest = some s') :
    Orderly d jobs (events ++ rest) s' := by
  induction rest generalizing events s with
  | nil =>
    cases hrun
    rw [List.append_nil]
    exact h
  | cons e rest ih =>
    rw [Interleaving.run, Option.bind_eq_some_iff] at hrun
    obtain ⟨s₁, hstep, hrest⟩ := hrun
    have hlater := ih (h.did (h.did_of_step hjobs hstep)) hrest
    rwa [List.append_assoc] at hlater

theorem orderly_of_run {t : Tree} (ht : t.Sound) (hd : t.LeadsTo d.path d)
    (hjobs : ∀ i, Path.Descends (jobs i).name) (h : run d.path jobs (initial t) events = some s) :
    Orderly d jobs events s := by
  have hinitial : Orderly d jobs [] (initial t : State ι) :=
    ⟨named_initial t, stored_initial t, placed_initial ht hd⟩
  exact hinitial.run hjobs h

/-- What each step from an orderly state keeps, a whole run keeps. -/
theorem Orderly.keeps {P : List (Event ι) → State ι → Prop} {rest : List (Event ι)}
    (h : Orderly d jobs events s) (hjobs : ∀ i, Path.Descends (jobs i).name)
    (hdid : ∀ events s e s', Orderly d jobs events s → Did d jobs s e s' → P events s →
      P (events ++ [e]) s')
    (hP : P events s) (hrun : Interleaving.run d.path jobs s rest = some s') : P (events ++ rest) s' := by
  induction rest generalizing events s with
  | nil =>
    cases hrun
    rwa [List.append_nil]
  | cons e rest ih =>
    rw [Interleaving.run, Option.bind_eq_some_iff] at hrun
    obtain ⟨s₁, hstep, hrest⟩ := hrun
    have hone := h.did_of_step hjobs hstep
    have hlater := ih (h.did hone) (hdid events s e s₁ h hone hP) hrest
    rwa [List.append_assoc] at hlater

end FileExchange.Interleaving
