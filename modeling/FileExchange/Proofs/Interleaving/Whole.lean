import FileExchange.Proofs.Interleaving.Attribution

/-!
# Whole files

What has a name in the directory while uploads run: what had it before them, nothing any more, or a file
that one upload has written alone. Outside the temporary names such a file is complete.
-/

set_option autoImplicit false

namespace FileExchange.Interleaving

variable {ι : Type} {d : Location} {jobs : ι → Job} {events : List (Event ι)} {t : Tree}
  {s s' : State ι} {e : Event ι} {name : String}

/-! ## Old and new files -/

/-- The files that were there before are as they were, and each other file belongs to an upload. -/
structure Layered (t : Tree) (s : State ι) : Prop where
  size : t.contents.size ≤ s.tree.contents.size
  older : ∀ id, id < t.contents.size → s.tree.content id = t.content id
  newer : ∀ i p, s.Holds i p → t.contents.size ≤ p.id
  owner : ∀ id, t.contents.size ≤ id → id < s.tree.contents.size → ∃ i p, s.Holds i p ∧ p.id = id

theorem layered_initial (t : Tree) : Layered t (initial t : State ι) := by
  refine ⟨Nat.le_refl _, fun _ _ => rfl, ?_, fun id hge hlt => absurd hlt (Nat.not_lt.mpr hge)⟩
  intro i p hp
  cases hp

/-! ## Entries -/

/-- What has a name: what had it at first, a published file, the file of an upload that is not
published, or nothing where such a file has been. -/
inductive Entry (d : Location) (t : Tree) (s : State ι) (name : String) : Prop
  | initial (hnode : s.tree.node? (d ++ [name]) = t.node? (d ++ [name]))
  | published (i : ι) (p : Part) (hstage : s.stage i = .published p)
      (hnode : s.tree.node? (d ++ [name]) = some (.file p.id))
  | temporary (i : ι) (p : Part) (hstage : s.stage i = .filling p ∨ s.stage i = .aborted p)
      (hname : p.name = name) (hnode : s.tree.node? (d ++ [name]) = some (.file p.id))
  | vacated (i : ι) (p : Part) (hstage : s.stage i = .published p) (hname : p.name = name)
      (hnode : s.tree.node? (d ++ [name]) = none)

/-- A part that is being written has under its name its own file, or one that was published there. -/
structure Settled (d : Location) (t : Tree) (s : State ι) : Prop where
  entry : ∀ name, Entry d t s name
  filling : ∀ i p, s.Fills i p → s.tree.node? (d ++ [p.name]) = some (.file p.id) ∨
    ∃ j q, s.stage j = .published q ∧ s.tree.node? (d ++ [p.name]) = some (.file q.id)

theorem settled_initial (d : Location) (t : Tree) : Settled d t (initial t : State ι) := by
  refine ⟨fun name => .initial rfl, ?_⟩
  intro i p hp
  cases hp

variable [DecidableEq ι]

namespace State

theorem holds_of_ne {i j : ι} {stage : Stage} {q : Part} (t : Tree) (hne : j ≠ i) (h : s.Holds j q) :
    (s.advance i stage t).Holds j q := by
  rw [Holds, stage_advance, if_neg hne]
  exact h

theorem holds_self {i : ι} {stage : Stage} {q : Part} (t : Tree) (h : stage.part? = some q) :
    (s.advance i stage t).Holds i q := by
  rw [Holds, stage_advance, if_pos rfl]
  exact h

theorem stage_of_ne {i j : ι} {stage : Stage} (t : Tree) (hne : j ≠ i) :
    (s.advance i stage t).stage j = s.stage j := by
  rw [stage_advance, if_neg hne]

theorem stage_self (s : State ι) (i : ι) (stage : Stage) (t : Tree) :
    (s.advance i stage t).stage i = stage := by
  rw [stage_advance, if_pos rfl]

end State

/-! ## Steps on files -/

theorem Layered.create (h : Layered t s) {i : ι} {part : String} {l : Location}
    (hwaiting : s.stage i = .waiting) :
    Layered t (s.advance i (.filling ⟨part, s.tree.contents.size, []⟩) (s.tree.newFile l)) := by
  refine ⟨?_, fun id hid => ?_, fun j r hr => ?_, fun id hge hlt => ?_⟩
  · rw [State.tree_advance, Tree.size_newFile]
    exact Nat.le_succ_of_le h.size
  · exact (Tree.content_newFile_of_lt (Nat.lt_of_lt_of_le hid h.size)).trans (h.older id hid)
  · rcases State.holds_advance hr with ⟨_, hstage⟩ | ⟨_, hold⟩
    · cases hstage
      exact h.size
    · exact h.newer j r hold
  · rw [State.tree_advance, Tree.size_newFile] at hlt
    rcases Nat.lt_succ_iff_lt_or_eq.mp hlt with hlt | rfl
    · obtain ⟨j, r, hr, hid⟩ := h.owner id hge hlt
      have hne : j ≠ i := by
        rintro rfl
        rw [State.Holds, hwaiting] at hr
        cases hr
      exact ⟨j, r, State.holds_of_ne _ hne hr, hid⟩
    · exact ⟨i, _, State.holds_self _ rfl, rfl⟩

/-- A step that makes no file and changes at most the file of one part. -/
theorem Layered.keep (h : Layered t s) {i : ι} {p q : Part} {stage : Stage} {tree : Tree}
    (hp : s.Holds i p) (hq : stage.part? = some q) (hid : q.id = p.id)
    (hsize : tree.contents.size = s.tree.contents.size)
    (hothers : ∀ id, id ≠ p.id → tree.content id = s.tree.content id) :
    Layered t (s.advance i stage tree) := by
  refine ⟨?_, fun id hlt => ?_, fun j r hr => ?_, fun id hge hlt => ?_⟩
  · rw [State.tree_advance, hsize]
    exact h.size
  · have hne : id ≠ p.id := Nat.ne_of_lt (Nat.lt_of_lt_of_le hlt (h.newer i p hp))
    exact (hothers id hne).trans (h.older id hlt)
  · obtain ⟨r', hr', heq⟩ := State.holds_keep Part.id hp hq hid hr
    exact heq ▸ h.newer j r' hr'
  · rw [State.tree_advance, hsize] at hlt
    obtain ⟨j, r, hr, rfl⟩ := h.owner id hge hlt
    by_cases hj : j = i
    · subst hj
      rw [State.Holds, hp] at hr
      cases hr
      exact ⟨j, q, State.holds_self _ hq, hid⟩
    · exact ⟨j, r, State.holds_of_ne _ hj hr, rfl⟩

theorem Layered.did (h : Layered t s) (hdid : Did d jobs s e s') : Layered t s' := by
  cases hdid with
  | create i token hwaiting hname hfree => exact h.create hwaiting
  | append i bytes p hfilling hbody =>
    refine h.keep (State.Fills.holds hfilling) rfl rfl ?_ fun id hid =>
      Tree.content_setContent_of_ne _ hid
    rw [Tree.setContent, Array.size_setIfInBounds]
  | publish i p hfilling hbody n hnode hfree =>
    exact h.keep (State.Fills.holds hfilling) rfl rfl rfl fun _ _ => rfl
  | abort i p hfilling => exact h.keep (State.Fills.holds hfilling) rfl rfl rfl fun _ _ => rfl

/-! ## Steps on names -/

/-- A step that leaves a name alone keeps its entry, unless it moves the part that has the name. -/
theorem Entry.advance (h : Entry d t s name) {i : ι} {stage : Stage} {tree : Tree}
    (hnode : tree.node? (d ++ [name]) = s.tree.node? (d ++ [name]))
    (hpublished : ∀ p, s.stage i ≠ .published p)
    (htemporary : ∀ p, s.stage i = .filling p ∨ s.stage i = .aborted p → p.name = name →
      ∃ q, (stage = .filling q ∨ stage = .aborted q) ∧ q.name = name ∧ q.id = p.id) :
    Entry d t (s.advance i stage tree) name := by
  have hother : ∀ j p, s.stage j = .published p →
      (s.advance i stage tree).stage j = .published p := by
    intro j p hstage
    have hne : j ≠ i := by
      rintro rfl
      exact hpublished p hstage
    rw [State.stage_of_ne _ hne, hstage]
  cases h with
  | initial hold => exact .initial (hnode.trans hold)
  | published j p hstage hold => exact .published j p (hother j p hstage) (hnode.trans hold)
  | temporary j p hstage hname hold =>
    by_cases hj : j = i
    · subst hj
      obtain ⟨q, hq, hqname, hid⟩ := htemporary p hstage hname
      refine .temporary j q ?_ hqname ?_
      · rw [State.stage_self]
        exact hq
      · rw [State.tree_advance, hnode, hold, hid]
    · refine .temporary j p ?_ hname (hnode.trans hold)
      rw [State.stage_of_ne _ hj]
      exact hstage
  | vacated j p hstage hname hold => exact .vacated j p (hother j p hstage) hname (hnode.trans hold)

theorem Settled.create (h : Settled d t s) (hplaced : Placed d s) {i : ι} {part : String}
    (hwaiting : s.stage i = .waiting) (hfree : s.tree.node? (d ++ [part]) = none) :
    Settled d t (s.advance i (.filling ⟨part, s.tree.contents.size, []⟩)
      (s.tree.newFile (d ++ [part]))) := by
  have hnode := Tree.node?_newFile (t := s.tree) (l := d ++ [part]) (by simp)
  have hself : (s.tree.newFile (d ++ [part])).node? (d ++ [part]) =
      some (.file s.tree.contents.size) := (hnode _).trans (if_pos rfl)
  have hsame : ∀ name, name ≠ part →
      (s.tree.newFile (d ++ [part])).node? (d ++ [name]) = s.tree.node? (d ++ [name]) :=
    fun name hne => (hnode _).trans (if_neg fun heq => hne (child_inj.mp heq))
  refine ⟨fun name => ?_, fun j r hr => ?_⟩
  · by_cases hname : name = part
    · subst hname
      exact .temporary i _ (Or.inl (State.stage_self _ _ _ _)) rfl hself
    · refine (h.entry name).advance (hsame name hname) (fun p hp => ?_) fun p hp => ?_
      · rw [hwaiting] at hp
        cases hp
      · rw [hwaiting] at hp
        rcases hp with hp | hp <;> cases hp
  · rcases State.fills_advance hr with ⟨rfl, hstage⟩ | ⟨hne, hold⟩
    · cases hstage
      exact Or.inl hself
    · have hname : r.name ≠ part := by
        rintro rfl
        obtain ⟨id, hid⟩ := hplaced.present j r hold
        rw [hfree] at hid
        cases hid
      rw [State.tree_advance, hsame _ hname]
      refine (h.filling j r hold).imp id ?_
      rintro ⟨k, q, hq, hthere⟩
      have hk : k ≠ i := by
        rintro rfl
        rw [hwaiting] at hq
        cases hq
      exact ⟨k, q, (State.stage_of_ne _ hk).trans hq, hthere⟩

/-- A step that leaves all names alone and publishes nothing. -/
theorem Settled.keep (h : Settled d t s) {i : ι} {p q : Part} {stage : Stage} {tree : Tree}
    (hp : s.Fills i p) (hstage : stage = .filling q ∨ stage = .aborted q) (hname : q.name = p.name)
    (hid : q.id = p.id) (hnode : ∀ l, tree.node? l = s.tree.node? l) :
    Settled d t (s.advance i stage tree) := by
  have hunpublished : ∀ r, s.stage i ≠ .published r := by
    intro r hr
    rw [hp] at hr
    cases hr
  refine ⟨fun name => ?_, fun j r hr => ?_⟩
  · refine (h.entry name).advance (hnode _) hunpublished fun r hr hrname => ⟨q, hstage, ?_, ?_⟩
    · rw [hp] at hr
      rcases hr with hr | hr <;> cases hr
      exact hname.trans hrname
    · rw [hp] at hr
      rcases hr with hr | hr <;> cases hr
      exact hid
  · have hback : ∃ r', s.Fills j r' ∧ r'.name = r.name ∧ r'.id = r.id := by
      rcases State.fills_advance hr with ⟨rfl, hfills⟩ | ⟨_, hold⟩
      · rw [hfills] at hstage
        rcases hstage with heq | heq <;> cases heq
        exact ⟨p, hp, hname.symm, hid.symm⟩
      · exact ⟨r, hold, rfl, rfl⟩
    obtain ⟨r', hr', hrname, hrid⟩ := hback
    rw [State.tree_advance, hnode, ← hrname, ← hrid]
    refine (h.filling j r' hr').imp id ?_
    rintro ⟨k, q', hq', hthere⟩
    have hk : k ≠ i := by
      rintro rfl
      exact hunpublished q' hq'
    exact ⟨k, q', (State.stage_of_ne _ hk).trans hq', hthere⟩

/-- What is moved is a file that is published then, be it the upload's own or another one. -/
theorem Settled.publish (h : Settled d t s) (hplaced : Placed d s) {i : ι} {p : Part} {name : String}
    {n : Node} (hp : s.Fills i p) (hnode : s.tree.node? (d ++ [p.name]) = some n) :
    Settled d t (s.advance i (.published p)
      (s.tree.moved (d ++ [p.name]) (d ++ [name]) n)) := by
  have hmoved := hplaced.node?_moved hp name n
  have hunpublished : ∀ r, s.stage i ≠ .published r := by
    intro r hr
    rw [hp] at hr
    cases hr
  have hkeep : ∀ k q, s.stage k = .published q →
      (s.advance i (.published p) (s.tree.moved (d ++ [p.name]) (d ++ [name]) n)).stage k =
        .published q := by
    intro k q hq
    have hk : k ≠ i := by
      rintro rfl
      exact hunpublished q hq
    rw [State.stage_of_ne _ hk, hq]
  have howner : ∃ k q, (s.advance i (.published p)
      (s.tree.moved (d ++ [p.name]) (d ++ [name]) n)).stage k = .published q ∧ n = .file q.id := by
    rcases h.filling i p hp with hown | ⟨k, q, hq, hother⟩
    · rw [hnode] at hown
      exact ⟨i, p, State.stage_self _ _ _ _, Option.some.inj hown⟩
    · rw [hnode] at hother
      exact ⟨k, q, hkeep k q hq, Option.some.inj hother⟩
  obtain ⟨k, q, hq, rfl⟩ := howner
  refine ⟨fun m => ?_, fun j r hr => ?_⟩
  · by_cases hm : m = name
    · subst hm
      exact .published k q hq ((hmoved _).trans (if_pos rfl))
    · have hother := hmoved (d ++ [m])
      rw [if_neg fun heq => hm (child_inj.mp heq)] at hother
      by_cases hpart : m = p.name
      · subst hpart
        exact .vacated i p (State.stage_self _ _ _ _) rfl (hother.trans (if_pos rfl))
      · rw [if_neg fun heq => hpart (child_inj.mp heq)] at hother
        refine (h.entry m).advance hother hunpublished fun r hr hname => ?_
        rw [hp] at hr
        rcases hr with hr | hr <;> cases hr
        exact absurd hname.symm hpart
  · rcases State.fills_advance hr with ⟨_, hstage⟩ | ⟨hne, hold⟩
    · cases hstage
    · have hpart : r.name ≠ p.name := fun heq => hne (hplaced.apart j i r p hold hp heq)
      rw [State.tree_advance, hmoved]
      split
      · exact Or.inr ⟨k, q, hq, rfl⟩
      · rw [if_neg fun heq => hpart (child_inj.mp heq)]
        refine (h.filling j r hold).imp id ?_
        rintro ⟨k', q', hq', hthere⟩
        exact ⟨k', q', hkeep k' q' hq', hthere⟩

theorem Settled.did (h : Settled d t s) (hplaced : Placed d s) (hdid : Did d jobs s e s') :
    Settled d t s' := by
  cases hdid with
  | create i token hwaiting hname hfree => exact h.create hplaced hwaiting hfree
  | append i bytes p hfilling hbody =>
    exact h.keep hfilling (Or.inl rfl) rfl rfl fun _ => rfl
  | publish i p hfilling hbody n hnode hfree => exact h.publish hplaced hfilling hnode
  | abort i p hfilling => exact h.keep hfilling (Or.inr rfl) rfl rfl fun _ => rfl

/-! ## Runs -/

theorem settled_of_run (ht : t.Sound) (hd : t.LeadsTo d.path d)
    (hjobs : ∀ i, Path.Descends (jobs i).name) (h : run d.path jobs (initial t) events = some s) :
    Layered t s ∧ Settled d t s := by
  have hinitial : Orderly d jobs [] (initial t : State ι) := orderly_of_run ht hd hjobs rfl
  refine hinitial.keeps hjobs (P := fun _ s => Layered t s ∧ Settled d t s)
    (fun events s e s' ho hdid hP => ?_) ⟨layered_initial t, settled_initial d t⟩ h
  exact ⟨hP.1.did hdid, hP.2.did ho.placed hdid⟩

/-! ## No mixed and no partial file -/

/-- Under the name is the file of one upload alone, with the whole body of that upload. -/
def HasWhole (d : Location) (jobs : ι → Job) (s : State ι) (name : String) (i : ι) : Prop :=
  ∃ p, s.stage i = .published p ∧ s.tree.node? (d ++ [name]) = some (.file p.id) ∧
    (∀ j q, s.Holds j q → q.id = p.id → j = i) ∧
    s.tree.view (d ++ [name]) = some (.file (jobs i).body)

omit [DecidableEq ι] in
theorem HasWhole.view {i : ι} (h : HasWhole d jobs s name i) :
    s.tree.view (d ++ [name]) = some (.file (jobs i).body) := by
  obtain ⟨_, _, _, _, hview⟩ := h
  exact hview

/-- Each file that an upload created is its own and has a prefix of its body, and a name that is not the
name of a temporary file has what it had before all uploads or a whole file. -/
structure Unmixed (d : Location) (jobs : ι → Job) (t : Tree) (events : List (Event ι)) (s : State ι) :
    Prop where
  created : ∀ i p, s.Holds i p → t.contents.size ≤ p.id ∧ p.id < s.tree.contents.size ∧
    s.tree.content p.id <+: (jobs i).body
  owner : ∀ id, t.contents.size ≤ id → id < s.tree.contents.size →
    ∃ i p, s.Holds i p ∧ p.id = id ∧ ∀ j q, s.Holds j q → q.id = id → j = i
  named : ∀ name, (∀ i token, .create i token ∈ events → World.partName (jobs i).name token ≠ name) →
    s.tree.view (d ++ [name]) = t.view (d ++ [name]) ∨ ∃ i, HasWhole d jobs s name i

omit [DecidableEq ι] in
theorem Named.created_of_name (h : Named d jobs events s) {i : ι} {p : Part} (hp : s.Holds i p)
    (hname : p.name = name) : ∃ token, .create i token ∈ events ∧
      World.partName (jobs i).name token = name := by
  obtain ⟨token, htoken⟩ := h.created i p hp
  exact ⟨token, htoken, (h.called i p token hp htoken).symm.trans hname⟩

omit [DecidableEq ι] in
theorem Layered.view_eq (h : Layered t s) (ht : t.Sound) {l : Location}
    (hnode : s.tree.node? l = t.node? l) : s.tree.view l = t.view l := by
  rw [Tree.view, Tree.view, hnode]
  cases hold : t.node? l with
  | none => rfl
  | some n =>
    cases n with
    | directory => rfl
    | link target => rfl
    | file id =>
      have hsame : s.tree.content id = t.content id := h.older id (ht.stored l id hold)
      rw [Option.map_some, Option.map_some, Snapshot.whatOf, Snapshot.whatOf, hsame]

omit [DecidableEq ι] in
theorem Stored.hasWhole (h : Stored jobs s) {i : ι} {p : Part} (hstage : s.stage i = .published p)
    (hnode : s.tree.node? (d ++ [name]) = some (.file p.id)) : HasWhole d jobs s name i := by
  have hholds : s.Holds i p := by
    rw [State.Holds, hstage]
    rfl
  have hcontent : s.tree.content p.id = (jobs i).body :=
    (h.content i p hholds).trans (h.complete i p hstage)
  refine ⟨p, hstage, hnode, fun j q hq hid => h.apart j i q p hq hholds hid, ?_⟩
  rw [Tree.view, hnode, Option.map_some, Snapshot.whatOf, hcontent]

omit [DecidableEq ι] in
theorem Settled.unmixed (hsettled : Settled d t s) (hlayered : Layered t s) (ht : t.Sound)
    (ho : Orderly d jobs events s) : Unmixed d jobs t events s := by
  refine ⟨fun i p hp => ?_, fun id hge hlt => ?_, fun name hname => ?_⟩
  · have hwritten := ho.stored.content i p hp
    exact ⟨hlayered.newer i p hp, ho.stored.bound i p hp, hwritten ▸ ho.stored.body i p hp⟩
  · obtain ⟨i, p, hp, hid⟩ := hlayered.owner id hge hlt
    exact ⟨i, p, hp, hid, fun j q hq hsame => ho.stored.apart j i q p hq hp (hsame.trans hid.symm)⟩
  · -- a name that was never a temporary one has an entry of the first two kinds
    cases hsettled.entry name with
    | initial hnode => exact Or.inl (hlayered.view_eq ht hnode)
    | published i p hstage hnode => exact Or.inr ⟨i, ho.stored.hasWhole hstage hnode⟩
    | temporary i p hstage hpart hnode =>
      have hholds : s.Holds i p := by
        rcases hstage with hstage | hstage <;> rw [State.Holds, hstage] <;> rfl
      obtain ⟨token, hcreate, heq⟩ := ho.named.created_of_name hholds hpart
      exact absurd heq (hname i token hcreate)
    | vacated i p hstage hpart hnode =>
      have hholds : s.Holds i p := by
        rw [State.Holds, hstage]
        rfl
      obtain ⟨token, hcreate, heq⟩ := ho.named.created_of_name hholds hpart
      exact absurd heq (hname i token hcreate)

/-- In every state that uploads can reach, no file has bytes of two of them, and no partial file has a
name other than a temporary one. -/
theorem unmixed_of_run (ht : t.Sound) (hd : t.LeadsTo d.path d)
    (hjobs : ∀ i, Upload.refusalOf (jobs i).name = none)
    (h : run d.path jobs (initial t) events = some s) : Unmixed d jobs t events s := by
  have hnames : ∀ i, Path.Descends (jobs i).name :=
    fun i => (Upload.isPlain_of_refusalOf (hjobs i)).descends
  obtain ⟨hlayered, hsettled⟩ := settled_of_run ht hd hnames h
  exact hsettled.unmixed hlayered ht (orderly_of_run ht hd hnames h)

/-- Where one upload publishes the file of another, that is still the whole of one of them. -/
theorem unmixed_of_crossing :
    sharedTree.Sound ∧ sharedTree.LeadsTo shared.path shared ∧
      (∀ i, Upload.refusalOf (crossed i).name = none) ∧
      ∃ s, run shared.path crossed (initial sharedTree) crossing = some s ∧
        Unmixed shared crossed sharedTree crossing s ∧ HasWhole shared crossed s "n" true := by
  have ht : sharedTree.Sound := Tree.sound_of_nodes (by decide)
  have hd : sharedTree.LeadsTo shared.path shared := by
    unfold Tree.LeadsTo
    decide +kernel
  have hjobs : ∀ i, Upload.refusalOf (crossed i).name = none := by decide +kernel
  refine ⟨ht, hd, hjobs, ?_⟩
  have hview : (run shared.path crossed (initial sharedTree) crossing).map
      (fun s => s.tree.view (shared ++ ["n"])) = some (some (.file (Utf8.encode "second"))) := by
    decide +kernel
  obtain ⟨s, hs, hsecond⟩ := Option.map_eq_some_iff.mp hview
  have hlaw := unmixed_of_run ht hd hjobs hs
  have hname : ∀ i token, .create i token ∈ crossing →
      World.partName (crossed i).name token ≠ "n" := by
    intro i token hin
    simp only [crossing, List.mem_cons, Event.create.injEq, reduceCtorEq, List.not_mem_nil, or_false,
      false_or] at hin
    obtain ⟨rfl, rfl⟩ | ⟨rfl, rfl⟩ := hin <;> decide +kernel
  refine ⟨s, hs, hlaw, ?_⟩
  rcases hlaw.named "n" hname with hsame | ⟨i, hwhole⟩
  · rw [hsecond] at hsame
    exact absurd hsame (by decide +kernel)
  · have hbody := hwhole.view
    rw [hsecond] at hbody
    cases i with
    | false => exact absurd hbody (by decide +kernel)
    | true => exact hwhole

end FileExchange.Interleaving
