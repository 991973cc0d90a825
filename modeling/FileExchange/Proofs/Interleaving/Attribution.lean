import FileExchange.Proofs.Interleaving.Order

/-!
# Whose bytes a name has

The last upload that was published under a name, and when the name has the bytes of that upload. The
rename goes by path: an upload whose temporary name has been given to the file of another one publishes
that file and not its own.
-/

set_option autoImplicit false

namespace FileExchange.Interleaving

variable {ι : Type} {d : Location} {jobs : ι → Job} {events front : List (Event ι)} {e : Event ι}
  {name : String} {i j : ι}

/-! ## Histories -/

def publishedTo (jobs : ι → Job) (name : String) : Event ι → Option ι
  | .publish i => if (jobs i).name = name then some i else none
  | _ => none

/-- The last upload that was published under a name. -/
def lastTo (jobs : ι → Job) (events : List (Event ι)) (name : String) : Option ι :=
  (events.filterMap (publishedTo jobs name)).getLast?

/-- Since the temporary file of an upload was created, another upload was published under its name. -/
def Overtaken (jobs : ι → Job) (events : List (Event ι)) (i : ι) : Prop :=
  ∃ before after token j, events = before ++ .create i token :: after ∧ .publish j ∈ after ∧
    (jobs j).name = World.partName (jobs i).name token

theorem lastTo_concat (jobs : ι → Job) (events : List (Event ι)) (e : Event ι) (name : String) :
    lastTo jobs (events ++ [e]) name = (publishedTo jobs name e).or (lastTo jobs events name) := by
  rw [lastTo, List.filterMap_append, List.getLast?_append]
  cases he : publishedTo jobs name e with
  | none => simp [he, lastTo]
  | some i => simp [he]

theorem lastTo_publish_self (jobs : ι → Job) (events : List (Event ι)) (i : ι) :
    lastTo jobs (events ++ [.publish i]) (jobs i).name = some i := by
  rw [lastTo_concat, publishedTo, if_pos rfl]
  rfl

theorem lastTo_publish_of_ne (events : List (Event ι)) (h : (jobs i).name ≠ name) :
    lastTo jobs (events ++ [.publish i]) name = lastTo jobs events name := by
  rw [lastTo_concat, publishedTo, if_neg h]
  rfl

theorem exists_lastTo (jobs : ι → Job) (h : .publish j ∈ events) :
    ∃ k, lastTo jobs events (jobs j).name = some k := by
  have hmem : j ∈ events.filterMap (publishedTo jobs (jobs j).name) := by
    rw [List.mem_filterMap]
    exact ⟨.publish j, h, by simp [publishedTo]⟩
  have hne : events.filterMap (publishedTo jobs (jobs j).name) ≠ [] := List.ne_nil_of_mem hmem
  exact ⟨_, List.getLast?_eq_some_getLast hne⟩

theorem name_of_lastTo (h : lastTo jobs events name = some i) : (jobs i).name = name := by
  obtain ⟨e, _, he⟩ := List.mem_filterMap.mp (List.mem_of_getLast? h)
  cases e with
  | publish k =>
    rw [publishedTo] at he
    split at he
    · rename_i hname
      cases he
      exact hname
    · cases he
  | create k token => cases he
  | append k bytes => cases he
  | abort k => cases he

theorem Overtaken.concat (h : Overtaken jobs events i) (e : Event ι) :
    Overtaken jobs (events ++ [e]) i := by
  obtain ⟨before, after, token, j, rfl, hpublish, hname⟩ := h
  exact ⟨before, after ++ [e], token, j, by simp, List.mem_append_left _ hpublish, hname⟩

theorem overtaken_publish {token : String} (hcreate : .create i token ∈ events)
    (hname : (jobs j).name = World.partName (jobs i).name token) :
    Overtaken jobs (events ++ [.publish j]) i := by
  obtain ⟨before, after, rfl⟩ := List.append_of_mem hcreate
  exact ⟨before, after ++ [.publish j], token, j, by simp, by simp, hname⟩

theorem Overtaken.exists_publish (h : Overtaken jobs events i) :
    ∃ token j, .create i token ∈ events ∧ .publish j ∈ events ∧
      (jobs j).name = World.partName (jobs i).name token := by
  obtain ⟨before, after, token, j, rfl, hpublish, hname⟩ := h
  exact ⟨token, j, by simp, List.mem_append_right _ (List.mem_cons_of_mem _ hpublish), hname⟩

/-! ## Attribution -/

/-- Each name under which uploads were published has all the bytes of the last of them. -/
def Attributed (d : Location) (jobs : ι → Job) (events : List (Event ι)) (s : State ι) : Prop :=
  ∀ name i, lastTo jobs events name = some i →
    s.tree.look? (d.path.child name) = some (.file (jobs i).body)

/-- The last upload published under a name has its own file there, and so does an upload that is being
written and has not been overtaken. -/
structure Owned (d : Location) (jobs : ι → Job) (events : List (Event ι)) (s : State ι) : Prop where
  last : ∀ name i, lastTo jobs events name = some i →
    ∃ p, s.stage i = .published p ∧ s.tree.node? (d ++ [name]) = some (.file p.id)
  filling : ∀ i p, s.Fills i p → ¬ Overtaken jobs events i →
    s.tree.node? (d ++ [p.name]) = some (.file p.id) ∧ lastTo jobs events p.name = none

theorem owned_initial (t : Tree) : Owned d jobs [] (initial t : State ι) := by
  refine ⟨?_, ?_⟩
  · intro name i hlast
    cases hlast
  · intro i p hp
    cases hp

theorem Owned.attributed {s : State ι} (h : Owned d jobs events s) (ho : Orderly d jobs events s)
    (hjobs : ∀ i, Path.Descends (jobs i).name) : Attributed d jobs events s := by
  intro name i hlast
  obtain ⟨p, hp, hnode⟩ := h.last name i hlast
  have hholds : s.Holds i p := by
    rw [State.Holds, hp]
    rfl
  have hname : Tree.Nameable d.path name := name_of_lastTo hlast ▸ ho.named.nameable_name hjobs hholds
  have hcontent : s.tree.content p.id = (jobs i).body :=
    (ho.stored.content i p hholds).trans (ho.stored.complete i p hp)
  rw [Tree.look?_child hname ho.placed.leads, Tree.view, hnode, Option.map_some, Snapshot.whatOf,
    hcontent]

variable [DecidableEq ι] {s s' : State ι}

/-- A step that publishes nothing and leaves all nodes as they are. -/
theorem Owned.keep (h : Owned d jobs events s) {p : Part} {stage : Stage} {t : Tree}
    (hp : s.Fills i p) (hstage : ∀ q, stage = .filling q → q.name = p.name ∧ q.id = p.id)
    (hnode : ∀ l, t.node? l = s.tree.node? l) (he : ∀ name, publishedTo jobs name e = none) :
    Owned d jobs (events ++ [e]) (s.advance i stage t) := by
  have hlast : ∀ name, lastTo jobs (events ++ [e]) name = lastTo jobs events name := by
    intro name
    rw [lastTo_concat, he, Option.none_or]
  refine ⟨fun name j hj => ?_, fun j r hr hnot => ?_⟩
  · rw [hlast] at hj
    obtain ⟨q, hq, hfile⟩ := h.last name j hj
    have hne : j ≠ i := by
      rintro rfl
      rw [hp] at hq
      cases hq
    exact ⟨q, (if_neg hne).trans hq, (hnode _).trans hfile⟩
  · have hnot' : ¬ Overtaken jobs events j := fun hover => hnot (hover.concat e)
    rw [hlast, State.tree_advance, hnode]
    rcases State.fills_advance hr with ⟨rfl, hfills⟩ | ⟨_, hold⟩
    · obtain ⟨hname, hid⟩ := hstage r hfills
      rw [hname, hid]
      exact h.filling j p hp hnot'
    · exact h.filling j r hold hnot'

theorem Owned.create (h : Owned d jobs events s) {token part : String} (hwaiting : s.stage i = .waiting)
    (hfree : s.tree.node? (d ++ [part]) = none) :
    Owned d jobs (events ++ [.create i token])
      (s.advance i (.filling ⟨part, s.tree.contents.size, []⟩) (s.tree.newFile (d ++ [part]))) := by
  have hnode := Tree.node?_newFile (t := s.tree) (l := d ++ [part]) (by simp)
  have hlast : ∀ name, lastTo jobs (events ++ [.create i token]) name = lastTo jobs events name := by
    intro name
    rw [lastTo_concat]
    rfl
  have htaken : ∀ name n, s.tree.node? (d ++ [name]) = some n →
      (s.tree.newFile (d ++ [part])).node? (d ++ [name]) = some n := by
    intro name n hn
    rw [hnode, if_neg, hn]
    intro heq
    rw [heq, hfree] at hn
    cases hn
  refine ⟨fun name j hj => ?_, fun j r hr hnot => ?_⟩
  · rw [hlast] at hj
    obtain ⟨q, hq, hfile⟩ := h.last name j hj
    have hne : j ≠ i := by
      rintro rfl
      rw [hwaiting] at hq
      cases hq
    exact ⟨q, (if_neg hne).trans hq, htaken name _ hfile⟩
  · rw [hlast, State.tree_advance]
    rcases State.fills_advance hr with ⟨rfl, hfills⟩ | ⟨_, hold⟩
    · cases hfills
      refine ⟨(hnode _).trans (if_pos rfl), ?_⟩
      cases hcase : lastTo jobs events part with
      | none => rfl
      | some k =>
        obtain ⟨q, _, hfile⟩ := h.last part k hcase
        rw [hfree] at hfile
        cases hfile
    · obtain ⟨hfile, hnone⟩ := h.filling j r hold fun hover => hnot (hover.concat _)
      exact ⟨htaken r.name _ hfile, hnone⟩

theorem Owned.publish (h : Owned d jobs events s) (ho : Orderly d jobs events s) {p : Part} {n : Node}
    (hp : s.Fills i p) (hnode : s.tree.node? (d ++ [p.name]) = some n)
    (hnot : ¬ Overtaken jobs events i) :
    Owned d jobs (events ++ [.publish i]) (s.advance i (.published p)
      (s.tree.moved (d ++ [p.name]) (d ++ [(jobs i).name]) n)) := by
  have hmoved := ho.placed.node?_moved hp (jobs i).name n
  obtain ⟨hfile, hnone⟩ := h.filling i p hp hnot
  rw [hfile] at hnode
  cases hnode
  refine ⟨fun name j hj => ?_, fun j r hr hnot' => ?_⟩
  · rw [State.tree_advance, hmoved]
    -- any other name with a last upload is not the temporary one, which nobody was published under
    by_cases hname : (jobs i).name = name
    · rw [← hname, lastTo_publish_self] at hj
      cases hj
      exact ⟨p, if_pos rfl, if_pos (child_inj.mpr hname.symm)⟩
    · rw [lastTo_publish_of_ne events hname] at hj
      obtain ⟨q, hq, hother⟩ := h.last name j hj
      have hne : j ≠ i := by
        rintro rfl
        rw [hp] at hq
        cases hq
      have hpart : name ≠ p.name := by
        rintro rfl
        rw [hnone] at hj
        cases hj
      refine ⟨q, (if_neg hne).trans hq, ?_⟩
      rw [if_neg fun heq => hname (child_inj.mp heq).symm, if_neg fun heq => hpart (child_inj.mp heq),
        hother]
  · rcases State.fills_advance hr with ⟨_, hfills⟩ | ⟨hne, hold⟩
    · cases hfills
    · obtain ⟨token, hcreate⟩ := ho.named.created j r hold.holds
      have hname : (jobs i).name ≠ r.name := by
        intro heq
        refine hnot' (overtaken_publish hcreate ?_)
        rw [heq, ho.named.called j r token hold.holds hcreate]
      have hpart : r.name ≠ p.name := fun heq => hne (ho.placed.apart j i r p hold hp heq)
      rw [State.tree_advance, hmoved, if_neg fun heq => hname (child_inj.mp heq).symm,
        if_neg fun heq => hpart (child_inj.mp heq), lastTo_publish_of_ne events hname]
      exact h.filling j r hold fun hover => hnot' (hover.concat _)

theorem Owned.did (h : Owned d jobs events s) (ho : Orderly d jobs events s)
    (hdid : Did d jobs s e s') (hgood : ∀ i, e = .publish i → ¬ Overtaken jobs events i) :
    Owned d jobs (events ++ [e]) s' := by
  cases hdid with
  | create i token hwaiting hname hfree => exact h.create hwaiting hfree
  | append i bytes p hfilling hbody =>
    refine h.keep hfilling (fun q hq => ?_) (fun _ => rfl) fun _ => rfl
    cases hq
    exact ⟨rfl, rfl⟩
  | publish i p hfilling hbody n hnode hfree => exact h.publish ho hfilling hnode (hgood i rfl)
  | abort i p hfilling => exact h.keep hfilling nofun (fun _ => rfl) fun _ => rfl

section Run

variable {t : Tree} (ht : t.Sound) (hd : t.LeadsTo d.path d)
  (hjobs : ∀ i, Path.Descends (jobs i).name) (h : run d.path jobs (initial t) events = some s)

include ht hd hjobs h

theorem attributed_of_not_overtaken
    (hgood : ∀ front i, front ++ [.publish i] <+: events → ¬ Overtaken jobs front i) :
    Attributed d jobs events s := by
  have hinitial : Orderly d jobs [] (initial t : State ι) := orderly_of_run ht hd hjobs rfl
  have howned : Owned d jobs ([] ++ events) s := by
    refine hinitial.keeps hjobs (P := fun events s =>
      (∀ front i, front ++ [.publish i] <+: events → ¬ Overtaken jobs front i) →
        Owned d jobs events s) (fun events s e s' ho hdid hP hgood => ?_)
      (fun _ => owned_initial t) h hgood
    have hbefore := hP fun front i hfront => hgood front i (hfront.trans (List.prefix_append _ _))
    refine hbefore.did ho hdid ?_
    rintro i rfl
    exact hgood events i (List.prefix_refl _)
  exact howned.attributed (orderly_of_run ht hd hjobs h) hjobs

/-- Uploads whose names are no temporary names of one another do not disturb one another. -/
theorem attributed_of_names
    (hnames : ∀ i j token, (jobs j).name ≠ World.partName (jobs i).name token) :
    Attributed d jobs events s := by
  refine attributed_of_not_overtaken ht hd hjobs h fun front i _ hover => ?_
  obtain ⟨token, j, _, _, hname⟩ := hover.exists_publish
  exact hnames i j token hname

theorem not_attributed_of_overtaken {front : List (Event ι)} (hevents : events = front ++ [.publish i])
    (hover : Overtaken jobs front i) : ¬ Attributed d jobs events s := by
  subst hevents
  obtain ⟨s₁, hfront, hstep⟩ := run_concat h
  have ho := orderly_of_run ht hd hjobs hfront
  have ho' := orderly_of_run ht hd hjobs h
  have hdid := ho.did_of_step hjobs hstep
  cases hdid with
  | publish _ p hfilling hbody n hnode hfree =>
    have hp : s₁.Fills i p := hfilling
    have hne := ho.named.ne_name hp.holds
    obtain ⟨token, j, hcreate, hpublish, hname⟩ := hover.exists_publish
    rw [← ho.named.called i p token hp.holds hcreate] at hname
    obtain ⟨k, hk⟩ := exists_lastTo jobs hpublish
    rw [hname, ← lastTo_publish_of_ne front hne] at hk
    have hgone := ho.placed.node?_moved hp (jobs i).name n (d ++ [p.name])
    rw [if_neg fun heq => hne (child_inj.mp heq).symm, if_pos rfl] at hgone
    intro hlaw
    have hthere := hlaw p.name k hk
    rw [Tree.look?_child (ho.named.nameable i p hp.holds) ho'.placed.leads, State.tree_advance,
      Tree.view, hgone] at hthere
    cases hthere

end Run

/-- At every moment of a run every name has the bytes of the last upload that was published under it
exactly if no upload is published after it was overtaken. -/
theorem attributed_iff {t : Tree} (ht : t.Sound) (hd : t.LeadsTo d.path d)
    (hjobs : ∀ i, Upload.refusalOf (jobs i).name = none)
    (h : run d.path jobs (initial t) events = some s) :
    (∀ front s', front <+: events → run d.path jobs (initial t) front = some s' →
      Attributed d jobs front s') ↔
    ∀ front i, front ++ [.publish i] <+: events → ¬ Overtaken jobs front i := by
  have hnames : ∀ i, Path.Descends (jobs i).name :=
    fun i => (Upload.isPlain_of_refusalOf (hjobs i)).descends
  refine ⟨fun hlaw front i hprefix hover => ?_, fun hgood front s' hprefix hrun => ?_⟩
  · obtain ⟨rest, hrest⟩ := hprefix
    rw [← hrest, run_append, Option.bind_eq_some_iff] at h
    obtain ⟨s₁, hpublished, _⟩ := h
    exact not_attributed_of_overtaken ht hd hnames hpublished rfl hover
      (hlaw _ s₁ ⟨rest, hrest⟩ hpublished)
  · exact attributed_of_not_overtaken ht hd hnames hrun fun front' i hfront =>
      hgood front' i (hfront.trans hprefix)

def sharedTree : Tree where
  nodes := [(["root"], .directory), (["root", "uploaded"], .directory)]

def shared : Location := ["root", "uploaded"]

def sameName : Bool → Job
  | false => ⟨"n", Utf8.encode "first"⟩
  | true => ⟨"n", Utf8.encode "second"⟩

theorem attributed_of_same_name :
    sharedTree.Sound ∧ sharedTree.LeadsTo shared.path shared ∧
      (∀ i, Upload.refusalOf (sameName i).name = none) ∧
      ∃ s, run shared.path sameName (initial sharedTree)
          [.create false "k3j9x0ab", .create true "k3j9x0ac", .append false (Utf8.encode "fir"),
            .append true (Utf8.encode "second"), .append false (Utf8.encode "st"), .publish true,
            .publish false] = some s ∧
        s.tree.look? (shared.path.child "n") = some (.file (Utf8.encode "first")) := by
  have ht : sharedTree.Sound := Tree.sound_of_nodes (by decide)
  have hd : sharedTree.LeadsTo shared.path shared := by
    unfold Tree.LeadsTo
    decide +kernel
  have hjobs : ∀ i, Upload.refusalOf (sameName i).name = none := by decide +kernel
  have hname : ∀ i, (sameName i).name = "n" := by decide
  refine ⟨ht, hd, hjobs, ?_⟩
  cases h : run shared.path sameName (initial sharedTree)
      [.create false "k3j9x0ab", .create true "k3j9x0ac", .append false (Utf8.encode "fir"),
        .append true (Utf8.encode "second"), .append false (Utf8.encode "st"), .publish true,
        .publish false] with
  | none => exact absurd h (by decide +kernel)
  | some s =>
    have hlaw := (attributed_iff ht hd hjobs h).mpr fun front i _ hover => by
      obtain ⟨token, j, _, _, heq⟩ := hover.exists_publish
      rw [hname i, hname j] at heq
      exact World.partName_ne "n" token heq
    exact ⟨s, rfl, hlaw _ s (List.prefix_refl _) h "n" false (by decide)⟩

/-- The second upload has the name of the temporary file of the first. -/
def crossed : Bool → Job
  | false => ⟨"n", Utf8.encode "first"⟩
  | true => ⟨"n.k3j9x0ab.part", Utf8.encode "second"⟩

def crossing : List (Event Bool) :=
  [.create false "k3j9x0ab", .append false (Utf8.encode "first"), .create true "k3j9x0ac",
    .append true (Utf8.encode "second"), .publish true, .publish false]

/-- The first upload gets the bytes of the second, and nothing is left under the name of the second. -/
theorem not_attributed_of_part_name :
    (∀ i, Upload.target sharedTree shared.path (crossed i).name = .ok ⟨(crossed i).name, shared.path⟩) ∧
      ∃ s, run shared.path crossed (initial sharedTree) crossing = some s ∧
        s.tree.look? (shared.path.child "n") = some (.file (Utf8.encode "second")) ∧
        s.tree.look? (shared.path.child "n.k3j9x0ab.part") = none ∧
        ¬ Attributed shared crossed crossing s := by
  refine ⟨by decide +kernel, ?_⟩
  have hrun : (run shared.path crossed (initial sharedTree) crossing).map (fun s =>
      (s.tree.look? (shared.path.child "n"), s.tree.look? (shared.path.child "n.k3j9x0ab.part"))) =
        some (some (.file (Utf8.encode "second")), none) := by
    decide +kernel
  obtain ⟨s, hs, hlook⟩ := Option.map_eq_some_iff.mp hrun
  obtain ⟨hfirst, hsecond⟩ := Prod.mk.inj hlook
  refine ⟨s, hs, hfirst, hsecond, fun hlaw => ?_⟩
  have hgone := hlaw "n.k3j9x0ab.part" true (by decide)
  rw [hsecond] at hgone
  cases hgone

end FileExchange.Interleaving
