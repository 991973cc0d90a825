import FileExchange.Proofs.Serve.Replies

/-!
# Containment

Which objects a target gives access to. Where following the target's links ends, the object is the
one at that place, and it is looked at only if the place lies inside the root. Where following runs
into a loop, the names behind the looping link are never followed, and a link among them can lead out
of the root.
-/

set_option autoImplicit false

namespace FileExchange

namespace Site

open Serving

/-! ## What a target gives access to -/

/-- Opening the path that a target resolves to leads to an object at some place. -/
def Reaches (s : Site) (t : Tree) (target : String) (l : Location) (n : Node) : Prop :=
  ∃ p, s.resolve t target = .ok (some p, none) ∧ t.locate true p = .ok ⟨l, some n⟩

/-- Whatever a target gives access to is the root or lies below it. -/
def Contained (s : Site) (t : Tree) (target : String) : Prop :=
  ∀ l n, s.Reaches t target l n → s.root.names <+: l

/-- Following a target meets a link that leads back to itself. -/
def RunsIntoLoop (s : Site) (t : Tree) (target : String) : Prop :=
  ∃ text, t.following (s.written target) = .looped text ∧ (Path.ofString text).anchor = s.root.anchor

/-- Some path that is written below the root leads to an object outside. -/
def LeadsOut (s : Site) (t : Tree) : Prop :=
  ∃ names l n, (∀ m ∈ names, Path.IsPlain m) ∧
    t.locate true ⟨s.root.anchor, s.root.names ++ names⟩ = .ok ⟨l, some n⟩ ∧ ¬ s.root.names <+: l

theorem reached_eq {s : Site} {t : Tree} {target : String} {l l' : Location} {n : Node}
    (hopen : s.denials = []) (hfollow : t.following (s.written target) = .reached l) (h : s.Reaches t target l' n) :
    l' = l ∧ s.root.names <+: l := by
  obtain ⟨p, hresolve, hlocate⟩ := h
  have hpath : p = l.path :=
    Except.ok.inj ((realPath_of_resolve hopen hresolve).symm.trans (Tree.realPath_of_reached hfollow))
  subst hpath
  obtain ⟨hanchor, hprefix⟩ := (isWithin_iff _ _).mp (resolve_eq_some hresolve).2.1
  have hstart : t.start (s.written target) = [] := by
    rw [Tree.start, if_pos]
    simp [written_eq, Path.isAbsolute, hanchor, Location.path]
  have hreal : t.IsReal l := by
    unfold Tree.following at hfollow
    rw [hstart] at hfollow
    exact Tree.isReal_of_follow (Tree.isReal_root t) hfollow
  have hplace := Tree.locate_real hreal hlocate
  simp only [Tree.Place.mk.injEq] at hplace
  exact ⟨hplace.1, hprefix⟩

/-- Where a target resolves to and there is no loop, following its links has ended. -/
theorem exists_reached {s : Site} {t : Tree} {target : String} {p : Path} (hopen : s.denials = [])
    (hresolve : s.resolve t target = .ok (some p, none)) (h : ¬ s.RunsIntoLoop t target) :
    ∃ l, t.following (s.written target) = .reached l ∧ p = l.path := by
  have hpath := realPath_of_resolve hopen hresolve
  rw [Tree.realPath_eq] at hpath
  cases hfollow : t.following (s.written target) with
  | reached l =>
    rw [hfollow] at hpath
    exact ⟨l, rfl, (Except.ok.inj hpath).symm⟩
  | looped text =>
    rw [hfollow] at hpath
    cases hpath
    exact absurd ⟨text, hfollow, ((isWithin_iff _ _).mp (resolve_eq_some hresolve).2.1).1.symm⟩ h
  | refused =>
    rw [hfollow] at hpath
    cases hpath

theorem contained_of_not_runsIntoLoop {s : Site} {t : Tree} {target : String} (hopen : s.denials = [])
    (h : ¬ s.RunsIntoLoop t target) : s.Contained t target := by
  rintro l n ⟨p, hresolve, hlocate⟩
  obtain ⟨l', hfollow, _⟩ := exists_reached hopen hresolve h
  obtain ⟨rfl, hprefix⟩ := reached_eq hopen hfollow ⟨p, hresolve, hlocate⟩
  exact hprefix

theorem leadsOut_of_not_contained {s : Site} {t : Tree} {target : String} (hopen : s.denials = [])
    (h : ¬ s.Contained t target) : s.RunsIntoLoop t target ∧ s.LeadsOut t := by
  have hloop : s.RunsIntoLoop t target :=
    Classical.byContradiction fun hno => h (contained_of_not_runsIntoLoop hopen hno)
  refine ⟨hloop, ?_⟩
  obtain ⟨text, hfollow, _⟩ := hloop
  simp only [Contained, Classical.not_forall] at h
  obtain ⟨l, n, ⟨p, hresolve, hlocate⟩, hout⟩ := h
  have hpath : p = Tree.collapse (Path.ofString text) :=
    Except.ok.inj ((realPath_of_resolve hopen hresolve).symm.trans (Tree.realPath_of_looped hfollow))
  obtain ⟨hanchor, names, hnames⟩ := (isWithin_iff _ _).mp (resolve_eq_some hresolve).2.1
  refine ⟨names, l, n, fun m hm => ?_, ?_, hout⟩
  · have hmem : m ∈ (Tree.collapse (Path.ofString text)).names := by
      rw [← hpath, ← hnames]
      exact List.mem_append_right _ hm
    exact Tree.isPlain_of_mem_collapse hmem
  · rw [hnames, hanchor]
    exact hlocate

/-! ## Climbing out of a loop -/

/-- A target that runs into a loop, then climbs up to the top and goes down again by some names. -/
def detour (s : Site) (target : String) (ups : Nat) (names : List String) : String :=
  target ++ ("/" ++ Text.joinTexts "/" (List.replicate ups ".." ++ (s.root.names ++ names)))

section Climbing

variable {s : Site} {t : Tree} {target : String} {names : List String}

theorem isName_of_mem_climb (hroot : ∀ n ∈ s.root.names, Path.IsPlain n)
    (hnames : ∀ n ∈ names, Path.IsPlain n) (ups : Nat) :
    ∀ n ∈ List.replicate ups ".." ++ (s.root.names ++ names), Path.IsName n := by
  intro n hn
  rcases List.mem_append.mp hn with hn | hn
  · rw [(List.mem_replicate.mp hn).2]
    exact Path.isName_dots
  · rcases List.mem_append.mp hn with hn | hn
    · exact (hroot n hn).1
    · exact (hnames n hn).1

theorem written_detour (hroot : ∀ n ∈ s.root.names, Path.IsPlain n)
    (hnames : ∀ n ∈ names, Path.IsPlain n) (ups : Nat) :
    s.written (s.detour target ups names) =
      ⟨s.root.anchor, (s.written target).names ++
        (List.replicate ups ".." ++ (s.root.names ++ names))⟩ := by
  rw [written_eq, detour, Path.namesOf_append,
    Path.namesOf_joinTexts (isName_of_mem_climb hroot hnames ups), written_eq, List.append_assoc]

/-- Behind a loop every path below the root can be had as it is written. -/
theorem exists_realPath_detour (hroot : ∀ n ∈ s.root.names, Path.IsPlain n)
    (hnames : ∀ n ∈ names, Path.IsPlain n) (h : s.RunsIntoLoop t target) :
    ∃ ups, t.realPath (s.written (s.detour target ups names)) = .ok ⟨s.root.anchor, s.root.names ++ names⟩ := by
  obtain ⟨text, hfollow, hanchor⟩ := h
  have hwritten : ∀ n ∈ (s.written target).names, Path.IsName n := by
    rw [written_eq]
    intro n hn
    rcases List.mem_append.mp hn with hn | hn
    · exact (hroot n hn).1
    · exact Path.isName_of_mem_namesOf hn
  obtain ⟨front, rest, hsuffix, htext, hmore⟩ := Tree.follow_looped hfollow
  have hrest : ∀ n ∈ rest, Path.IsName n := fun n hn => hwritten n (hsuffix.subset hn)
  refine ⟨(Path.namesOf front ++ rest).length, ?_⟩
  have hclimb := isName_of_mem_climb hroot hnames (Path.namesOf front ++ rest).length
  have hall : ∀ n ∈ rest ++ (List.replicate (Path.namesOf front ++ rest).length ".." ++
      (s.root.names ++ names)), Path.IsName n := by
    intro n hn
    rcases List.mem_append.mp hn with hn | hn
    · exact hrest n hn
    · exact hclimb n hn
  have hdots : ".." ∉ s.root.names ++ names := by
    intro hmem
    rcases List.mem_append.mp hmem with hmem | hmem
    · exact (hroot _ hmem).2 rfl
    · exact (hnames _ hmem).2 rfl
  have hdetour : t.following (s.written (s.detour target (Path.namesOf front ++ rest).length names)) =
      .looped (Tree.joinTextually front (rest ++
        (List.replicate (Path.namesOf front ++ rest).length ".." ++ (s.root.names ++ names)))) := by
    have hstart : t.start (s.written (s.detour target (Path.namesOf front ++ rest).length names)) =
        t.start (s.written target) := by
      rw [written_detour hroot hnames, written_eq]
      rfl
    rw [Tree.following, hstart, written_detour hroot hnames]
    exact hmore _
  rw [Tree.realPath_of_looped hdetour]
  simp only [Tree.collapse, Path.ofString]
  rw [Tree.namesOf_joinTextually hall, Tree.anchorOf_joinTextually hall,
    ← Tree.anchorOf_joinTextually hrest, ← htext, ← List.append_assoc,
    Tree.foldl_pushName_climb hdots]
  simp only [Path.ofString] at hanchor
  rw [hanchor]

theorem exists_not_contained (hopen : s.denials = []) (hroot : ∀ n ∈ s.root.names, Path.IsPlain n)
    (hloop : s.RunsIntoLoop t target) (hout : s.LeadsOut t) : ∃ target, ¬ s.Contained t target := by
  obtain ⟨names, l, n, hnames, hlocate, hl⟩ := hout
  obtain ⟨ups, hreal⟩ := exists_realPath_detour hroot hnames hloop
  have hresolve := Tree.resolve_of_stat hreal (Tree.stat_of_locate hlocate)
  refine ⟨s.detour target ups names, fun hcontained => hl (hcontained l n ?_)⟩
  refine ⟨_, resolve_of_isWithin ((realPath_of_open hopen).trans hresolve) ?_, hlocate⟩
  exact (isWithin_iff _ _).mpr ⟨rfl, List.prefix_append _ _⟩

end Climbing

/-! ## What is sent -/

theorem sent_of_dispatch {s : Site} {x y : Exchange} (h : s.dispatch x = (.ok Status.ok.code, y)) :
    ∃ target p l n z, x.Asks target ∧ s.resolve x.tree target = .ok (some p, none) ∧
      x.tree.locate true p = .ok ⟨l, some n⟩ ∧
      s.answerFound p target x.begun = (.ok (some .ok), z) ∧ y.connection = z.connection := by
  obtain ⟨target, p, z, hasks, hresolve, hexists, hfound, hconnection⟩ := served_of_dispatch h
  obtain ⟨n, hstat⟩ := exists_stat_of_pathExists hexists
  obtain ⟨l, hlocate⟩ := Tree.stat_eq_ok (stat_eq_ok hstat)
  exact ⟨target, p, l, n, z, hasks, hresolve, hlocate, hfound, hconnection⟩

theorem page_of_dispatch {c : ServerConfig} {t₀ : Tree} {s : Site} {x y : Exchange} {target : String}
    {p : Path} (hw : ∀ n ∈ t₀.workingDirectory, Path.IsPlain n) (hs : ofConfig c t₀ = .ok s)
    (hx : x.Obliging) (hfresh : x.connection.bytesSent = 0)
    (h : s.dispatch x = (.ok Status.ok.code, y)) (hasks : x.Asks target)
    (hresolve : s.resolve x.tree target = .ok (some p, none)) :
    ∃ r sent, s.response x.clock.now x.tree p target = .ok r ∧
      y.wire = x.wire ++ (r.head ++ sent) ∧ (x.Quiet → sent = r.body) := by
  rcases dispatch_of_asks hw (ofConfig_of_open hs) hx hfresh hasks with
    ⟨r, hreply, y', sent, hdispatch, hwire, hsent⟩ | ⟨e, y', _, hdispatch⟩
  · rw [h] at hdispatch
    obtain ⟨hcode, rfl⟩ := Prod.mk.inj hdispatch
    rcases reply_eq_ok hreply with rfl | ⟨p', hresolve', _, hresponse⟩
    · cases hcode
    · rw [hresolve] at hresolve'
      cases hresolve'
      exact ⟨r, sent, hresponse, hwire, fun hquiet => hsent (Or.inr hquiet)⟩
  · rw [h] at hdispatch
    cases hdispatch

/-- Whatever is sent as found lies inside the root unless the target runs into a loop of links, and no
target gives access to anything outside exactly if there is no loop to run into or no path below the
root that leads out. -/
theorem contained_iff {c : ServerConfig} {t₀ : Tree} {s : Site}
    (hw : ∀ n ∈ t₀.workingDirectory, Path.IsPlain n) (hs : ofConfig c t₀ = .ok s) :
    (∀ x y, s.dispatch x = (.ok Status.ok.code, y) →
      ∃ target p l n z, x.Asks target ∧ s.resolve x.tree target = .ok (some p, none) ∧
        x.tree.locate true p = .ok ⟨l, some n⟩ ∧
        s.answerFound p target x.begun = (.ok (some .ok), z) ∧ y.connection = z.connection ∧
        (x.Obliging → x.connection.bytesSent = 0 →
          ∃ r sent, s.response x.clock.now x.tree p target = .ok r ∧
            y.wire = x.wire ++ (r.head ++ sent) ∧ (x.Quiet → sent = r.body)) ∧
        (¬ s.RunsIntoLoop x.tree target → s.root.names <+: l)) ∧
    (∀ t target, ¬ s.RunsIntoLoop t target → s.Contained t target) ∧
    ∀ t, (∀ target, s.Contained t target) ↔
      ¬ ((∃ target, s.RunsIntoLoop t target) ∧ s.LeadsOut t) := by
  have hopen := denials_eq_nil hs
  refine ⟨fun x y h => ?_, fun t target => contained_of_not_runsIntoLoop hopen, fun t => ⟨?_, ?_⟩⟩
  · obtain ⟨target, p, l, n, z, hasks, hresolve, hlocate, hfound, hconnection⟩ := sent_of_dispatch h
    refine ⟨target, p, l, n, z, hasks, hresolve, hlocate, hfound, hconnection, ?_, fun hloop => ?_⟩
    · exact fun hx hfresh => page_of_dispatch hw hs hx hfresh h hasks hresolve
    · exact contained_of_not_runsIntoLoop hopen hloop l n ⟨p, hresolve, hlocate⟩
  · rintro hcontained ⟨⟨target, hloop⟩, hout⟩
    obtain ⟨target', hnot⟩ := exists_not_contained hopen (root_isPlain hw hs) hloop hout
    exact hnot (hcontained target')
  · intro hfree target
    refine Classical.byContradiction fun hnot => hfree ?_
    obtain ⟨hloop, hout⟩ := leadsOut_of_not_contained hopen hnot
    exact ⟨⟨target, hloop⟩, hout⟩

/-! ## A way out -/

def loopTree : Tree where
  nodes := [(["out"], .directory), (["out", "secret.txt"], .file 0), (["root"], .directory),
    (["root", "loop"], .link "loop"), (["root", "x.txt"], .link "../out/secret.txt")]
  contents := #[Utf8.encode "top secret"]

def loopConfig : ServerConfig := { rootDirectory := "/root" }

def loopSite : Site where
  root := ⟨.root, ["root"]⟩
  uploads := ⟨.root, ["root", "uploaded"]⟩

theorem ofConfig_loopConfig : ofConfig loopConfig loopTree = .ok loopSite := by decide +kernel

theorem contained_of_plain_target :
    (∀ n ∈ loopTree.workingDirectory, Path.IsPlain n) ∧
      ofConfig loopConfig loopTree = .ok loopSite ∧ loopSite.Contained loopTree "/x.txt" := by
  have hw : ∀ n ∈ loopTree.workingDirectory, Path.IsPlain n := by simp [loopTree]
  refine ⟨hw, ofConfig_loopConfig, (contained_iff hw ofConfig_loopConfig).2.1 loopTree "/x.txt" ?_⟩
  rintro ⟨text, hfollow, _⟩
  have hreached : loopTree.following (loopSite.written "/x.txt") = .reached ["out", "secret.txt"] := by
    decide +kernel
  rw [hreached] at hfollow
  cases hfollow

/-- The names behind the loop take it away again, and what is left leads out. -/
theorem sent_from_outside :
    ofConfig loopConfig loopTree = .ok loopSite ∧
      (loopSite.dispatch (.ofLine loopTree "GET /loop/../x.txt HTTP/1.0\n")).1 = .ok Status.ok.code ∧
      (loopSite.dispatch (.ofLine loopTree "GET /loop/../x.txt HTTP/1.0\n")).2.wire =
        Utf8.encode ("HTTP/1.0 200 OK\r\nContent-Type: text/html\r\n\r\n" ++
          "<html><h1>File Content</h1><body>\r\n<pre><b>\r\ntop secret\n</b></pre>\r\n" ++
          "</body></html>\r\n") ∧
      loopSite.Reaches loopTree "/loop/../x.txt" ["out", "secret.txt"] (.file 0) ∧
      ¬ loopSite.root.names <+: ["out", "secret.txt"] := by
  refine ⟨ofConfig_loopConfig, by decide +kernel, by decide +kernel,
    ⟨⟨.root, ["root", "x.txt"]⟩, by decide +kernel, by decide +kernel⟩, by decide⟩

end Site

end FileExchange
