import FileExchange.Proofs.Serve.Containment
import FileExchange.Proofs.Serve.Listings
import FileExchange.Proofs.Serve.Retrieval

/-!
# What lies outside

Two trees that are the same below the root, and a link below the root that leads out of it in both. Asking for the
link is answered as if there were nothing. The listing in which it stands tells more: its line says whether the
link leads to a directory.
-/

set_option autoImplicit false

namespace FileExchange

/-! ## Trees that differ outside -/

/-- Two trees are the same from a place down. -/
def Tree.SameBelow (l : Location) (t t' : Tree) : Prop :=
  ∀ k, l <+: k → t.view k = t'.view k

theorem Tree.SameBelow.link {t t' : Tree} {l k : Location} {text : String} (h : SameBelow l t t')
    (hk : l <+: k) (hlink : t.node? k = some (.link text)) : t'.node? k = some (.link text) := by
  rw [← view_eq_link] at hlink ⊢
  rw [← h k hk, hlink]

theorem Tree.sameBelow_drop (t : Tree) {l m : Location} (hm : m ≠ []) (h : ∀ k, l <+: k → ¬ m <+: k) :
    SameBelow l t (t.drop m) := by
  intro k hk
  rw [view, view, node?_drop hm, if_neg (h k hk)]
  rfl

/-- A client sends the request line for a link on a page, and takes what it is sent. -/
structure Exchange.Gets (x : Exchange) (href : String) : Prop where
  obliging : x.Obliging
  fresh : x.connection.bytesSent = 0
  buffer : 1 ≤ x.connection.bufferSize
  fits : (Utf8.encode ("GET " ++ href ++ " HTTP/1.0")).length < x.connection.maxLine
  line : ∃ bytes, Request.Brought ("GET " ++ href ++ " HTTP/1.0") bytes ∧ x.connection.Brings bytes

namespace Site

/-- A target leads to a path inside the root, and not by way of a loop. -/
structure LeadsTo (s : Site) (t : Tree) (target : String) (p : Path) : Prop where
  resolved : s.resolve t target = .ok (some p, none)
  loopless : ¬ s.RunsIntoLoop t target

/-- The real path of a path lies outside the root. -/
def IsOutside (s : Site) (t : Tree) (p : Path) : Prop :=
  ∃ q, t.resolve p = .ok q ∧ isWithin s.root q = false

section

variable {c : ServerConfig} {t₀ t t' : Tree} {s : Site} {target name text : String} {p : Path}

theorem written_hrefOf (s : Site) (target : String) (hname : Path.IsPlain name) :
    s.written (Listing.hrefOf target name) = (s.written target).child name := by
  have hhref : Listing.hrefOf target name = Tree.closed target ++ name := by
    unfold Listing.hrefOf Tree.closed
    split <;> rfl
  rw [written_eq, written_eq, hhref, Tree.namesOf_closed, Path.namesOf_of_isName hname.1, Path.child,
    List.append_assoc]

theorem hrefOf_ne_empty (hname : Path.IsPlain name) : Listing.hrefOf target name ≠ "" := by
  unfold Listing.hrefOf
  split <;> simp [hname.1.1]

theorem asks_of_gets (hname : Path.IsPlain name) {x : Exchange}
    (h : x.Gets (Percent.encode (Listing.hrefOf target name))) : x.Asks (Listing.hrefOf target name) := by
  obtain ⟨bytes, hbrought, hbrings⟩ := h.line
  exact Exchange.asks_of_brought (hrefOf_ne_empty hname) hbrought hbrings h.buffer h.fits

theorem LeadsTo.exists_real (hs : ofConfig c t₀ = .ok s) (h : s.LeadsTo t target p) :
    ∃ l, t.following (s.written target) = .reached l ∧ p = l.path ∧ t.IsReal l := by
  obtain ⟨l, hfollow, hpath⟩ := exists_reached (denials_eq_nil hs) h.resolved h.loopless
  refine ⟨l, hfollow, hpath, ?_⟩
  rw [Tree.following, Tree.start_of_isAbsolute (written_isAbsolute (root_isAbsolute hs) target)] at hfollow
  exact Tree.isReal_of_follow (Tree.isReal_root t) hfollow

/-- The link of a child leads where the child does. -/
theorem resolve_written_hrefOf (hw : ∀ n ∈ t₀.workingDirectory, Path.IsPlain n) (hs : ofConfig c t₀ = .ok s)
    (h : s.LeadsTo t target p) (hname : Path.IsPlain name) :
    t.resolve (s.written (Listing.hrefOf target name)) = t.resolve (p.child name) := by
  obtain ⟨l, hfollow, rfl, _⟩ := h.exists_real hs
  rw [written_hrefOf s target hname, Tree.resolve_child (written_isAbsolute (root_isAbsolute hs) target)
    (slash_notMem_written (root_isPlain hw hs) target) hfollow]

/-- The link of a child that leads out of the root resolves to nothing. -/
theorem resolve_hrefOf (hw : ∀ n ∈ t₀.workingDirectory, Path.IsPlain n) (hs : ofConfig c t₀ = .ok s)
    (h : s.LeadsTo t target p) (hname : Path.IsPlain name) (hout : s.IsOutside t (p.child name)) :
    ∃ record, s.resolve t (Listing.hrefOf target name) = .ok (none, record) := by
  obtain ⟨q, hq, hwithin⟩ := hout
  refine ⟨some ⟨.warning, .dispatcher, "Path traversal attempt: " ++ Listing.hrefOf target name⟩, ?_⟩
  unfold resolve
  rw [realPath_of_open (denials_eq_nil hs), resolve_written_hrefOf hw hs h hname, hq]
  exact if_neg (by simp [hwithin])

/-- Whoever follows a link that leads out of the root gets the page for what is not there. -/
theorem sends_notFound_of_isOutside (hw : ∀ n ∈ t₀.workingDirectory, Path.IsPlain n)
    (hs : ofConfig c t₀ = .ok s) {x : Exchange} (h : s.LeadsTo x.tree target p)
    (hname : Path.IsPlain name) (hout : s.IsOutside x.tree (p.child name))
    (hgets : x.Gets (Percent.encode (Listing.hrefOf target name))) : s.Sends x Response.notFound := by
  have hasks := asks_of_gets hname hgets
  obtain ⟨record, hnone⟩ := resolve_hrefOf hw hs h hname hout
  have hreply : s.reply x.clock.now x.tree (Listing.hrefOf target name) = .ok Response.notFound :=
    reply_of_none hnone
  rcases dispatch_of_asks hw (ofConfig_of_open hs) hgets.obliging hgets.fresh hasks with
    ⟨r, hresponse, hsends⟩ | ⟨e, y, hfailed, _⟩
  · cases hresponse.symm.trans hreply
    exact hsends
  · rw [hreply] at hfailed
    cases hfailed

/-- A link that leads out of the root cannot be told from nothing by asking for it, whatever is outside. In the
listing it can be told whether it leads to a directory, and nothing else. -/
theorem looksAbsent_iff (hw : ∀ n ∈ t₀.workingDirectory, Path.IsPlain n) (hs : ofConfig c t₀ = .ok s)
    (hsame : Tree.SameBelow s.root.names t t') (h : s.LeadsTo t target p) (h' : s.LeadsTo t' target p)
    (hname : Path.IsPlain name) (hlink : t.node? (p.names ++ [name]) = some (.link text))
    (hout : s.IsOutside t (p.child name)) (hout' : s.IsOutside t' (p.child name)) :
    (∀ x : Exchange, x.tree = t ∨ x.tree = t' →
      x.Gets (Percent.encode (Listing.hrefOf target name)) → s.Sends x Response.notFound) ∧
    ((∃ line, Directory.Shows t p target name line ∧ Directory.Shows t' p target name line) ↔
      (∃ es, Directory.entries t p target = .ok es) ∧ (∃ es, Directory.entries t' p target = .ok es) ∧
        (t.stat (p.child name) = .ok .directory ↔ t'.stat (p.child name) = .ok .directory)) := by
  refine ⟨?_, ?_⟩
  · rintro x (rfl | rfl) hgets
    · exact sends_notFound_of_isOutside hw hs h hname hout hgets
    · exact sends_notFound_of_isOutside hw hs h' hname hout' hgets
  · obtain ⟨l, _, rfl, hreal⟩ := h.exists_real hs
    obtain ⟨l', _, hpath, hreal'⟩ := h'.exists_real hs
    have hwithin := ((isWithin_iff _ _).mp (resolve_eq_some h.resolved).2.1).2
    have hlink' := hsame.link (hwithin.trans (List.prefix_append l [name])) hlink
    have hplace : l = l' := congrArg Path.names hpath
    have hnode : t.node? (l ++ [name]) ≠ none := fun hnone => nomatch hnone.symm.trans hlink
    have hnode' : t'.node? (l ++ [name]) ≠ none := fun hnone => nomatch hnone.symm.trans hlink'
    exact Directory.exists_shows_iff hreal (hplace ▸ hreal') hnode hnode'

end

/-! ## A directory and a file outside -/

def outsideTree : Tree where
  nodes := [(["out"], .directory), (["out", "f"], .file 0), (["root"], .directory),
    (["root", "d"], .link "../out"), (["root", "f"], .link "../out/f")]
  contents := #[[]]

/-- The same tree with nothing outside the root. -/
def insideTree : Tree :=
  outsideTree.drop ["out"]

theorem ofConfig_outsideTree : ofConfig { rootDirectory := "/root" } outsideTree = .ok bareSite := by
  decide +kernel

theorem sameBelow_insideTree : Tree.SameBelow bareSite.root.names outsideTree insideTree := by
  refine Tree.sameBelow_drop outsideTree (by decide) fun k hk hout => ?_
  obtain ⟨rest, rfl⟩ := hk
  obtain ⟨heq, _⟩ := List.cons_prefix_cons.mp hout
  exact absurd heq (by decide)

theorem leadsTo_root {t : Tree} (hreached : t.following (bareSite.written "/") = .reached ["root"])
    (hresolve : bareSite.resolve t "/" = .ok (some ⟨.root, ["root"]⟩, none)) :
    bareSite.LeadsTo t "/" ⟨.root, ["root"]⟩ := by
  refine ⟨hresolve, ?_⟩
  rintro ⟨text, hlooped, _⟩
  rw [hreached] at hlooped
  cases hlooped

theorem leadsTo_outsideTree : bareSite.LeadsTo outsideTree "/" ⟨.root, ["root"]⟩ :=
  leadsTo_root (by decide +kernel) (by decide +kernel)

theorem leadsTo_insideTree : bareSite.LeadsTo insideTree "/" ⟨.root, ["root"]⟩ :=
  leadsTo_root (by decide +kernel) (by decide +kernel)

theorem exists_entries_outsideTree : ∃ es, Directory.entries outsideTree ⟨.root, ["root"]⟩ "/" = .ok es := by
  have hchildren : outsideTree.children ["root"] = ["d", "f"] := by decide +kernel
  refine Directory.exists_entries (l := ["root"]) "/" (by decide +kernel) ?_
  rw [hchildren]
  simp only [List.forall_mem_cons, List.not_mem_nil, false_imp_iff, implies_true, and_true]
  exact ⟨⟨true, by decide +kernel⟩, ⟨false, by decide +kernel⟩⟩

theorem exists_entries_insideTree : ∃ es, Directory.entries insideTree ⟨.root, ["root"]⟩ "/" = .ok es := by
  have hchildren : insideTree.children ["root"] = ["d", "f"] := by decide +kernel
  refine Directory.exists_entries (l := ["root"]) "/" (by decide +kernel) ?_
  rw [hchildren]
  simp only [List.forall_mem_cons, List.not_mem_nil, false_imp_iff, implies_true, and_true]
  exact ⟨⟨false, by decide +kernel⟩, ⟨false, by decide +kernel⟩⟩

/-- A link to a file outside looks as if the file were not there. -/
theorem looksAbsent_file :
    (∀ n ∈ outsideTree.workingDirectory, Path.IsPlain n) ∧
      ofConfig { rootDirectory := "/root" } outsideTree = .ok bareSite ∧
      Tree.SameBelow bareSite.root.names outsideTree insideTree ∧
      bareSite.LeadsTo outsideTree "/" ⟨.root, ["root"]⟩ ∧
      bareSite.LeadsTo insideTree "/" ⟨.root, ["root"]⟩ ∧ Path.IsPlain "f" ∧
      outsideTree.node? ["root", "f"] = some (.link "../out/f") ∧
      bareSite.IsOutside outsideTree ⟨.root, ["root", "f"]⟩ ∧
      bareSite.IsOutside insideTree ⟨.root, ["root", "f"]⟩ ∧
      (∀ x : Exchange, x.tree = outsideTree ∨ x.tree = insideTree → x.Gets "/f" →
        bareSite.Sends x Response.notFound) ∧
      ∃ line, Directory.Shows outsideTree ⟨.root, ["root"]⟩ "/" "f" line ∧
        Directory.Shows insideTree ⟨.root, ["root"]⟩ "/" "f" line := by
  have hw : ∀ n ∈ outsideTree.workingDirectory, Path.IsPlain n := by simp [outsideTree]
  have hname : Path.IsPlain "f" := by
    refine ⟨⟨by decide, by decide, by decide⟩, by decide⟩
  have hlink : outsideTree.node? ["root", "f"] = some (.link "../out/f") := by decide
  have hout : bareSite.IsOutside outsideTree ⟨.root, ["root", "f"]⟩ :=
    ⟨⟨.root, ["out", "f"]⟩, by decide +kernel, by decide⟩
  have hout' : bareSite.IsOutside insideTree ⟨.root, ["root", "f"]⟩ :=
    ⟨⟨.root, ["out", "f"]⟩, by decide +kernel, by decide⟩
  obtain ⟨hgets, hline⟩ := looksAbsent_iff hw ofConfig_outsideTree sameBelow_insideTree leadsTo_outsideTree
    leadsTo_insideTree hname hlink hout hout'
  have hhref : Percent.encode (Listing.hrefOf "/" "f") = "/f" := by decide +kernel
  rw [hhref] at hgets
  have hfile : outsideTree.stat ⟨.root, ["root", "f"]⟩ = .ok (.file 0) := by decide +kernel
  have hnone : insideTree.stat ⟨.root, ["root", "f"]⟩ = Tree.failWith .noEntry ⟨.root, ["root", "f"]⟩ := by
    decide +kernel
  refine ⟨hw, ofConfig_outsideTree, sameBelow_insideTree, leadsTo_outsideTree, leadsTo_insideTree, hname,
    hlink, hout, hout', hgets, hline.mpr ⟨exists_entries_outsideTree, exists_entries_insideTree, ?_⟩⟩
  exact iff_of_false (fun h => nomatch hfile.symm.trans h) (fun h => nomatch hnone.symm.trans h)

/-- A link to a directory outside is shown as a directory while there is one. -/
theorem not_looksAbsent_directory :
    ofConfig { rootDirectory := "/root" } outsideTree = .ok bareSite ∧
      Tree.SameBelow bareSite.root.names outsideTree insideTree ∧
      bareSite.LeadsTo outsideTree "/" ⟨.root, ["root"]⟩ ∧
      bareSite.LeadsTo insideTree "/" ⟨.root, ["root"]⟩ ∧
      outsideTree.node? ["root", "d"] = some (.link "../out") ∧
      bareSite.IsOutside outsideTree ⟨.root, ["root", "d"]⟩ ∧
      bareSite.IsOutside insideTree ⟨.root, ["root", "d"]⟩ ∧
      (∃ line, Directory.Shows outsideTree ⟨.root, ["root"]⟩ "/" "d" line) ∧
      (∃ line, Directory.Shows insideTree ⟨.root, ["root"]⟩ "/" "d" line) ∧
      ¬ ∃ line, Directory.Shows outsideTree ⟨.root, ["root"]⟩ "/" "d" line ∧
        Directory.Shows insideTree ⟨.root, ["root"]⟩ "/" "d" line := by
  have hlink : outsideTree.node? (["root"] ++ ["d"]) = some (.link "../out") := by decide
  have hname : outsideTree.node? (["root"] ++ ["d"]) ≠ none := by decide
  have hname' : insideTree.node? (["root"] ++ ["d"]) ≠ none := by decide
  have hreal : outsideTree.IsReal ["root"] :=
    (Tree.isReal_root _).child (by decide) (by decide) (by decide +kernel)
  have hreal' : insideTree.IsReal ["root"] :=
    (Tree.isReal_root _).child (by decide) (by decide) (by decide +kernel)
  obtain ⟨es, hes⟩ := exists_entries_outsideTree
  obtain ⟨es', hes'⟩ := exists_entries_insideTree
  obtain ⟨b, _, hline⟩ := Directory.exists_item hreal hname hes
  obtain ⟨b', _, hline'⟩ := Directory.exists_item hreal' hname' hes'
  have hdirectory : outsideTree.stat ⟨.root, ["root", "d"]⟩ = .ok .directory := by decide +kernel
  have hnone : insideTree.stat ⟨.root, ["root", "d"]⟩ = Tree.failWith .noEntry ⟨.root, ["root", "d"]⟩ := by
    decide +kernel
  refine ⟨ofConfig_outsideTree, sameBelow_insideTree, leadsTo_outsideTree, leadsTo_insideTree, hlink,
    ⟨⟨.root, ["out"]⟩, by decide +kernel, by decide⟩, ⟨⟨.root, ["out"]⟩, by decide +kernel, by decide⟩,
    ⟨_, (hline _).mpr rfl⟩, ⟨_, (hline' _).mpr rfl⟩, fun hboth => ?_⟩
  obtain ⟨_, _, hiff⟩ := (Directory.exists_shows_iff hreal hreal' hname hname').mp hboth
  exact nomatch hnone.symm.trans (hiff.mp hdirectory)

end Site

end FileExchange
