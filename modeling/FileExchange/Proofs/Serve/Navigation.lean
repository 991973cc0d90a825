import FileExchange.Proofs.Serve.Outside

/-!
# Following the links of a listing

A link on the page of a directory, put into a request line as it is printed, asks for the child that it is the
link of, under whatever target the directory was asked for. Where no path runs into a loop of links, it leads to
the real path of the child if that lies inside the root, and to nothing otherwise.
-/

set_option autoImplicit false

namespace FileExchange

namespace Site

/-- The link of a child of a directory, from the page on which it is printed to what it resolves to. -/
structure Navigable (s : Site) (t : Tree) (target : String) (p : Path) (name : String) : Prop where
  printed : ∀ es, Directory.entries t p target = .ok es → ∀ e ∈ es, e.name = name →
    Listing.item e = "<li><a href=\"" ++ Percent.encode (Listing.hrefOf target name) ++ "\">" ++
      Listing.label e ++ "</a></li>"
  parsed : ∃ line, Request.parse
    (some ("GET " ++ Percent.encode (Listing.hrefOf target name) ++ " HTTP/1.0")) =
      .ok ⟨.get, Listing.hrefOf target name, "HTTP/1.0", line⟩
  asked : ∀ x : Exchange, x.Gets (Percent.encode (Listing.hrefOf target name)) →
    x.Asks (Listing.hrefOf target name)
  resolved : ∃ found record, s.resolve t (Listing.hrefOf target name) = .ok (found, record) ∧
    ∀ q, found = some q ↔ t.resolve (p.child name) = .ok q ∧ isWithin s.root q = true
  real : (∃ l : Location, t.resolve (p.child name) = .ok l.path ∧ t.IsReal l) ∨
    t.resolve (p.child name) = .error .embeddedNul

section

variable {c : ServerConfig} {t₀ t : Tree} {s : Site} {target name : String} {p : Path}

theorem LeadsTo.of_loopless {record : Option Record} (ht : t.Loopless)
    (h : s.resolve t target = .ok (some p, record)) : s.LeadsTo t target p := by
  have hrecord := (resolve_eq_some h).2.2
  refine ⟨hrecord ▸ h, ?_⟩
  rintro ⟨text, hlooped, _⟩
  exact ht _ text hlooped

/-- What a target resolves to is what its path resolves to, if that lies inside the root. -/
theorem exists_resolve (hopen : s.denials = [])
    (hloop : ∀ path, t.resolve (s.written target) ≠ .error (.linkLoop path)) :
    ∃ found record, s.resolve t target = .ok (found, record) ∧
      ∀ q, found = some q ↔ t.resolve (s.written target) = .ok q ∧ isWithin s.root q = true := by
  unfold resolve
  rw [realPath_of_open hopen]
  cases hresolve : t.resolve (s.written target) with
  | ok q =>
    by_cases hwithin : isWithin s.root q = true
    · refine ⟨some q, none, if_pos hwithin, fun q' => ⟨?_, ?_⟩⟩
      · rintro ⟨⟩
        exact ⟨rfl, hwithin⟩
      · rintro ⟨⟨⟩, _⟩
        rfl
    · refine ⟨none, _, if_neg hwithin, fun q' => ⟨?_, ?_⟩⟩
      · rintro ⟨⟩
      · rintro ⟨⟨⟩, h⟩
        exact absurd h hwithin
  | error e =>
    cases e with
    | linkLoop path => exact absurd hresolve (hloop path)
    | _ => exact ⟨none, none, rfl, by simp⟩

/-- Where there are no loops of links, every link on the page of a directory inside the root leads to its child. -/
theorem navigable_of_loopless (hw : ∀ n ∈ t₀.workingDirectory, Path.IsPlain n) (hs : ofConfig c t₀ = .ok s)
    (ht : t.Loopless) {record : Option Record} (hp : s.resolve t target = .ok (some p, record))
    (hname : Path.IsPlain name) : s.Navigable t target p name := by
  have hleads := LeadsTo.of_loopless ht hp
  have hwritten := resolve_written_hrefOf hw hs hleads hname
  have hreal : (∃ l : Location, t.resolve (p.child name) = .ok l.path ∧ t.IsReal l) ∨
      t.resolve (p.child name) = .error .embeddedNul := by
    obtain ⟨l, _, rfl, _⟩ := hleads.exists_real hs
    exact ht.resolve rfl
  have hloop : ∀ path, t.resolve (s.written (Listing.hrefOf target name)) ≠ .error (.linkLoop path) := by
    rw [hwritten]
    rintro path hlooped
    rcases hreal with ⟨l, hreal, _⟩ | hnul
    · cases hlooped.symm.trans hreal
    · cases hlooped.symm.trans hnul
  refine ⟨?_, ⟨_, Request.parse_link (hrefOf_ne_empty hname)⟩, fun x => asks_of_gets hname, ?_, hreal⟩
  · rintro es hes e he rfl
    rw [Listing.item_eq, (Directory.mem_entriesBy hes he).1]
  · rw [← hwritten]
    exact exists_resolve (denials_eq_nil hs) hloop

end

/-! ## A directory reached through a link -/

def crossedTree : Tree where
  nodes := [(["root"], .directory), (["root", "d"], .directory), (["root", "e"], .directory),
    (["root", "d", "50% ä?"], .link "../e"), (["root", "via"], .link "d")]

theorem navigable_crossedTree :
    (∀ n ∈ crossedTree.workingDirectory, Path.IsPlain n) ∧
      ofConfig { rootDirectory := "/root" } crossedTree = .ok bareSite ∧ crossedTree.Loopless ∧
      bareSite.resolve crossedTree "/via//." = .ok (some ⟨.root, ["root", "d"]⟩, none) ∧
      Path.IsPlain "50% ä?" ∧
      bareSite.Navigable crossedTree "/via//." ⟨.root, ["root", "d"]⟩ "50% ä?" := by
  have hw : ∀ n ∈ crossedTree.workingDirectory, Path.IsPlain n := by simp [crossedTree]
  have hs : ofConfig { rootDirectory := "/root" } crossedTree = .ok bareSite := by decide +kernel
  have ht : crossedTree.Loopless := Tree.loopless_of_linksEnd (by decide +kernel)
  have hp : bareSite.resolve crossedTree "/via//." = .ok (some ⟨.root, ["root", "d"]⟩, none) := by
    decide +kernel
  have hname : Path.IsPlain "50% ä?" := ⟨⟨by decide, by decide, by decide⟩, by decide⟩
  exact ⟨hw, hs, ht, hp, hname, navigable_of_loopless hw hs ht hp hname⟩

end Site

end FileExchange
