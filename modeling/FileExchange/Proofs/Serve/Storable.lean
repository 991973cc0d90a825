import FileExchange.Proofs.Serve.Acceptance
import FileExchange.Proofs.Tree.RealFiles

/-!
# Names that can be stored

While a file is received it has a name that is longer than its own by a random part and a suffix. So a name that
fits into the file system is not always one that can be stored: it can be stored exactly if the longer name
fits as well.
-/

set_option autoImplicit false

namespace FileExchange

open Serving

theorem Text.size_ofList (cs : List Char) : (String.ofList cs).utf8ByteSize = (cs.map Char.utf8Size).sum := by
  induction cs with
  | nil => rfl
  | cons c cs ih =>
    have hsplit : String.ofList (c :: cs) = String.singleton c ++ String.ofList cs := by
      rw [← String.toList_inj, String.toList_append, String.toList_singleton, String.toList_ofList,
        String.toList_ofList, List.singleton_append]
    rw [hsplit, String.utf8ByteSize_append, String.utf8ByteSize_singleton, ih, List.map_cons, List.sum_cons]

/-! ## Temporary names -/

namespace World

def isTokenChar (c : Char) : Bool :=
  c.isLower || c.isDigit || c == '_'

/-- A random part: eight small letters, digits or underscores. -/
def IsToken (token : String) : Prop :=
  token.length = 8 ∧ token.toList.all isTokenChar = true

instance (token : String) : Decidable (IsToken token) :=
  inferInstanceAs (Decidable (token.length = 8 ∧ token.toList.all isTokenChar = true))

/-- So many bytes a temporary name has more than the name that it stands for. -/
def partMargin : Nat := 14

/-- The characters of random parts are ASCII. -/
theorem utf8Size_of_isTokenChar {c : Char} (h : isTokenChar c = true) : c.utf8Size = 1 := by
  simp only [isTokenChar, Bool.or_eq_true, beq_iff_eq] at h
  rw [Char.utf8Size_eq_one_iff, UInt32.le_iff_toNat_le]
  rcases h with (hlower | hdigit) | rfl
  · have hle := of_decide_eq_true (Bool.and_eq_true_iff.mp hlower).2
    exact (UInt32.le_iff_toNat_le.mp hle).trans (by decide)
  · have hle := of_decide_eq_true (Bool.and_eq_true_iff.mp hdigit).2
    exact (UInt32.le_iff_toNat_le.mp hle).trans (by decide)
  · decide

variable {name token : String}

theorem IsToken.size (h : IsToken token) : token.utf8ByteSize = 8 := by
  have hones : token.toList.map Char.utf8Size = List.replicate token.length 1 := by
    rw [List.eq_replicate_iff, List.length_map, String.length_toList]
    refine ⟨rfl, fun n hn => ?_⟩
    obtain ⟨c, hc, rfl⟩ := List.mem_map.mp hn
    exact utf8Size_of_isTokenChar (List.all_eq_true.mp h.2 c hc)
  rw [← String.ofList_toList (s := token), Text.size_ofList, hones, List.sum_replicate_nat, h.1]

theorem IsToken.noNul (h : IsToken token) : '\x00' ∉ token.toList := fun hmem =>
  absurd (List.all_eq_true.mp h.2 _ hmem) (by decide)

theorem size_partName (h : IsToken token) :
    (partName name token).utf8ByteSize = name.utf8ByteSize + partMargin := by
  have hdot : ".".utf8ByteSize = 1 := rfl
  have hsuffix : partSuffix.utf8ByteSize = 5 := by decide
  rw [partName, String.utf8ByteSize_append, String.utf8ByteSize_append, String.utf8ByteSize_append, hdot, hsuffix,
    h.size, partMargin]

/-- Where the first temporary name cannot be looked up, no other one is tried. -/
theorem createPart_of_not_nameable {w : World} {directory : Path} {d : Location} {tries : Nat}
    (hp : directory.isAbsolute = true) (hd : w.tree.LeadsTo directory d)
    (h : ¬ Tree.Nameable directory (partName name (w.tokens w.drawn))) :
    ∃ e w', w.createPart directory name (tries + 1) = (.error e, w') := by
  have hdescends := descends_partName name (w.tokens w.drawn)
  have hjoin : directory.join ⟨.relative, [partName name (w.tokens w.drawn)]⟩ =
      directory.child (partName name (w.tokens w.drawn)) := rfl
  cases hlocate : w.tree.locate false (directory.child (partName name (w.tokens w.drawn))) with
  | ok place =>
    obtain ⟨_, _, hname, _⟩ := Tree.locate_child_eq_ok hp hdescends hlocate
    exact absurd hname h
  | error e =>
    have hcreate : w.tree.createFile (directory.child (partName name (w.tokens w.drawn))) = .error e := by
      rw [Tree.createFile, hlocate]
    have hfinal : isTaken e = false := by
      rcases Tree.locate_child_error hdescends hd hlocate with rfl | rfl <;> rfl
    simp only [createPart, hjoin, hcreate, hfinal]
    exact ⟨e, _, rfl⟩

end World

/-! ## Room for a temporary name -/

namespace Upload

/-- The name with the random part and the suffix is not too long, nor is its path. -/
structure PartFits (u : UploadTarget) : Prop where
  name : u.name.utf8ByteSize + World.partMargin ≤ Tree.nameLimit
  path : u.path.text.utf8ByteSize + World.partMargin ≤ Tree.pathLimit

/-- What an upload may count on: its directory can be made, one of the random names that are tried is free, and
its own name is not too long and not that of a directory. -/
structure Welcome (w : World) (u : UploadTarget) : Prop where
  directory : (w.tree.ensureDirectories u.directory).1 = .ok ()
  tokens : ∀ k, World.IsToken (w.tokens k)
  free : ∃ k < World.tokenTries, w.tree.look?
    (u.directory.child (World.partName u.name (w.tokens (w.drawn + k)))) = none
  short : u.name.utf8ByteSize ≤ Tree.nameLimit
  vacant : w.tree.look? u.path ≠ some .directory

variable {u : UploadTarget} {token : String}

theorem nameable_partName_iff (hu : u.Proper) (hnul : Tree.hasNul u.directory.text = false)
    (hname : '\x00' ∉ u.name.toList) (htoken : World.IsToken token) :
    Tree.Nameable u.directory (World.partName u.name token) ↔ PartFits u := by
  obtain ⟨k, _, hsize⟩ := Path.size_text_child hu.absolute
  have hpath : u.path.text.utf8ByteSize = k + u.name.utf8ByteSize := by
    rw [hu.path_eq]
    exact hsize u.name
  have hpart : (u.directory.child (World.partName u.name token)).text.utf8ByteSize =
      u.path.text.utf8ByteSize + World.partMargin := by
    rw [hpath, Nat.add_assoc, ← World.size_partName htoken]
    exact hsize _
  have hshort : Tree.isNameTooLong (World.partName u.name token) = false ↔
      u.name.utf8ByteSize + World.partMargin ≤ Tree.nameLimit := by
    rw [Tree.isNameTooLong, decide_eq_false_iff_not, Nat.not_lt, World.size_partName htoken]
  have hfits : Tree.isPathTooLong (u.directory.child (World.partName u.name token)).text = false ↔
      u.path.text.utf8ByteSize + World.partMargin ≤ Tree.pathLimit := by
    rw [Tree.isPathTooLong_eq_false, hpart]
  refine ⟨fun h => ⟨hshort.mp h.short, hfits.mp h.fits⟩, fun h =>
    ⟨World.descends_partName _ _, hshort.mpr h.name, ?_, hfits.mpr h.path⟩⟩
  have hclean : Tree.hasNul (World.partName u.name token) = false := by
    simp only [Tree.hasNul, List.contains_eq_mem, decide_eq_false_iff_not, World.toList_partName, List.mem_append,
      List.mem_cons, not_or]
    exact ⟨hname, ⟨by decide, htoken.noNul⟩, by decide⟩
  rw [Tree.hasNul_child, hnul, hclean]
  rfl

/-! ## Storing -/

variable {x : Exchange} {directory : Path} {name : String} {size : Nat}

/-- A directory that is written in any way is resolved to one that is written with plain names. -/
theorem proper_of_resolved {t : Tree} (hworking : ∀ n ∈ t.workingDirectory, Path.IsPlain n)
    (hdirectory : ∀ n ∈ directory.names, '/' ∉ n.toList) (h : target t directory name = .ok u) : u.Proper := by
  obtain ⟨haccepted, hname, hresolve⟩ := target_eq_ok h
  refine ⟨?_, Tree.resolve_isPlain ?_ hdirectory hresolve, hname ▸ isPlain_of_refusalOf haccepted⟩
  · exact Tree.isAbsolute_of_resolve hresolve
  · unfold Tree.start
    split
    · simp
    · exact hworking

theorem nameable_partName_of_target {t : Tree} (hu : u.Proper) (h : target t directory name = .ok u)
    (htoken : World.IsToken token) :
    Tree.Nameable u.directory (World.partName u.name token) ↔ PartFits u := by
  obtain ⟨haccepted, hname, hresolve⟩ := target_eq_ok h
  refine nameable_partName_iff hu (Tree.resolve_eq_ok hresolve).2 ?_ htoken
  rw [hname]
  exact notMem_of_refusalOf haccepted (by decide)

/-- In a real directory every name is accepted that its characters allow and that is not the name of a link. -/
theorem target_of_isReal {t : Tree} {d : Location} (hd : t.IsReal d) (hplain : ∀ n ∈ d, Path.IsPlain n)
    (hnul : Tree.hasNul d.path.text = false) (haccepted : refusalOf name = none)
    (hlink : t.linkAt? (d ++ [name]) = none) : target t d.path name = .ok ⟨name, d.path⟩ := by
  have hname := isPlain_of_refusalOf haccepted
  have hchild : d.path.join (Path.ofString name) = Location.path (d ++ [name]) := by
    rw [Path.ofString_of_isName hname.1]
    rfl
  have hclean : Tree.hasNul (Location.path (d ++ [name])).text = false := by
    have hjoined := Tree.hasNul_child d.path name
    rw [hnul, Bool.false_or] at hjoined
    refine Eq.trans hjoined ?_
    have hnone := notMem_of_refusalOf haccepted (c := '\x00') (by decide)
    simpa [Tree.hasNul] using hnone
  have hne : ∀ n ∈ d ++ [name], n ≠ "" := by
    intro n hn
    rcases List.mem_append.mp hn with hn | hn
    · exact (hplain n hn).1.1
    · exact List.mem_singleton.mp hn ▸ hname.1.1
  have hresolve := Tree.resolve_of_isReal hd (fun n hn => (hplain n hn).1.1) hnul
  have hreal := Tree.resolve_of_isReal (hd.child hname.1.2.1 hname.2 hlink) hne hclean
  have hparent : (Location.path (d ++ [name])).parent = d.path := by
    simp [Location.path, Path.parent]
  have hchosen : (do
      let directory ← t.resolve d.path
      let real ← t.resolve (directory.join (Path.ofString name))
      if real.parent != directory then throw (Failure.refused (.escapes name))
      return (⟨name, directory⟩ : UploadTarget)) = .ok ⟨name, d.path⟩ := by
    simp only [hresolve, hchild, hreal, hparent, bind, Except.bind, bne_self_eq_false]
    rfl
  rw [target, haccepted]
  exact hchosen

/-- Receiving returns, and all that has arrived is in the directory under the name. -/
def Stores (directory : Path) (size : Nat) (name : String) (x : Exchange) (u : UploadTarget) : Prop :=
  ∃ n y d, receive directory size name x = (.ok n, y) ∧
    Publishes x.tree y.tree u x.connection.pending.bytes d

theorem Welcome.room {w : World} (h : Welcome w u)
    (hname : ∀ k, Tree.Nameable u.directory (World.partName u.name (w.tokens k))) : Room w u :=
  ⟨h.directory, fun _ _ => hname _, h.free, h.vacant⟩

/-- Where the temporary name does not fit, there is no temporary file and nothing is received. -/
theorem not_stores_of_not_nameable (hx : x.tree.Sound) (hu : u.Proper) (htarget : target x.tree directory name = .ok u)
    (hready : (x.tree.ensureDirectories u.directory).1 = .ok ())
    (h : ¬ Tree.Nameable u.directory (World.partName u.name (x.tokens x.drawn))) :
    ¬ Stores directory size name x u := by
  rintro ⟨n, y, d, hreceive, _⟩
  have hensure : x.tree.ensureDirectories u.directory =
      (.ok (), (x.tree.ensureDirectories u.directory).2) := Prod.ext hready rfl
  generalize (x.tree.ensureDirectories u.directory).2 = t₁ at hensure
  obtain ⟨d', hensured⟩ := Tree.ensured_of_ensureDirectories hx hu.absolute
    (fun n hn => (hu.above n hn).descends) hensure
  have hfailed : ∃ e w, ({ x.toWorld with tree := t₁ } : World).createPart u.directory u.name World.tokenTries =
      (.error e, w) := World.createPart_of_not_nameable hu.absolute hensured.leadsTo h
  obtain ⟨e, w, hpart⟩ := hfailed
  rw [receive_of_no_part htarget hensure hpart] at hreceive
  cases hreceive

/-- A file is stored under an accepted name exactly if the temporary name fits into the file system. -/
theorem stores_iff (hworking : ∀ n ∈ x.tree.workingDirectory, Path.IsPlain n)
    (hdirectory : ∀ n ∈ directory.names, '/' ∉ n.toList) (hsize : 1 ≤ size) (hx : x.tree.Sound)
    (htarget : target x.tree directory name = .ok u) (hwelcome : Welcome x.toWorld u)
    (hended : x.connection.pending.fault = none) : Stores directory size name x u ↔ PartFits u := by
  have hu := proper_of_resolved hworking hdirectory htarget
  have hfits : ∀ k, Tree.Nameable u.directory (World.partName u.name (x.tokens k)) ↔ PartFits u :=
    fun k => nameable_partName_of_target hu htarget (hwelcome.tokens k)
  refine ⟨fun hstores => ?_, fun hpart => ?_⟩
  · by_contra hpart
    exact not_stores_of_not_nameable hx hu htarget hwelcome.directory (mt (hfits x.drawn).mp hpart) hstores
  · have hroom := hwelcome.room fun k => (hfits k).mpr hpart
    exact publishes_of_canStore hx hu htarget hsize hended (canStore_of_room hx hu hroom _)

end Upload

namespace Site

/-- A body that arrives after nothing else, in a world with one random name. -/
def arrivingBody (bytes : Bytes) : Exchange :=
  { Exchange.ofLine bareTree "" with
    tokens := fun _ => "k3j9x0ab"
    connection := { id := "0", clientIp := "", peer := { inbound := [.data bytes] } } }

/-- A name of 240 bytes, in sixty characters, and some letters before them. -/
def bulkyName (letters : Nat) : String :=
  String.ofList (List.replicate letters 'a' ++ List.replicate 60 '😀')

def bulkyTarget (letters : Nat) : UploadTarget := ⟨bulkyName letters, bareSite.uploads⟩

theorem size_bulkyName (letters : Nat) : (bulkyName letters).utf8ByteSize = letters + 240 := by
  have hletter : 'a'.utf8Size = 1 := by decide
  have hwide : '😀'.utf8Size = 4 := by decide
  rw [bulkyName, Text.size_ofList, List.map_append, List.sum_append, List.map_replicate, List.map_replicate,
    List.sum_replicate_nat, List.sum_replicate_nat, hletter, hwide, Nat.mul_one]

theorem linkAt?_bareTree (l : Location) : bareTree.linkAt? l = none := by
  refine Tree.linkAt?_eq_none fun target hnode => ?_
  by_cases hl : l = []
  · rw [hl] at hnode
    cases hnode
  · have hmem := Tree.mem_nodes hl hnode
    simp [bareTree] at hmem

theorem isPlain_uploads : ∀ n ∈ bareSite.uploads.names, Path.IsPlain n := by
  simp only [bareSite, List.mem_cons, List.not_mem_nil, or_false, forall_eq_or_imp, forall_eq,
    Path.IsPlain, Path.IsName]
  decide

theorem refusalOf_bulkyName (letters : Nat) : Upload.refusalOf (bulkyName letters) = none := by
  have hlist : (bulkyName letters).toList = List.replicate letters 'a' ++ List.replicate 60 '😀' :=
    String.toList_ofList
  have hlength : (bulkyName letters).length = letters + 60 := by
    rw [← String.length_toList, hlist, List.length_append, List.length_replicate, List.length_replicate]
  have hne : ∀ s : String, s.length < 60 → bulkyName letters ≠ s := by
    rintro s hs rfl
    omega
  have hchars : ∀ p : Char → Bool, p 'a' = false → p '😀' = false →
      (bulkyName letters).toList.any p = false := by
    intro p ha hwide
    simp [hlist, List.any_replicate, ha, hwide]
  have hdots : (bulkyName letters == "" || bulkyName letters == "." || bulkyName letters == "..") = false := by
    simp [hne "" (by decide), hne "." (by decide), hne ".." (by decide)]
  unfold Upload.refusalOf
  rw [hdots, hchars _ (by decide) (by decide), hchars _ (by decide) (by decide)]
  rfl

theorem target_bulkyName (letters : Nat) :
    Upload.target bareTree bareSite.uploads (bulkyName letters) = .ok (bulkyTarget letters) := by
  have hreal : bareTree.IsReal ["root", "uploaded"] := ⟨fun k _ => linkAt?_bareTree k, by decide⟩
  exact Upload.target_of_isReal hreal isPlain_uploads (by decide +kernel) (refusalOf_bulkyName letters)
    (linkAt?_bareTree _)

theorem proper_bulkyTarget (letters : Nat) : (bulkyTarget letters).Proper :=
  ⟨rfl, isPlain_uploads, Upload.isPlain_of_refusalOf (refusalOf_bulkyName letters)⟩

theorem welcome_bulkyTarget {letters : Nat} (bytes : Bytes) (hshort : letters ≤ 15) :
    Upload.Welcome (arrivingBody bytes).toWorld (bulkyTarget letters) := by
  have hready : (bareTree.ensureDirectories bareSite.uploads).1 = .ok () := by decide +kernel
  have htoken : World.IsToken "k3j9x0ab" := by decide
  have hlocate : bareTree.locate true bareSite.uploads = .ok ⟨["root", "uploaded"], none⟩ := by decide +kernel
  have habsent : ∀ d, ¬ bareTree.LeadsTo bareSite.uploads d := by
    intro d hd
    rw [Tree.LeadsTo, hlocate] at hd
    cases hd
  have hnone : ∀ name, Path.Descends name → bareTree.look? (bareSite.uploads.child name) = none :=
    fun name hname => Tree.look?_child_of_not_leadsTo rfl hname habsent
  refine ⟨hready, fun _ => htoken, ⟨0, by decide, hnone _ (World.descends_partName _ _)⟩, ?_, ?_⟩
  · rw [bulkyTarget, size_bulkyName, Tree.nameLimit]
    omega
  · rw [(proper_bulkyTarget letters).path_eq]
    exact fun hdirectory => Option.some_ne_none _ (hdirectory.symm.trans
      (hnone _ (proper_bulkyTarget letters).name.descends))

theorem partFits_bulkyTarget (letters : Nat) : Upload.PartFits (bulkyTarget letters) ↔ letters ≤ 1 := by
  have hsizes := Path.size_joinTexts "root" ["uploaded", bulkyName letters]
  have hroot : "root".utf8ByteSize = 4 := by decide
  have huploaded : "uploaded".utf8ByteSize = 8 := by decide
  have hslash : (Path.anchorText .root).utf8ByteSize = 1 := by decide
  have hjoined : (bulkyTarget letters).path.text =
      Path.anchorText .root ++ Text.joinTexts "/" ["root", "uploaded", bulkyName letters] := by
    rw [(proper_bulkyTarget letters).path_eq, Path.text_of_isAbsolute rfl]
    rfl
  have hpath : (bulkyTarget letters).path.text.utf8ByteSize = letters + 255 := by
    simp only [List.map_cons, List.map_nil, List.sum_cons, List.sum_nil, size_bulkyName, hroot, huploaded] at hsizes
    rw [hjoined, String.utf8ByteSize_append, hslash]
    omega
  refine ⟨fun h => ?_, fun h => ⟨?_, ?_⟩⟩
  · have hname := h.name
    rw [bulkyTarget, size_bulkyName, World.partMargin, Tree.nameLimit] at hname
    omega
  · rw [bulkyTarget, size_bulkyName, World.partMargin, Tree.nameLimit]
    omega
  · rw [hpath, World.partMargin, Tree.pathLimit]
    omega

theorem pending_arrivingBody (bytes : Bytes) : (arrivingBody bytes).connection.pending = ⟨bytes, none⟩ :=
  congrArg (Incoming.mk · none) (List.append_nil bytes)

/-- With one letter before the others the temporary name has 255 bytes. -/
theorem stores_bulkyName :
    (∀ n ∈ bareTree.workingDirectory, Path.IsPlain n) ∧ (∀ n ∈ bareSite.uploads.names, '/' ∉ n.toList) ∧
      1 ≤ bareSite.files.chunkSize ∧ bareTree.Sound ∧
      Upload.target bareTree bareSite.uploads (bulkyName 1) = .ok (bulkyTarget 1) ∧
      Upload.Welcome (arrivingBody [104, 105]).toWorld (bulkyTarget 1) ∧
      (arrivingBody [104, 105]).connection.pending = ⟨[104, 105], none⟩ ∧
      Upload.Stores bareSite.uploads bareSite.files.chunkSize (bulkyName 1) (arrivingBody [104, 105])
        (bulkyTarget 1) := by
  have hworking : ∀ n ∈ bareTree.workingDirectory, Path.IsPlain n := by simp [bareTree]
  have hdirectory : ∀ n ∈ bareSite.uploads.names, '/' ∉ n.toList := fun n hn => (isPlain_uploads n hn).1.2.2
  have hsize : 1 ≤ bareSite.files.chunkSize := by decide
  have hx : bareTree.Sound := Tree.sound_of_nodes (by decide)
  have hwelcome : Upload.Welcome (arrivingBody [104, 105]).toWorld (bulkyTarget 1) :=
    welcome_bulkyTarget _ (by decide)
  have hpending := pending_arrivingBody [104, 105]
  have hiff := Upload.stores_iff (x := arrivingBody [104, 105]) hworking hdirectory hsize hx
    (target_bulkyName 1) hwelcome (congrArg Incoming.fault hpending)
  exact ⟨hworking, hdirectory, hsize, hx, target_bulkyName 1, hwelcome, hpending,
    hiff.mpr ((partFits_bulkyTarget 1).mpr (by decide))⟩

/-- A name of 242 bytes is accepted, its directory is made, and then there can be no temporary file. -/
theorem not_stores_bulkyName :
    Upload.target bareTree bareSite.uploads (bulkyName 2) = .ok (bulkyTarget 2) ∧
      (bulkyName 2).utf8ByteSize = 242 ∧
      Upload.Welcome (arrivingBody [104, 105]).toWorld (bulkyTarget 2) ∧
      (arrivingBody [104, 105]).connection.pending = ⟨[104, 105], none⟩ ∧
      ¬ Upload.Stores bareSite.uploads bareSite.files.chunkSize (bulkyName 2) (arrivingBody [104, 105])
        (bulkyTarget 2) := by
  have hx : bareTree.Sound := Tree.sound_of_nodes (by decide)
  have hwelcome : Upload.Welcome (arrivingBody [104, 105]).toWorld (bulkyTarget 2) :=
    welcome_bulkyTarget _ (by decide)
  have hlong : ¬ Upload.PartFits (bulkyTarget 2) := mt (partFits_bulkyTarget 2).mp (by decide)
  have hname := mt (Upload.nameable_partName_of_target (proper_bulkyTarget 2) (target_bulkyName 2)
    (hwelcome.tokens 0)).mp hlong
  exact ⟨target_bulkyName 2, size_bulkyName 2, hwelcome, pending_arrivingBody _,
    Upload.not_stores_of_not_nameable (x := arrivingBody [104, 105]) hx (proper_bulkyTarget 2)
      (target_bulkyName 2) hwelcome.directory hname⟩

end Site

end FileExchange
