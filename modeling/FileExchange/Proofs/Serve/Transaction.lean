import FileExchange.Proofs.Serve.Sending
import FileExchange.Proofs.Serve.Uploads
import FileExchange.Proofs.Tree.Storing

/-!
# An upload as a transaction

In which states an upload can leave the file tree: as it was, with new directories, with one new
temporary file that holds all that has arrived, or with the file under its final name.
-/

set_option autoImplicit false

namespace FileExchange

open Serving

namespace Upload

/-- All that has arrived is in a new temporary file. -/
structure KeepsPart (t t' : Tree) (u : UploadTarget) (bytes : Bytes) (d : Location) (token : String) :
    Prop where
  leads : t'.LeadsTo u.directory d
  free : t.view (d ++ [World.partName u.name token]) = none
  gains : t.Gains t' (d ++ [World.partName u.name token]) bytes
  entry : t'.look? u.path = t.look? u.path

/-- All that has arrived is under the final name. -/
structure Publishes (t t' : Tree) (u : UploadTarget) (bytes : Bytes) (d : Location) : Prop where
  ready : ∃ t₁, t.Ensured t₁ u.directory d
  gains : t.Gains t' (d ++ [u.name]) bytes
  entry : u.directory = d.path → t'.look? u.path = some (.file bytes)

/-- How receiving can leave the tree and the connection of an exchange: the name is refused, the directory cannot be
made, no temporary file can be created in it, the stream fails, all goes well, or the name is that of a directory. -/
inductive Leaves (directory : Path) (name : String) (x : Exchange) (t : Tree)
    (c : Connection) : Prop
  | refused (e : Failure) (target : Upload.target x.tree directory name = .error e)
      (tree : t = x.tree) (connection : c = x.connection)
  | unmade (u : UploadTarget) (target : Upload.target x.tree directory name = .ok u)
      (e : Failure) (failed : x.tree.ensureDirectories u.directory = (.error e, t))
      (entry : t.look? u.path = x.tree.look? u.path)
      (grown : Tree.Grown (fun _ => True) x.tree t) (connection : c = x.connection)
  | uncreated (u : UploadTarget) (target : Upload.target x.tree directory name = .ok u)
      (made : x.tree.ensureDirectories u.directory = (.ok (), t)) (e : Failure)
      (failed : ({ x.toWorld with tree := t }.createPart u.directory u.name World.tokenTries).1 = .error e)
      (entry : t.look? u.path = x.tree.look? u.path)
      (grown : Tree.Grown (fun _ => True) x.tree t) (connection : c = x.connection)
  | cut (u : UploadTarget) (target : Upload.target x.tree directory name = .ok u)
      (fault : Fault) (failed : x.connection.pending.fault = some fault) (d : Location)
      (token : String) (keeps : KeepsPart x.tree t u x.connection.pending.bytes d token)
  | stored (u : UploadTarget) (target : Upload.target x.tree directory name = .ok u)
      (ended : x.connection.pending.fault = none)
      (replaced : x.tree.look? u.path ≠ some .directory) (d : Location)
      (publishes : Publishes x.tree t u x.connection.pending.bytes d)
  | stuck (u : UploadTarget) (target : Upload.target x.tree directory name = .ok u)
      (ended : x.connection.pending.fault = none)
      (taken : x.tree.look? u.path = some .directory) (d : Location) (token : String)
      (keeps : KeepsPart x.tree t u x.connection.pending.bytes d token)

section Receive

variable {x : Exchange} {t₁ : Tree} {directory : Path} {name : String} {u : UploadTarget} {size : Nat}
  {w : World} {part : World.PartFile} {d : Location}

theorem wire_filled (x : Exchange) (w : World) (part : World.PartFile) (size : Nat) :
    (filled x w part size).wire = x.wire := by
  obtain ⟨inbound, received, hframe⟩ := Connection.takeBody_frame x.connection size
  rw [filled, Exchange.wire, hframe]
  rfl

theorem exists_part (hu : u.Proper) (hready : x.tree.Ensured t₁ u.directory d) (hsize : 1 ≤ size)
    (hpart : { x.toWorld with tree := t₁ }.createPart u.directory u.name World.tokenTries =
      (.ok part, w)) :
    ∃ token, part.path = u.directory.child (World.partName u.name token) ∧
      Tree.Nameable u.directory u.name ∧
      Tree.Nameable u.directory (World.partName u.name token) ∧
      t₁.node? (d ++ [World.partName u.name token]) = none ∧
      (filled x w part size).tree =
        t₁.withFile (d ++ [World.partName u.name token]) x.connection.pending.bytes := by
  obtain ⟨token, hpath, hcreate⟩ := World.createPart_eq_ok hpart
  rw [hpath] at hcreate
  obtain ⟨d', hd', hnameable, hfree, hid, htree⟩ :=
    Tree.createFile_child hu.absolute (World.descends_partName u.name token) hcreate
  cases Tree.leadsTo_unique hready.leadsTo hd'
  refine ⟨token, hpath, World.nameable_of_partName hu.absolute hu.name.descends hnameable, hnameable,
    hfree, ?_⟩
  rw [filled, htree, hid, (Connection.takeBody_eq hsize).1]
  rfl

theorem keepsPart_of_ensured (bytes : Bytes) {token : String} (hx : x.tree.Sound) (hu : u.Proper)
    (hready : x.tree.Ensured t₁ u.directory d) (hname : Tree.Nameable u.directory u.name)
    (hfree : t₁.node? (d ++ [World.partName u.name token]) = none) :
    KeepsPart x.tree (t₁.withFile (d ++ [World.partName u.name token]) bytes) u bytes d token := by
  refine ⟨hready.leadsTo_withFile hfree bytes, ?_, hready.gains_withFile bytes, ?_⟩
  · rw [Tree.view_eq_none, ← hready.node?_child, hfree]
  · rw [hu.path_eq]
    exact hready.look?_withFile hfree hx hu.absolute hname (World.partName_ne _ _) bytes

theorem publishes_of_ensured (bytes : Bytes) {token : String} (hu : u.Proper)
    (hready : x.tree.Ensured t₁ u.directory d) (hname : Tree.Nameable u.directory u.name)
    (hfree : t₁.node? (d ++ [World.partName u.name token]) = none) :
    Publishes x.tree ((t₁.withFile (d ++ [World.partName u.name token]) bytes).moved
      (d ++ [World.partName u.name token]) (d ++ [u.name]) (.file t₁.contents.size)) u bytes d := by
  refine ⟨⟨t₁, hready⟩, hready.gains_moved hfree bytes, fun hreal => ?_⟩
  rw [hu.path_eq, hreal]
  rw [hreal] at hready hname
  exact hready.look?_moved hfree hname bytes

variable (hu : u.Proper) (htarget : target x.tree directory name = .ok u)

include hu htarget

theorem leaves_of_no_directory {e : Failure}
    (hensure : x.tree.ensureDirectories u.directory = (.error e, t₁)) :
    Leaves directory name x t₁ x.connection := by
  have habove : ∀ n ∈ u.directory.names, Path.Descends n := fun n hn => (hu.above n hn).descends
  have hgrown := Tree.grown_ensureWithParents (t := x.tree) hu.absolute habove
    u.directory.names.length
  rw [show x.tree.ensureWithParents u.directory u.directory.names.length = (.error e, t₁)
    from hensure] at hgrown
  refine .unmade u htarget e hensure ?_ hgrown rfl
  rw [hu.path_eq]
  exact Tree.look?_child_of_ensureDirectories_error hu.absolute habove hu.name.descends hensure

variable (hx : x.tree.Sound) (hready : x.tree.Ensured t₁ u.directory d)
  (hensure : x.tree.ensureDirectories u.directory = (.ok (), t₁))

include hx hready hensure

theorem leaves_of_no_part {e : Failure}
    (hpart : { x.toWorld with tree := t₁ }.createPart u.directory u.name World.tokenTries =
      (.error e, w)) : Leaves directory name x w.tree x.connection := by
  have htree : w.tree = t₁ := World.createPart_error hpart
  rw [htree]
  refine .uncreated u htarget hensure e (by rw [hpart]) ?_ (hready.grown.mono fun _ _ => trivial) rfl
  rw [hu.path_eq]
  exact hready.look?_child hx hu.absolute hu.name.descends

variable (hsize : 1 ≤ size)
  (hpart : { x.toWorld with tree := t₁ }.createPart u.directory u.name World.tokenTries =
    (.ok part, w))

include hsize hpart

/-- Once there is a temporary file, the end of the stream and what has the name decide. -/
theorem leaves_of_part :
    Leaves directory name x (receive directory size name x).2.tree
        (receive directory size name x).2.connection ∧
      (receive directory size name x).2.wire = x.wire := by
  obtain ⟨token, hpath, hname, hpartName, hfree, hfull⟩ := exists_part hu hready hsize hpart
  have hkeeps := keepsPart_of_ensured x.connection.pending.bytes hx hu hready hname hfree
  rw [← hfull] at hkeeps
  have hwire := wire_filled x w part size
  have hrename := hready.rename_withFile hfree hx hu.absolute hpartName hname
    (World.partName_ne u.name token) x.connection.pending.bytes
  rw [← hfull, ← hpath, ← hu.path_eq] at hrename
  cases hfault : (x.connection.takeBody size).1.fault with
  | some fault =>
    rw [receive_of_fault htarget hensure hpart hfault]
    rw [(Connection.takeBody_eq hsize).2] at hfault
    exact ⟨.cut u htarget fault hfault d token hkeeps, hwire⟩
  | none =>
    have hended : x.connection.pending.fault = none := by
      rw [← (Connection.takeBody_eq hsize).2, hfault]
    by_cases htaken : x.tree.look? u.path = some .directory
    · rw [if_pos htaken] at hrename
      rw [receive_of_rename_error htarget hensure hpart hfault hrename]
      exact ⟨.stuck u htarget hended htaken d token hkeeps, hwire⟩
    · rw [if_neg htaken, hfull] at hrename
      obtain ⟨n, y, hreceive, htree, hconnection⟩ :=
        receive_of_renamed htarget hensure hpart hfault (hfull ▸ hrename)
      rw [hreceive]
      refine ⟨.stored u htarget hended htaken d ?_, ?_⟩
      · rw [htree, hfull]
        exact publishes_of_ensured _ hu hready hname hfree
      · rw [Exchange.wire, hconnection]
        exact hwire

/-- Where the rename succeeds, receiving has stored all that has arrived. -/
theorem publishes_of_part {t₂ : Tree} (hended : x.connection.pending.fault = none)
    (hrename : (filled x w part size).tree.rename part.path u.path = .ok t₂) :
    ∃ n y, receive directory size name x = (.ok n, y) ∧
      Publishes x.tree y.tree u x.connection.pending.bytes d := by
  obtain ⟨token, hpath, hname, hpartName, hfree, hfull⟩ := exists_part hu hready hsize hpart
  have hend : (x.connection.takeBody size).1.fault = none := by
    rw [(Connection.takeBody_eq hsize).2, hended]
  obtain ⟨n, y, hreceive, htree, _⟩ := receive_of_renamed htarget hensure hpart hend hrename
  have hmoved := hready.rename_withFile hfree hx hu.absolute hpartName hname
    (World.partName_ne u.name token) x.connection.pending.bytes
  rw [hfull, hpath, hu.path_eq, hmoved] at hrename
  split at hrename
  · cases hrename
  · cases hrename
    refine ⟨n, y, hreceive, ?_⟩
    rw [htree]
    exact publishes_of_ensured _ hu hready hname hfree

end Receive

/-- Receiving that succeeds has stored all that has arrived. -/
theorem publishes_of_receive {x y : Exchange} {directory : Path} {size n : Nat} {name : String}
    (hx : x.tree.Sound) (hdirectory : directory.isAbsolute = true)
    (hplain : ∀ n ∈ directory.names, Path.IsPlain n) (hsize : 1 ≤ size)
    (h : receive directory size name x = (.ok n, y)) :
    ∃ u d, target x.tree directory name = .ok u ∧
      Publishes x.tree y.tree u x.connection.pending.bytes d := by
  cases htarget : target x.tree directory name with
  | error e =>
    rw [receive_of_refused htarget] at h
    cases h
  | ok u =>
    have hu := proper_of_target hdirectory hplain htarget
    rcases hensure : x.tree.ensureDirectories u.directory with ⟨_ | _, t₁⟩
    · rw [receive_of_no_directory htarget hensure] at h
      cases h
    · obtain ⟨d, hready⟩ := Tree.ensured_of_ensureDirectories hx hu.absolute
        (fun n hn => (hu.above n hn).descends) hensure
      rcases hpart : { x.toWorld with tree := t₁ }.createPart u.directory u.name World.tokenTries
        with ⟨_ | part, w⟩
      · rw [receive_of_no_part htarget hensure hpart] at h
        cases h
      · cases hfault : (x.connection.takeBody size).1.fault with
        | some fault =>
          rw [receive_of_fault htarget hensure hpart hfault] at h
          cases h
        | none =>
          have hended : x.connection.pending.fault = none := by
            rw [← (Connection.takeBody_eq hsize).2, hfault]
          cases hrename : (filled x w part size).tree.rename part.path u.path with
          | error e =>
            rw [receive_of_rename_error htarget hensure hpart hfault hrename] at h
            cases h
          | ok t₂ =>
            obtain ⟨n', y', hreceive, hpublishes⟩ :=
              publishes_of_part hu htarget hx hready hensure hsize hpart hended hrename
            rw [h] at hreceive
            cases hreceive
            exact ⟨u, d, rfl, hpublishes⟩

/-- Receiving ends in one of these states and sends nothing. -/
theorem leaves_of_receive {x : Exchange} {directory : Path} {size : Nat} (name : String)
    (hx : x.tree.Sound) (hdirectory : directory.isAbsolute = true)
    (hplain : ∀ n ∈ directory.names, Path.IsPlain n) (hsize : 1 ≤ size) :
    Leaves directory name x (receive directory size name x).2.tree
        (receive directory size name x).2.connection ∧
      (receive directory size name x).2.wire = x.wire := by
  cases htarget : target x.tree directory name with
  | error e =>
    rw [receive_of_refused htarget]
    exact ⟨.refused e htarget rfl rfl, rfl⟩
  | ok u =>
    have hu := proper_of_target hdirectory hplain htarget
    cases hensure : x.tree.ensureDirectories u.directory with
    | mk result t₁ =>
      cases result with
      | error e =>
        rw [receive_of_no_directory htarget hensure]
        exact ⟨leaves_of_no_directory hu htarget hensure, rfl⟩
      | ok _ =>
        obtain ⟨d, hready⟩ := Tree.ensured_of_ensureDirectories hx hu.absolute
          (fun n hn => (hu.above n hn).descends) hensure
        cases hpart : { x.toWorld with tree := t₁ }.createPart u.directory u.name
            World.tokenTries with
        | mk result w =>
          cases result with
          | error e =>
            rw [receive_of_no_part htarget hensure hpart]
            exact ⟨leaves_of_no_part hu htarget hx hready hensure hpart, rfl⟩
          | ok part => exact leaves_of_part hu htarget hx hready hensure hsize hpart

end Upload

namespace Site

theorem exists_line {x : Exchange} {r : Request} (h : x.request? = some r) :
    ∃ line, x.connection.readLine.1 = .ok (some line) ∧
      x.connection.pending = x.begun.connection.pending.after line := by
  unfold Exchange.request? at h
  split at h
  · rename_i line hline
    cases line with
    | none => cases h
    | some line => exact ⟨line, hline, Connection.readLine_pending hline⟩
  · cases h

/-- However its stream is cut and wherever it ends, an upload leaves the tree in one of the states of
a transaction, and nothing is sent. -/
theorem leaves_of_upload {c : ServerConfig} {t₀ : Tree} {s : Site} {x : Exchange} {r : Request}
    (hw : ∀ n ∈ t₀.workingDirectory, Path.IsPlain n) (hs : ofConfig c t₀ = .ok s)
    (hx : x.tree.Sound) (hrequest : x.request? = some r) (hupload : r.method = .upload) :
    (∃ line, x.connection.readLine.1 = .ok (some line) ∧
        x.connection.pending = x.begun.connection.pending.after line) ∧
      Upload.Leaves s.uploads r.target x.begun (s.dispatch x).2.tree (s.dispatch x).2.connection ∧
      (s.dispatch x).2.wire = x.wire := by
  obtain ⟨htree, hconnection⟩ := dispatch_of_upload (s := s) hrequest hupload
  obtain ⟨hleaves, hwire⟩ := Upload.leaves_of_receive (x := x.begun) r.target hx
    (uploads_isAbsolute hs) (uploads_isPlain hw hs) (chunkSize_pos hs)
  refine ⟨exists_line hrequest, ?_, ?_⟩
  · rw [htree, hconnection]
    exact hleaves
  · rw [Exchange.wire, hconnection]
    exact hwire.trans (Exchange.begun_wire x)

def bareTree : Tree where
  nodes := [(["root"], .directory)]

def bareSite : Site where
  root := ⟨.root, ["root"]⟩
  uploads := ⟨.root, ["root", "uploaded"]⟩

theorem leaves_of_first_upload :
    (∀ n ∈ bareTree.workingDirectory, Path.IsPlain n) ∧
      ofConfig { rootDirectory := "/root" } bareTree = .ok bareSite ∧ bareTree.Sound ∧
      (Exchange.ofLine bareTree "UPLOAD a\nhello").request? =
        some ⟨.upload, "a", "", "UPLOAD a"⟩ ∧
      (⟨.upload, "a", "", "UPLOAD a"⟩ : Request).method = .upload ∧
      Upload.Leaves bareSite.uploads "a" (Exchange.ofLine bareTree "UPLOAD a\nhello").begun
        (bareSite.dispatch (.ofLine bareTree "UPLOAD a\nhello")).2.tree
        (bareSite.dispatch (.ofLine bareTree "UPLOAD a\nhello")).2.connection ∧
      (bareSite.dispatch (.ofLine bareTree "UPLOAD a\nhello")).2.tree.view ["root", "uploaded", "a"] =
        some (.file (Utf8.encode "hello")) := by
  have hw : ∀ n ∈ bareTree.workingDirectory, Path.IsPlain n := by simp [bareTree]
  have hs : ofConfig { rootDirectory := "/root" } bareTree = .ok bareSite := by decide +kernel
  have hx : bareTree.Sound := Tree.sound_of_nodes (by decide)
  have hrequest : (Exchange.ofLine bareTree "UPLOAD a\nhello").request? =
      some ⟨.upload, "a", "", "UPLOAD a"⟩ := by decide +kernel
  exact ⟨hw, hs, hx, hrequest, rfl, (leaves_of_upload hw hs hx hrequest rfl).2.1, by decide +kernel⟩

end Site

end FileExchange
