import FileExchange.Proofs.Serve.Transfer

/-!
# Names that a server accepts

A client whose upload returns knows that all has been sent, not that it has been stored. It has been stored
if the server accepts the name and there is room for the file; where the name is refused nothing is stored,
and the client is not told.
-/

set_option autoImplicit false

namespace FileExchange

open Serving Exchange

/-! ## Free names -/

namespace Tree

variable {t : Tree} {p : Path} {d : Location} {name : String}

theorem createFile_of_free (hname : Nameable p name) (hd : t.LeadsTo p d)
    (hfree : t.node? (d ++ [name]) = none) :
    t.createFile (p.child name) = .ok (t.contents.size, t.newFile (d ++ [name])) := by
  rw [createFile, locate_child hname hd, hfree]
  rfl

theorem createFile_of_taken (hname : Nameable p name) (hd : t.LeadsTo p d)
    (htaken : t.node? (d ++ [name]) ≠ none) :
    t.createFile (p.child name) = failWith .alreadyExists (p.child name) := by
  obtain ⟨n, hn⟩ := Option.ne_none_iff_exists'.mp htaken
  rw [createFile, locate_child hname hd, hn]

end Tree

namespace World

/-- Where one of the random names is free before there are no more tries, a temporary file is created. -/
theorem exists_createPart {w : World} {directory : Path} {name : String} {d : Location} {tries : Nat}
    (hd : w.tree.LeadsTo directory d)
    (hfits : ∀ k < tries, Tree.Nameable directory (partName name (w.tokens (w.drawn + k))))
    (hfree : ∃ k < tries, w.tree.node? (d ++ [partName name (w.tokens (w.drawn + k))]) = none) :
    ∃ part w', w.createPart directory name tries = (.ok part, w') := by
  induction tries generalizing w with
  | zero =>
    obtain ⟨k, hk, _⟩ := hfree
    omega
  | succ tries ih =>
    have hjoin : directory.join ⟨.relative, [partName name (w.tokens w.drawn)]⟩ =
        directory.child (partName name (w.tokens w.drawn)) := rfl
    have hname : Tree.Nameable directory (partName name (w.tokens w.drawn)) := hfits 0 (Nat.succ_pos _)
    by_cases hfirst : w.tree.node? (d ++ [partName name (w.tokens w.drawn)]) = none
    · have hcreate := Tree.createFile_of_free hname hd hfirst
      simp only [createPart, hjoin, hcreate]
      exact ⟨_, _, rfl⟩
    · have hcreate := Tree.createFile_of_taken hname hd hfirst
      obtain ⟨k, hk, hlater⟩ := hfree
      have hpos : k ≠ 0 := by
        rintro rfl
        exact hfirst hlater
      obtain ⟨m, rfl⟩ := Nat.exists_eq_succ_of_ne_zero hpos
      have hnext : ∀ k, w.drawn + (k + 1) = w.drawn + 1 + k := by omega
      rw [hnext] at hlater
      have hothers : ∀ k < tries, Tree.Nameable directory (partName name (w.tokens (w.drawn + 1 + k))) :=
        fun k hk => hnext k ▸ hfits (k + 1) (Nat.succ_lt_succ hk)
      simp only [createPart, hjoin, hcreate]
      exact ih (w := { w with drawn := w.drawn + 1 }) hd hothers
        ⟨m, Nat.lt_of_succ_lt_succ hk, hlater⟩

end World

/-! ## Room for an upload -/

namespace Upload

/-- The directory can be made if it is not there, the temporary names that may be tried fit and one of them
is free, and the name is not that of a directory. -/
structure Room (w : World) (u : UploadTarget) : Prop where
  directory : (w.tree.ensureDirectories u.directory).1 = .ok ()
  fits : ∀ k < World.tokenTries,
    Tree.Nameable u.directory (World.partName u.name (w.tokens (w.drawn + k)))
  free : ∃ k < World.tokenTries, w.tree.look?
    (u.directory.child (World.partName u.name (w.tokens (w.drawn + k)))) = none
  vacant : w.tree.look? u.path ≠ some .directory

theorem canStore_of_room {w : World} {u : UploadTarget} (hw : w.tree.Sound) (hu : u.Proper)
    (h : Room w u) (bytes : Bytes) : CanStore w u bytes := by
  have hensure : w.tree.ensureDirectories u.directory =
      (.ok (), (w.tree.ensureDirectories u.directory).2) := Prod.ext h.directory rfl
  generalize (w.tree.ensureDirectories u.directory).2 = t₁ at hensure
  obtain ⟨d, hready⟩ := Tree.ensured_of_ensureDirectories hw hu.absolute
    (fun n hn => (hu.above n hn).descends) hensure
  have hfree : ∃ k < World.tokenTries,
      t₁.node? (d ++ [World.partName u.name (w.tokens (w.drawn + k))]) = none := by
    obtain ⟨k, hk, hnone⟩ := h.free
    refine ⟨k, hk, ?_⟩
    rw [← hready.look?_child hw hu.absolute (h.fits k hk).descends,
      Tree.look?_child (h.fits k hk) hready.leadsTo, Tree.view_eq_none] at hnone
    exact hnone
  obtain ⟨part, w', hpart⟩ :=
    World.exists_createPart (w := { w with tree := t₁ }) hready.leadsTo h.fits hfree
  obtain ⟨token, hpath, hcreate⟩ := World.createPart_eq_ok hpart
  rw [hpath] at hcreate
  obtain ⟨d', hd', hpartName, hnone, hid, htree⟩ :=
    Tree.createFile_child hu.absolute (World.descends_partName u.name token) hcreate
  cases Tree.leadsTo_unique hready.leadsTo hd'
  have hname := World.nameable_of_partName hu.absolute hu.name.descends hpartName
  -- The rename can only fail on a directory of that name, and there was none before.
  have hrename := hready.rename_withFile hnone hw hu.absolute hpartName hname
    (World.partName_ne u.name token) bytes
  rw [← hu.path_eq, if_neg h.vacant, ← hpath] at hrename
  have hwritten : w'.tree.setContent part.id bytes =
      t₁.withFile (d ++ [World.partName u.name token]) bytes := by
    rw [htree, hid]
    rfl
  rw [CanStore, storing, hensure]
  dsimp only
  rw [hpart]
  dsimp only
  rw [hwritten, hrename]
  rfl

end Upload

namespace Site

/-- An upload that is refused before anything is received changes nothing. -/
theorem dispatch_of_target_error {s : Site} {x : Exchange} {r : Request} {e : Failure}
    (hrequest : x.request? = some r) (hupload : r.method = .upload)
    (htarget : Upload.target x.tree s.uploads r.target = .error e) :
    (s.dispatch x).2.tree = x.tree ∧ (s.dispatch x).2.sends = x.sends ∧
      ∀ refusal, e = .refused refusal → (s.dispatch x).1 = .ok 0 := by
  have hreceive : Upload.receive s.uploads s.files.chunkSize r.target x.begun = (.error e, x.begun) :=
    Upload.receive_of_refused htarget
  obtain ⟨htree, hconnection⟩ := s.dispatch_of_upload hrequest hupload
  rw [hreceive] at htree hconnection
  refine ⟨htree, ?_, ?_⟩
  · rw [(sent_of_connection (sent_of_begun x) hconnection).sends, List.append_nil]
  · rintro refusal rfl
    have hattempt : attempt (Upload.receive s.uploads s.files.chunkSize r.target) x.begun =
        (.ok (.error (.refused refusal)), x.begun) := by
      rw [run_attempt, hreceive]
    have hanswer : ∃ z, s.answerUpload r.target x.begun = (.ok none, z) :=
      ⟨_, run_bind_ok hattempt⟩
    obtain ⟨z, hz⟩ := hanswer
    have hwhole : s.answer x = (.ok (some r, none), z) := by
      rw [answer_upload hrequest hupload, run_bind_ok hz]
      rfl
    obtain ⟨y, hdispatch, _⟩ := dispatch_of_answer_ok hwhole
    rw [hdispatch]
    rfl

/-- An upload that returns has put the announcing line and the file on the wire. A server that gets these
bytes, cut in any way, and has room for the file stores it under the announced name exactly if it accepts
the name; otherwise it stores nothing, and the client that got its return cannot tell. -/
theorem stores_accepted {c : ServerConfig} {t₀ : Tree} {s : Site} {client : ClientConfig} {p : Path}
    {remoteName : Option String} {w : ClientWorld} {n : Nat}
    (hw : ∀ n ∈ t₀.workingDirectory, Path.IsPlain n) (hs : ofConfig c t₀ = .ok s)
    (hchunk : 1 ≤ client.chunkSize) (hdial : Sender.Answered w)
    (hreturned : (Sender.upload client p remoteName w).1 = .ok n) :
    ∃ line file sent, Sender.preamble (Sender.announced p remoteName) = .ok line ∧
      w.tree.openFile p = .ok file ∧ (Sender.upload client p remoteName w).2.lastWire = some sent ∧
      ∀ x : Exchange, x.tree.Sound → x.connection.Brings sent → 1 ≤ x.connection.bufferSize →
        line.length ≤ x.connection.maxLine →
        (∀ u, Upload.target x.tree s.uploads (Sender.announced p remoteName) = .ok u →
          Upload.Room x.toWorld u →
          ∃ y d, s.dispatch x = (.ok 0, y) ∧ y.sends = x.sends ∧
            u.name = Sender.announced p remoteName ∧
            Upload.Publishes x.tree y.tree u (w.tree.content file) d) ∧
        ∀ e, Upload.target x.tree s.uploads (Sender.announced p remoteName) = .error e →
          (s.dispatch x).2.tree = x.tree ∧ (s.dispatch x).2.sends = x.sends ∧
            ∀ refusal, e = .refused refusal → (s.dispatch x).1 = .ok 0 := by
  obtain ⟨line, file, hline, hfile⟩ := Sender.exists_file_of_upload hreturned
  refine ⟨line, file, _, hline, hfile, Sender.lastWire_upload hchunk hdial hline hfile, ?_⟩
  intro x hx hbrings hbuffer hfits
  obtain ⟨hrequest, hpending⟩ := x.request_of_preamble hline hbrings hbuffer hfits
  refine ⟨fun u htarget hroom => ?_, fun e htarget => ?_⟩
  · have hu := Upload.proper_of_target (uploads_isAbsolute hs) (uploads_isPlain hw hs) htarget
    have hended : x.begun.connection.pending.fault = none := by rw [hpending]
    have hcan : Upload.CanStore x.begun.toWorld u x.begun.connection.pending.bytes :=
      Upload.canStore_of_room hx hu hroom _
    obtain ⟨_, y, d, hreceive, hpublishes⟩ := Upload.publishes_of_canStore (x := x.begun) hx hu htarget
      (chunkSize_pos hs) hended hcan
    obtain ⟨z, hdispatch, htree, hsends⟩ := dispatch_of_received hrequest rfl hreceive
    refine ⟨z, d, hdispatch, hsends, (Upload.target_eq_ok htarget).2.1, ?_⟩
    rw [htree]
    rw [hpending] at hpublishes
    exact hpublishes
  · exact dispatch_of_target_error hrequest rfl htarget

/-- A server that gets these bytes in two pieces. -/
def gettingUpload (first second : Bytes) : Exchange :=
  { Exchange.ofLine bareTree "" with
    tokens := fun _ => "k3j9x0ab"
    connection := { id := "0", clientIp := "", peer := { inbound := [.data first, .data second] } } }

theorem stores_accepted_greeting :
    (∀ n ∈ bareTree.workingDirectory, Path.IsPlain n) ∧
      ofConfig { rootDirectory := "/root" } bareTree = .ok bareSite ∧
      1 ≤ ({} : ClientConfig).chunkSize ∧ Sender.Answered homeClient ∧
      (Sender.upload {} homePath none homeClient).1 = .ok 21 ∧
      ∃ y d, bareSite.dispatch (gettingUpload (Utf8.encode "UPLOAD a\r\nGET / HT")
          (Utf8.encode "TP/1.0\nhello\n")) = (.ok 0, y) ∧
        Upload.Publishes bareTree y.tree ⟨"a", bareSite.uploads⟩
          (Utf8.encode "GET / HTTP/1.0\nhello\n") d := by
  have hw : ∀ n ∈ bareTree.workingDirectory, Path.IsPlain n := by simp [bareTree]
  have hs : ofConfig { rootDirectory := "/root" } bareTree = .ok bareSite := by decide +kernel
  have hdial : Sender.Answered homeClient := ⟨rfl, ⟨rfl, fun _ _ => rfl, rfl⟩, rfl⟩
  have hchunk : 1 ≤ ({} : ClientConfig).chunkSize := by decide
  have hreturned : (Sender.upload {} homePath none homeClient).1 = .ok 21 := by decide +kernel
  obtain ⟨line, file, sent, hline, hfile, hsent, hstored⟩ :=
    stores_accepted hw hs hchunk hdial hreturned
  have hline' : Sender.preamble (Sender.announced homePath none) =
      .ok (Utf8.encode "UPLOAD a\r\n") := by decide +kernel
  have hfile' : homeClient.tree.openFile homePath = .ok 0 := by decide +kernel
  have hwire : (Sender.upload {} homePath none homeClient).2.lastWire =
      some (Utf8.encode "UPLOAD a\r\nGET / HTTP/1.0\nhello\n") := by decide +kernel
  cases hline'.symm.trans hline
  cases hfile'.symm.trans hfile
  rw [hwire, Option.some.injEq] at hsent
  let x := gettingUpload (Utf8.encode "UPLOAD a\r\nGET / HT") (Utf8.encode "TP/1.0\nhello\n")
  have hbrings : x.connection.Brings sent := ⟨rfl, rfl, [_, _], rfl, hsent ▸ by decide +kernel⟩
  have htarget : Upload.target x.tree bareSite.uploads "a" = .ok ⟨"a", bareSite.uploads⟩ := by
    decide +kernel
  have hfits : Tree.Nameable bareSite.uploads (World.partName "a" "k3j9x0ab") :=
    ⟨World.descends_partName _ _, by decide +kernel, by decide +kernel, by decide +kernel⟩
  have hroom : Upload.Room x.toWorld ⟨"a", bareSite.uploads⟩ :=
    ⟨by decide +kernel, fun _ _ => hfits, ⟨0, by decide, by decide +kernel⟩, by decide +kernel⟩
  obtain ⟨y, d, hdispatch, _, _, hpublishes⟩ := (hstored x (Tree.sound_of_nodes (by decide)) hbrings
    (by decide) (by decide +kernel)).1 _ htarget hroom
  exact ⟨hw, hs, hchunk, hdial, hreturned, y, d, hdispatch, hpublishes⟩

/-- A name with a backslash is announced and sent, and nothing is stored. -/
theorem not_stored_backslash :
    ∃ sent, (Sender.upload {} homePath (some "a\\b") homeClient).1 = .ok 21 ∧
      (Sender.upload {} homePath (some "a\\b") homeClient).2.lastWire = some sent ∧
      (gettingUpload sent []).connection.Brings sent ∧
      (bareTree.ensureDirectories bareSite.uploads).1 = .ok () ∧
      (bareSite.dispatch (gettingUpload sent [])).1 = .ok 0 ∧
      (bareSite.dispatch (gettingUpload sent [])).2.tree = bareTree := by
  refine ⟨Utf8.encode "UPLOAD a\\b\r\nGET / HTTP/1.0\nhello\n", by decide +kernel, by decide +kernel,
    ⟨rfl, rfl, [_, []], rfl, List.append_nil _⟩, by decide +kernel, by decide +kernel, by decide +kernel⟩

end Site

end FileExchange
