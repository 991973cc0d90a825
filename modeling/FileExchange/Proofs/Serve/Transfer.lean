import FileExchange.Proofs.Client.Announcement
import FileExchange.Proofs.Client.Sending
import FileExchange.Proofs.Serve.CutShort
import FileExchange.Proofs.Serve.Transaction

/-!
# From the client to the store

What a client sends is what the server stores, under the name that was announced, however the network cuts
the bytes between them.
-/

set_option autoImplicit false

namespace FileExchange

open Serving Exchange

/-! ## The announcing line -/

/-- The server reads the announcing line as the request that it is, and the body is what is left. -/
theorem Exchange.request_of_preamble {x : Exchange} {name : String} {line body : Bytes}
    (hline : Sender.preamble name = .ok line) (hx : x.connection.Brings (line ++ body))
    (hbuffer : 1 ≤ x.connection.bufferSize) (hfits : line.length ≤ x.connection.maxLine) :
    x.request? = some ⟨.upload, name, "", "UPLOAD " ++ name⟩ ∧
      x.begun.connection.pending = ⟨body, none⟩ := by
  obtain ⟨hword, rfl⟩ := Sender.preamble_eq_ok_iff.mp hline
  have hcomes : x.connection.pending = (⟨body, none⟩ : Incoming).after (Sender.announcement name) := hx.pending
  obtain ⟨hread, hpending⟩ := Sender.readLine_announcement hword hbuffer (Nat.le_succ_of_le hfits) hcomes
  refine ⟨?_, hpending⟩
  rw [Exchange.request?, hread]
  dsimp only
  rw [Option.map_some, Sender.parse_announcement hword]
  rfl

/-! ## Storing -/

namespace Upload

/-- The calls that storing some bytes makes to the file system: the directory, the temporary file and its
last name. -/
def storing (w : World) (u : UploadTarget) (bytes : Bytes) : Except Failure Tree :=
  match w.tree.ensureDirectories u.directory with
  | (.error e, _) => .error e
  | (.ok _, tree) =>
    match ({ w with tree } : World).createPart u.directory u.name World.tokenTries with
    | (.error e, _) => .error e
    | (.ok part, w) => (w.tree.setContent part.id bytes).rename part.path u.path

/-- Each of these calls succeeds. -/
def CanStore (w : World) (u : UploadTarget) (bytes : Bytes) : Prop :=
  (storing w u bytes).isOk = true

theorem calls_of_canStore {w : World} {u : UploadTarget} {bytes : Bytes} (h : CanStore w u bytes) :
    ∃ t₁ part w₁ t₂, w.tree.ensureDirectories u.directory = (.ok (), t₁) ∧
      ({ w with tree := t₁ } : World).createPart u.directory u.name World.tokenTries =
        (.ok part, w₁) ∧
      (w₁.tree.setContent part.id bytes).rename part.path u.path = .ok t₂ := by
  unfold CanStore storing at h
  split at h
  · cases h
  · rename_i t₁ hensure
    split at h
    · cases h
    · rename_i part w₁ hpart
      cases hrename : (w₁.tree.setContent part.id bytes).rename part.path u.path with
      | error e =>
        rw [hrename] at h
        cases h
      | ok t₂ => exact ⟨t₁, part, w₁, t₂, hensure, hpart, hrename⟩

theorem publishes_of_canStore {x : Exchange} {directory : Path} {name : String} {size : Nat}
    {u : UploadTarget} (hx : x.tree.Sound) (hu : u.Proper) (htarget : target x.tree directory name = .ok u)
    (hsize : 1 ≤ size) (hended : x.connection.pending.fault = none)
    (hcan : CanStore x.toWorld u x.connection.pending.bytes) :
    ∃ n y d, receive directory size name x = (.ok n, y) ∧
      Publishes x.tree y.tree u x.connection.pending.bytes d := by
  obtain ⟨t₁, part, w₁, t₂, hensure, hpart, hrename⟩ := calls_of_canStore hcan
  obtain ⟨d, hready⟩ := Tree.ensured_of_ensureDirectories hx hu.absolute
    (fun n hn => (hu.above n hn).descends) hensure
  have hfilled : (filled x w₁ part size).tree.rename part.path u.path = .ok t₂ := by
    rw [filled, (Connection.takeBody_eq hsize).1]
    exact hrename
  obtain ⟨n, y, hreceive, hpublishes⟩ :=
    publishes_of_part hu htarget hx hready hensure hsize hpart hended hfilled
  exact ⟨n, y, d, hreceive, hpublishes⟩

end Upload

namespace Site

/-- An upload that is received is answered by nothing. -/
theorem dispatch_of_received {s : Site} {x y : Exchange} {r : Request} {n : Nat}
    (hrequest : x.request? = some r) (hupload : r.method = .upload)
    (hreceive : Upload.receive s.uploads s.files.chunkSize r.target x.begun = (.ok n, y)) :
    ∃ z, s.dispatch x = (.ok 0, z) ∧ z.tree = y.tree ∧ z.sends = x.sends := by
  have hattempt : attempt (Upload.receive s.uploads s.files.chunkSize r.target) x.begun =
      (.ok (.ok n), y) := by
    rw [run_attempt, hreceive]
  have hanswer : s.answer x = (.ok (some r, none), y) := by
    have hupload' : s.answerUpload r.target x.begun = (.ok none, y) := run_bind_ok hattempt
    rw [answer_upload hrequest hupload, run_bind_ok hupload']
    rfl
  obtain ⟨z, hdispatch, hconnection, htree⟩ := dispatch_of_answer_ok hanswer
  have hsilent := Upload.silent_receive s.uploads s.files.chunkSize r.target x.begun
  rw [hreceive] at hsilent
  have hsent : Sent x y [] := (sent_of_begun x).trans hsilent
  refine ⟨z, hdispatch, htree, ?_⟩
  rw [(sent_of_connection hsent hconnection).sends, List.append_nil]

/-- A client puts the announcing line and the file on the wire, and a server that gets these bytes, cut
in any way, stores the file under the announced name, sends nothing and returns zero. -/
theorem stores_what_is_sent {c : ServerConfig} {t₀ : Tree} {s : Site} {client : ClientConfig} {p : Path}
    {remoteName : Option String} {w : ClientWorld} {file : FileId} {line : Bytes}
    (hw : ∀ n ∈ t₀.workingDirectory, Path.IsPlain n) (hs : ofConfig c t₀ = .ok s)
    (hchunk : 1 ≤ client.chunkSize) (hdial : Sender.Answered w)
    (hline : Sender.preamble (Sender.announced p remoteName) = .ok line)
    (hfile : w.tree.openFile p = .ok file) :
    ∃ sent, (Sender.upload client p remoteName w).2.lastWire = some sent ∧
      ∀ (x : Exchange) (u : UploadTarget), x.tree.Sound → x.connection.Brings sent →
        1 ≤ x.connection.bufferSize → line.length ≤ x.connection.maxLine →
        Upload.target x.tree s.uploads (Sender.announced p remoteName) = .ok u →
        Upload.CanStore x.toWorld u (w.tree.content file) →
        ∃ y d, s.dispatch x = (.ok 0, y) ∧ y.sends = x.sends ∧
          u.name = Sender.announced p remoteName ∧
          Upload.Publishes x.tree y.tree u (w.tree.content file) d := by
  refine ⟨_, Sender.lastWire_upload hchunk hdial hline hfile, ?_⟩
  intro x u hx hbrings hbuffer hfits htarget hcan
  obtain ⟨hrequest, hpending⟩ := x.request_of_preamble hline hbrings hbuffer hfits
  have hu := Upload.proper_of_target (uploads_isAbsolute hs) (uploads_isPlain hw hs) htarget
  have hended : x.begun.connection.pending.fault = none := by rw [hpending]
  have hcan' : Upload.CanStore x.begun.toWorld u x.begun.connection.pending.bytes := by
    rw [hpending]
    exact hcan
  obtain ⟨n, y, d, hreceive, hpublishes⟩ := Upload.publishes_of_canStore (x := x.begun) hx hu htarget
    (chunkSize_pos hs) hended hcan'
  obtain ⟨z, hdispatch, htree, hsends⟩ := dispatch_of_received hrequest rfl hreceive
  refine ⟨z, d, hdispatch, hsends, (Upload.target_eq_ok htarget).2.1, ?_⟩
  rw [htree]
  rw [hpending] at hpublishes
  exact hpublishes

def homeTree : Tree where
  nodes := [(["home"], .directory), (["home", "a"], .file 0)]
  contents := #[Utf8.encode "GET / HTTP/1.0\nhello\n"]

/-- A client whose next connection is answered. -/
def homeClient : ClientWorld where
  tree := homeTree
  clock := { now := ⟨0⟩, stamp := "" }
  tokens := toString
  connectionNames := toString

def homePath : Path := ⟨.root, ["home", "a"]⟩

/-- The line and the file come in pieces that do not end where the line ends. -/
def cutUpload : Exchange :=
  { Exchange.ofLine bareTree "" with
    connection := { id := "0", clientIp := "", peer := { inbound :=
      [Utf8.encode "UPLOAD a\r", Utf8.encode "\nGET / HT", Utf8.encode "TP/1.0\nhello\n"].map .data } } }

theorem stores_greeting :
    (∀ n ∈ bareTree.workingDirectory, Path.IsPlain n) ∧
      ofConfig { rootDirectory := "/root" } bareTree = .ok bareSite ∧ Sender.Answered homeClient ∧
      ∃ y d, bareSite.dispatch cutUpload = (.ok 0, y) ∧ y.sends = [] ∧
        Upload.Publishes bareTree y.tree ⟨"a", bareSite.uploads⟩
          (Utf8.encode "GET / HTTP/1.0\nhello\n") d := by
  have hw : ∀ n ∈ bareTree.workingDirectory, Path.IsPlain n := by simp [bareTree]
  have hs : ofConfig { rootDirectory := "/root" } bareTree = .ok bareSite := by decide +kernel
  have hdial : Sender.Answered homeClient := ⟨rfl, ⟨rfl, fun _ _ => rfl, rfl⟩, rfl⟩
  have hline : Sender.preamble (Sender.announced homePath none) =
      .ok (Utf8.encode "UPLOAD a\r\n") := by decide +kernel
  have hfile : homeClient.tree.openFile homePath = .ok 0 := by decide +kernel
  have hchunk : 1 ≤ ({} : ClientConfig).chunkSize := by decide
  obtain ⟨sent, hsent, hstored⟩ := stores_what_is_sent hw hs hchunk hdial hline hfile
  have hwire : (Sender.upload {} homePath none homeClient).2.lastWire =
      some (Utf8.encode "UPLOAD a\r\nGET / HTTP/1.0\nhello\n") := by decide +kernel
  rw [hwire, Option.some.injEq] at hsent
  have hbrings : cutUpload.connection.Brings sent :=
    ⟨rfl, rfl, _, rfl, hsent ▸ by decide +kernel⟩
  have htarget : Upload.target bareTree bareSite.uploads "a" = .ok ⟨"a", bareSite.uploads⟩ := by
    decide +kernel
  have hcan : Upload.CanStore cutUpload.toWorld ⟨"a", bareSite.uploads⟩ (homeTree.content 0) := by
    unfold Upload.CanStore
    decide +kernel
  obtain ⟨y, d, hdispatch, hsends, _, hpublishes⟩ := hstored cutUpload ⟨"a", bareSite.uploads⟩
    (Tree.sound_of_nodes (by decide)) hbrings (by decide) (by decide +kernel) htarget hcan
  exact ⟨hw, hs, hdial, y, d, hdispatch, hsends, hpublishes⟩

end Site

end FileExchange
