import FileExchange.Proofs.Arrival
import FileExchange.Proofs.Http.RequestLine
import FileExchange.Proofs.Serve.Reading
import FileExchange.Proofs.Serve.Replies
import FileExchange.Proofs.Serve.Targets
import FileExchange.Proofs.Serve.Transaction
import FileExchange.Proofs.Tree.RealFiles

/-!
# From the store to the client

Whoever asks for a file under the percent-encoded name under which it was stored gets its content back.
-/

set_option autoImplicit false

namespace FileExchange

open Serving Exchange

/-! ## Asking -/

section Line

variable {x : Exchange} {line : String} {bytes : Bytes}

/-- The server reads the line that is brought, however the line ends. -/
theorem Exchange.request_of_brought (hline : Request.Brought line bytes)
    (hx : x.connection.Brings bytes) (hne : line ≠ "") (hfeed : '\n' ∉ line.toList)
    (hreturn : '\r' ∉ line.toList) (hbuffer : 1 ≤ x.connection.bufferSize)
    (hfits : (Utf8.encode line).length < x.connection.maxLine) :
    x.request? = (Request.parse (some line)).toOption := by
  have hfeed' : 0x0A ∉ Utf8.encode line := Request.feed_notMem_encode hfeed
  have hreturn' : 0x0D ∉ Utf8.encode line := Response.return_notMem_encode hreturn
  have hread : ∃ got, x.connection.readLine.1 = .ok (some got) ∧
      Request.dropTerminator got = Utf8.encode line := by
    cases hline with
    | ended =>
      have hsome : Utf8.encode line ≠ [] := fun hnil => hne (Utf8.encode_injective hnil)
      exact ⟨_, hx.readLine_of_ending hbuffer hfeed' (by omega) hsome,
        Request.dropTerminator_of_notMem hfeed' hreturn'⟩
    | feed rest =>
      exact ⟨_, (hx.readLine hbuffer hfeed' (by omega)).1, Request.dropTerminator_feed hreturn'⟩
    | crlf rest =>
      have hsplit : Utf8.encode line ++ 0x0D :: 0x0A :: rest =
          (Utf8.encode line ++ [0x0D]) ++ 0x0A :: rest := by simp
      have hfront : 0x0A ∉ Utf8.encode line ++ [0x0D] := by simpa using hfeed'
      rw [hsplit] at hx
      have hlength : (Utf8.encode line ++ [0x0D]).length ≤ x.connection.maxLine := by
        rw [List.length_append, List.length_singleton]
        omega
      refine ⟨_, (hx.readLine hbuffer hfront hlength).1, ?_⟩
      rw [List.append_assoc]
      exact Request.dropTerminator_crlf _
  obtain ⟨got, hgot, hdrop⟩ := hread
  have hdecoded : Request.decodeLine got = line := by
    rw [Request.decodeLine, hdrop, Utf8.decode_encode]
  rw [Exchange.request?, hgot]
  dsimp only
  rw [Option.map_some, hdecoded]

/-- Any text can be asked for by its percent-encoded form. -/
theorem Exchange.asks_of_brought {target : String} (htarget : target ≠ "")
    (hline : Request.Brought ("GET " ++ Percent.encode target ++ " HTTP/1.0") bytes)
    (hx : x.connection.Brings bytes) (hbuffer : 1 ≤ x.connection.bufferSize)
    (hfits : (Utf8.encode ("GET " ++ Percent.encode target ++ " HTTP/1.0")).length <
      x.connection.maxLine) : x.Asks target := by
  have hblank : ∀ c, Text.isBlank c = true → c ∉ "GET ".toList → c ∉ " HTTP/1.0".toList →
      c ∉ ("GET " ++ Percent.encode target ++ " HTTP/1.0").toList := by
    intro c hc hverb hversion
    refine notMem_append (notMem_append hverb fun hmem => ?_) hversion
    rw [Percent.encode, String.toList_ofList] at hmem
    rw [(Percent.isSolid_of_mem_encodeChars hmem).2.2] at hc
    cases hc
  have hne : "GET " ++ Percent.encode target ++ " HTTP/1.0" ≠ "" := by simp
  have hrequest := request_of_brought hline hx hne (hblank '\n' (by decide) (by decide) (by decide))
    (hblank '\r' (by decide) (by decide) (by decide)) hbuffer hfits
  rw [Request.parse_link htarget] at hrequest
  exact ⟨_, hrequest, rfl, rfl⟩

end Line

/-! ## The file that is there -/

/-- The kind of a file depends on its name alone. -/
theorem Media.classify_of_name {p q : Path} (h : p.name = q.name) : classify p = classify q := by
  simp only [classify, typeOf?, Path.suffix, h]

theorem namesOf_uploaded {name : String} (h : Path.IsPlain name) :
    Path.namesOf ("/uploaded/" ++ name) = ["uploaded", name] := by
  have htext : "/uploaded/" ++ name = "/" ++ ("uploaded" ++ ("/" ++ name)) := by
    have hfront : "/uploaded/" = "/" ++ ("uploaded" ++ "/") := by decide
    simp only [hfront, String.append_assoc]
  have huploaded : Path.IsName "uploaded" := by
    refine ⟨by decide, by decide, by decide⟩
  rw [htext, Path.namesOf_slash, Path.namesOf_append, Path.namesOf_of_isName huploaded,
    Path.namesOf_of_isName h.1]
  rfl

namespace Site

section File

variable {s : Site} {t : Tree} {target : String} {l : Location} {id : FileId}

/-- A file at a real place below the root is what its target is answered with. -/
theorem reply_of_file (now : Instant) (hfree : s.denials = []) (hroot : s.root.anchor = .root)
    (hnames : s.root.names ++ Path.namesOf target = l) (hreal : t.IsReal l) (hne : ∀ n ∈ l, n ≠ "")
    (hnul : Tree.hasNul l.path.text = false) (hstat : t.stat l.path = .ok (.file id)) :
    s.reply now t target = .ok (s.files.response now l.path (t.content id)) := by
  have hwritten : s.written target = l.path := by
    rw [written_eq, hroot, hnames]
    rfl
  have hresolved : t.resolve (s.written target) = .ok l.path := by
    rw [hwritten]
    refine Tree.resolve_of_stat ?_ hstat
    rw [Tree.realPath_of_isReal hreal hne, Tree.any_hasNul, hnul]
    rfl
  have hwithin : isWithin s.root l.path = true :=
    (isWithin_iff s.root l.path).mpr ⟨hroot, ⟨_, hnames⟩⟩
  have hdirectory : s.isDirectory t l.path = .ok false := by
    rw [isDirectory_of_open hfree]
    exact Tree.answers_of_stat hstat
  have hopen : t.openFile l.path = .ok id := by
    rw [Tree.openFile, hstat]
  have hexists : s.pathExists t l.path = .ok true := by
    rw [pathExists_of_open hfree]
    exact Tree.answers_of_stat hstat
  have hreal : s.realPath t (s.written target) = .ok l.path := (realPath_of_open hfree).trans hresolved
  refine reply_of_response (resolve_of_isWithin hreal hwithin) hexists ?_
  rw [response, hdirectory]
  dsimp only
  rw [allow_of_open hfree, hopen]
  rfl

/-- A client that is answered with a file gets status 200 and the content of the file. -/
theorem returns_of_reply {c : ServerConfig} {t₀ : Tree} {x : Exchange} {p : Path} {content : Bytes}
    {references : Markup.References} (hw : ∀ n ∈ t₀.workingDirectory, Path.IsPlain n)
    (hs : ofConfig c t₀ = .ok s) (hserver : '\r' ∉ s.files.serverName.toList) (hobliging : x.Obliging)
    (hquiet : x.Quiet) (hfresh : x.connection.bytesSent = 0) (hasks : x.Asks target)
    (hreply : s.reply x.clock.now x.tree target = .ok (s.files.response x.clock.now p content))
    (hplain : ∀ n ∈ p.names, Path.IsPlain n) (hname : '\r' ∉ p.name.toList)
    (hreferences : references.Known) :
    ∃ y sent, s.dispatch x = (.ok 200, y) ∧ y.wire = x.wire ++ sent ∧
      (∃ rest, cutAt Response.crlf sent = some (Utf8.encode "HTTP/1.0 200 OK", rest)) ∧
      Response.Returns references (Media.classify p).1 content sent := by
  rcases dispatch_of_asks hw (ofConfig_of_open hs) hobliging hfresh hasks with
    ⟨response, hresponse, y, sent, hdispatch, hwire, hsent⟩ | ⟨e, y, hfailed, _⟩
  · have hfound := Except.ok.inj (hresponse.symm.trans hreply)
    rw [hfound, FileService.status_response] at hdispatch
    rw [hsent (Or.inr hquiet), ← Response.bytes, hfound] at hwire
    have hclean := FileService.clean_response x.clock.now content hplain hname hserver
    have hstatus := hclean.cutAt_bytes
    rw [FileService.statusLine_response] at hstatus
    exact ⟨y, _, hdispatch, hwire, hstatus, FileService.returns_response x.clock.now content
      (encoding_eq hs) hreferences hplain hname hserver⟩
  · rw [hreply] at hfailed
    cases hfailed

end File

/-! ## The file that was stored -/

/-- An upload of some bytes under a name whose rename is done. -/
structure Stores (s : Site) (x : Exchange) (name : String) (payload : Bytes) : Prop where
  request : ∃ r, x.request? = some r ∧ r.method = .upload ∧ r.target = name
  payload : x.begun.connection.pending.bytes = payload
  renamed : ∃ n y, Upload.receive s.uploads s.files.chunkSize name x.begun = (.ok n, y)

section Stored

variable {c : ServerConfig} {t₀ : Tree} {s : Site} {x : Exchange} {name : String} {payload : Bytes}
  {d : Location}

/-- A file stored in a real upload directory is at a real place and can be opened there. -/
theorem Stores.file (hw : ∀ n ∈ t₀.workingDirectory, Path.IsPlain n) (hs : ofConfig c t₀ = .ok s)
    (h : s.Stores x name payload) (hx : x.tree.Sound) (huploads : s.uploads = d.path)
    (hreal : x.tree.IsReal d) :
    Upload.refusalOf name = none ∧ (∀ n ∈ d, Path.IsPlain n) ∧
      (s.dispatch x).2.tree.IsReal (d ++ [name]) ∧
      Tree.hasNul (Location.path (d ++ [name])).text = false ∧
      ∃ id, (s.dispatch x).2.tree.stat (Location.path (d ++ [name])) = .ok (.file id) ∧
        (s.dispatch x).2.tree.content id = payload := by
  obtain ⟨r, hrequest, hupload, rfl⟩ := h.request
  obtain ⟨n, y, hreceive⟩ := h.renamed
  have htree : (s.dispatch x).2.tree = y.tree := by
    rw [(dispatch_of_upload hrequest hupload).1, hreceive]
  have hplain : ∀ n ∈ d, Path.IsPlain n := by
    have huploadsPlain := uploads_isPlain hw hs
    rwa [huploads] at huploadsPlain
  have hne : ∀ n ∈ d, n ≠ "" := fun n hn => (hplain n hn).1.1
  obtain ⟨u, d', htarget, hpublishes⟩ := Upload.publishes_of_receive (x := x.begun) hx
    (uploads_isAbsolute hs) (uploads_isPlain hw hs) (chunkSize_pos hs) hreceive
  have hproper := Upload.proper_of_target (uploads_isAbsolute hs) (uploads_isPlain hw hs) htarget
  obtain ⟨haccepted, hname, hresolve⟩ := Upload.target_eq_ok htarget
  have hdirectory : u.directory = d.path := by
    have hresolved : x.tree.realPath d.path = .ok u.directory := huploads ▸ (Tree.resolve_eq_ok hresolve).1
    rw [Tree.realPath_of_isReal hreal hne] at hresolved
    split at hresolved
    · cases hresolved
    · exact (Except.ok.inj hresolved).symm
  obtain ⟨t₁, hready⟩ := hpublishes.ready
  have hd' : d' = d := by
    have hleads := hready.leadsTo
    rw [hdirectory] at hleads
    exact Tree.leadsTo_of_isReal (Tree.IsReal.grown hreal hready.grown) hleads
  subst hd'
  have hpath : u.path = Location.path (d' ++ [r.target]) := by
    rw [hproper.path_eq, hdirectory, hname]
    rfl
  have hentry := hpublishes.entry hdirectory
  rw [hpath] at hentry
  obtain ⟨hnul, id, hstat, hcontent⟩ := Tree.stat_of_look? hentry
  have hgains := hpublishes.gains
  rw [hname] at hgains
  have hdescends : Path.Descends r.target := hname ▸ hproper.name.descends
  rw [htree]
  refine ⟨haccepted, hplain, Tree.IsReal.gains hreal hdescends hgains, hnul, id, hstat, ?_⟩
  rw [hcontent, ← h.payload]

end Stored

/-- Once an upload under a name has been stored in the real directory `uploaded` below the root, whoever asks
for the percent-encoded name there gets the content back, as the kind of the name says, with status 200. -/
theorem retrieves_what_is_stored {c : ServerConfig} {t₀ : Tree} {s : Site} {x x' : Exchange}
    {name : String} {payload bytes : Bytes} {r : Location} {references : Markup.References}
    (hw : ∀ n ∈ t₀.workingDirectory, Path.IsPlain n) (hs : ofConfig c t₀ = .ok s)
    (hserver : '\r' ∉ s.files.serverName.toList) (hroot : s.root = r.path)
    (huploads : s.uploads = Location.path (r ++ ["uploaded"])) (hx : x.tree.Sound)
    (hreal : x.tree.IsReal (r ++ ["uploaded"])) (hstored : s.Stores x name payload)
    (htree : x'.tree = (s.dispatch x).2.tree) (hobliging : x'.Obliging) (hquiet : x'.Quiet)
    (hfresh : x'.connection.bytesSent = 0)
    (hline : Request.Brought ("GET /uploaded/" ++ Percent.encode name ++ " HTTP/1.0") bytes)
    (hbrings : x'.connection.Brings bytes) (hbuffer : 1 ≤ x'.connection.bufferSize)
    (hfits : (Utf8.encode ("GET /uploaded/" ++ Percent.encode name ++ " HTTP/1.0")).length <
      x'.connection.maxLine)
    (hreferences : references.Known) :
    ∃ y sent, s.dispatch x' = (.ok 200, y) ∧ y.wire = x'.wire ++ sent ∧
      (∃ rest, cutAt Response.crlf sent = some (Utf8.encode "HTTP/1.0 200 OK", rest)) ∧
      Response.Returns references (Media.classify (Path.ofString name)).1 payload sent := by
  obtain ⟨haccepted, hplain, hrealFile, hnul, id, hstat, hcontent⟩ :=
    hstored.file hw hs hx huploads hreal
  rw [← htree] at hrealFile hstat hcontent
  have hname := Upload.isPlain_of_refusalOf haccepted
  have hplainFile : ∀ n ∈ r ++ ["uploaded"] ++ [name], Path.IsPlain n := by
    intro n hn
    rcases List.mem_append.mp hn with hn | hn
    · exact hplain n hn
    · exact List.mem_singleton.mp hn ▸ hname
  have hrequest : "GET /uploaded/" ++ Percent.encode name ++ " HTTP/1.0" =
      "GET " ++ Percent.encode ("/uploaded/" ++ name) ++ " HTTP/1.0" := by
    have hfront : "GET /uploaded/" = "GET " ++ Percent.encode "/uploaded/" := by decide
    simp only [Percent.encode_append, hfront, String.append_assoc]
  rw [hrequest] at hline hfits
  have hasks : x'.Asks ("/uploaded/" ++ name) := asks_of_brought (by simp) hline hbrings hbuffer hfits
  have hnames : s.root.names ++ Path.namesOf ("/uploaded/" ++ name) = r ++ ["uploaded"] ++ [name] := by
    rw [hroot, namesOf_uploaded hname, List.append_assoc]
    rfl
  have hanchor : s.root.anchor = .root := by
    rw [hroot]
    rfl
  have hreply := reply_of_file x'.clock.now (denials_eq_nil hs) hanchor hnames hrealFile
    (fun n hn => (hplainFile n hn).1.1) hnul hstat
  rw [hcontent] at hreply
  have hlast : (Location.path (r ++ ["uploaded"] ++ [name])).name = name := by
    simp [Location.path, Path.name]
  have hreturn : '\r' ∉ (Location.path (r ++ ["uploaded"] ++ [name])).name.toList :=
    hlast.symm ▸ Upload.notMem_of_refusalOf haccepted (by decide)
  have hclassify : Media.classify (Path.ofString name) =
      Media.classify (Location.path (r ++ ["uploaded"] ++ [name])) :=
    Media.classify_of_name (by rw [hlast, Path.ofString_of_isName hname.1]; rfl)
  rw [hclassify]
  exact returns_of_reply hw hs hserver hobliging hquiet hfresh hasks hreply hplainFile hreturn hreferences

def noteUpload : Exchange := Exchange.ofLine bareTree "UPLOAD ä?.txt\n1 < 2"

def noteRequest : Exchange :=
  Exchange.ofLine (bareSite.dispatch noteUpload).2.tree "GET /uploaded/%C3%A4%3F.txt HTTP/1.0\r\n"

theorem retrieves_note :
    (∀ n ∈ bareTree.workingDirectory, Path.IsPlain n) ∧
      ofConfig { rootDirectory := "/root" } bareTree = .ok bareSite ∧ bareTree.Sound ∧
      bareTree.IsReal (["root"] ++ ["uploaded"]) ∧
      bareSite.Stores noteUpload "ä?.txt" (Utf8.encode "1 < 2") ∧
      ∃ y sent, bareSite.dispatch noteRequest = (.ok 200, y) ∧ y.wire = noteRequest.wire ++ sent ∧
        (∃ rest, cutAt Response.crlf sent = some (Utf8.encode "HTTP/1.0 200 OK", rest)) ∧
        Response.Returns Markup.predefined (Media.classify (Path.ofString "ä?.txt")).1
          (Utf8.encode "1 < 2") sent := by
  have hw : ∀ n ∈ bareTree.workingDirectory, Path.IsPlain n := by simp [bareTree]
  have hs : ofConfig { rootDirectory := "/root" } bareTree = .ok bareSite := by decide +kernel
  have hx : bareTree.Sound := Tree.sound_of_nodes (by decide)
  have hreal : bareTree.IsReal (["root"] ++ ["uploaded"]) := by
    have hroot : bareTree.IsReal ["root"] :=
      Tree.IsReal.child (Tree.isReal_root bareTree) (by decide) (by decide) (by decide +kernel)
    exact Tree.IsReal.child hroot (by decide) (by decide) (by decide +kernel)
  have hreceived : (Upload.receive bareSite.uploads bareSite.files.chunkSize "ä?.txt"
      noteUpload.begun).1 = .ok 5 := by decide +kernel
  have hstored : bareSite.Stores noteUpload "ä?.txt" (Utf8.encode "1 < 2") := by
    refine ⟨⟨⟨.upload, "ä?.txt", "", "UPLOAD ä?.txt"⟩, by decide +kernel, rfl, rfl⟩,
      by decide +kernel, ?_⟩
    exact ⟨5, _, Prod.ext hreceived rfl⟩
  have hline : Request.Brought ("GET /uploaded/" ++ Percent.encode "ä?.txt" ++ " HTTP/1.0")
      (Utf8.encode "GET /uploaded/%C3%A4%3F.txt HTTP/1.0\r\n") := by
    have hbytes : Utf8.encode "GET /uploaded/%C3%A4%3F.txt HTTP/1.0\r\n" =
        Utf8.encode ("GET /uploaded/" ++ Percent.encode "ä?.txt" ++ " HTTP/1.0") ++
          [0x0D, 0x0A] := by decide +kernel
    rw [hbytes]
    exact .crlf []
  have hbrings : noteRequest.connection.Brings (Utf8.encode "GET /uploaded/%C3%A4%3F.txt HTTP/1.0\r\n") :=
    ⟨rfl, rfl, [_], rfl, List.flatten_singleton⟩
  refine ⟨hw, hs, hx, hreal, hstored, ?_⟩
  exact retrieves_what_is_stored hw hs (by decide) rfl rfl hx hreal hstored rfl ⟨rfl, fun _ _ => rfl⟩ rfl rfl
    hline hbrings (by decide) (by decide +kernel) Markup.known_predefined

end Site

end FileExchange
