import FileExchange.Proofs.Media.Type
import FileExchange.Proofs.Serve.Downloads
import FileExchange.Proofs.Serve.Sites

/-!
# Pages

The whole response that a path deserves, as a function of the file tree and the clock, and that serving
the path sends it: the head in any case, and the body too where nobody changes the tree meanwhile.
-/

set_option autoImplicit false

namespace FileExchange

theorem except_map_eq_ok {ε α β : Type} {f : α → β} {r : Except ε α} {b : β}
    (h : r.map f = .ok b) : ∃ a, r = .ok a ∧ f a = b := by
  cases r with
  | error e => cases h
  | ok a => exact ⟨a, rfl, Except.ok.inj h⟩

theorem except_map_eq_error {ε α β : Type} {f : α → β} {r : Except ε α} {e : ε}
    (h : r.map f = .error e) : r = .error e := by
  cases r with
  | error e' => rw [Except.error.inj h]
  | ok a => cases h

namespace FileService

/-- The response for a file with some content. -/
def response (f : FileService) (now : Instant) (p : Path) (content : Bytes) : Response :=
  match Media.classify p with
  | (.text, _) =>
    { Response.htmlHead .ok with
      body := Utf8.encode (pageOpening ++ textOpening) ++
        ((lines content).flatMap (lineBytes f.encoding) ++ Utf8.encode (textClosing ++ pageClosing)) }
  | (.image, type) =>
    { Response.htmlHead .ok with body := (imagePage type content).map fun c => UInt8.ofNat c.toNat }
  | (_, type) =>
    { Response.attachmentHead now type content.length p.name f.serverName with body := content }

end FileService

namespace Site

/-- The response for a path: a listing of a directory, the content of a file. -/
def response (s : Site) (now : Instant) (t : Tree) (p : Path) (target : String) :
    Except Failure Response :=
  match s.isDirectory t p with
  | .error e => .error e
  | .ok true =>
    (s.entries t p target).map fun entries =>
      { Response.htmlHead .ok with body := Utf8.encode (Listing.page entries) }
  | .ok false =>
    (s.allow .read p (t.openFile p)).map fun id => s.files.response now p (t.content id)

end Site

/-- A step sends a response. Whatever others do, its head is complete. -/
def Exchange.Responds (x : Exchange) (step : Serving Unit) (r : Response) : Prop :=
  ∃ y sent, step x = (.ok (), y) ∧ Exchange.Delivered x y (r.head ++ sent) ∧
    (x.Quiet → sent = r.body)

open Serving Exchange

/-! ## Files -/

namespace FileService

variable {x : Exchange} {f : FileService} {p : Path} {id : FileId}

/-- The lines that are shown are those that were read; others may change the file in between. -/
theorem run_sendText (hx : x.Obliging) (h : x.tree.openFile p = .ok id) :
    ∃ y taken, f.sendText p x = (.ok (), y) ∧
      Delivered x y ((Response.htmlHead .ok).head ++ (Utf8.encode (pageOpening ++ textOpening) ++
        (taken.flatMap (lineBytes f.encoding) ++ Utf8.encode (textClosing ++ pageClosing)))) ∧
      (x.Quiet → taken = lines (x.tree.content id)) := by
  obtain ⟨x₁, hhead, hfirst⟩ := run_send hx (Response.htmlHead .ok).head
  obtain ⟨x₂, hopening, hsecond⟩ := run_send hfirst.obliging (Utf8.encode (pageOpening ++ textOpening))
  obtain ⟨x₃, taken, hlines, hthird, htaken⟩ :=
    f.run_sendLines hsecond.obliging { file := id } (lengthBound x id + 1)
  obtain ⟨x₄, hclosing, hfourth⟩ := run_send hthird.obliging (Utf8.encode (textClosing ++ pageClosing))
  refine ⟨x₄, taken, ?_, hfirst.trans (hsecond.trans (hthird.trans hfourth)), fun hquiet => ?_⟩
  · rw [sendText, run_bind_ok (run_openFile h), run_bind_ok (run_inspect _ _), sendHead,
      run_bind_ok hhead, run_bind_ok hopening, run_bind_ok hlines, hclosing]
  · obtain ⟨hquiet', htree⟩ := (hfirst.trans hsecond).undisturbed hquiet
    have hrest : LineReader.rest x₂.tree { file := id } = x.tree.content id := by
      rw [htree]
      rfl
    have hle := length_lines_le (x.tree.content id)
    rw [htaken hquiet', hrest, List.take_of_length_le]
    simp only [lengthBound]
    omega

theorem responds_sendText (hx : x.Obliging) (h : x.tree.openFile p = .ok id) :
    x.Responds (f.sendText p) { Response.htmlHead .ok with
      body := Utf8.encode (pageOpening ++ textOpening) ++
        ((lines (x.tree.content id)).flatMap (lineBytes f.encoding) ++
          Utf8.encode (textClosing ++ pageClosing)) } := by
  obtain ⟨y, taken, hrun, hdelivered, htaken⟩ := f.run_sendText hx h
  exact ⟨y, _, hrun, hdelivered, fun hquiet => by rw [htaken hquiet]⟩

/-- The image is read before anything is sent, so that the page holds it whatever others do. -/
theorem run_sendImage {type : String} (hx : x.Obliging) (h : x.tree.openFile p = .ok id)
    (htype : type.toList.all Text.isAscii = true) :
    ∃ y, sendImage p type x = (.ok (), y) ∧ Delivered x y ((Response.htmlHead .ok).head ++
      (imagePage type (x.tree.content id)).map fun c => UInt8.ofNat c.toNat) := by
  obtain ⟨x₁, hhead, hfirst⟩ := run_send hx (Response.htmlHead .ok).head
  obtain ⟨x₂, hpage, hsecond⟩ := run_send hfirst.obliging
    ((imagePage type (x.tree.content id)).map fun c => UInt8.ofNat c.toNat)
  refine ⟨x₂, ?_, hfirst.trans hsecond⟩
  have hask : ask (fun _ => asciiBytes (imagePage type (x.tree.content id))) x₁ =
      (.ok ((imagePage type (x.tree.content id)).map fun c => UInt8.ofNat c.toNat), x₁) := by
    rw [run_ask, asciiBytes_of_isAscii (isAscii_imagePage htype _)]
  rw [sendImage, run_bind_ok (run_openFile h), run_bind_ok (run_inspect _ _), sendHead,
    run_bind_ok hhead, run_bind_ok hask, hpage]

theorem responds_sendImage {type : String} (hx : x.Obliging) (h : x.tree.openFile p = .ok id)
    (htype : type.toList.all Text.isAscii = true) :
    x.Responds (sendImage p type) { Response.htmlHead .ok with
      body := (imagePage type (x.tree.content id)).map fun c => UInt8.ofNat c.toNat } := by
  obtain ⟨y, hrun, hdelivered⟩ := run_sendImage hx h htype
  exact ⟨y, _, hrun, hdelivered, fun _ => rfl⟩

theorem responds_sendAttachment {type : String} (hx : x.Obliging) (hchunk : 1 ≤ f.chunkSize)
    (h : x.tree.openFile p = .ok id) :
    x.Responds (discard (f.sendAttachment p type))
      { Response.attachmentHead x.clock.now type (x.tree.content id).length p.name f.serverName with
        body := x.tree.content id } := by
  obtain ⟨pieces, _, ⟨y, hrun, hdelivered, _⟩, hbody⟩ := f.downloads_of_sendAttachment type hx h
  exact ⟨y, pieces.flatten, run_discard_ok hrun, hdelivered, fun hquiet => hbody hquiet hchunk⟩

theorem responds_respond (hx : x.Obliging) (hchunk : 1 ≤ f.chunkSize)
    (hp : ∀ n ∈ p.names, Path.IsPlain n) (h : x.tree.openFile p = .ok id) :
    x.Responds (f.respond p) (f.response x.clock.now p (x.tree.content id)) := by
  cases hclassify : Media.classify p with
  | mk kind type =>
    cases kind with
    | text =>
      simp only [respond, response, hclassify]
      exact responds_sendText hx h
    | image =>
      simp only [respond, response, hclassify]
      exact responds_sendImage hx h (Media.isType_of_classify hp hclassify).isAscii
    | binary =>
      simp only [respond, response, hclassify]
      exact responds_sendAttachment hx hchunk h
    | unknown =>
      simp only [respond, response, hclassify]
      exact responds_sendAttachment hx hchunk h

theorem respond_of_openFile_error {e : Failure} (h : x.tree.openFile p = .error e) :
    f.respond p x = (.error e, x) := by
  have hopen : openFile p x = (.error e, x) := by rw [openFile, run_ask, h]
  cases hclassify : Media.classify p with
  | mk kind type =>
    simp only [respond, hclassify]
    cases kind with
    | text => exact run_bind_error hopen
    | image => exact run_bind_error hopen
    | binary => exact run_discard_error (run_bind_error hopen)
    | unknown => exact run_discard_error (run_bind_error hopen)

theorem status_response (now : Instant) (content : Bytes) :
    (f.response now p content).status = .ok := by
  unfold response
  split <;> rfl

end FileService

/-! ## Directories -/

namespace Directory

theorem mapM_error {α β : Type} {f : α → Except Failure β} {l : List α} {e : Failure}
    (h : l.mapM f = .error e) : ∃ a ∈ l, f a = .error e := by
  induction l with
  | nil => cases h
  | cons a l ih =>
    rw [List.mapM_cons] at h
    cases ha : f a with
    | error e' =>
      rw [ha] at h
      cases h
      exact ⟨a, List.mem_cons_self, ha⟩
    | ok b =>
      rw [ha] at h
      cases hl : l.mapM f with
      | error e' =>
        rw [hl] at h
        cases h
        obtain ⟨a', hmem, ha'⟩ := ih hl
        exact ⟨a', List.mem_cons_of_mem _ hmem, ha'⟩
      | ok bs =>
        rw [hl] at h
        cases h

theorem entriesBy_of_locate {isDirectory : Path → Except Failure Bool} {t : Tree} {p : Path} {l : Location}
    (target : String) (h : t.locate true p = .ok ⟨l, some .directory⟩) :
    entriesBy isDirectory t p target =
      ((t.children l).mergeSort fun a b => decide (a ≤ b)).mapM (entryBy isDirectory p target) := by
  simp only [entriesBy, Tree.listDirectory, h]
  rfl

theorem entries_of_locate {t : Tree} {p : Path} {l : Location} (target : String)
    (h : t.locate true p = .ok ⟨l, some .directory⟩) :
    entries t p target =
      ((t.children l).mergeSort fun a b => decide (a ≤ b)).mapM (entryOf t p target) :=
  entriesBy_of_locate target h

/-- The children are read before anything is sent, so that the page shows them whatever others do. -/
theorem run_respondWith {x : Exchange} (entries : Tree → Except Failure (List Entry)) {es : List Entry}
    (hx : x.Obliging) (h : entries x.tree = .ok es) :
    ∃ y, respondWith entries x = (.ok (), y) ∧
      Delivered x y ((Response.htmlHead .ok).head ++ Utf8.encode (Listing.page es)) := by
  obtain ⟨x₁, hhead, hfirst⟩ := run_send hx (Response.htmlHead .ok).head
  obtain ⟨x₂, hpage, hsecond⟩ := run_send hfirst.obliging (Utf8.encode (Listing.page es))
  refine ⟨x₂, ?_, hfirst.trans hsecond⟩
  refine (run_ask_bind_ok h).trans ?_
  rw [FileService.sendHead, run_bind_ok hhead, hpage]

theorem respondWith_of_error {x : Exchange} {entries : Tree → Except Failure (List Entry)} {e : Failure}
    (h : entries x.tree = .error e) : respondWith entries x = (.error e, x) :=
  run_ask_bind_error h

theorem run_respond {x : Exchange} {p : Path} {target : String} {es : List Entry} (hx : x.Obliging)
    (h : entries x.tree p target = .ok es) :
    ∃ y, respond p target x = (.ok (), y) ∧
      Delivered x y ((Response.htmlHead .ok).head ++ Utf8.encode (Listing.page es)) :=
  run_respondWith (entries · p target) hx h

/-- Listing a directory fails only where a question about a child fails. -/
theorem error_of_entriesBy {isDirectory : Path → Except Failure Bool} {t : Tree} {p : Path} {target : String}
    {e : Failure} (hstat : t.stat p = .ok .directory) (h : entriesBy isDirectory t p target = .error e) :
    ∃ child, isDirectory child = .error e := by
  obtain ⟨l, hlocate⟩ := Tree.stat_eq_ok hstat
  rw [entriesBy_of_locate target hlocate] at h
  obtain ⟨name, _, hentry⟩ := mapM_error h
  refine ⟨p.join ⟨.relative, [name]⟩, ?_⟩
  unfold entryBy at hentry
  cases hchild : isDirectory (p.join ⟨.relative, [name]⟩) with
  | ok isDirectory =>
    rw [hchild] at hentry
    cases hentry
  | error e' =>
    rw [hchild] at hentry
    cases hentry
    rfl

end Directory

/-! ## Paths -/

namespace Site

variable {s : Site} {x : Exchange} {p : Path} {target : String}

theorem status_of_response {now : Instant} {t : Tree} {r : Response}
    (h : s.response now t p target = .ok r) : r.status = .ok := by
  unfold response at h
  split at h
  · cases h
  · obtain ⟨entries, _, rfl⟩ := except_map_eq_ok h
    rfl
  · obtain ⟨id, _, rfl⟩ := except_map_eq_ok h
    exact FileService.status_response _ _

theorem serve_of_directory (h : s.isDirectory x.tree p = .ok true) :
    s.serve p target x = Directory.respondWith (fun t => s.entries t p target) x := by
  refine (run_ask_bind_ok h).trans ?_
  rw [if_pos rfl]

/-- Where nothing is refused, a directory is served as its listing. -/
theorem serve_eq_respond (hopen : s.denials = []) (h : x.tree.isDirectory p = .ok true) :
    s.serve p target x = Directory.respond p target x := by
  rw [serve_of_directory ((congrFun (isDirectory_of_open hopen) p).trans h)]
  simp only [entries_of_open hopen, Directory.respond]

theorem serve_of_file (h : s.isDirectory x.tree p = .ok false) (hread : s.refusal? .read p = none) :
    s.serve p target x = s.files.respond p x := by
  refine (run_ask_bind_ok h).trans ?_
  rw [if_neg (by simp)]
  exact run_ask_bind_ok (allow_eq_ok.mpr ⟨hread, rfl⟩)

theorem serve_of_refused {errno : Errno} (h : s.isDirectory x.tree p = .ok false)
    (hread : s.refusal? .read p = some errno) :
    s.serve p target x = (Tree.failWith errno p, x) := by
  refine (run_ask_bind_ok h).trans ?_
  rw [if_neg (by simp)]
  exact run_ask_bind_error (allow_of_refused hread)

theorem responds_serve {r : Response} (hx : x.Obliging) (hchunk : 1 ≤ s.files.chunkSize)
    (hp : ∀ n ∈ p.names, Path.IsPlain n)
    (h : s.response x.clock.now x.tree p target = .ok r) : x.Responds (s.serve p target) r := by
  unfold response at h
  split at h
  · cases h
  · rename_i hdirectory
    obtain ⟨entries, hentries, rfl⟩ := except_map_eq_ok h
    obtain ⟨y, hrun, hdelivered⟩ := Directory.run_respondWith (s.entries · p target) hx hentries
    exact ⟨y, _, (serve_of_directory hdirectory).trans hrun, hdelivered, fun _ => rfl⟩
  · rename_i hfile
    obtain ⟨id, hallowed, rfl⟩ := except_map_eq_ok h
    obtain ⟨hread, hopen⟩ := allow_eq_ok.mp hallowed
    obtain ⟨y, sent, hrun, hdelivered, hsent⟩ := FileService.responds_respond hx hchunk hp hopen
    exact ⟨y, sent, (serve_of_file hfile hread).trans hrun, hdelivered, hsent⟩

/-- A path without a response is served nothing at all. -/
theorem serve_of_response_error {e : Failure}
    (h : s.response x.clock.now x.tree p target = .error e) :
    s.serve p target x = (.error e, x) := by
  unfold response at h
  split at h
  · rename_i e' hdirectory
    cases h
    exact run_ask_bind_error hdirectory
  · rename_i hdirectory
    rw [serve_of_directory hdirectory]
    exact Directory.respondWith_of_error (except_map_eq_error h)
  · rename_i hfile
    have hallowed := except_map_eq_error h
    cases hread : s.refusal? .read p with
    | none =>
      rw [allow_of_free hread] at hallowed
      rw [serve_of_file hfile hread]
      exact FileService.respond_of_openFile_error hallowed
    | some errno =>
      rw [allow_of_refused hread] at hallowed
      cases hallowed
      exact serve_of_refused hfile hread

/-- What can go wrong for a path at which there is something is the system's fault. -/
theorem error_of_response {now : Instant} {t : Tree} {n : Node} {e : Failure}
    (hstat : s.stat t p = .ok n) (h : s.response now t p target = .error e) :
    ∃ fault, e = .system fault := by
  have hdirectory : s.isDirectory t p = .ok (n == .directory) := Tree.answers_of_stat hstat
  unfold response at h
  rw [hdirectory] at h
  cases n with
  | directory =>
    rcases allow_eq_error (except_map_eq_error h) with hentries | ⟨errno, rfl⟩
    · obtain ⟨child, hchild⟩ := Directory.error_of_entriesBy (stat_eq_ok hstat) hentries
      obtain ⟨errno, rfl⟩ := answers_stat_eq_error hchild
      exact ⟨_, rfl⟩
    · exact ⟨_, rfl⟩
  | file id =>
    rcases allow_eq_error (except_map_eq_error h) with hopen | ⟨errno, rfl⟩
    · simp [Tree.openFile, stat_eq_ok hstat] at hopen
    · exact ⟨_, rfl⟩
  | link target' =>
    rcases allow_eq_error (except_map_eq_error h) with hopen | ⟨errno, rfl⟩
    · simp only [Tree.openFile, stat_eq_ok hstat, Tree.failWith] at hopen
      cases hopen
      exact ⟨_, rfl⟩
    · exact ⟨_, rfl⟩

end Site

end FileExchange
