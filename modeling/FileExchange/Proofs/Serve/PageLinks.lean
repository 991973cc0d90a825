import FileExchange.Proofs.Http.Links
import FileExchange.Proofs.Serve.CutShort
import FileExchange.Proofs.Serve.Listings
import FileExchange.Proofs.Serve.Replies
import FileExchange.Proofs.Serve.Transaction

/-!
# Links of the directories that are served

Whether the links of a listing point back is decided by the target under which the directory was asked for: by how
many slashes it starts and ends with.
-/

set_option autoImplicit false

namespace FileExchange

open Serving Exchange

theorem Exchange.Asks.ne_empty {x : Exchange} {target : String} (h : x.Asks target) : target ≠ "" := by
  obtain ⟨r, hr, hget, rfl⟩ := h
  obtain ⟨line, _, hparse⟩ := parse_of_request? hr
  obtain ⟨_, ⟨uri, _, _, hr⟩ | ⟨_, _, hr⟩⟩ := Request.words_of_parse hparse
  · exact congrArg Request.target hr ▸ Request.targetOf_ne_empty uri
  · cases hget.symm.trans (congrArg Request.method hr)

namespace Serving

/-- One more send of which everything is taken. -/
theorem sent_of_send {x : Exchange} (hx : x.Obliging) (bytes : Bytes) :
    ∃ y, send bytes x = (.ok (), y) ∧ y.Obliging ∧ Sent x y [bytes] := by
  obtain ⟨y, hsend, hdelivered⟩ := run_send hx bytes
  rcases send_cases bytes x with ⟨z, hrun, hsent⟩ | ⟨fault, z, hrun, _⟩
  · cases hsend.symm.trans hrun
    exact ⟨y, hsend, hdelivered.obliging, hsent⟩
  · cases hsend.symm.trans hrun

end Serving

namespace Directory

theorem sent_of_respondWith {x : Exchange} (entries : Tree → Except Failure (List Entry)) {es : List Entry}
    (hx : x.Obliging) (hes : entries x.tree = .ok es) :
    ∃ y, respondWith entries x = (.ok (), y) ∧
      Sent x y [(Response.htmlHead .ok).head, Utf8.encode (Listing.page es)] := by
  obtain ⟨x₁, hhead, hx₁, hfirst⟩ := sent_of_send hx (Response.htmlHead .ok).head
  obtain ⟨x₂, hpage, _, hsecond⟩ := sent_of_send hx₁ (Utf8.encode (Listing.page es))
  refine ⟨x₂, (run_ask_bind_ok hes).trans ?_, hfirst.trans hsecond⟩
  rw [FileService.sendHead, run_bind_ok hhead, hpage]

end Directory

namespace Site

variable {s : Site} {x : Exchange} {p : Path} {target : String} {es : List Entry}

/-- A directory is answered by a head and one page. -/
theorem handlerSends_of_entries (hdirectory : s.isDirectory x.tree p = .ok true)
    (hes : s.entries x.tree p target = .ok es) :
    s.handlerSends p target x = [(Response.htmlHead .ok).head, Utf8.encode (Listing.page es)] := by
  have hwilling : x.willing.Obliging := ⟨rfl, fun _ _ => rfl⟩
  obtain ⟨y, hrun, hsent⟩ :=
    Directory.sent_of_respondWith (x := x.willing) (s.entries · p target) hwilling hes
  rw [handlerSends, serve_of_directory (x := x.willing) hdirectory, hrun, hsent.sends, sends_willing,
    List.drop_left]

theorem answer_of_directory (hasks : x.Asks target) (hresolve : s.resolve x.tree target = .ok (some p, none))
    (hdirectory : s.isDirectory x.tree p = .ok true) :
    ∃ r, s.answer x = (s.answerFound p target >>= fun outcome => pure (some r, outcome)) x.begun := by
  obtain ⟨r, hrequest, hget, rfl⟩ := hasks
  have hexists : s.pathExists x.begun.tree p = .ok true := pathExists_of_isDirectory hdirectory
  refine ⟨r, ?_⟩
  rw [answer_get hrequest hget, run_bind, answerGet_of_present (x := x.begun) hresolve hexists, run_bind]

theorem sent_of_listing (hx : x.Obliging) (hasks : x.Asks target)
    (hresolve : s.resolve x.tree target = .ok (some p, none)) (hdirectory : s.isDirectory x.tree p = .ok true)
    (hes : s.entries x.tree p target = .ok es) :
    ∃ y, s.dispatch x = (.ok Status.ok.code, y) ∧
      Sent x y [(Response.htmlHead .ok).head, Utf8.encode (Listing.page es)] := by
  obtain ⟨r, hanswer⟩ := answer_of_directory hasks hresolve hdirectory
  obtain ⟨z, hrespond, hsent⟩ :=
    Directory.sent_of_respondWith (x := x.begun) (s.entries · p target) (begun_obliging hx) hes
  have hattempt : attempt (s.serve p target) x.begun = (.ok (.ok ()), z) := by
    rw [run_attempt, serve_of_directory (x := x.begun) hdirectory, hrespond]
  have hfound : s.answerFound p target x.begun = (.ok (some .ok), z) := by
    rw [answerFound, run_bind_ok hattempt]
    rfl
  have hpair : s.answer x = (.ok (some r, some .ok), z) := by
    rw [hanswer, run_bind_ok hfound]
    rfl
  obtain ⟨y, hdispatch, hconnection, _⟩ := dispatch_of_answer_ok hpair
  exact ⟨y, hdispatch, (sent_of_begun x).trans (sent_of_connection hsent hconnection)⟩

/-- A head and a page that are sent for a directory are those of its listing, wherever other sends fail. -/
theorem page_of_listing (hasks : x.Asks target) (hresolve : s.resolve x.tree target = .ok (some p, none))
    (hdirectory : s.isDirectory x.tree p = .ok true) (hes : s.entries x.tree p target = .ok es) {head page : Bytes}
    (h : Sent x (s.dispatch x).2 [head, page]) : page = Utf8.encode (Listing.page es) := by
  obtain ⟨r, hanswer⟩ := answer_of_directory hasks hresolve hdirectory
  obtain ⟨new, hsent, hnew⟩ := sent_of_found s p target x.begun
  have hdispatch : Sent x (s.dispatch x).2 new := by
    refine sent_of_connection ((sent_of_begun x).trans ?_) (dispatch_frame s x).2
    rw [hanswer]
    exact sent_of_pure hsent
  have heq : [head, page] = new := List.append_cancel_left (h.sends.symm.trans hdispatch.sends)
  subst heq
  rcases hnew with hnil | hpage | hfront
  · cases hnil
  · cases hpage
  · have hprefix := hfront.front
    rw [handlerSends_of_entries (x := x.begun) hdirectory hes] at hprefix
    have hsame := List.IsPrefix.eq_of_length hprefix rfl
    exact (List.cons.inj (List.cons.inj hsame).2).1

/-- All links on the page of a directory point back to its children exactly if the target under which it was asked
for is straight. The page is what is sent to everybody who takes it. -/
theorem pointBack_iff (hasks : x.Asks target) (hresolve : s.resolve x.tree target = .ok (some p, none))
    (hdirectory : s.isDirectory x.tree p = .ok true) (hes : s.entries x.tree p target = .ok es) (hsome : es ≠ [])
    (hnames : ∀ e ∈ es, '/' ∉ e.name.toList) :
    ∃ page,
      (x.Obliging → ∃ y, s.dispatch x = (.ok Status.ok.code, y) ∧
        Sent x y [(Response.htmlHead .ok).head, page]) ∧
      (∀ head page', Sent x (s.dispatch x).2 [head, page'] → page' = page) ∧
      (List.Forall₂ Listing.PointsBack (Listing.links page) (es.map Entry.name) ↔ Listing.Straight target) := by
  refine ⟨Utf8.encode (Listing.page es), fun hx => sent_of_listing hx hasks hresolve hdirectory hes,
    fun head page' h => page_of_listing hasks hresolve hdirectory hes h, ?_⟩
  have hlink : ∀ e ∈ es, Listing.PointsBack (Percent.encode e.href) e.name ↔ Listing.Straight target := by
    intro e he
    rw [(Directory.mem_entriesBy (allow_eq_ok.mp hes).2 he).1]
    exact Listing.pointsBack_hrefOf_iff hasks.ne_empty (hnames e he)
  rw [Listing.links_page, List.forall₂_map_left_iff, List.forall₂_map_right_iff, List.forall₂_same]
  obtain ⟨e, he⟩ := List.exists_mem_of_ne_nil es hsome
  exact ⟨fun hall => (hlink e he).mp (hall e he), fun hstraight e' he' => (hlink e' he').mpr hstraight⟩

def sharedTree : Tree where
  nodes := [(["root"], .directory), (["root", "d"], .directory), (["root", "d", "50% b"], .file 0)]
  contents := #[[]]

theorem straight_slashes : Listing.Straight "/d/" :=
  ⟨⟨"d/".toList, rfl, by decide⟩, by decide⟩

/-- One slash at the end of the target is the one in front of the name. -/
theorem pointBack_slash :
    (Exchange.ofLine sharedTree "GET /d/ HTTP/1.0\n").Obliging ∧
      ∃ page, (∃ y, bareSite.dispatch (.ofLine sharedTree "GET /d/ HTTP/1.0\n") = (.ok Status.ok.code, y) ∧
          Sent (.ofLine sharedTree "GET /d/ HTTP/1.0\n") y [(Response.htmlHead .ok).head, page]) ∧
        List.Forall₂ Listing.PointsBack (Listing.links page) ["50% b"] := by
  have hx : (Exchange.ofLine sharedTree "GET /d/ HTTP/1.0\n").Obliging := ⟨rfl, fun _ _ => rfl⟩
  have hasks : (Exchange.ofLine sharedTree "GET /d/ HTTP/1.0\n").Asks "/d/" := by
    refine ⟨⟨.get, "/d/", "HTTP/1.0", "GET /d/ HTTP/1.0"⟩, ?_, rfl, rfl⟩
    decide +kernel
  have hresolve : bareSite.resolve sharedTree "/d/" = .ok (some ⟨.root, ["root", "d"]⟩, none) := by
    decide +kernel
  have hdirectory : bareSite.isDirectory sharedTree ⟨.root, ["root", "d"]⟩ = .ok true := by decide +kernel
  have hes : bareSite.entries sharedTree ⟨.root, ["root", "d"]⟩ "/d/" = .ok [⟨"50% b", "/d/50% b", false⟩] := by
    decide +kernel
  obtain ⟨page, hsent, _, hiff⟩ := pointBack_iff (s := bareSite)
    (x := .ofLine sharedTree "GET /d/ HTTP/1.0\n") hasks hresolve hdirectory hes (List.cons_ne_nil _ _) (by decide)
  exact ⟨hx, page, hsent hx, hiff.mpr straight_slashes⟩

/-- A target of two slashes is the root, and the links of its page name another server. -/
theorem not_pointBack_slashes :
    bareSite.resolve sharedTree "//" = .ok (some ⟨.root, ["root"]⟩, none) ∧
      (bareSite.dispatch (.ofLine sharedTree "GET // HTTP/1.0\n")).2.wire =
        Utf8.encode ("HTTP/1.0 200 OK\r\nContent-Type: text/html\r\n\r\n" ++
          "<html><body><h1>Directory Listing</h1><ul>\r\n" ++
          "<li><a href=\"//d\"><b><i>d</i></b></a></li>\r\n</ul></body></html>\r\n") ∧
      ¬ Listing.PointsBack "//d" "d" := by
  refine ⟨by decide +kernel, by decide +kernel, ?_⟩
  rintro ⟨⟨rest, hrest, hhead⟩, _⟩
  cases hrest
  exact hhead rfl

end Site

end FileExchange
