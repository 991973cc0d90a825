import FileExchange.Proofs.Serve.Containment
import FileExchange.Proofs.Tree.RealFiles

/-!
# One answer

Every connection on which everything can be sent should be answered once: with the page of what its
target leads to inside the root, and with the one page for all else where it leads to nothing there, or
to what the system keeps from the server. Three kinds of targets prevent that: those whose lookup meets
links that lead back to themselves, those with a path inside the root about which the system does not
tell whether there is something, and those that lead astray: their names happen to spell the path of
something, behind such a link or behind one that cannot be looked at.
-/

set_option autoImplicit false

namespace FileExchange

open Serving Exchange

namespace Site

/-! ## What should be answered -/

/-- The real path of a target, as far as its links can be looked at, lies inside the root and leads to
the place inside the root to which the target leads. -/
structure Finds (s : Site) (t : Tree) (target : String) (p : Path) : Prop where
  seen : (s.seen t).realPath (s.written target) = .ok p
  within : isWithin s.root p = true
  leads : ∃ l, t.following (s.written target) = .reached l ∧ isWithin s.root l.path = true ∧
    t.following p = .reached l

/-- What a target leads to exists and has a response, so it can be read. -/
def Deserves (s : Site) (x : Exchange) (target : String) (r : Response) : Prop :=
  ∃ p, s.Finds x.tree target p ∧ s.pathExists x.tree p = .ok true ∧
    s.response x.clock.now x.tree p target = .ok r

/-- Serving returns, and one complete response has been sent: the page that the target deserves, or the
one page for all else if nothing is asked for that deserves another. -/
def AnswersRight (s : Site) (x : Exchange) : Prop :=
  ∃ code y, s.dispatch x = (.ok code, y) ∧
    ((code = Status.ok.code ∧ ∃ target r sent, x.Asks target ∧ s.Deserves x target r ∧
        r.status = .ok ∧ y.wire = x.wire ++ (r.head ++ sent) ∧ (x.Quiet → sent = r.body)) ∨
      (code = Status.notFound.code ∧ (∀ target r, x.Asks target → ¬ s.Deserves x target r) ∧
        y.wire = x.wire ++ Response.notFound.bytes))

/-- The targets that are answered by a failure, or by a page that they do not lead to. -/
inductive Trapped (s : Site) (x : Exchange) (target : String) : Prop where
  | loop (path : String) (h : s.resolve x.tree target = .error (.linkLoop path))
  | tooLong (p : Path) (h : s.resolve x.tree target = .ok (some p, none))
      (hfree : s.refusal? .stat p = none) (hstat : x.tree.stat p = Tree.failWith .nameTooLong p)
  | kept (p : Path) (errno : Errno) (h : s.resolve x.tree target = .ok (some p, none))
      (hrefused : s.refusal? .stat p = some errno)
      (herrno : Tree.meansAbsent (.system (.coded errno [p.text])) = false)
  | astray (p : Path) (r : Response) (h : s.resolve x.tree target = .ok (some p, none))
      (hastray : ¬ s.Finds x.tree target p) (hexists : s.pathExists x.tree p = .ok true)
      (hresponse : s.response x.clock.now x.tree p target = .ok r)

/-- Where every link can be looked at, following the target has to end inside the root. -/
theorem finds_iff {c : ServerConfig} {t₀ t : Tree} {s : Site} {target : String} {p : Path}
    (hw : ∀ n ∈ t₀.workingDirectory, Path.IsPlain n) (hs : ofConfig c t₀ = .ok s) :
    s.Finds t target p ↔
      ∃ l, t.following (s.written target) = .reached l ∧ isWithin s.root l.path = true ∧ p = l.path := by
  have hseen := seen_of_open (t := t) (denials_eq_nil hs)
  constructor
  · rintro ⟨hreal, _, l, hfollow, hwithin, _⟩
    rw [hseen, Tree.realPath_of_reached hfollow] at hreal
    exact ⟨l, hfollow, hwithin, (Except.ok.inj hreal).symm⟩
  · rintro ⟨l, hfollow, hwithin, rfl⟩
    have hself := Tree.following_of_reached (written_isAbsolute (root_isAbsolute hs) target)
      (slash_notMem_written (root_isPlain hw hs) target) hfollow
    refine ⟨?_, hwithin, l, hfollow, hwithin, hself⟩
    rw [hseen, Tree.realPath_of_reached hfollow]

/-! ## Replies and deserts -/

section Deserts

variable {s : Site} {x : Exchange} {target : String}

theorem pathExists_of_tooLong {t : Tree} {p : Path} (hfree : s.refusal? .stat p = none)
    (hstat : t.stat p = Tree.failWith .nameTooLong p) :
    s.pathExists t p = .error (.system (.coded .nameTooLong [p.text])) := by
  rw [pathExists, stat, allow_of_free hfree, hstat]
  rfl

theorem pathExists_of_kept {t : Tree} {p : Path} {errno : Errno} (hrefused : s.refusal? .stat p = some errno)
    (herrno : Tree.meansAbsent (.system (.coded errno [p.text])) = false) :
    s.pathExists t p = .error (.system (.coded errno [p.text])) := by
  rw [pathExists, stat, allow_of_refused hrefused, Tree.failWith, Tree.answers]
  simp only [herrno, Bool.false_eq_true, if_false]

theorem trapped_of_pathExists_error {p : Path} {e : Failure}
    (hresolve : s.resolve x.tree target = .ok (some p, none)) (h : s.pathExists x.tree p = .error e) :
    s.Trapped x target := by
  cases hrefusal : s.refusal? .stat p with
  | none =>
    rw [pathExists, stat, allow_of_free hrefusal] at h
    exact .tooLong p hresolve hrefusal (Tree.answers_stat_error h).1
  | some errno =>
    rw [pathExists, stat, allow_of_refused hrefusal] at h
    obtain ⟨hrefused, hkept⟩ := Tree.answers_eq_error h
    cases hrefused
    exact .kept p errno hresolve hrefusal hkept

theorem resolve_of_finds {t : Tree} {p : Path} (h : s.Finds t target p)
    (hexists : s.pathExists t p = .ok true) : s.resolve t target = .ok (some p, none) := by
  obtain ⟨n, hstat⟩ := exists_stat_of_pathExists hexists
  exact resolve_of_isWithin (realPath_of_stat h.seen hstat) h.within

/-- A target finds nothing else than what it resolves to. -/
theorem eq_of_finds {t : Tree} {p q : Path} {record : Option Record} (h : s.Finds t target p)
    (hresolve : s.resolve t target = .ok (some q, record)) : p = q :=
  Except.ok.inj (h.seen.symm.trans (realPath_eq_ok (resolve_eq_some hresolve).1).1)

theorem reply_of_deserves {r : Response} (h : s.Deserves x target r) :
    s.reply x.clock.now x.tree target = .ok r := by
  obtain ⟨p, hfinds, hexists, hresponse⟩ := h
  exact reply_of_response (resolve_of_finds hfinds hexists) hexists hresponse

/-- A reply that is a page is deserved, unless the target leads astray. -/
theorem deserves_of_reply {r : Response} (h : s.reply x.clock.now x.tree target = .ok r)
    (hstatus : r.status = .ok) : s.Deserves x target r ∨ s.Trapped x target := by
  rcases reply_eq_ok h with rfl | ⟨p, hresolve, hexists, hresponse⟩
  · cases hstatus
  · by_cases hfinds : s.Finds x.tree target p
    · exact Or.inl ⟨p, hfinds, hexists, hresponse⟩
    · exact Or.inr (.astray p r hresolve hfinds hexists hresponse)

theorem trapped_of_reply_error {e : Failure} (h : s.reply x.clock.now x.tree target = .error e) :
    s.Trapped x target := by
  cases h ▸ s.replying x.clock.now x.tree target with
  | looped _ hresolve =>
    obtain ⟨path, rfl⟩ := resolve_eq_error hresolve
    exact .loop path hresolve
  | unanswerable p _ hresolve hexists => exact trapped_of_pathExists_error hresolve hexists

/-- A trapped target has no reply, or a page that it does not lead to. -/
theorem reply_of_trapped (h : s.Trapped x target) :
    (∃ e, s.reply x.clock.now x.tree target = .error e) ∨
      (∃ r, s.reply x.clock.now x.tree target = .ok r ∧ r.status = .ok) ∧
        ∀ r, ¬ s.Deserves x target r := by
  cases h with
  | loop path hresolve => exact Or.inl ⟨_, reply_of_error hresolve⟩
  | tooLong p hresolve hfree hstat =>
    exact Or.inl ⟨_, reply_of_pathExists_error hresolve (pathExists_of_tooLong hfree hstat)⟩
  | kept p errno hresolve hrefused herrno =>
    exact Or.inl ⟨_, reply_of_pathExists_error hresolve (pathExists_of_kept hrefused herrno)⟩
  | astray p r hresolve hastray hexists hresponse =>
    have hreply := reply_of_response hresolve hexists hresponse
    refine Or.inr ⟨⟨r, hreply, status_of_response hresponse⟩, ?_⟩
    rintro r' ⟨q, hfinds, _⟩
    exact hastray (eq_of_finds hfinds hresolve ▸ hfinds)

end Deserts

/-! ## Answers -/

section Answers

variable {c : ServerConfig} {t : Tree} {s : Site} {x : Exchange} {target : String} {r : Response}

theorem answersRight_of_no_request (hx : x.Obliging) (hrequest : x.request? = none)
    (hread : ∀ fault, x.connection.readLine.1 ≠ .error (.system fault)) : s.AnswersRight x := by
  obtain ⟨y, sent, hdispatch, hwire, hsent⟩ := sends_of_no_request (s := s) hx hrequest hread
  refine ⟨_, y, hdispatch, Or.inr ⟨rfl, ?_, ?_⟩⟩
  · rintro target r ⟨r', hr', _⟩ _
    rw [hrequest] at hr'
    cases hr'
  · rw [hwire, hsent (Or.inl rfl), Response.bytes]

variable (hasks : x.Asks target)

include hasks

theorem answersRight_of_page (hsends : s.Sends x r) (hstatus : r.status = .ok)
    (hdeserves : s.Deserves x target r) : s.AnswersRight x := by
  obtain ⟨y, sent, hdispatch, hwire, hsent⟩ := hsends
  rw [hstatus] at hdispatch
  exact ⟨_, y, hdispatch, Or.inl ⟨rfl, target, r, sent, hasks, hdeserves, hstatus, hwire,
    fun hquiet => hsent (Or.inr hquiet)⟩⟩

theorem answersRight_of_notFound (hreply : s.reply x.clock.now x.tree target = .ok r)
    (hsends : s.Sends x r) (hstatus : r.status = .notFound) : s.AnswersRight x := by
  obtain ⟨y, sent, hdispatch, hwire, hsent⟩ := hsends
  rw [hstatus] at hdispatch
  have hpage : r = Response.notFound := by
    rcases reply_eq_ok hreply with hr | ⟨p, _, _, hresponse⟩
    · exact hr
    · rw [status_of_response hresponse] at hstatus
      cases hstatus
  refine ⟨_, y, hdispatch, Or.inr ⟨rfl, ?_, ?_⟩⟩
  · intro target' r' hasks' hdeserves
    cases asks_unique hasks hasks'
    have hreply' := reply_of_deserves hdeserves
    obtain ⟨l, _, _, hresponse⟩ := hdeserves
    rw [hreply] at hreply'
    cases hreply'
    rw [status_of_response hresponse] at hstatus
    cases hstatus
  · rw [hwire, hsent (Or.inl hstatus), hpage, Response.bytes]

variable (hw : ∀ n ∈ t.workingDirectory, Path.IsPlain n) (hs : ofConfig c t = .ok { s with denials := [] })
  (hx : x.Obliging) (hfresh : x.connection.bytesSent = 0)

include hw hs hx hfresh

theorem answersRight_of_not_trapped (hfree : ¬ s.Trapped x target) : s.AnswersRight x := by
  rcases dispatch_of_asks hw hs hx hfresh hasks with ⟨r, hreply, hsends⟩ | ⟨e, y, hreply, _⟩
  · cases hstatus : r.status with
    | ok =>
      have hdeserves := (deserves_of_reply hreply hstatus).resolve_right hfree
      exact answersRight_of_page hasks hsends hstatus hdeserves
    | notFound => exact answersRight_of_notFound hasks hreply hsends hstatus
  · exact absurd (trapped_of_reply_error hreply) hfree

theorem not_answersRight_of_trapped (htrapped : s.Trapped x target) : ¬ s.AnswersRight x := by
  rintro ⟨code, y, hdispatch, hanswer⟩
  rcases reply_of_trapped htrapped with ⟨e, herror⟩ | ⟨⟨r, hpage, hstatus⟩, hdeserves⟩
  · rcases dispatch_of_asks hw hs hx hfresh hasks with ⟨r, hreply, _⟩ | ⟨e', y', _, hraised⟩
    · rw [herror] at hreply
      cases hreply
    · rw [hdispatch] at hraised
      cases hraised
  · rcases dispatch_of_asks hw hs hx hfresh hasks with ⟨r', hreply, y', _, hsent, _⟩ | ⟨_, _, hreply, _⟩
    · rw [hpage] at hreply
      cases hreply
      rw [hdispatch, hstatus] at hsent
      cases hsent
      rcases hanswer with ⟨_, target', r', _, hasks', hdeserves', _⟩ | ⟨hcode, _⟩
      · cases asks_unique hasks hasks'
        exact hdeserves r' hdeserves'
      · cases hcode
    · rw [hpage] at hreply
      cases hreply

end Answers

/-- Every request that is no upload is answered right, except where its target is one of the three kinds
that trap the server. -/
theorem answersRight_iff {c : ServerConfig} {t : Tree} {s : Site} {x : Exchange}
    (hw : ∀ n ∈ t.workingDirectory, Path.IsPlain n) (hs : ofConfig c t = .ok { s with denials := [] })
    (hx : x.Obliging) (hfresh : x.connection.bytesSent = 0)
    (hread : ∀ fault, x.connection.readLine.1 ≠ .error (.system fault))
    (hupload : ∀ r, x.request? = some r → r.method ≠ .upload) :
    s.AnswersRight x ↔ ∀ target, x.Asks target → ¬ s.Trapped x target := by
  constructor
  · intro hright target hasks htrapped
    exact not_answersRight_of_trapped hasks hw hs hx hfresh htrapped hright
  · intro hfree
    cases hrequest : x.request? with
    | none => exact answersRight_of_no_request hx hrequest hread
    | some request =>
      have hget : request.method = .get :=
        (method_of_request? hrequest).resolve_right (hupload request hrequest)
      have hasks : x.Asks request.target := ⟨request, hrequest, hget, rfl⟩
      exact answersRight_of_not_trapped hasks hw hs hx hfresh (hfree _ hasks)

/-- A site whose root can be looked at but not listed. -/
def lockedSite : Site :=
  { loopSite with denials := [⟨.list, ⟨.root, ["root"]⟩, .permissionDenied⟩] }

theorem answersRight_locked :
    (∀ n ∈ loopTree.workingDirectory, Path.IsPlain n) ∧
      ofConfig loopConfig loopTree = .ok { lockedSite with denials := [] } ∧
      lockedSite.AnswersRight (.ofLine loopTree "GET / HTTP/1.0\n") := by
  have hw : ∀ n ∈ loopTree.workingDirectory, Path.IsPlain n := by simp [loopTree]
  have hs : ofConfig loopConfig loopTree = .ok { lockedSite with denials := [] } := ofConfig_loopConfig
  have hrequest : (Exchange.ofLine loopTree "GET / HTTP/1.0\n").request? =
      some ⟨.get, "/", "HTTP/1.0", "GET / HTTP/1.0"⟩ := by decide +kernel
  have hread : (Exchange.ofLine loopTree "GET / HTTP/1.0\n").connection.readLine.1 =
      .ok (some (Utf8.encode "GET / HTTP/1.0\n")) := by decide +kernel
  have hresolve : lockedSite.resolve (Exchange.ofLine loopTree "GET / HTTP/1.0\n").tree "/" =
      .ok (some ⟨.root, ["root"]⟩, none) := by decide +kernel
  refine ⟨hw, hs, (answersRight_iff hw hs ⟨rfl, fun _ _ => rfl⟩ rfl ?_ ?_).mpr ?_⟩
  · intro fault h
    rw [hread] at h
    cases h
  · intro r hr
    rw [hrequest] at hr
    cases hr
    simp
  · rintro target ⟨r, hr, _, rfl⟩ htrapped
    rw [hrequest] at hr
    cases hr
    cases htrapped with
    | loop path h =>
      rw [hresolve] at h
      cases h
    | tooLong p h _ hstat =>
      rw [hresolve] at h
      cases h
      cases hstat
    | kept p errno h hrefused =>
      rw [hresolve] at h
      cases h
      cases hrefused
    | astray p r h hastray =>
      rw [hresolve] at h
      cases h
      exact hastray ⟨by decide +kernel, by decide, ["root"], by decide +kernel, by decide, by decide +kernel⟩

theorem not_answersRight_loop :
    ofConfig loopConfig loopTree = .ok loopSite ∧
      (Exchange.ofLine loopTree "GET /loop HTTP/1.0\n").Obliging ∧
      (Exchange.ofLine loopTree "GET /loop HTTP/1.0\n").request? =
        some ⟨.get, "/loop", "HTTP/1.0", "GET /loop HTTP/1.0"⟩ ∧
      (loopSite.dispatch (.ofLine loopTree "GET /loop HTTP/1.0\n")).2.wire = [] ∧
      ¬ loopSite.AnswersRight (.ofLine loopTree "GET /loop HTTP/1.0\n") := by
  refine ⟨ofConfig_loopConfig, ⟨rfl, fun _ _ => rfl⟩, by decide +kernel, by decide +kernel, ?_⟩
  rintro ⟨code, y, hdispatch, _⟩
  have hraised : (loopSite.dispatch (.ofLine loopTree "GET /loop HTTP/1.0\n")).1 =
      .error (.linkLoop "/root/loop") := by decide +kernel
  rw [hdispatch] at hraised
  cases hraised

end Site

end FileExchange
