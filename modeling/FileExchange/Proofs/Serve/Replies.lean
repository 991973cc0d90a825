import FileExchange.Proofs.Serve.Answers
import FileExchange.Proofs.Serve.Pages

/-!
# Replies

The response to a target as a function of the file tree and the clock, and that somebody who asks for
the target gets it, once and completely, as long as the other end takes everything.
-/

set_option autoImplicit false

namespace FileExchange

open Serving Exchange

namespace Site

/-- The response to a target as far as the tree tells. -/
def reply (s : Site) (now : Instant) (t : Tree) (target : String) : Except Failure Response :=
  match s.resolve t target with
  | .error e => .error e
  | .ok (none, _) => .ok Response.notFound
  | .ok (some p, _) =>
    match s.pathExists t p with
    | .error e => .error e
    | .ok false => .ok Response.notFound
    | .ok true =>
      match s.response now t p target with
      | .ok r => .ok r
      | .error _ => .ok Response.notFound

section Reply

variable {s : Site} {now : Instant} {t : Tree} {target : String} {p : Path}

theorem reply_of_error {e : Failure} (h : s.resolve t target = .error e) :
    s.reply now t target = .error e := by
  unfold reply
  rw [h]

theorem reply_of_none {record : Option Record} (h : s.resolve t target = .ok (none, record)) :
    s.reply now t target = .ok Response.notFound := by
  unfold reply
  rw [h]

theorem reply_of_pathExists_error {e : Failure} (h : s.resolve t target = .ok (some p, none))
    (hexists : s.pathExists t p = .error e) : s.reply now t target = .error e := by
  unfold reply
  rw [h]
  dsimp only
  rw [hexists]

theorem reply_of_absent (h : s.resolve t target = .ok (some p, none))
    (hexists : s.pathExists t p = .ok false) : s.reply now t target = .ok Response.notFound := by
  unfold reply
  rw [h]
  dsimp only
  rw [hexists]

theorem reply_of_response {r : Response} (h : s.resolve t target = .ok (some p, none))
    (hexists : s.pathExists t p = .ok true) (hresponse : s.response now t p target = .ok r) :
    s.reply now t target = .ok r := by
  unfold reply
  rw [h]
  dsimp only
  rw [hexists]
  dsimp only
  rw [hresponse]

theorem reply_of_response_error {e : Failure} (h : s.resolve t target = .ok (some p, none))
    (hexists : s.pathExists t p = .ok true) (hresponse : s.response now t p target = .error e) :
    s.reply now t target = .ok Response.notFound := by
  unfold reply
  rw [h]
  dsimp only
  rw [hexists]
  dsimp only
  rw [hresponse]

/-- How a reply comes about. -/
inductive Replying (s : Site) (now : Instant) (t : Tree) (target : String) :
    Except Failure Response → Prop
  | looped (e : Failure) (hresolve : s.resolve t target = .error e) :
      Replying s now t target (.error e)
  | nowhere (record : Option Record) (hresolve : s.resolve t target = .ok (none, record)) :
      Replying s now t target (.ok Response.notFound)
  | unanswerable (p : Path) (e : Failure) (hresolve : s.resolve t target = .ok (some p, none))
      (hexists : s.pathExists t p = .error e) : Replying s now t target (.error e)
  | absent (p : Path) (hresolve : s.resolve t target = .ok (some p, none))
      (hexists : s.pathExists t p = .ok false) : Replying s now t target (.ok Response.notFound)
  | unreadable (p : Path) (e : Failure) (hresolve : s.resolve t target = .ok (some p, none))
      (hexists : s.pathExists t p = .ok true) (hresponse : s.response now t p target = .error e) :
      Replying s now t target (.ok Response.notFound)
  | page (p : Path) (r : Response) (hresolve : s.resolve t target = .ok (some p, none))
      (hexists : s.pathExists t p = .ok true) (hresponse : s.response now t p target = .ok r) :
      Replying s now t target (.ok r)

theorem replying (s : Site) (now : Instant) (t : Tree) (target : String) :
    s.Replying now t target (s.reply now t target) := by
  cases hresolve : s.resolve t target with
  | error e => exact reply_of_error hresolve ▸ .looped e hresolve
  | ok found =>
    obtain ⟨p?, record⟩ := found
    cases p? with
    | none => exact reply_of_none hresolve ▸ .nowhere record hresolve
    | some p =>
      cases (resolve_eq_some hresolve).2.2
      cases hexists : s.pathExists t p with
      | error e =>
        exact reply_of_pathExists_error hresolve hexists ▸ .unanswerable p e hresolve hexists
      | ok found =>
        cases found with
        | false => exact reply_of_absent hresolve hexists ▸ .absent p hresolve hexists
        | true =>
          cases hresponse : s.response now t p target with
          | error e =>
            rw [reply_of_response_error hresolve hexists hresponse]
            exact .unreadable p e hresolve hexists hresponse
          | ok r =>
            rw [reply_of_response hresolve hexists hresponse]
            exact .page p r hresolve hexists hresponse

end Reply

/-- A response has been sent, and the code is that of the response. -/
def Sends (s : Site) (x : Exchange) (r : Response) : Prop :=
  ∃ y sent, s.dispatch x = (.ok r.status.code, y) ∧ y.wire = x.wire ++ (r.head ++ sent) ∧
    (r.status = .notFound ∨ x.Quiet → sent = r.body)

section Run

variable {s : Site} {x : Exchange} {target : String}

theorem sends_of_answer {z : Exchange} (request : Option Request) {r : Response} (sent : Bytes)
    (h : s.answer x = (.ok (request, some r.status), z)) (hwire : z.wire = x.wire ++ (r.head ++ sent))
    (hsent : r.status = .notFound ∨ x.Quiet → sent = r.body) : s.Sends x r := by
  obtain ⟨y, hdispatch, hconnection, _⟩ := dispatch_of_answer_ok h
  refine ⟨y, sent, hdispatch, ?_, hsent⟩
  rw [wire, hconnection]
  exact hwire

theorem sends_notFound {z : Exchange} (request : Option Request)
    (h : s.answer x = (sendNotFound >>= fun outcome => pure (request, outcome)) z) (hz : z.Obliging)
    (hwire : z.wire = x.wire) : s.Sends x Response.notFound := by
  obtain ⟨y, hsend, hdelivered⟩ := run_sendNotFound hz
  refine sends_of_answer request Response.notFound.body (z := y) ?_ ?_ fun _ => rfl
  · rw [h, run_bind_ok hsend]
    rfl
  · rw [hdelivered.wire, hwire]
    rfl

theorem sends_of_no_request (hx : x.Obliging) (h : x.request? = none)
    (hread : ∀ fault, x.connection.readLine.1 ≠ .error (.system fault)) :
    s.Sends x Response.notFound := by
  obtain ⟨z, hconnection, _, hanswer⟩ := answer_of_no_request (s := s) h hread
  obtain ⟨hclosed, hrefusal, _, hsends, _⟩ := readLine_fresh x
  refine sends_notFound none hanswer ⟨?_, ?_⟩ ?_
  · rw [hconnection, hclosed, hx.1]
  · rw [hconnection, hrefusal]
    exact hx.2
  · rw [wire, wire, hconnection, Peer.wire, Peer.wire, hsends]

theorem sends_of_response {request : Request} {p : Path} {r : Response} (hx : x.Obliging)
    (hchunk : 1 ≤ s.files.chunkSize) (hp : ∀ n ∈ p.names, Path.IsPlain n)
    (hanswer : s.answer x =
      (s.answerFound p target >>= fun outcome => pure (some request, outcome)) x.begun)
    (h : s.response x.clock.now x.tree p target = .ok r) : s.Sends x r := by
  obtain ⟨y, sent, hserve, hdelivered, hsent⟩ :=
    responds_serve (begun_obliging hx) hchunk hp (x := x.begun) h
  have hfound : s.answerFound p target x.begun = (.ok (some .ok), y) := by
    have hattempt : attempt (s.serve p target) x.begun = (.ok (.ok ()), y) := by
      rw [run_attempt, hserve]
    rw [answerFound, run_bind_ok hattempt]
    rfl
  have hstatus := status_of_response h
  refine sends_of_answer (some request) sent (z := y) ?_ ?_ ?_
  · rw [hanswer, run_bind_ok hfound, hstatus]
    rfl
  · rw [hdelivered.wire, begun_wire]
  · rintro (hno | hquiet)
    · rw [hstatus] at hno
      cases hno
    · exact hsent (begun_quiet hquiet)

theorem sends_of_response_error {request : Request} {p : Path} {n : Node} {e : Failure}
    (hx : x.Obliging) (hfresh : x.connection.bytesSent = 0) (hstat : s.stat x.tree p = .ok n)
    (hanswer : s.answer x =
      (s.answerFound p target >>= fun outcome => pure (some request, outcome)) x.begun)
    (h : s.response x.clock.now x.tree p target = .error e) : s.Sends x Response.notFound := by
  obtain ⟨fault, rfl⟩ := error_of_response hstat h
  have hserve : s.serve p target x.begun = (.error (.system fault), x.begun) :=
    serve_of_response_error (x := x.begun) h
  have hattempt : attempt (s.serve p target) x.begun = (.ok (.error (.system fault)), x.begun) := by
    rw [run_attempt, hserve]
  have hzero : (x.begun.connection.bytesSent == 0) = true := by
    have hbytes : x.begun.connection.bytesSent = 0 := (readLine_fresh x).2.2.2.2.trans hfresh
    rw [hbytes]
    rfl
  let message := "[" ++ x.begun.connection.id ++ "] " ++ ("Cannot serve " ++ target ++ ": " ++
    fault.message)
  let z : Exchange := { x.begun with toWorld := x.begun.toWorld.log .warning .dispatcher message }
  have hfound : s.answerFound p target x.begun = sendNotFound z := by
    rw [answerFound, run_bind_ok hattempt]
    simp only [answerFault]
    rw [run_bind_ok (run_inspect _ _), if_pos hzero]
    rfl
  refine sends_notFound (z := z) (some request) ?_ (begun_obliging hx) (begun_wire x)
  rw [hanswer, run_bind, run_bind, hfound]

/-- Somebody who asks for a target gets the reply to it, and a failure if there is none. -/
theorem dispatch_of_reply (hx : x.Obliging) (hfresh : x.connection.bytesSent = 0)
    (hchunk : 1 ≤ s.files.chunkSize)
    (hplain : ∀ p record, s.resolve x.tree target = .ok (some p, record) →
      ∀ n ∈ p.names, Path.IsPlain n) (hasks : x.Asks target) :
    (∃ r, s.reply x.clock.now x.tree target = .ok r ∧ s.Sends x r) ∨
      ∃ e y, s.reply x.clock.now x.tree target = .error e ∧ s.dispatch x = (.error e, y) := by
  obtain ⟨request, hrequest, hget, rfl⟩ := hasks
  have hanswer := answer_get (s := s) hrequest hget
  have hraise : ∀ e, s.answerGet request.target x.begun = (.error e, x.begun) →
      ∃ y, s.dispatch x = (.error e, y) := by
    intro e herror
    rw [run_bind_error herror] at hanswer
    obtain ⟨y, hdispatch, _⟩ := dispatch_of_answer_error hanswer
    exact ⟨y, hdispatch⟩
  have hpresent : ∀ p, s.resolve x.tree request.target = .ok (some p, none) →
      s.pathExists x.tree p = .ok true → s.answer x =
        (s.answerFound p request.target >>= fun outcome => pure (some request, outcome)) x.begun := by
    intro p hresolve hexists
    rw [hanswer, run_bind, run_bind, answerGet_of_present (x := x.begun) hresolve hexists]
  have hreply := s.replying x.clock.now x.tree request.target
  generalize s.reply x.clock.now x.tree request.target = result at hreply ⊢
  cases hreply with
  | looped e hresolve =>
    obtain ⟨y, hdispatch⟩ := hraise e (answerGet_of_error (x := x.begun) hresolve)
    exact Or.inr ⟨e, y, rfl, hdispatch⟩
  | nowhere record hresolve =>
    refine Or.inl ⟨_, rfl, ?_⟩
    obtain ⟨journal, hnone⟩ := answerGet_of_none (x := x.begun) hresolve
    refine sends_notFound (some request)
      (z := { x.begun with toWorld := { x.begun.toWorld with journal } }) ?_ (begun_obliging hx)
      (begun_wire x)
    rw [hanswer, run_bind, run_bind, hnone]
  | unanswerable p e hresolve hexists =>
    obtain ⟨y, hdispatch⟩ := hraise e (answerGet_of_pathExists_error (x := x.begun) hresolve hexists)
    exact Or.inr ⟨e, y, rfl, hdispatch⟩
  | absent p hresolve hexists =>
    have habsent := answerGet_of_absent (x := x.begun) hresolve hexists
    refine Or.inl ⟨_, rfl, sends_notFound (some request) ?_ (begun_obliging hx) (begun_wire x)⟩
    rw [hanswer, run_bind, run_bind, habsent]
  | unreadable p e hresolve hexists hresponse =>
    obtain ⟨n, hstat⟩ := exists_stat_of_pathExists hexists
    exact Or.inl ⟨_, rfl,
      sends_of_response_error hx hfresh hstat (hpresent p hresolve hexists) hresponse⟩
  | page p r hresolve hexists hresponse =>
    exact Or.inl ⟨r, rfl, sends_of_response hx hchunk (hplain p none hresolve)
      (hpresent p hresolve hexists) hresponse⟩

end Run

theorem reply_eq_ok {s : Site} {now : Instant} {t : Tree} {target : String} {r : Response}
    (h : s.reply now t target = .ok r) :
    r = Response.notFound ∨ ∃ p, s.resolve t target = .ok (some p, none) ∧ s.pathExists t p = .ok true ∧
      s.response now t p target = .ok r := by
  cases h ▸ s.replying now t target with
  | nowhere record hresolve => exact Or.inl rfl
  | absent p hresolve hexists => exact Or.inl rfl
  | unreadable p e hresolve hexists hresponse => exact Or.inl rfl
  | page p _ hresolve hexists hresponse => exact Or.inr ⟨p, hresolve, hexists, hresponse⟩

theorem asks_unique {x : Exchange} {target target' : String} (h : x.Asks target)
    (h' : x.Asks target') : target = target' := by
  obtain ⟨r, hr, _, rfl⟩ := h
  obtain ⟨r', hr', _, rfl⟩ := h'
  rw [hr] at hr'
  rw [Option.some.inj hr']

theorem dispatch_of_asks {c : ServerConfig} {t₀ : Tree} {s : Site} {x : Exchange} {target : String}
    (hw : ∀ n ∈ t₀.workingDirectory, Path.IsPlain n) (hs : ofConfig c t₀ = .ok { s with denials := [] })
    (hx : x.Obliging) (hfresh : x.connection.bytesSent = 0) (hasks : x.Asks target) :
    (∃ r, s.reply x.clock.now x.tree target = .ok r ∧ s.Sends x r) ∨
      ∃ e y, s.reply x.clock.now x.tree target = .error e ∧ s.dispatch x = (.error e, y) := by
  have hchunk := chunkSize_pos hs
  have habsolute := root_isAbsolute hs
  have hplain := root_isPlain hw hs
  dsimp only at hchunk habsolute hplain
  exact dispatch_of_reply hx hfresh hchunk (fun p record => resolve_isPlain habsolute hplain) hasks

end Site

end FileExchange
