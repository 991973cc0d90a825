import FileExchange.Proofs.Http.RequestLine
import FileExchange.Proofs.Serve.Steps
import FileExchange.Proofs.Serve.Targets
import FileExchange.Proofs.Stream

/-!
# Ways of answering

One equation for each way that a target can take from being resolved to being answered, and what
happens to lines that ask for nothing.
-/

set_option autoImplicit false

namespace FileExchange

namespace Request

theorem method_of_parse {line : Option String} {r : Request} (h : parse line = .ok r) :
    r.method = .get ∨ r.method = .upload := by
  obtain ⟨_, ⟨_, _, _, hr⟩ | ⟨_, _, hr⟩⟩ := words_of_parse h
  · exact Or.inl (congrArg method hr)
  · exact Or.inr (congrArg method hr)

end Request

namespace Exchange

theorem parse_of_request? {x : Exchange} {r : Request} (h : x.request? = some r) :
    ∃ line, x.connection.readLine.1 = .ok line ∧
      Request.parse (line.map Request.decodeLine) = .ok r := by
  unfold request? at h
  split at h
  · rename_i line hline
    refine ⟨line, hline, ?_⟩
    cases hp : Request.parse (line.map Request.decodeLine) with
    | error e => simp [hp, Except.toOption] at h
    | ok r' => simpa [hp, Except.toOption] using h
  · cases h

theorem method_of_request? {x : Exchange} {r : Request} (h : x.request? = some r) :
    r.method = .get ∨ r.method = .upload := by
  obtain ⟨line, _, hparse⟩ := parse_of_request? h
  exact Request.method_of_parse hparse

end Exchange

namespace Serving

/-! ## Sending never fails otherwise than by the socket -/

theorem error_of_send {bytes : Bytes} {x y : Exchange} {e : Failure}
    (h : send bytes x = (.error e, y)) : ∃ fault, e = .system fault := by
  have hsend : send bytes x = sendBytes bytes (meddle (enter .writing x).2).2 := rfl
  rw [hsend] at h
  unfold sendBytes at h
  split at h
  · cases h
  · cases h
    exact ⟨_, rfl⟩

theorem exists_run_sendResponse (bytes : Bytes) (x : Exchange) :
    ∃ sent y, sendResponse bytes x = (.ok sent, y) := by
  unfold sendResponse
  rw [run_bind, run_attempt]
  cases h : send bytes x with
  | mk r y =>
    cases r with
    | ok _ => exact ⟨true, y, rfl⟩
    | error e =>
      obtain ⟨fault, rfl⟩ := error_of_send h
      exact ⟨false, _, rfl⟩

end Serving

namespace Site

open Serving

theorem exists_run_sendNotFound (x : Exchange) :
    ∃ y, sendNotFound x = (.ok (some .notFound), y) := by
  obtain ⟨sent, y, hsend⟩ := exists_run_sendResponse Response.notFound.bytes x
  exact ⟨y, by rw [sendNotFound, run_bind_ok hsend, run_pure]⟩

theorem outcomeCode_eq_ok {outcome : Outcome} (h : outcomeCode outcome = Status.ok.code) :
    outcome = some .ok := by
  cases outcome with
  | none => cases h
  | some status => cases status <;> first | rfl | cases h

/-! ## Targets -/

section Get

variable {s : Site} {target : String} {x : Exchange}

theorem answerGet_of_error {e : Failure} (h : s.resolve x.tree target = .error e) :
    s.answerGet target x = (.error e, x) :=
  run_bind_error (run_ask_bind_error h)

theorem run_locate_of_none {record : Option Record}
    (h : s.resolve x.tree target = .ok (none, record)) :
    ∃ journal, s.locate target x = (.ok none, { x with toWorld := { x.toWorld with journal } }) := by
  have hask : ask (fun x => s.resolve x.tree target) x = (.ok (none, record), x) := by
    rw [run_ask, h]
  cases record with
  | none => exact ⟨x.journal, run_bind_ok hask⟩
  | some r => exact ⟨(x.toWorld.log r.level r.speaker r.message).journal, run_bind_ok hask⟩

/-- A target without a path inside the root is answered by the one page, after at most a report. -/
theorem answerGet_of_none {record : Option Record}
    (h : s.resolve x.tree target = .ok (none, record)) :
    ∃ journal, s.answerGet target x =
      sendNotFound { x with toWorld := { x.toWorld with journal } } := by
  obtain ⟨journal, hlocate⟩ := run_locate_of_none h
  exact ⟨journal, run_bind_ok hlocate⟩

theorem run_locate_of_some {p : Path} (h : s.resolve x.tree target = .ok (some p, none)) :
    s.locate target x = (.ok (some p), x) := by
  have hask : ask (fun x => s.resolve x.tree target) x = (.ok (some p, none), x) := by
    rw [run_ask, h]
  exact run_bind_ok hask

theorem answerGet_of_pathExists_error {p : Path} {e : Failure}
    (h : s.resolve x.tree target = .ok (some p, none)) (hexists : s.pathExists x.tree p = .error e) :
    s.answerGet target x = (.error e, x) := by
  rw [answerGet, run_bind_ok (run_locate_of_some h)]
  exact run_ask_bind_error hexists

theorem answerGet_of_absent {p : Path} (h : s.resolve x.tree target = .ok (some p, none))
    (hexists : s.pathExists x.tree p = .ok false) : s.answerGet target x = sendNotFound x := by
  rw [answerGet, run_bind_ok (run_locate_of_some h)]
  exact (run_ask_bind_ok hexists).trans rfl

theorem answerGet_of_present {p : Path} (h : s.resolve x.tree target = .ok (some p, none))
    (hexists : s.pathExists x.tree p = .ok true) :
    s.answerGet target x = s.answerFound p target x := by
  rw [answerGet, run_bind_ok (run_locate_of_some h)]
  exact (run_ask_bind_ok hexists).trans rfl

end Get

/-- Only what a target resolves to and what is there is answered as found. -/
theorem present_of_answerGet {s : Site} {target : String} {x y : Exchange}
    (h : s.answerGet target x = (.ok (some .ok), y)) :
    ∃ p, s.resolve x.tree target = .ok (some p, none) ∧ s.pathExists x.tree p = .ok true ∧
      s.answerFound p target x = (.ok (some .ok), y) := by
  have hnotFound : ∀ x : Exchange, sendNotFound x ≠ (.ok (some .ok), y) := by
    intro x hsend
    obtain ⟨z, hz⟩ := exists_run_sendNotFound x
    rw [hz] at hsend
    cases hsend
  cases hresolve : s.resolve x.tree target with
  | error e =>
    rw [answerGet_of_error hresolve] at h
    cases h
  | ok r =>
    obtain ⟨p?, record⟩ := r
    cases p? with
    | none =>
      obtain ⟨journal, hanswer⟩ := answerGet_of_none hresolve
      exact absurd (hanswer ▸ h) (hnotFound _)
    | some p =>
      cases (resolve_eq_some hresolve).2.2
      cases hexists : s.pathExists x.tree p with
      | error e =>
        rw [answerGet_of_pathExists_error hresolve hexists] at h
        cases h
      | ok found =>
        cases found with
        | false =>
          rw [answerGet_of_absent hresolve hexists] at h
          exact absurd h (hnotFound x)
        | true =>
          rw [answerGet_of_present hresolve hexists] at h
          exact ⟨p, rfl, hexists, h⟩

/-! ## Lines -/

/-- A line that is no request, or too long a one, is answered by the one page. -/
theorem answer_of_no_request {s : Site} {x : Exchange} (h : x.request? = none)
    (hread : ∀ fault, x.connection.readLine.1 ≠ .error (.system fault)) :
    ∃ z, z.connection = x.connection.readLine.2 ∧ z.tree = x.tree ∧
      s.answer x = (sendNotFound >>= fun outcome => pure (none, outcome)) z := by
  have hattempt : attempt readLine x =
      (.ok x.connection.readLine.1, { x with connection := x.connection.readLine.2 }) := rfl
  rw [answer, run_bind_ok hattempt]
  unfold Exchange.request? at h
  cases hline : x.connection.readLine.1 with
  | ok line =>
    rw [hline] at h
    refine ⟨{ x with connection := x.connection.readLine.2 }, rfl, rfl, ?_⟩
    cases hparse : Request.parse (line.map Request.decodeLine) with
    | ok r => simp [hparse, Except.toOption] at h
    | error e => simp only [answerLine, hparse]
  | error e =>
    rcases Connection.readLine_error hline with ⟨fault, rfl⟩ | rfl
    · exact absurd hline (hread fault)
    · let y : Exchange := { x with connection := x.connection.readLine.2 }
      let message := "[" ++ y.connection.id ++ "] " ++ (Failure.lineTooLong x.connection.maxLine).message
      exact ⟨{ y with toWorld := y.toWorld.log .warning .dispatcher message }, rfl, rfl, rfl⟩

/-- A stream that fails before its first line has ended is answered by nothing. -/
theorem answer_of_fault {s : Site} {x : Exchange} {fault : Fault}
    (h : x.connection.readLine.1 = .error (.system fault)) :
    ∃ z, z.connection = x.connection.readLine.2 ∧ z.tree = x.tree ∧
      s.answer x = (.ok (none, none), z) := by
  have hattempt : attempt readLine x =
      (.ok x.connection.readLine.1, { x with connection := x.connection.readLine.2 }) := rfl
  rw [answer, run_bind_ok hattempt, h]
  let y : Exchange := { x with connection := x.connection.readLine.2 }
  let message := "[" ++ y.connection.id ++ "] " ++ ("Failed to read request line: " ++ fault.message)
  exact ⟨{ y with toWorld := y.toWorld.log .warning .dispatcher message }, rfl, rfl, rfl⟩

/-! ## Statuses -/

theorem outcome_of_answerUpload {s : Site} {name : String} {x y : Exchange} {outcome : Outcome}
    (h : s.answerUpload name x = (.ok outcome, y)) : outcome = none := by
  unfold answerUpload at h
  obtain ⟨r, z, _, h⟩ := run_bind_eq_ok h
  split at h
  · cases h
    rfl
  · obtain ⟨_, _, _, h⟩ := run_bind_eq_ok h
    cases h
    rfl
  · obtain ⟨_, _, _, h⟩ := run_bind_eq_ok h
    obtain ⟨_, _, _, h⟩ := run_bind_eq_ok h
    cases h
    rfl
  · cases h

theorem answer_ne_found {s : Site} {x : Exchange} (h : x.request? = none) (request : Option Request)
    (z : Exchange) : s.answer x ≠ (.ok (request, some .ok), z) := by
  intro hanswer
  have hpage : ∀ y, s.answer x ≠ (sendNotFound >>= fun outcome => pure (none, outcome)) y := by
    intro y hno
    obtain ⟨z', hsend⟩ := exists_run_sendNotFound y
    rw [hno, run_bind_ok hsend] at hanswer
    cases hanswer
  cases hline : x.connection.readLine.1 with
  | ok line =>
    obtain ⟨y, _, _, hno⟩ := answer_of_no_request (s := s) h (by simp [hline])
    exact hpage y hno
  | error e =>
    rcases Connection.readLine_error hline with ⟨fault, rfl⟩ | rfl
    · obtain ⟨y, _, _, hno⟩ := answer_of_fault (s := s) hline
      rw [hno] at hanswer
      cases hanswer
    · obtain ⟨y, _, _, hno⟩ := answer_of_no_request (s := s) h (by simp [hline])
      exact hpage y hno

/-- A page that was found answers somebody who asked for a target, by serving the path that the
target resolves to, in the tree as the request met it. -/
theorem served_of_dispatch {s : Site} {x y : Exchange}
    (h : s.dispatch x = (.ok Status.ok.code, y)) :
    ∃ target p z, x.Asks target ∧ s.resolve x.tree target = .ok (some p, none) ∧
      s.pathExists x.tree p = .ok true ∧ s.answerFound p target x.begun = (.ok (some .ok), z) ∧
      y.connection = z.connection := by
  obtain ⟨request, outcome, z, hanswer, hcode, hconnection, _⟩ := dispatch_eq_ok h
  have hok := outcomeCode_eq_ok hcode.symm
  subst hok
  cases hrequest : x.request? with
  | none => exact absurd hanswer (answer_ne_found hrequest request z)
  | some r =>
    rcases Exchange.method_of_request? hrequest with hget | hupload
    · rw [answer_get hrequest hget] at hanswer
      obtain ⟨outcome, z', hserved, hpure⟩ := run_bind_eq_ok hanswer
      cases hpure
      obtain ⟨p, hresolve, hexists, hfound⟩ := present_of_answerGet hserved
      exact ⟨r.target, p, z, ⟨r, hrequest, hget, rfl⟩, hresolve, hexists, hfound, hconnection⟩
    · rw [answer_upload hrequest hupload] at hanswer
      obtain ⟨outcome, z', hserved, hpure⟩ := run_bind_eq_ok hanswer
      cases hpure
      cases outcome_of_answerUpload hserved

end Site

end FileExchange
