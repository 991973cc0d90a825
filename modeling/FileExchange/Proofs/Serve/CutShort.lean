import FileExchange.Proofs.Serve.Handlers
import FileExchange.Proofs.Serve.Sending

/-!
# Answers that are cut short

What one dispatch has sent, wherever sends fail: nothing, the one page for everything else, or the front
of what one handler sends.
-/

set_option autoImplicit false

namespace FileExchange

open Serving Exchange

theorem Response.head_ne_nil (r : Response) : r.head ≠ [] := by
  have htext : r.headText.toList ≠ [] := by
    simp [headText, lineEnd]
  obtain ⟨c, rest, hcons⟩ := List.exists_cons_of_ne_nil htext
  have hchar : String.utf8EncodeChar c ≠ [] := String.utf8EncodeChar_ne_nil
  rw [head, Utf8.encode, hcons]
  simp [Utf8.encodeChars, hchar]

/-! ## Uploads -/

namespace Upload

theorem silent_fill (part : World.PartFile) (chunkSize : Nat) : Silent (fill part chunkSize) := by
  intro x
  obtain ⟨inbound, received, hframe⟩ := Connection.takeBody_frame x.connection chunkSize
  have hsent : Sent x (fill part chunkSize x).2 [] := by
    unfold fill
    dsimp only
    split <;> exact ⟨by simp [Exchange.sends, hframe], by simp [hframe]⟩
  exact hsent

theorem silent_publish (part : World.PartFile) (u : UploadTarget) : Silent (publish part u) := by
  intro x
  unfold publish
  split <;> exact ⟨(List.append_nil _).symm, rfl⟩

theorem silent_receive (directory : Path) (chunkSize : Nat) (name : String) :
    Silent (receive directory chunkSize name) := by
  have hdirectories : ∀ p, Silent (makeDirectories p) := fun _ _ => ⟨(List.append_nil _).symm, rfl⟩
  have hpart : ∀ u, Silent (createPart u) := fun _ _ => ⟨(List.append_nil _).symm, rfl⟩
  refine (silent_ask _).bind fun u => (hdirectories u.directory).bind fun _ => ?_
  refine (hpart u).bind fun part => (silent_fill part chunkSize).bind fun received => ?_
  refine (silent_publish part u).bind fun _ => ?_
  exact (silent_report _ _ _).bind fun _ => silent_pure received

end Upload

/-! ## The page for everything else -/

namespace Site

theorem sent_of_connection {x y z : Exchange} {new : List Bytes} (h : Sent x y new)
    (hz : z.connection = y.connection) : Sent x z new := by
  refine ⟨?_, ?_⟩
  · rw [← h.sends, Exchange.sends, Exchange.sends, hz]
  · rw [← h.count, hz]

/-- The send of the page succeeds or fails, and the outcome is the same. A failed send is only reported. -/
theorem sendNotFound_cases (x : Exchange) :
    (∃ y, sendNotFound x = (.ok (some .notFound), y) ∧ Sent x y [Response.notFound.bytes]) ∨
      ∃ fault z y, send Response.notFound.bytes x = (.error (.system fault), z) ∧
        sendNotFound x = (.ok (some .notFound), y) ∧ Sent x z [] ∧ y.connection = z.connection := by
  rcases send_cases Response.notFound.bytes x with ⟨y, hsend, hsent⟩ | ⟨fault, z, hsend, hsent⟩
  · have hattempt : attempt (send Response.notFound.bytes) x = (.ok (.ok ()), y) := by
      rw [run_attempt, hsend]
    have hresponse : sendResponse Response.notFound.bytes x = (.ok true, y) := run_bind_ok hattempt
    exact Or.inl ⟨y, by rw [sendNotFound, run_bind_ok hresponse, run_pure], hsent⟩
  · have hattempt : attempt (send Response.notFound.bytes) x =
        (.ok (.error (.system fault)), z) := by
      rw [run_attempt, hsend]
    obtain ⟨y, hresponse, hconnection⟩ :
        ∃ y, sendResponse Response.notFound.bytes x = (.ok false, y) ∧ y.connection = z.connection :=
      ⟨_, run_bind_ok hattempt, rfl⟩
    exact Or.inr ⟨fault, z, y, hsend, by rw [sendNotFound, run_bind_ok hresponse, run_pure], hsent, hconnection⟩

/-- The page goes out as a whole or not at all. -/
theorem sent_of_notFound (x : Exchange) :
    Sent x (sendNotFound x).2 [] ∨ Sent x (sendNotFound x).2 [Response.notFound.bytes] := by
  rcases sendNotFound_cases x with ⟨y, hrun, hsent⟩ | ⟨fault, z, y, _, hrun, hsent, hconnection⟩
  · rw [hrun]
    exact Or.inr hsent
  · rw [hrun]
    exact Or.inl (sent_of_connection hsent hconnection)

/-! ## Pages that were found -/

/-- What the handler of a path sends to an other end that takes everything. -/
def handlerSends (s : Site) (p : Path) (target : String) (x : Exchange) : List Bytes :=
  (s.serve p target x.willing).2.sends.drop x.sends.length

theorem prefix_handlerSends {s : Site} {p : Path} {target : String} {x : Exchange} {new : List Bytes}
    (h : Sent x (s.serve p target x).2 new) : new <+: s.handlerSends p target x := by
  obtain ⟨more, hmore⟩ := (s.handler_serve p target).steady.sends_prefix x
  rw [h.sends, List.append_assoc] at hmore
  rw [handlerSends, ← hmore, List.drop_left]
  exact List.prefix_append new more

/-- What was sent of a page that was found, from its head on. -/
structure FrontOf (handler new : List Bytes) : Prop where
  opening : ∃ r : Response, r.status = .ok ∧ new.head? = some r.head
  front : new <+: handler

theorem sent_of_serve (s : Site) (p : Path) (target : String) (x : Exchange) :
    ∃ new, Sent x (s.serve p target x).2 new ∧
      (new = [] ∨ FrontOf (s.handlerSends p target x) new ∧ new.flatten ≠ []) := by
  rcases (s.handler_serve p target).opens x with hnothing | ⟨r, rest, hstatus, hsent⟩
  · exact ⟨[], hnothing, Or.inl rfl⟩
  · refine ⟨r.head :: rest, hsent, Or.inr ⟨⟨⟨r, hstatus, rfl⟩, prefix_handlerSends hsent⟩, ?_⟩⟩
    simp [r.head_ne_nil]

theorem sent_of_fault (target : String) (fault : Fault) (x : Exchange) :
    Sent x (answerFault target fault x).2 [] ∨
      x.connection.bytesSent = 0 ∧
        Sent x (answerFault target fault x).2 [Response.notFound.bytes] := by
  rw [answerFault, run_bind_ok (run_inspect _ x)]
  split
  · rename_i hzero
    have hzero' : x.connection.bytesSent = 0 := by simpa using hzero
    rw [run_bind_ok (run_report _ _ _ x)]
    have hreport := silent_report .warning .dispatcher
      ("Cannot serve " ++ target ++ ": " ++ fault.message) x
    refine (sent_of_notFound _).imp hreport.trans fun hpage => ⟨hzero', hreport.trans hpage⟩
  · rw [run_bind_ok (run_report _ _ _ x)]
    exact Or.inl (silent_report _ _ _ x)

theorem sent_of_found (s : Site) (p : Path) (target : String) (x : Exchange) :
    ∃ new, Sent x (s.answerFound p target x).2 new ∧
      (new = [] ∨ new = [Response.notFound.bytes] ∨ FrontOf (s.handlerSends p target x) new) := by
  obtain ⟨new, hsent, hnew⟩ := sent_of_serve s p target x
  have hfront : new = [] ∨ new = [Response.notFound.bytes] ∨
      FrontOf (s.handlerSends p target x) new := by
    rcases hnew with rfl | ⟨hfront, _⟩
    · exact Or.inl rfl
    · exact Or.inr (Or.inr hfront)
  cases hrun : s.serve p target x with
  | mk result y =>
    rw [hrun] at hsent
    have hattempt : attempt (s.serve p target) x = (.ok result, y) := by
      rw [run_attempt, hrun]
    rw [answerFound, run_bind_ok hattempt]
    cases result with
    | ok _ => exact ⟨new, hsent, hfront⟩
    | error e =>
      cases e with
      | system fault =>
        rcases sent_of_fault target fault y with hnothing | ⟨hzero, hpage⟩
        · exact ⟨new, by simpa using hsent.trans hnothing, hfront⟩
        · -- no byte has been sent, so not even the head has gone out
          have hcount := hsent.count
          rw [hzero] at hcount
          have hempty : new.flatten = [] := List.length_eq_zero_iff.mp (by omega)
          have hnil : new = [] := by
            rcases hnew with hnil | ⟨_, hsome⟩
            · exact hnil
            · exact absurd hempty hsome
          subst hnil
          exact ⟨[Response.notFound.bytes], hsent.trans hpage, Or.inr (Or.inl rfl)⟩
      | _ => exact ⟨new, hsent, hfront⟩

/-! ## Requests -/

/-- What one dispatch may have sent: nothing, the one page for everything else, or the front of what the
handler of a path sends where somebody asked for the path. -/
inductive Transcript (s : Site) (x : Exchange) : List Bytes → Prop
  | nothing : Transcript s x []
  | notFound : Transcript s x [Response.notFound.bytes]
  | found (target : String) (p : Path) (new : List Bytes) (hasks : x.Asks target)
      (hresolve : s.resolve x.tree target = .ok (some p, none))
      (hthere : s.pathExists x.tree p = .ok true)
      (hfront : FrontOf (s.handlerSends p target x.begun) new) : Transcript s x new

theorem sent_of_pure {α β : Type} {m : Serving α} {f : α → β} {x y : Exchange} {new : List Bytes}
    (h : Sent x (m y).2 new) : Sent x ((m >>= fun a => pure (f a)) y).2 new := by
  rw [run_bind]
  split
  · rename_i a z hrun
    rwa [hrun] at h
  · rename_i e z hrun
    rwa [hrun] at h

/-- Reading the line sends nothing. -/
theorem sent_of_readLine {x z : Exchange} (hz : z.connection = x.connection.readLine.2) :
    Sent x z [] := by
  obtain ⟨_, _, _, hsends, hcount⟩ := Exchange.readLine_fresh x
  refine ⟨?_, ?_⟩
  · rw [Exchange.sends, hz, hsends, List.append_nil]
    rfl
  · rw [hz, hcount]
    rfl

theorem transcript_of_get (s : Site) {x : Exchange} {target : String} (hasks : x.Asks target) :
    ∃ new, Sent x.begun (s.answerGet target x.begun).2 new ∧ Transcript s x new := by
  have hpage : ∀ y : Exchange, y.connection = x.begun.connection →
      ∃ new, Sent x.begun (sendNotFound y).2 new ∧ Transcript s x new := by
    intro y hy
    have hsame : Sent x.begun y [] := sent_of_connection (Sent.nothing _) hy
    rcases sent_of_notFound y with hnothing | hsent
    · exact ⟨[], hsame.trans hnothing, .nothing⟩
    · exact ⟨[Response.notFound.bytes], hsame.trans hsent, .notFound⟩
  cases hresolve : s.resolve x.begun.tree target with
  | error e =>
    rw [answerGet_of_error hresolve]
    exact ⟨[], Sent.nothing _, .nothing⟩
  | ok r =>
    obtain ⟨p?, record⟩ := r
    cases p? with
    | none =>
      obtain ⟨journal, hanswer⟩ := answerGet_of_none hresolve
      rw [hanswer]
      exact hpage _ rfl
    | some p =>
      cases (resolve_eq_some hresolve).2.2
      cases hthere : s.pathExists x.begun.tree p with
      | error e =>
        rw [answerGet_of_pathExists_error hresolve hthere]
        exact ⟨[], Sent.nothing _, .nothing⟩
      | ok found =>
        cases found with
        | false =>
          rw [answerGet_of_absent hresolve hthere]
          exact hpage _ rfl
        | true =>
          rw [answerGet_of_present hresolve hthere]
          obtain ⟨new, hsent, rfl | rfl | hfront⟩ := sent_of_found s p target x.begun
          · exact ⟨[], hsent, .nothing⟩
          · exact ⟨_, hsent, .notFound⟩
          · exact ⟨new, hsent, .found target p new hasks hresolve hthere hfront⟩

theorem sent_of_upload (s : Site) (name : String) (x : Exchange) :
    Sent x (s.answerUpload name x).2 [] :=
  sent_of_connection (Upload.silent_receive s.uploads s.files.chunkSize name x)
    (answerUpload_frame s name x).2

theorem sent_of_begun (x : Exchange) : Sent x x.begun [] := by
  have hread : Sent x { x with connection := x.connection.readLine.2 } [] := sent_of_readLine rfl
  exact ⟨hread.sends, hread.count⟩

/-- A line that asks for nothing, or no line at all. -/
theorem transcript_of_no_request (s : Site) {x : Exchange} (h : x.request? = none) :
    ∃ new, Sent x (s.answer x).2 new ∧ Transcript s x new := by
  have hpage : ∀ z : Exchange, z.connection = x.connection.readLine.2 →
      ∃ new, Sent x (sendNotFound z).2 new ∧ Transcript s x new := by
    intro z hz
    rcases sent_of_notFound z with hnothing | hsent
    · exact ⟨[], (sent_of_readLine hz).trans hnothing, .nothing⟩
    · exact ⟨[Response.notFound.bytes], (sent_of_readLine hz).trans hsent, .notFound⟩
  by_cases hfault : ∃ fault, x.connection.readLine.1 = .error (.system fault)
  · obtain ⟨fault, hfault⟩ := hfault
    obtain ⟨z, hz, _, hanswer⟩ := answer_of_fault (s := s) hfault
    rw [hanswer]
    exact ⟨[], sent_of_readLine hz, .nothing⟩
  · obtain ⟨z, hz, _, hanswer⟩ := answer_of_no_request (s := s) h fun fault hread =>
      hfault ⟨fault, hread⟩
    obtain ⟨new, hsent, htranscript⟩ := hpage z hz
    rw [hanswer]
    exact ⟨new, sent_of_pure hsent, htranscript⟩

/-- Every dispatch sends at most one answer: nothing follows the page for everything else or any part of
a page that was found, and an upload is answered by nothing. -/
theorem transcript_of_dispatch (s : Site) (x : Exchange) :
    ∃ new, Sent x (s.dispatch x).2 new ∧ Transcript s x new ∧
      ∀ r, x.request? = some r → r.method = .upload → new = [] := by
  have hframe := (dispatch_frame s x).2
  cases hrequest : x.request? with
  | none =>
    obtain ⟨new, hsent, htranscript⟩ := transcript_of_no_request s hrequest
    exact ⟨new, sent_of_connection hsent hframe, htranscript, nofun⟩
  | some r =>
    rcases Exchange.method_of_request? hrequest with hget | hupload
    · obtain ⟨new, hsent, htranscript⟩ := transcript_of_get s ⟨r, hrequest, hget, rfl⟩
      have hanswer : Sent x (s.answer x).2 new := by
        rw [answer_get hrequest hget]
        exact (sent_of_begun x).trans (sent_of_pure hsent)
      refine ⟨new, sent_of_connection hanswer hframe, htranscript, fun r' hr' hupload => ?_⟩
      cases hr'
      rw [hget] at hupload
      cases hupload
    · have hanswer : Sent x (s.answer x).2 [] := by
        rw [answer_upload hrequest hupload]
        exact (sent_of_begun x).trans (sent_of_pure (sent_of_upload s r.target x.begun))
      exact ⟨[], sent_of_connection hanswer hframe, .nothing, fun _ _ _ => rfl⟩

end Site

end FileExchange
