import FileExchange.Proofs.Serve.Accounting
import FileExchange.Proofs.Serve.CutShort
import FileExchange.Proofs.Serve.Transaction

/-!
# Statuses

What a dispatch returns tells what it has sent: the one page for everything else, a head and perhaps more, or
nothing. It does so unless that page itself could not be sent.
-/

set_option autoImplicit false

namespace FileExchange

/-! ## Heads of pages that were found -/

namespace Response

/-- The head of an answer that says that something was found. -/
def FoundHead (head : Bytes) : Prop :=
  ∃ r : Response, r.status = .ok ∧ r.version = "HTTP/1.0" ∧ r.head = head

theorem two_mem_of_foundHead {head : Bytes} (h : FoundHead head) : 0x32 ∈ head := by
  obtain ⟨r, hstatus, hversion, rfl⟩ := h
  have htext : r.headText = "HTTP/1.0 2" ++ ("00 OK\r\n" ++
      String.join ((r.fields.map fieldLine ++ [""]).map (· ++ lineEnd))) := by
    simp only [headText, List.cons_append, List.map_cons, String.join_cons, statusLine, hstatus, hversion]
    rfl
  have htwo : (0x32 : UInt8) ∈ Utf8.encode "HTTP/1.0 2" := by decide +kernel
  rw [head, htext, Utf8.encode, String.toList_append, Utf8.encodeChars_append]
  exact List.mem_append_left _ htwo

/-- The one page for everything else does not begin with such a head. -/
theorem not_foundHead_prefix_notFound {head : Bytes} (h : FoundHead head) : ¬ head <+: notFound.bytes := by
  have hpage : (0x32 : UInt8) ∉ notFound.bytes := by decide +kernel
  intro hprefix
  exact hpage (List.IsPrefix.subset hprefix (two_mem_of_foundHead h))

theorem foundHead_ne_nil {head : Bytes} (h : FoundHead head) : head ≠ [] :=
  List.ne_nil_of_mem (two_mem_of_foundHead h)

end Response

namespace Serving

open Exchange

variable {α β : Type}

/-- A step that fails without having sent anything, or sends the head of a page that was found before all else. -/
def Heads (m : Serving α) : Prop :=
  ∀ x, (Sent x (m x).2 [] ∧ ∃ e, (m x).1 = .error e) ∨
    ∃ head rest, Response.FoundHead head ∧ Sent x (m x).2 (head :: rest)

theorem Silent.heads {m : Serving α} {g : α → Serving β} (hm : Silent m) (hg : ∀ a, Heads (g a)) :
    Heads (m >>= g) := by
  intro x
  have hfirst := hm x
  rw [run_bind]
  split
  · rename_i a z hrun
    rw [hrun] at hfirst
    refine (hg a z).imp (fun hfails => ⟨hfirst.trans hfails.1, hfails.2⟩) ?_
    rintro ⟨head, rest, hhead, hsent⟩
    exact ⟨head, rest, hhead, hfirst.trans hsent⟩
  · rename_i e z hrun
    rw [hrun] at hfirst
    exact Or.inl ⟨hfirst, e, rfl⟩

theorem heads_of_head {r : Response} {g : Unit → Serving β} (hr : Response.FoundHead r.head)
    (hg : ∀ a, Steady (g a)) : Heads (FileService.sendHead r >>= g) := by
  intro x
  rcases send_cases r.head x with ⟨z, hsend, hsent⟩ | ⟨fault, z, hsend, hsent⟩
  · obtain ⟨rest, hrest⟩ := (hg ()).grows z
    rw [FileService.sendHead, run_bind_ok hsend]
    exact Or.inr ⟨r.head, rest, hr, hsent.trans hrest⟩
  · rw [FileService.sendHead, run_bind_error hsend]
    exact Or.inl ⟨hsent, _, rfl⟩

theorem heads_discard {m : Serving α} (hm : Heads m) : Heads (discard m : Serving PUnit) := by
  intro x
  have hx := hm x
  cases hrun : m x with
  | mk r z =>
    rw [hrun] at hx
    cases r with
    | ok a =>
      rw [run_discard_ok hrun]
      exact hx.imp_left fun ⟨_, _, hfails⟩ => nomatch hfails
    | error e =>
      rw [run_discard_error hrun]
      exact hx.imp_left fun hfails => ⟨hfails.1, e, rfl⟩

end Serving

open Serving Exchange

namespace FileService

theorem heads_sendText (f : FileService) (p : Path) : Heads (f.sendText p) := by
  refine (silent_ask _).heads fun file => (silent_inspect _).heads fun most => ?_
  refine heads_of_head ⟨_, rfl, rfl, rfl⟩ fun _ => ?_
  exact (steady_send _).bind fun _ => (steady_sendLines f _ _).bind fun _ => steady_send _

theorem heads_sendImage (p : Path) (type : String) : Heads (sendImage p type) := by
  refine (silent_ask _).heads fun file => (silent_inspect _).heads fun bytes => ?_
  refine heads_of_head ⟨_, rfl, rfl, rfl⟩ fun _ => ?_
  exact (steady_ask fun _ => rfl).bind fun page => steady_send page

theorem heads_sendAttachment (f : FileService) (p : Path) (type : String) :
    Heads (f.sendAttachment p type) := by
  refine (silent_ask _).heads fun file => (silent_inspect _).heads fun size => ?_
  refine (silent_inspect _).heads fun now => heads_of_head ⟨_, rfl, rfl, rfl⟩ fun _ => ?_
  refine (steady_sendPieces _ _ _ _ _).bind fun written => ?_
  exact (steady_reportShrunk _ _ _).bind fun _ => steady_pure written

theorem heads_respond (f : FileService) (p : Path) : Heads (f.respond p) := by
  unfold respond
  split
  · exact heads_sendText f p
  · exact heads_sendImage p _
  · exact heads_discard (heads_sendAttachment f p _)

end FileService

theorem Directory.heads_respondWith (entries : Tree → Except Failure (List Entry)) :
    Heads (respondWith entries) :=
  (silent_ask _).heads fun _ => heads_of_head ⟨_, rfl, rfl, rfl⟩ fun _ => steady_send _

namespace Site

theorem heads_serve (s : Site) (p : Path) (target : String) : Heads (s.serve p target) := by
  refine (silent_ask _).heads fun isDirectory => ?_
  split
  · exact Directory.heads_respondWith _
  · exact (silent_ask _).heads fun _ => s.files.heads_respond p

/-! ## Outcomes -/

/-- Between two moments the last thing that was done on the connection was to send the page for everything else.
Nothing had been sent before, and that send failed. -/
def PageFails (x y : Exchange) : Prop :=
  ∃ z w fault, Moves x z ∧ Sent x z [] ∧
    send Response.notFound.bytes z = (.error (.system fault), w) ∧ y.connection = w.connection

theorem PageFails.sent {x y : Exchange} (h : PageFails x y) : Sent x y [] := by
  obtain ⟨z, w, fault, _, hsent, hsend, hconnection⟩ := h
  rcases send_cases Response.notFound.bytes z with ⟨w', hrun, _⟩ | ⟨fault', w', hrun, hsilent⟩
  · cases hsend.symm.trans hrun
  · cases hsend.symm.trans hrun
    exact sent_of_connection (hsent.trans hsilent) hconnection

/-- How a request was answered, given its outcome: by nothing, by the one page, by nothing because the send of
that page failed, or by what starts with the head of a page that was found. -/
inductive Told (x y : Exchange) : Outcome → Prop
  | nothing (hsent : Sent x y []) : Told x y none
  | notFound (hsent : Sent x y [Response.notFound.bytes]) : Told x y (some .notFound)
  | refused (hfails : PageFails x y) : Told x y (some .notFound)
  | found {head : Bytes} {rest : List Bytes} (hhead : Response.FoundHead head)
      (hsent : Sent x y (head :: rest)) : Told x y (some .ok)

/-- Whatever sends nothing may come before. -/
theorem Told.after {x z y : Exchange} {outcome : Outcome} (hmoves : Moves x z) (hsilent : Sent x z [])
    (h : Told z y outcome) : Told x y outcome := by
  cases h with
  | nothing hsent => exact .nothing (hsilent.trans hsent)
  | notFound hsent => exact .notFound (hsilent.trans hsent)
  | refused hfails =>
    obtain ⟨z', w, fault, hmoves', hsent, hpage⟩ := hfails
    exact .refused ⟨z', w, fault, hmoves.trans hmoves', hsilent.trans hsent, hpage⟩
  | found hhead hsent => exact .found hhead (hsilent.trans hsent)

/-- What happens off the connection may come behind. -/
theorem Told.of_connection {x y y' : Exchange} {outcome : Outcome} (h : Told x y outcome)
    (hconnection : y'.connection = y.connection) : Told x y' outcome := by
  cases h with
  | nothing hsent => exact .nothing (sent_of_connection hsent hconnection)
  | notFound hsent => exact .notFound (sent_of_connection hsent hconnection)
  | refused hfails =>
    obtain ⟨z, w, fault, hmoves, hsent, hsend, hw⟩ := hfails
    exact .refused ⟨z, w, fault, hmoves, hsent, hsend, hconnection.trans hw⟩
  | found hhead hsent => exact .found hhead (sent_of_connection hsent hconnection)

/-- A step that succeeds with an outcome has answered as the outcome tells. -/
def Reports {β : Type} (outcome : β → Outcome) (m : Serving β) : Prop :=
  ∀ x b y, x.connection.bytesSent = 0 → m x = (.ok b, y) → Told x y (outcome b)

section Reports

variable {α β : Type} {outcome : β → Outcome}

theorem reports_throw (e : Failure) : Reports outcome (throw e : Serving β) := by
  intro x b y _ hrun
  cases hrun

theorem reports_pure {b : β} (h : outcome b = none) : Reports outcome (pure b) := by
  intro x b' y _ hrun
  cases hrun
  rw [h]
  exact .nothing (Sent.nothing x)

theorem Reports.after {m : Serving α} {g : α → Serving β} (hwalks : Walks m) (hsilent : Silent m)
    (hg : ∀ a, Reports outcome (g a)) : Reports outcome (m >>= g) := by
  intro x b y hfresh hrun
  obtain ⟨a, z, hfirst, hsecond⟩ := run_bind_eq_ok hrun
  have hmoves := hwalks x
  have hsent := hsilent x
  rw [hfirst] at hmoves hsent
  have hfresh' : z.connection.bytesSent = 0 := by rw [hsent.count, hfresh]; rfl
  exact .after hmoves hsent (hg a z b y hfresh' hsecond)

theorem Reports.map {m : Serving Outcome} {f : Outcome → β} (hm : Reports id m)
    (hf : ∀ o, outcome (f o) = o) : Reports outcome (m >>= fun o => pure (f o)) := by
  intro x b y hfresh hrun
  obtain ⟨o, z, hfirst, hpure⟩ := run_bind_eq_ok hrun
  cases hpure
  rw [hf]
  exact hm x o y hfresh hfirst

end Reports

theorem reports_sendNotFound : Reports id sendNotFound := by
  intro x outcome y _ hrun
  rcases sendNotFound_cases x with ⟨y', hpage, hsent⟩ | ⟨fault, z, y', hsend, hpage, _, hconnection⟩
  · cases hpage.symm.trans hrun
    exact .notFound hsent
  · cases hpage.symm.trans hrun
    exact .refused ⟨x, z, fault, .refl, Sent.nothing x, hsend, hconnection⟩

theorem reports_report {β : Type} {outcome : β → Outcome} {g : Unit → Serving β} (level : Level)
    {speaker : Speaker} (hspeaker : speaker ≠ .access) (message : String) (hg : ∀ a, Reports outcome (g a)) :
    Reports outcome (report level speaker message >>= g) :=
  .after (walks_report level hspeaker message) (silent_report level speaker message) hg

/-- Where nothing has been sent, a fault is answered by the one page. -/
theorem reports_answerFault (target : String) (fault : Fault) : Reports id (answerFault target fault) := by
  intro x outcome y hfresh hrun
  rw [answerFault, run_bind_ok (run_inspect _ x), if_pos (by rw [hfresh]; rfl)] at hrun
  exact reports_report _ (by decide) _ (fun _ => reports_sendNotFound) x outcome y hfresh hrun

/-- A handler that fails has sent nothing, and then the one page is sent, or it has sent a head. -/
theorem reports_answerFound (s : Site) (p : Path) (target : String) : Reports id (s.answerFound p target) := by
  intro x outcome y hfresh hrun
  have hattempt : attempt (s.serve p target) x =
      (.ok (s.serve p target x).1, (s.serve p target x).2) := run_attempt _ x
  rw [answerFound, run_bind_ok hattempt] at hrun
  have hmoves := walks_serve s p target x
  rcases heads_serve s p target x with ⟨hsent, e, herror⟩ | ⟨head, rest, hhead, hsent⟩
  · rw [herror] at hrun
    cases e with
    | system fault =>
      have hfresh' : (s.serve p target x).2.connection.bytesSent = 0 := by
        rw [hsent.count, hfresh]
        rfl
      exact .after hmoves hsent (reports_answerFault target fault _ outcome y hfresh' hrun)
    | _ => cases hrun
  · have hpositive : (s.serve p target x).2.connection.bytesSent ≠ 0 := by
      have hlength := List.length_pos_iff.mpr (Response.foundHead_ne_nil hhead)
      rw [hsent.count, List.flatten_cons, List.length_append]
      omega
    cases hresult : (s.serve p target x).1 with
    | ok _ =>
      rw [hresult] at hrun
      cases hrun
      exact .found hhead hsent
    | error e =>
      rw [hresult] at hrun
      cases e with
      | system fault =>
        dsimp only at hrun
        rw [answerFault, run_bind_ok (run_inspect _ _), if_neg (by simpa using hpositive),
          run_bind_ok (run_report _ _ _ _)] at hrun
        cases hrun
        exact .found hhead (sent_of_connection hsent rfl)
      | _ => cases hrun

theorem silent_locate (s : Site) (target : String) : Silent (s.locate target) := by
  refine (silent_ask _).bind fun found => ?_
  obtain ⟨p, record⟩ := found
  cases record with
  | none => exact silent_pure p
  | some r => exact fun x => ⟨(List.append_nil _).symm, rfl⟩

theorem reports_answerGet (s : Site) (target : String) : Reports id (s.answerGet target) := by
  refine .after (walks_locate s target) (silent_locate s target) fun p? => ?_
  cases p? with
  | none => exact reports_sendNotFound
  | some p =>
    refine .after (walks_ask _) (silent_ask _) fun found => ?_
    split
    · exact reports_answerFound s p target
    · exact reports_sendNotFound

theorem reports_answerUpload (s : Site) (name : String) : Reports id (s.answerUpload name) := by
  intro x outcome y _ hrun
  have hsent := sent_of_upload s name x
  rw [hrun] at hsent
  rw [outcome_of_answerUpload hrun]
  exact .nothing hsent

theorem reports_answerLine (s : Site) (line : Option Bytes) : Reports Prod.snd (s.answerLine line) := by
  unfold answerLine
  split
  · exact reports_sendNotFound.map fun _ => rfl
  · refine .after (walks_enter (by decide)) (fun _ => ⟨(List.append_nil _).symm, rfl⟩) fun _ => ?_
    split
    · exact (reports_answerUpload s _).map fun _ => rfl
    · exact (reports_answerGet s _).map fun _ => rfl

theorem silent_attempt_readLine : Silent (attempt readLine) :=
  fun _ => sent_of_readLine rfl

/-- However a connection goes, an outcome tells what has been sent. -/
theorem reports_answer (s : Site) : Reports Prod.snd s.answer := by
  refine .after walks_readLine.attempt silent_attempt_readLine fun line => ?_
  cases line with
  | ok line => exact reports_answerLine s line
  | error e =>
    cases e with
    | system fault =>
      exact reports_report _ (by decide) _ fun _ => reports_pure rfl
    | lineTooLong limit =>
      exact reports_report _ (by decide) _ fun _ => reports_sendNotFound.map fun _ => rfl
    | _ => exact reports_throw _

/-! ## Statuses -/

/-- The status that is returned tells what is on the wire: the whole page for everything else, a whole head of
a page that was found, or nothing. -/
structure Tells (code : Nat) (sent : Bytes) : Prop where
  notFound : code = Status.notFound.code ↔ sent = Response.notFound.bytes
  found : code = Status.ok.code ↔ ∃ head, Response.FoundHead head ∧ head <+: sent
  nothing : code = 0 ↔ sent = []

/-- The dispatch returns the status of the page for everything else, and the send of that page has failed. -/
structure PageRefused (s : Site) (x : Exchange) : Prop where
  answered : (s.dispatch x).1 = .ok Status.notFound.code
  refused : PageFails x (s.dispatch x).2

theorem tells_nothing : Tells 0 [] := by
  refine ⟨iff_of_false nofun ?_, iff_of_false nofun ?_, iff_of_true rfl rfl⟩
  · decide +kernel
  · rintro ⟨head, hhead, hprefix⟩
    exact Response.foundHead_ne_nil hhead (List.prefix_nil.mp hprefix)

theorem tells_notFound : Tells Status.notFound.code Response.notFound.bytes := by
  refine ⟨iff_of_true rfl rfl, iff_of_false nofun ?_, iff_of_false nofun ?_⟩
  · rintro ⟨head, hhead, hprefix⟩
    exact Response.not_foundHead_prefix_notFound hhead hprefix
  · decide +kernel

theorem tells_found {head : Bytes} (hhead : Response.FoundHead head) (rest : Bytes) :
    Tells Status.ok.code (head ++ rest) := by
  refine ⟨iff_of_false nofun fun hpage => ?_, iff_of_true rfl ⟨head, hhead, head.prefix_append rest⟩,
    iff_of_false nofun fun hnil => ?_⟩
  · exact Response.not_foundHead_prefix_notFound hhead (hpage ▸ head.prefix_append rest)
  · exact Response.foundHead_ne_nil hhead (List.append_eq_nil_iff.mp hnil).1

theorem not_tells_of_notFound : ¬ Tells Status.notFound.code [] :=
  fun htells => nomatch htells.nothing.mpr rfl

theorem wire_of_sent {x y : Exchange} {new : List Bytes} (h : Sent x y new) :
    y.wire = x.wire ++ new.flatten := by
  have hsends := congrArg List.flatten h.sends
  rwa [List.flatten_append] at hsends

theorem Told.exists_sent {x y : Exchange} {outcome : Outcome} (h : Told x y outcome) :
    ∃ sent, y.wire = x.wire ++ sent ∧
      (Tells (outcomeCode outcome) sent ↔ ¬ (outcome = some .notFound ∧ PageFails x y)) := by
  cases h with
  | nothing hsent => exact ⟨_, wire_of_sent hsent, iff_of_true tells_nothing nofun⟩
  | notFound hsent =>
    have hpage : ¬ PageFails x y := by
      intro hfails
      have hnew := List.append_cancel_left (hsent.sends.symm.trans hfails.sent.sends)
      cases hnew
    refine ⟨_, wire_of_sent hsent, iff_of_true ?_ fun hrefused => hpage hrefused.2⟩
    rw [List.flatten_singleton]
    exact tells_notFound
  | refused hfails =>
    exact ⟨_, wire_of_sent hfails.sent, iff_of_false not_tells_of_notFound (not_not_intro ⟨rfl, hfails⟩)⟩
  | found hhead hsent => exact ⟨_, wire_of_sent hsent, iff_of_true (tells_found hhead _) nofun⟩

theorem told_of_dispatch {s : Site} {x y : Exchange} {code : Nat} (hfresh : x.connection.bytesSent = 0)
    (h : s.dispatch x = (.ok code, y)) :
    ∃ outcome, outcomeCode outcome = code ∧ (s.entry x).statusCode = code ∧ Told x y outcome := by
  have hrun := run_dispatch s x
  rw [h] at hrun
  obtain ⟨⟨request, outcome⟩, hresult, hcode⟩ := except_map_eq_ok (congrArg Prod.fst hrun).symm
  have hanswer : s.answer x = (.ok (request, outcome), (s.answer x).2) := Prod.ext hresult rfl
  have hconnection : y.connection = (s.answer x).2.connection :=
    congrArg (fun run : Except Failure Nat × Exchange => run.2.connection) hrun
  refine ⟨outcome, hcode, ?_, (reports_answer s x _ _ hfresh hanswer).of_connection hconnection⟩
  rw [entry_of_answer_ok hanswer, ← hcode]
  rfl

theorem outcomeCode_eq_notFound {outcome : Outcome} :
    outcomeCode outcome = Status.notFound.code ↔ outcome = some .notFound := by
  cases outcome with
  | none => exact iff_of_false nofun nofun
  | some status => cases status <;> simp [outcomeCode, Status.code]

/-- The status that a dispatch returns, and that its access record shows, tells what the dispatch has sent,
except where it is that of the page for everything else and that page could not be sent. -/
theorem tells_iff {s : Site} {x y : Exchange} {code : Nat} (hfresh : x.connection.bytesSent = 0)
    (h : s.dispatch x = (.ok code, y)) :
    ∃ sent, y.wire = x.wire ++ sent ∧ (s.entry x).statusCode = code ∧
      y.journal.access = x.journal.access ++ x.journal.kept [(s.entry x).record s.logFormat .info] ∧
      (Tells code sent ↔ ¬ s.PageRefused x) := by
  obtain ⟨outcome, rfl, hstatus, htold⟩ := told_of_dispatch hfresh h
  obtain ⟨sent, hwire, htells⟩ := htold.exists_sent
  have haccess := access_dispatch s x
  rw [h] at haccess
  refine ⟨sent, hwire, hstatus, haccess, htells.trans (not_congr ⟨fun hrefused => ?_, fun hrefused => ?_⟩)⟩
  · refine ⟨?_, ?_⟩
    · rw [h, hrefused.1]
      rfl
    · rw [h]
      exact hrefused.2
  · obtain ⟨hanswered, hfails⟩ := hrefused
    rw [h] at hanswered hfails
    exact ⟨outcomeCode_eq_notFound.mp (Except.ok.inj hanswered), hfails⟩

/-! ## Other ends that give up -/

/-- An other end that takes no more than some number of bytes in all, where one file can be asked for. -/
def cramped (most : Nat) (line : String) : Exchange :=
  { Exchange.ofLine
      { nodes := [(["root"], .directory), (["root", "a"], .file 0)], contents := #[Utf8.encode "hello"] } line with
    connection := { id := "0", clientIp := "", peer := {
      inbound := [.data (Utf8.encode line)]
      refusal := fun _ total => if most < total then some (.plain .brokenPipe) else none } } }

/-- The head of the download is too long for the other end, and the page for everything else is not. -/
theorem tells_refused_head :
    (cramped 150 "GET /a HTTP/1.0\n").connection.bytesSent = 0 ∧
      (bareSite.dispatch (cramped 150 "GET /a HTTP/1.0\n")).1 = .ok Status.notFound.code ∧
      ¬ bareSite.PageRefused (cramped 150 "GET /a HTTP/1.0\n") := by
  have hrun : (bareSite.dispatch (cramped 150 "GET /a HTTP/1.0\n")).1 = .ok Status.notFound.code ∧
      (bareSite.dispatch (cramped 150 "GET /a HTTP/1.0\n")).2.wire = Response.notFound.bytes := by
    decide +kernel
  refine ⟨rfl, hrun.1, ?_⟩
  -- the pair is taken apart here, so that the dispatch is evaluated once
  rcases hdispatch : bareSite.dispatch (cramped 150 "GET /a HTTP/1.0\n") with ⟨result, y⟩
  obtain ⟨hresult, hpage⟩ := hdispatch ▸ hrun
  obtain rfl : result = .ok Status.notFound.code := hresult
  have hpage : y.wire = Response.notFound.bytes := hpage
  have hempty : (cramped 150 "GET /a HTTP/1.0\n").wire = [] := rfl
  obtain ⟨sent, hwire, _, _, hiff⟩ := tells_iff rfl hdispatch
  rw [hpage, hempty, List.nil_append] at hwire
  subst hwire
  exact hiff.mp tells_notFound

/-- An other end that takes nothing is sent nothing, and the status says that it was sent the page. -/
theorem not_tells_refused_page :
    (bareSite.dispatch (cramped 0 "GET /b HTTP/1.0\n")).1 = .ok Status.notFound.code ∧
      (bareSite.dispatch (cramped 0 "GET /b HTTP/1.0\n")).2.wire = [] ∧
      (bareSite.entry (cramped 0 "GET /b HTTP/1.0\n")).statusCode = Status.notFound.code ∧
      ¬ Tells Status.notFound.code [] :=
  ⟨by decide +kernel, by decide +kernel, by decide +kernel, not_tells_of_notFound⟩

end Site

end FileExchange
