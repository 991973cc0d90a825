import FileExchange.Proofs.Serve.Handlers

/-!
# Runs that agree

Two exchanges that differ in something that serving does not depend on: a relation between them that every
step keeps, with the same result on both sides. What is reported may differ; what is sent, what is stored
and the outcome may not.
-/

set_option autoImplicit false

namespace FileExchange

open Serving

namespace Serving

variable {α β : Type} {R : Exchange → Exchange → Prop}

/-! ## Steps that agree -/

/-- The two steps give the same result and leave related exchanges. -/
def AgreeAt (R : Exchange → Exchange → Prop) (m m' : Serving α) (x x' : Exchange) : Prop :=
  (m x).1 = (m' x').1 ∧ R (m x).2 (m' x').2

/-- The two steps agree wherever the exchanges are related. -/
def Agree (R : Exchange → Exchange → Prop) (m m' : Serving α) : Prop :=
  ∀ ⦃x x'⦄, R x x' → AgreeAt R m m' x x'

theorem agree_pure (a : α) : Agree R (pure a) (pure a) :=
  fun _ _ h => ⟨rfl, h⟩

theorem agree_throw (e : Failure) : Agree R (throw e : Serving α) (throw e) :=
  fun _ _ h => ⟨rfl, h⟩

theorem agree_ask {f f' : Exchange → Except Failure α} (h : ∀ ⦃x x'⦄, R x x' → f x = f' x') :
    Agree R (ask f) (ask f') :=
  fun _ _ hx => ⟨h hx, hx⟩

theorem agree_inspect {f f' : Exchange → α} (h : ∀ ⦃x x'⦄, R x x' → f x = f' x') :
    Agree R (inspect f) (inspect f') :=
  fun _ _ hx => ⟨congrArg Except.ok (h hx), hx⟩

section Composition

variable {m m' : Serving α} {g g' : α → Serving β} {x x' : Exchange}

theorem AgreeAt.bind (hm : AgreeAt R m m' x x') (hg : ∀ a, Agree R (g a) (g' a)) :
    AgreeAt R (m >>= g) (m' >>= g') x x' := by
  obtain ⟨hresult, hleft⟩ := hm
  rw [AgreeAt, run_bind, run_bind]
  cases hrun : m x with
  | mk r y =>
    cases hrun' : m' x' with
    | mk r' y' =>
      rw [hrun, hrun'] at hresult hleft
      cases hresult
      cases r with
      | ok a => exact hg a hleft
      | error e => exact ⟨rfl, hleft⟩

theorem Agree.bind (hm : Agree R m m') (hg : ∀ a, Agree R (g a) (g' a)) :
    Agree R (m >>= g) (m' >>= g') :=
  fun _ _ hx => (hm hx).bind hg

theorem AgreeAt.attempt (hm : AgreeAt R m m' x x') : AgreeAt R (attempt m) (attempt m') x x' :=
  ⟨congrArg Except.ok hm.1, hm.2⟩

theorem Agree.attempt (hm : Agree R m m') : Agree R (attempt m) (attempt m') :=
  fun _ _ hx => (hm hx).attempt

theorem Agree.discard (hm : Agree R m m') : Agree R (discard m : Serving PUnit) (discard m') := by
  change Agree R (m >>= fun _ => pure PUnit.unit) (m' >>= fun _ => pure PUnit.unit)
  exact hm.bind fun _ => agree_pure _

end Composition

/-! ## Steps of the world alone -/

/-- A step that neither looks at the connection nor changes it. -/
def onWorld (g : World → Except Failure α × World) : Serving α :=
  fun x => ((g x.toWorld).1, { x with toWorld := (g x.toWorld).2 })

/-- The journal is written and never read. -/
def IgnoresJournal (g : World → Except Failure α × World) : Prop :=
  ∀ w journal, g { w with journal } = ((g w).1, { (g w).2 with journal })

/-! ## Relations that every step keeps -/

/-- Related exchanges have one world, their journals apart, and sending keeps them related. -/
structure Bisimilar (R : Exchange → Exchange → Prop) : Prop where
  world : ∀ ⦃x x'⦄, R x x' → ∃ journal, x'.toWorld = { x.toWorld with journal }
  settle : ∀ ⦃x x'⦄, R x x' → ∀ w journal,
    R { x with toWorld := w } { x' with toWorld := { w with journal } }
  enter : ∀ phase, Agree R (enter phase) (enter phase)
  send : ∀ bytes, Agree R (send bytes) (send bytes)
  count : ∀ ⦃x x'⦄, R x x' → x.connection.bytesSent = x'.connection.bytesSent
  meddled : ∀ ⦃x x'⦄, R x x' → x.connection.peer.meddledSize = x'.connection.peer.meddledSize

namespace Bisimilar

variable (hR : Bisimilar R)

include hR

theorem tree_eq {x x' : Exchange} (hx : R x x') : x.tree = x'.tree := by
  obtain ⟨journal, hworld⟩ := hR.world hx
  exact (congrArg World.tree hworld).symm

theorem clock_eq {x x' : Exchange} (hx : R x x') : x.clock = x'.clock := by
  obtain ⟨journal, hworld⟩ := hR.world hx
  exact (congrArg World.clock hworld).symm

theorem agree_onWorld {g : World → Except Failure α × World} (hg : IgnoresJournal g) :
    Agree R (onWorld g) (onWorld g) := by
  intro x x' hx
  obtain ⟨journal, hworld⟩ := hR.world hx
  have hrun : g x'.toWorld = ((g x.toWorld).1, { (g x.toWorld).2 with journal }) := by
    rw [hworld, hg]
  refine ⟨(congrArg Prod.fst hrun).symm, ?_⟩
  have hleft := hR.settle hx (g x.toWorld).2 journal
  simp only [onWorld, hrun]
  exact hleft

theorem rejournal {x x' : Exchange} (hx : R x x') (journal journal' : Journal) :
    R { x with toWorld := { x.toWorld with journal } }
      { x' with toWorld := { x'.toWorld with journal := journal' } } := by
  obtain ⟨_, hworld⟩ := hR.world hx
  rw [hworld]
  exact hR.settle hx { x.toWorld with journal } journal'

/-- Reports may differ. -/
theorem agree_log (level level' : Level) (speaker speaker' : Speaker) (message message' : String) :
    Agree R (log level speaker message) (log level' speaker' message') :=
  fun _ _ hx => ⟨rfl, hR.rejournal hx _ _⟩

theorem agree_report (level : Level) (speaker : Speaker) (message message' : String) :
    Agree R (report level speaker message) (report level speaker message') :=
  fun _ _ hx => ⟨rfl, hR.rejournal hx _ _⟩

/-- What a report is about may differ as well. -/
theorem agree_reportOf (f : Exchange → β) (level : Level) (speaker : Speaker) (message : β → String)
    {m m' : Serving α} (hm : Agree R m m') :
    Agree R (inspect f >>= fun b => report level speaker (message b) >>= fun _ => m)
      (inspect f >>= fun b => report level speaker (message b) >>= fun _ => m') := by
  intro x x' hx
  rw [AgreeAt, run_bind_ok (run_inspect f x), run_bind_ok (run_inspect f x')]
  exact ((hR.agree_report level speaker (message (f x)) (message (f x'))).bind fun _ => hm) hx

theorem agree_askTree (f : Tree → Except Failure α) :
    Agree R (ask fun x => f x.tree) (ask fun x => f x.tree) :=
  agree_ask fun _ _ hx => congrArg f (hR.tree_eq hx)

theorem agree_inspectTree (f : Tree → α) :
    Agree R (inspect fun x => f x.tree) (inspect fun x => f x.tree) :=
  agree_inspect fun _ _ hx => congrArg f (hR.tree_eq hx)

theorem agree_sendResponse (bytes : Bytes) : Agree R (sendResponse bytes) (sendResponse bytes) := by
  refine (hR.send bytes).attempt.bind fun result => ?_
  cases result with
  | ok _ => exact agree_pure true
  | error e =>
    cases e with
    | system fault => exact (hR.agree_report _ _ _ _).bind fun _ => agree_pure false
    | _ => exact agree_throw _

end Bisimilar

end Serving

/-! ## Handlers -/

namespace FileService

variable {R : Exchange → Exchange → Prop} (hR : Bisimilar R)

include hR

theorem agree_sendHead (r : Response) : Agree R (sendHead r) (sendHead r) :=
  hR.send r.head

theorem agree_sendLines (f : FileService) (n : Nat) (r : LineReader) (most : Nat) :
    Agree R (f.sendLines r most) ({ f with chunkSize := n }.sendLines r most) := by
  induction most generalizing r with
  | zero => exact agree_pure ()
  | succ most ih =>
    rw [sendLines, sendLines]
    refine (hR.agree_inspectTree fun t => r.next t).bind fun next => ?_
    obtain ⟨line?, r'⟩ := next
    cases line? with
    | none => exact agree_pure ()
    | some line => exact (hR.send _).bind fun _ => ih r'

theorem agree_sendPieces {ρ : Type} (read : Tree → ρ → Nat → Bytes × ρ) (chunkSize size : Nat) (r : ρ)
    (written : Nat) :
    Agree R (sendPieces read chunkSize size r written) (sendPieces read chunkSize size r written) := by
  -- By what is left to send, which every piece that is not empty makes less.
  generalize hleft : size - written = left
  induction left using Nat.strongRecOn generalizing r written with
  | ind left ih =>
    rw [sendPieces]
    split
    · exact agree_pure written
    · refine (hR.agree_inspectTree fun t => read t r (min chunkSize (size - written))).bind fun next => ?_
      obtain ⟨piece, r'⟩ := next
      dsimp only
      split
      · exact agree_pure written
      · rename_i hne
        have hpos := List.length_pos_iff.mpr hne
        exact (hR.send piece).bind fun _ => ih _ (by omega) r' (written + piece.length) rfl

theorem agree_sendText (f : FileService) (n : Nat) (p : Path) :
    Agree R (f.sendText p) ({ f with chunkSize := n }.sendText p) := by
  refine (hR.agree_askTree fun t => t.openFile p).bind fun file => ?_
  refine (agree_inspect fun x x' hx => ?_).bind fun most => ?_
  · rw [lengthBound, lengthBound, hR.tree_eq hx, hR.meddled hx]
  · refine (agree_sendHead hR _).bind fun _ => (hR.send _).bind fun _ => ?_
    exact (agree_sendLines hR f n _ _).bind fun _ => hR.send _

theorem agree_sendImage (p : Path) (type : String) : Agree R (sendImage p type) (sendImage p type) := by
  refine (hR.agree_askTree fun t => t.openFile p).bind fun file => ?_
  refine (hR.agree_inspectTree fun t => t.content file).bind fun bytes => ?_
  refine (agree_sendHead hR _).bind fun _ => ?_
  exact (agree_ask fun _ _ _ => rfl).bind fun page => hR.send page

theorem agree_reportShrunk (name : String) (size written : Nat) :
    Agree R (reportShrunk name size written) (reportShrunk name size written) := by
  unfold reportShrunk
  split
  · exact hR.agree_report _ _ _ _
  · exact agree_pure ()

end FileService

theorem Directory.agree_respondWith {R : Exchange → Exchange → Prop} (hR : Bisimilar R)
    (entries : Tree → Except Failure (List Entry)) : Agree R (respondWith entries) (respondWith entries) := by
  refine (hR.agree_askTree entries).bind fun _ => ?_
  exact (FileService.agree_sendHead hR _).bind fun _ => hR.send _

/-! ## Two sizes of pieces -/

/-- The loops that go piece by piece agree although their pieces differ in size. -/
structure Serving.Divisible (R : Exchange → Exchange → Prop) (n n' : Nat) : Prop where
  pieces : ∀ file size, Agree R
    (FileService.sendPieces (fun t r k => r.read t k) n size ({ file } : Reader) 0)
    (FileService.sendPieces (fun t r k => r.read t k) n' size ({ file } : Reader) 0)
  fill : ∀ part, Agree R (Upload.fill part n) (Upload.fill part n')

/-- The same site, sending and receiving in pieces of another size. -/
def Site.rechunked (s : Site) (n : Nat) : Site :=
  { s with files := { s.files with chunkSize := n } }

theorem Site.rechunked_self (s : Site) : s.rechunked s.files.chunkSize = s := rfl

theorem Site.rechunked_written (s : Site) (n : Nat) (target : String) :
    (s.rechunked n).written target = s.written target := rfl

theorem Site.rechunked_realPath (s : Site) (n : Nat) (t : Tree) (p : Path) :
    (s.rechunked n).realPath t p = s.realPath t p := rfl

theorem Site.rechunked_resolve (s : Site) (n : Nat) (t : Tree) (target : String) :
    (s.rechunked n).resolve t target = s.resolve t target := by
  unfold resolve
  rw [rechunked_written, rechunked_realPath]
  cases s.realPath t (s.written target) with
  | ok p => rfl
  | error e => cases e <;> rfl

theorem Site.rechunked_locate (s : Site) (n : Nat) (target : String) :
    (s.rechunked n).locate target = s.locate target := by
  unfold locate
  simp only [rechunked_resolve]

namespace Upload

/-! ## Storing -/

theorem ignoresJournal_createPart (directory : Path) (name : String) (tries : Nat) :
    IgnoresJournal fun w => w.createPart directory name tries := by
  intro w journal
  induction tries generalizing w with
  | zero => rfl
  | succ tries ih =>
    simp only [World.createPart]
    split
    · rfl
    · split
      · exact ih { w with drawn := w.drawn + 1 }
      · rfl

theorem publish_eq (part : World.PartFile) (u : UploadTarget) :
    publish part u = onWorld fun w =>
      match w.tree.rename part.path u.path with
      | .ok tree => (.ok (), { w with tree })
      | .error e => (.error e, w) := by
  funext x
  unfold publish onWorld
  dsimp only
  cases x.tree.rename part.path u.path <;> rfl

variable {R : Exchange → Exchange → Prop} (hR : Bisimilar R)

include hR

theorem agree_makeDirectories (p : Path) : Agree R (makeDirectories p) (makeDirectories p) :=
  hR.agree_onWorld (g := fun w => ((w.tree.ensureDirectories p).1,
    { w with tree := (w.tree.ensureDirectories p).2 })) fun _ _ => rfl

theorem agree_createPart (u : UploadTarget) : Agree R (createPart u) (createPart u) :=
  hR.agree_onWorld (ignoresJournal_createPart u.directory u.name World.tokenTries)

theorem agree_publish (part : World.PartFile) (u : UploadTarget) :
    Agree R (publish part u) (publish part u) := by
  rw [publish_eq]
  refine hR.agree_onWorld fun w journal => ?_
  dsimp only
  cases w.tree.rename part.path u.path <;> rfl

theorem agree_receive {n n' : Nat} (hn : Divisible R n n') (directory : Path) (name : String) :
    Agree R (receive directory n name) (receive directory n' name) := by
  refine (hR.agree_askTree fun t => target t directory name).bind fun u => ?_
  refine (agree_makeDirectories hR _).bind fun _ => (agree_createPart hR u).bind fun part => ?_
  refine (hn.fill part).bind fun received => (agree_publish hR part u).bind fun _ => ?_
  exact (hR.agree_report _ _ _ _).bind fun _ => agree_pure received

end Upload

/-! ## Answers -/

namespace Site

variable {R : Exchange → Exchange → Prop} (hR : Bisimilar R)

include hR

theorem agree_sendNotFound : Agree R sendNotFound sendNotFound :=
  (hR.agree_sendResponse _).bind fun _ => agree_pure _

theorem agree_answerFault (target : String) (fault : Fault) :
    Agree R (answerFault target fault) (answerFault target fault) := by
  refine (agree_inspect hR.count).bind fun sent => ?_
  split
  · exact (hR.agree_report _ _ _ _).bind fun _ => agree_sendNotFound hR
  · exact (hR.agree_report _ _ _ _).bind fun _ => agree_pure _

theorem agree_recordAccess (s s' : Site) (request : Option Request) (outcome : Outcome) :
    Agree R (s.recordAccess request outcome) (s'.recordAccess request outcome) := by
  intro x x' hx
  obtain ⟨journal, hrecord⟩ := run_recordAccess s request outcome x
  obtain ⟨journal', hrecord'⟩ := run_recordAccess s' request outcome x'
  rw [AgreeAt, hrecord, hrecord']
  exact ⟨rfl, hR.rejournal hx journal journal'⟩

theorem agree_locate (s : Site) (target : String) : Agree R (s.locate target) (s.locate target) := by
  refine (hR.agree_askTree fun t => s.resolve t target).bind fun found => ?_
  obtain ⟨p, record⟩ := found
  cases record with
  | none => exact (agree_pure ()).bind fun _ => agree_pure p
  | some r => exact (hR.agree_log _ _ _ _ _ _).bind fun _ => agree_pure p

variable {s : Site} {n : Nat} (hn : Divisible R s.files.chunkSize n)

include hn

theorem agree_respond (p : Path) : Agree R (s.files.respond p) ((s.rechunked n).files.respond p) := by
  unfold FileService.respond
  split
  · exact FileService.agree_sendText hR s.files n p
  · exact FileService.agree_sendImage hR p _
  · refine Agree.discard ?_
    refine (hR.agree_askTree fun t => t.openFile p).bind fun file => ?_
    refine (hR.agree_inspectTree fun t => (t.content file).length).bind fun size => ?_
    refine (agree_inspect fun x x' hx => congrArg Clock.now (hR.clock_eq hx)).bind fun now => ?_
    refine (FileService.agree_sendHead hR _).bind fun _ => (hn.pieces file size).bind fun written => ?_
    exact (FileService.agree_reportShrunk hR _ _ _).bind fun _ => agree_pure written

theorem agree_serve (p : Path) (target : String) :
    Agree R (s.serve p target) ((s.rechunked n).serve p target) := by
  refine (hR.agree_askTree fun t => s.isDirectory t p).bind fun isDirectory => ?_
  cases isDirectory with
  | true => exact Directory.agree_respondWith hR fun t => s.entries t p target
  | false =>
    rw [if_neg Bool.false_ne_true, if_neg Bool.false_ne_true]
    exact (agree_ask fun _ _ _ => rfl).bind fun _ => agree_respond hR hn p

theorem agree_answerFound (p : Path) (target : String) :
    Agree R (s.answerFound p target) ((s.rechunked n).answerFound p target) := by
  refine (agree_serve hR hn p target).attempt.bind fun result => ?_
  cases result with
  | ok _ => exact agree_pure _
  | error e =>
    cases e with
    | system fault => exact agree_answerFault hR target fault
    | _ => exact agree_throw _

theorem agree_answerGet (target : String) :
    Agree R (s.answerGet target) ((s.rechunked n).answerGet target) := by
  rw [answerGet, answerGet, rechunked_locate]
  refine (agree_locate hR s target).bind fun p? => ?_
  cases p? with
  | none => exact agree_sendNotFound hR
  | some p =>
    refine (hR.agree_askTree fun t => s.pathExists t p).bind fun found => ?_
    cases found with
    | true => exact agree_answerFound hR hn p target
    | false => exact agree_sendNotFound hR

theorem agree_answerUpload (name : String) :
    Agree R (s.answerUpload name) ((s.rechunked n).answerUpload name) := by
  refine (Upload.agree_receive hR hn s.uploads name).attempt.bind fun result => ?_
  cases result with
  | ok _ => exact agree_pure _
  | error e =>
    cases e with
    | refused refusal => exact (hR.agree_report _ _ _ _).bind fun _ => agree_pure _
    | system fault => exact hR.agree_reportOf _ _ _ _ (agree_pure none)
    | _ => exact agree_throw _

theorem agree_answerLine (line : Option Bytes) :
    Agree R (s.answerLine line) ((s.rechunked n).answerLine line) := by
  unfold answerLine
  split
  · exact (agree_sendNotFound hR).bind fun _ => agree_pure _
  · rename_i request _
    refine (hR.enter _).bind fun _ => ?_
    split
    · exact (agree_answerUpload hR hn _).bind fun _ => agree_pure _
    · exact (agree_answerGet hR hn _).bind fun _ => agree_pure _

/-! ## Dispatching -/

variable {x x' : Exchange}

/-- Reading the line is where the exchanges may start to be related. -/
theorem agreeAt_answer (hread : AgreeAt R readLine readLine x x') :
    AgreeAt R s.answer (s.rechunked n).answer x x' := by
  refine hread.attempt.bind fun line => ?_
  cases line with
  | ok line => exact agree_answerLine hR hn line
  | error e =>
    cases e with
    | system fault => exact (hR.agree_report _ _ _ _).bind fun _ => agree_pure _
    | lineTooLong limit =>
      refine (hR.agree_report _ _ _ _).bind fun _ => ?_
      exact (agree_sendNotFound hR).bind fun _ => agree_pure _
    | _ => exact agree_throw _

theorem agreeAt_dispatch (hread : AgreeAt R readLine readLine x x') :
    AgreeAt R s.dispatch (s.rechunked n).dispatch x x' := by
  refine (agreeAt_answer hR hn hread).attempt.bind fun result => ?_
  cases result with
  | ok answered =>
    obtain ⟨request, outcome⟩ := answered
    exact (agree_recordAccess hR _ _ _ _).bind fun _ => agree_pure _
  | error e => exact (agree_recordAccess hR _ _ _ _).bind fun _ => agree_throw e

end Site

end FileExchange
