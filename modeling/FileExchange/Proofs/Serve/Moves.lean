import FileExchange.Proofs.Serve.Answers
import Mathlib.Logic.Relation

/-!
# Moves

What serving can do to an exchange, one elementary change at a time. Every step of serving is a run of such
moves, so that what each move keeps is kept by all that a server does before it writes the access record.
-/

set_option autoImplicit false

namespace FileExchange

open Serving

/-- One elementary change. No move speaks for the access log or closes the connection. -/
inductive Move : Exchange → Exchange → Prop
  | report (x : Exchange) (level : Level) (speaker : Speaker) (message : String)
      (hspeaker : speaker ≠ .access) : Move x { x with toWorld := x.toWorld.log level speaker message }
  | enter (x : Exchange) (phase : Phase) (hphase : phase ≠ .closed) :
      Move x { x with connection := { x.connection with phase } }
  | line (x : Exchange) : Move x { x with connection := x.connection.readLine.2 }
  | body (x : Exchange) (size : Nat) : Move x { x with connection := (x.connection.takeBody size).2 }
  | change (x : Exchange) (tree : Tree) (drawn : Nat) : Move x { x with tree, drawn }
  | send (x : Exchange) (bytes : Bytes) : Move x (sendBytes bytes x).2

/-- A run of moves. -/
abbrev Moves : Exchange → Exchange → Prop :=
  Relation.ReflTransGen Move

namespace Serving

variable {α β : Type}

/-- A step that is a run of moves, wherever it starts. -/
def Walks (m : Serving α) : Prop :=
  ∀ x, Moves x (m x).2

/-! ## Composition -/

theorem walks_pure (a : α) : Walks (pure a) :=
  fun _ => .refl

theorem walks_throw (e : Failure) : Walks (throw e : Serving α) :=
  fun _ => .refl

theorem walks_ask (f : Exchange → Except Failure α) : Walks (ask f) :=
  fun _ => .refl

theorem walks_inspect (f : Exchange → α) : Walks (inspect f) :=
  fun _ => .refl

theorem Walks.attempt {m : Serving α} (hm : Walks m) : Walks (attempt m) :=
  hm

theorem Walks.bind {m : Serving α} {g : α → Serving β} (hm : Walks m) (hg : ∀ a, Walks (g a)) :
    Walks (m >>= g) := by
  intro x
  have hfirst := hm x
  rw [run_bind]
  split
  · rename_i a y hrun
    rw [hrun] at hfirst
    exact hfirst.trans (hg a y)
  · rename_i e y hrun
    rwa [hrun] at hfirst

theorem Walks.discard {m : Serving α} (hm : Walks m) : Walks (discard m : Serving PUnit) := by
  change Walks (m >>= fun _ => pure PUnit.unit)
  exact hm.bind fun _ => walks_pure _

/-! ## Single moves -/

theorem walks_log (level : Level) {speaker : Speaker} (hspeaker : speaker ≠ .access)
    (message : String) : Walks (log level speaker message) :=
  fun x => .single (.report x level speaker message hspeaker)

theorem walks_report (level : Level) {speaker : Speaker} (hspeaker : speaker ≠ .access)
    (message : String) : Walks (report level speaker message) :=
  (walks_inspect _).bind fun _ => walks_log level hspeaker _

theorem walks_enter {phase : Phase} (hphase : phase ≠ .closed) : Walks (enter phase) :=
  fun x => .single (.enter x phase hphase)

theorem walks_readLine : Walks readLine :=
  fun x => .single (.line x)

theorem walks_meddle : Walks meddle := by
  intro x
  rw [meddle, run_change]
  dsimp only
  split
  · exact .refl
  · exact .single (.change x _ x.drawn)

theorem walks_send (bytes : Bytes) : Walks (send bytes) :=
  (walks_enter (by decide)).bind fun _ => walks_meddle.bind fun _ x => .single (.send x bytes)

theorem walks_sendResponse (bytes : Bytes) : Walks (sendResponse bytes) := by
  refine (walks_send bytes).attempt.bind fun result => ?_
  cases result with
  | ok _ => exact walks_pure true
  | error e =>
    cases e with
    | system fault => exact (walks_report _ (by decide) _).bind fun _ => walks_pure false
    | _ => exact walks_throw _

end Serving

/-! ## Handlers -/

namespace FileService

theorem walks_sendLines (f : FileService) (r : LineReader) (most : Nat) :
    Walks (f.sendLines r most) := by
  induction most generalizing r with
  | zero => exact walks_pure ()
  | succ most ih =>
    rw [sendLines]
    refine (walks_inspect _).bind fun next => ?_
    obtain ⟨line?, r'⟩ := next
    cases line? with
    | none => exact walks_pure ()
    | some line => exact (walks_send _).bind fun _ => ih r'

theorem walks_sendPieces {ρ : Type} (read : Tree → ρ → Nat → Bytes × ρ) (chunkSize size : Nat) (r : ρ)
    (written : Nat) : Walks (sendPieces read chunkSize size r written) := by
  generalize hleft : size - written = left
  induction left using Nat.strongRecOn generalizing r written with
  | ind left ih =>
    rw [sendPieces]
    split
    · exact walks_pure written
    · refine (walks_inspect _).bind fun next => ?_
      obtain ⟨piece, r'⟩ := next
      dsimp only
      split
      · exact walks_pure written
      · rename_i hne
        have hpos := List.length_pos_iff.mpr hne
        exact (walks_send piece).bind fun _ => ih _ (by omega) r' (written + piece.length) rfl

theorem walks_reportShrunk (name : String) (size written : Nat) :
    Walks (reportShrunk name size written) := by
  unfold reportShrunk
  split
  · exact walks_report _ (by decide) _
  · exact walks_pure ()

theorem walks_sendText (f : FileService) (p : Path) : Walks (f.sendText p) := by
  refine (walks_ask _).bind fun file => (walks_inspect _).bind fun most => ?_
  refine (walks_send _).bind fun _ => (walks_send _).bind fun _ => ?_
  exact (walks_sendLines f _ _).bind fun _ => walks_send _

theorem walks_sendImage (p : Path) (type : String) : Walks (sendImage p type) := by
  refine (walks_ask _).bind fun file => (walks_inspect _).bind fun bytes => ?_
  exact (walks_send _).bind fun _ => (walks_ask _).bind fun page => walks_send page

theorem walks_sendAttachment (f : FileService) (p : Path) (type : String) :
    Walks (f.sendAttachment p type) := by
  refine (walks_ask _).bind fun file => (walks_inspect _).bind fun size => ?_
  refine (walks_inspect _).bind fun now => (walks_send _).bind fun _ => ?_
  refine (walks_sendPieces _ _ _ _ _).bind fun written => ?_
  exact (walks_reportShrunk _ _ _).bind fun _ => walks_pure written

theorem walks_respond (f : FileService) (p : Path) : Walks (f.respond p) := by
  unfold respond
  split
  · exact walks_sendText f p
  · exact walks_sendImage p _
  · exact (walks_sendAttachment f p _).discard

end FileService

theorem Directory.walks_respondWith (entries : Tree → Except Failure (List Entry)) :
    Walks (respondWith entries) :=
  (walks_ask _).bind fun _ => (walks_send _).bind fun _ => walks_send _

/-! ## Uploads -/

namespace World

/-- Creating a temporary file changes the tree and draws random names. -/
theorem createPart_frame (w : World) (directory : Path) (name : String) (tries : Nat) :
    ∃ tree drawn, (w.createPart directory name tries).2 = { w with tree, drawn } := by
  induction tries generalizing w with
  | zero => exact ⟨_, _, rfl⟩
  | succ tries ih =>
    simp only [createPart]
    split
    · exact ⟨_, _, rfl⟩
    · split
      · exact ih { w with drawn := w.drawn + 1 }
      · exact ⟨_, _, rfl⟩

end World

namespace Upload

theorem walks_makeDirectories (p : Path) : Walks (makeDirectories p) :=
  fun x => .single (.change x _ x.drawn)

theorem walks_createPart (u : UploadTarget) : Walks (createPart u) := by
  intro x
  obtain ⟨tree, drawn, hframe⟩ := x.toWorld.createPart_frame u.directory u.name World.tokenTries
  simp only [createPart, hframe]
  exact .single (.change x tree drawn)

theorem walks_fill (part : World.PartFile) (chunkSize : Nat) : Walks (fill part chunkSize) := by
  intro x
  let y : Exchange := { x with connection := (x.connection.takeBody chunkSize).2 }
  have hbody : Move x y := .body x chunkSize
  have hchange : Move y (fill part chunkSize x).2 := by
    simp only [fill]
    split
    · exact .change y _ x.drawn
    · exact .change y _ x.drawn
  exact .head hbody (.single hchange)

theorem walks_publish (part : World.PartFile) (u : UploadTarget) : Walks (publish part u) := by
  intro x
  unfold publish
  split
  · exact .single (.change x _ x.drawn)
  · exact .refl

theorem walks_receive (directory : Path) (chunkSize : Nat) (name : String) :
    Walks (receive directory chunkSize name) := by
  refine (walks_ask _).bind fun u => (walks_makeDirectories _).bind fun _ => ?_
  refine (walks_createPart u).bind fun part => (walks_fill part _).bind fun received => ?_
  refine (walks_publish part u).bind fun _ => (walks_report _ (by decide) _).bind fun _ => ?_
  exact walks_pure received

end Upload

/-! ## Answers -/

namespace Site

theorem walks_sendNotFound : Walks sendNotFound :=
  (walks_sendResponse _).bind fun _ => walks_pure _

theorem walks_answerFault (target : String) (fault : Fault) : Walks (answerFault target fault) := by
  refine (walks_inspect _).bind fun sent => ?_
  split
  · exact (walks_report _ (by decide) _).bind fun _ => walks_sendNotFound
  · exact (walks_report _ (by decide) _).bind fun _ => walks_pure _

theorem walks_serve (s : Site) (p : Path) (target : String) : Walks (s.serve p target) := by
  refine (walks_ask _).bind fun isDirectory => ?_
  split
  · exact Directory.walks_respondWith _
  · exact (walks_ask _).bind fun _ => s.files.walks_respond p

theorem walks_answerFound (s : Site) (p : Path) (target : String) :
    Walks (s.answerFound p target) := by
  refine (walks_serve s p target).attempt.bind fun result => ?_
  cases result with
  | ok _ => exact walks_pure _
  | error e =>
    cases e with
    | system fault => exact walks_answerFault target fault
    | _ => exact walks_throw _

/-- The one report about a target is the dispatcher's. -/
theorem speaker_of_resolve {s : Site} {t : Tree} {target : String} {p : Option Path} {r : Record}
    (h : s.resolve t target = .ok (p, some r)) : r.speaker = .dispatcher := by
  unfold resolve at h
  split at h
  · split at h
    · cases h
    · cases h
      rfl
  · cases h
  · cases h

theorem walks_locate (s : Site) (target : String) : Walks (s.locate target) := by
  intro x
  unfold locate
  cases hresolve : s.resolve x.tree target with
  | error e =>
    rw [run_bind_error (by rw [run_ask, hresolve])]
  | ok found =>
    obtain ⟨p, record⟩ := found
    rw [run_bind_ok (by rw [run_ask, hresolve])]
    cases record with
    | none => exact .refl
    | some r =>
      have hspeaker : r.speaker ≠ .access := by
        rw [speaker_of_resolve hresolve]
        decide
      exact ((walks_log r.level hspeaker r.message).bind fun _ => walks_pure p) x

theorem walks_answerGet (s : Site) (target : String) : Walks (s.answerGet target) := by
  refine (walks_locate s target).bind fun p? => ?_
  cases p? with
  | none => exact walks_sendNotFound
  | some p =>
    refine (walks_ask _).bind fun found => ?_
    split
    · exact walks_answerFound s p target
    · exact walks_sendNotFound

theorem walks_answerUpload (s : Site) (name : String) : Walks (s.answerUpload name) := by
  refine (Upload.walks_receive s.uploads _ name).attempt.bind fun result => ?_
  cases result with
  | ok _ => exact walks_pure _
  | error e =>
    cases e with
    | refused refusal => exact (walks_report _ (by decide) _).bind fun _ => walks_pure _
    | system fault =>
      refine (walks_inspect _).bind fun received => ?_
      exact (walks_report _ (by decide) _).bind fun _ => walks_pure _
    | _ => exact walks_throw _

theorem walks_answerLine (s : Site) (line : Option Bytes) : Walks (s.answerLine line) := by
  unfold answerLine
  split
  · exact walks_sendNotFound.bind fun _ => walks_pure _
  · refine (walks_enter (by decide)).bind fun _ => ?_
    split
    · exact (walks_answerUpload s _).bind fun _ => walks_pure _
    · exact (walks_answerGet s _).bind fun _ => walks_pure _

/-- All that is done before the access record is written is a run of moves. -/
theorem walks_answer (s : Site) : Walks s.answer := by
  refine walks_readLine.attempt.bind fun line => ?_
  cases line with
  | ok line => exact walks_answerLine s line
  | error e =>
    cases e with
    | system fault => exact (walks_report _ (by decide) _).bind fun _ => walks_pure _
    | lineTooLong limit =>
      refine (walks_report _ (by decide) _).bind fun _ => ?_
      exact walks_sendNotFound.bind fun _ => walks_pure _
    | _ => exact walks_throw _

end Site

end FileExchange
