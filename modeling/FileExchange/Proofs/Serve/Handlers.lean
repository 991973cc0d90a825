import FileExchange.Proofs.Serve.Answers
import FileExchange.Proofs.Serve.Uploads

/-!
# Handlers whose sends may fail

Any send may fail and others may change the tree before any send. Until a send fails the steps of serving
do what they would do for an other end that takes everything, and what a handler sends starts with a head.
-/

set_option autoImplicit false

namespace FileExchange

namespace Peer

/-- The same other end, were it to take everything. -/
def willing (p : Peer) : Peer :=
  { p with closed := false, refusal := fun _ _ => none }

theorem send_cases (p : Peer) (bytes : Bytes) :
    (∃ q, p.send bytes = (.ok (), q) ∧ q.sends = p.sends.push bytes) ∨
      ∃ fault q, p.send bytes = (.error fault, q) ∧ q.sends = p.sends := by
  unfold send
  split
  · exact Or.inr ⟨_, _, rfl, rfl⟩
  · dsimp only
    split
    · exact Or.inr ⟨_, _, rfl, rfl⟩
    · exact Or.inl ⟨_, rfl, rfl⟩

theorem send_willing {p q : Peer} {bytes : Bytes} (h : p.send bytes = (.ok (), q)) :
    p.closed = false ∧ p.willing.send bytes = (.ok (), q.willing) := by
  unfold send at h
  split at h
  · cases h
  · rename_i hopen
    dsimp only at h
    split at h
    · cases h
    · cases h
      exact ⟨Bool.eq_false_iff.mpr hopen, rfl⟩

end Peer

namespace Exchange

/-- What has been sent, one entry for each send. -/
def sends (x : Exchange) : List Bytes :=
  x.connection.peer.sends.toList

/-- The same exchange with an other end that takes everything. -/
def willing (x : Exchange) : Exchange :=
  { x with connection := { x.connection with peer := x.connection.peer.willing } }

/-- Some sends have succeeded, and their bytes have been counted. -/
structure Sent (x y : Exchange) (new : List Bytes) : Prop where
  sends : y.sends = x.sends ++ new
  count : y.connection.bytesSent = x.connection.bytesSent + new.flatten.length

@[simp] theorem sends_willing (x : Exchange) : x.willing.sends = x.sends := rfl

theorem Sent.nothing (x : Exchange) : Sent x x [] :=
  ⟨(List.append_nil _).symm, rfl⟩

theorem Sent.trans {x y z : Exchange} {first second : List Bytes} (h : Sent x y first)
    (h' : Sent y z second) : Sent x z (first ++ second) := by
  refine ⟨?_, ?_⟩
  · rw [h'.sends, h.sends, List.append_assoc]
  · rw [h'.count, h.count, List.flatten_append, List.length_append, Nat.add_assoc]

theorem Sent.prefix {x y : Exchange} {new : List Bytes} (h : Sent x y new) : x.sends <+: y.sends :=
  ⟨new, h.sends.symm⟩

end Exchange

namespace Serving

open Exchange

variable {α β : Type} {x : Exchange}

/-! ## Steps that send nothing -/

def Silent (m : Serving α) : Prop :=
  ∀ x, Sent x (m x).2 []

theorem silent_ask (f : Exchange → Except Failure α) : Silent (ask f) :=
  Sent.nothing

theorem silent_inspect (f : Exchange → α) : Silent (inspect f) :=
  Sent.nothing

theorem silent_pure (a : α) : Silent (pure a) :=
  Sent.nothing

theorem silent_report (level : Level) (speaker : Speaker) (message : String) :
    Silent (report level speaker message) :=
  fun _ => ⟨(List.append_nil _).symm, rfl⟩

theorem Silent.bind {m : Serving α} {g : α → Serving β} (hm : Silent m) (hg : ∀ a, Silent (g a)) :
    Silent (m >>= g) := by
  intro x
  have hfirst := hm x
  rw [run_bind]
  split
  · rename_i a y hrun
    rw [hrun] at hfirst
    exact hfirst.trans (hg a y)
  · rename_i e y hrun
    rwa [hrun] at hfirst

/-! ## Steps up to a failing send -/

/-- The step goes as it would if every send succeeded, or it ends with a send that fails. -/
structure Steady (m : Serving α) : Prop where
  grows : ∀ x, ∃ new, Sent x (m x).2 new
  follows : ∀ x, m x.willing = ((m x).1, (m x).2.willing) ∨
    (∃ fault, (m x).1 = .error (.system fault)) ∧ (m x).2.sends <+: (m x.willing).2.sends

theorem Steady.sends_prefix {m : Serving α} (h : Steady m) (x : Exchange) :
    (m x).2.sends <+: (m x.willing).2.sends := by
  rcases h.follows x with hsame | ⟨_, hprefix⟩
  · rw [hsame]
    exact List.prefix_refl _
  · exact hprefix

theorem steady_pure (a : α) : Steady (pure a) :=
  ⟨fun x => ⟨[], Sent.nothing x⟩, fun _ => Or.inl rfl⟩

theorem steady_ask {f : Exchange → Except Failure α} (h : ∀ x : Exchange, f x.willing = f x) :
    Steady (ask f) := by
  refine ⟨fun x => ⟨[], Sent.nothing x⟩, fun x => Or.inl ?_⟩
  rw [run_ask, run_ask, h]

theorem steady_inspect {f : Exchange → α} (h : ∀ x : Exchange, f x.willing = f x) :
    Steady (inspect f) := by
  refine ⟨fun x => ⟨[], Sent.nothing x⟩, fun x => Or.inl ?_⟩
  rw [run_inspect, run_inspect, h]

theorem steady_report (level : Level) (speaker : Speaker) (message : String) :
    Steady (report level speaker message) :=
  ⟨fun x => ⟨[], silent_report level speaker message x⟩, fun _ => Or.inl rfl⟩

theorem Steady.bind {m : Serving α} {g : α → Serving β} (hm : Steady m) (hg : ∀ a, Steady (g a)) :
    Steady (m >>= g) := by
  refine ⟨fun x => ?_, fun x => ?_⟩
  · obtain ⟨first, hfirst⟩ := hm.grows x
    rw [run_bind]
    split
    · rename_i a y hrun
      rw [hrun] at hfirst
      obtain ⟨second, hsecond⟩ := (hg a).grows y
      exact ⟨first ++ second, hfirst.trans hsecond⟩
    · rename_i e y hrun
      rw [hrun] at hfirst
      exact ⟨first, hfirst⟩
  · rcases hm.follows x with hsame | ⟨⟨fault, hfault⟩, hprefix⟩
    · cases hrun : m x with
      | mk r y =>
        rw [hrun] at hsame
        cases r with
        | ok a =>
          rw [run_bind_ok hrun, run_bind_ok hsame]
          exact (hg a).follows y
        | error e =>
          rw [run_bind_error hrun, run_bind_error hsame]
          exact Or.inl rfl
    · have hrun : m x = (.error (.system fault), (m x).2) := Prod.ext hfault rfl
      rw [run_bind_error hrun]
      refine Or.inr ⟨⟨fault, rfl⟩, hprefix.trans ?_⟩
      -- what follows the step for the willing other end only adds to its sends
      rw [run_bind]
      split
      · rename_i a y hwilling
        obtain ⟨more, hmore⟩ := (hg a).grows y
        rw [hwilling]
        exact hmore.prefix
      · rename_i e y hwilling
        simp [hwilling]

theorem steady_discard {m : Serving α} (hm : Steady m) : Steady (discard m : Serving PUnit) := by
  change Steady (m >>= fun _ => pure PUnit.unit)
  exact hm.bind fun _ => steady_pure _

/-! ## Single sends -/

/-- The exchange just before the bytes go out. -/
def beforeSend (x : Exchange) : Exchange :=
  { x with
    tree := if x.connection.peer.closed then x.tree else x.tree.applyAll x.connection.peer.dueEdits
    connection := { x.connection with phase := .writing } }

theorem run_send_eq (bytes : Bytes) (x : Exchange) : send bytes x = sendBytes bytes (beforeSend x) := by
  have hrun : send bytes x = sendBytes bytes (meddle (enter .writing x).2).2 := rfl
  rw [hrun, run_enter, meddle, run_change]
  cases hclosed : x.connection.peer.closed <;> simp [beforeSend, hclosed]

theorem send_cases (bytes : Bytes) (x : Exchange) :
    (∃ y, send bytes x = (.ok (), y) ∧ Sent x y [bytes]) ∨
      ∃ fault y, send bytes x = (.error (.system fault), y) ∧ Sent x y [] := by
  rw [run_send_eq, sendBytes]
  have hpeer : (beforeSend x).connection.peer = x.connection.peer := rfl
  rw [hpeer]
  rcases x.connection.peer.send_cases bytes with ⟨q, hsend, hsends⟩ | ⟨fault, q, hsend, hsends⟩
  · rw [hsend]
    refine Or.inl ⟨_, rfl, ?_, ?_⟩
    · simp [Exchange.sends, hsends]
    · simp [beforeSend]
  · rw [hsend]
    refine Or.inr ⟨fault, _, rfl, ?_, rfl⟩
    simp [Exchange.sends, hsends]

theorem beforeSend_willing {x : Exchange} (h : x.connection.peer.closed = false) :
    beforeSend x.willing = (beforeSend x).willing := by
  simp only [beforeSend, h]
  rfl

/-- A send that succeeds would do the same for the willing other end. -/
theorem send_willing {bytes : Bytes} {x y : Exchange} (h : send bytes x = (.ok (), y)) :
    send bytes x.willing = (.ok (), y.willing) := by
  rw [run_send_eq, sendBytes] at h
  split at h
  · rename_i q hsend
    cases h
    obtain ⟨hopen, hwilling⟩ := Peer.send_willing hsend
    have hpeer : (beforeSend x).willing.connection.peer.send bytes = (.ok (), q.willing) := hwilling
    rw [run_send_eq, beforeSend_willing (x := x) hopen, sendBytes, hpeer]
    rfl
  · cases h

theorem steady_send (bytes : Bytes) : Steady (send bytes) := by
  refine ⟨fun x => ?_, fun x => ?_⟩
  · rcases send_cases bytes x with ⟨y, hrun, hsent⟩ | ⟨fault, y, hrun, hsent⟩
    · rw [hrun]
      exact ⟨_, hsent⟩
    · rw [hrun]
      exact ⟨_, hsent⟩
  · rcases send_cases bytes x with ⟨y, hrun, hsent⟩ | ⟨fault, y, hrun, hsent⟩
    · rw [send_willing hrun, hrun]
      exact Or.inl rfl
    · refine Or.inr ⟨⟨fault, by rw [hrun]⟩, ?_⟩
      have hnone : (send bytes x).2.sends = x.willing.sends := by
        rw [hrun, hsent.sends, List.append_nil, sends_willing]
      rw [hnone]
      rcases send_cases bytes x.willing with ⟨z, hrun', hsent'⟩ | ⟨_, z, hrun', hsent'⟩
      · rw [hrun']
        exact hsent'.prefix
      · rw [hrun']
        exact hsent'.prefix

/-! ## Heads -/

/-- What is sent, if anything is, starts with the head of a page that was found. -/
def Opens (m : Serving α) : Prop :=
  ∀ x, Sent x (m x).2 [] ∨
    ∃ (r : Response) (rest : List Bytes), r.status = .ok ∧ Sent x (m x).2 (r.head :: rest)

theorem Silent.opens {m : Serving α} {g : α → Serving β} (hm : Silent m) (hg : ∀ a, Opens (g a)) :
    Opens (m >>= g) := by
  intro x
  have hfirst := hm x
  rw [run_bind]
  split
  · rename_i a y hrun
    rw [hrun] at hfirst
    refine (hg a y).imp hfirst.trans ?_
    rintro ⟨r, rest, hstatus, hsent⟩
    exact ⟨r, rest, hstatus, hfirst.trans hsent⟩
  · rename_i e y hrun
    rw [hrun] at hfirst
    exact Or.inl hfirst

theorem opens_send {r : Response} {g : Unit → Serving β} (hr : r.status = .ok)
    (hg : ∀ a, Steady (g a)) : Opens (send r.head >>= g) := by
  intro x
  rcases send_cases r.head x with ⟨y, hrun, hsent⟩ | ⟨fault, y, hrun, hsent⟩
  · obtain ⟨rest, hrest⟩ := (hg ()).grows y
    rw [run_bind_ok hrun]
    exact Or.inr ⟨r, rest, hr, hsent.trans hrest⟩
  · rw [run_bind_error hrun]
    exact Or.inl hsent

theorem opens_discard {m : Serving α} (hm : Opens m) : Opens (discard m : Serving PUnit) := by
  intro x
  cases hrun : m x with
  | mk r y =>
    have hx := hm x
    rw [hrun] at hx
    cases r with
    | ok a => rwa [run_discard_ok hrun]
    | error e => rwa [run_discard_error hrun]

/-- A handler that goes on after its head as if every send succeeded. -/
structure Handler (m : Serving α) : Prop where
  steady : Steady m
  opens : Opens m

/-- Looking at the tree is no part of an answer. -/
theorem Handler.of_ask {f : Exchange → Except Failure α} {g : α → Serving β}
    (hf : ∀ x : Exchange, f x.willing = f x) (hg : ∀ a, Handler (g a)) : Handler (ask f >>= g) :=
  ⟨(steady_ask hf).bind fun a => (hg a).steady, (silent_ask f).opens fun a => (hg a).opens⟩

theorem Handler.of_inspect {f : Exchange → α} {g : α → Serving β}
    (hf : ∀ x : Exchange, f x.willing = f x) (hg : ∀ a, Handler (g a)) : Handler (inspect f >>= g) :=
  ⟨(steady_inspect hf).bind fun a => (hg a).steady, (silent_inspect f).opens fun a => (hg a).opens⟩

theorem handler_of_head {r : Response} {g : Unit → Serving β} (hr : r.status = .ok)
    (hg : ∀ a, Steady (g a)) : Handler (FileService.sendHead r >>= g) :=
  ⟨(steady_send r.head).bind hg, opens_send hr hg⟩

theorem handler_discard {m : Serving α} (hm : Handler m) : Handler (discard m : Serving PUnit) :=
  ⟨steady_discard hm.steady, opens_discard hm.opens⟩

end Serving

/-! ## Handlers -/

open Serving

namespace FileService

theorem steady_sendLines (f : FileService) (r : LineReader) (most : Nat) :
    Steady (f.sendLines r most) := by
  induction most generalizing r with
  | zero => exact steady_pure ()
  | succ most ih =>
    rw [sendLines]
    refine (steady_inspect fun _ => rfl).bind fun next => ?_
    obtain ⟨line?, r'⟩ := next
    cases line? with
    | none => exact steady_pure ()
    | some line => exact (steady_send _).bind fun _ => ih r'

theorem steady_sendPieces {ρ : Type} (read : Tree → ρ → Nat → Bytes × ρ) (chunkSize size : Nat) (r : ρ)
    (written : Nat) : Steady (sendPieces read chunkSize size r written) := by
  generalize hleft : size - written = left
  induction left using Nat.strongRecOn generalizing r written with
  | ind left ih =>
    rw [sendPieces]
    split
    · exact steady_pure written
    · refine (steady_inspect fun _ => rfl).bind fun next => ?_
      obtain ⟨piece, r'⟩ := next
      dsimp only
      split
      · exact steady_pure written
      · rename_i hne
        have hpos := List.length_pos_iff.mpr hne
        exact (steady_send piece).bind fun _ => ih _ (by omega) r' (written + piece.length) rfl

theorem steady_reportShrunk (name : String) (size written : Nat) :
    Steady (reportShrunk name size written) := by
  unfold reportShrunk
  split
  · exact steady_report _ _ _
  · exact steady_pure ()

theorem handler_sendText (f : FileService) (p : Path) : Handler (f.sendText p) := by
  refine Handler.of_ask (fun _ => rfl) fun file => Handler.of_inspect (fun _ => rfl) fun most => ?_
  refine handler_of_head rfl fun _ => ?_
  exact (steady_send _).bind fun _ => (steady_sendLines f _ _).bind fun _ => steady_send _

theorem handler_sendImage (p : Path) (type : String) : Handler (sendImage p type) := by
  refine Handler.of_ask (fun _ => rfl) fun file => Handler.of_inspect (fun _ => rfl) fun bytes => ?_
  refine handler_of_head rfl fun _ => ?_
  exact (steady_ask fun _ => rfl).bind fun page => steady_send page

theorem handler_sendAttachment (f : FileService) (p : Path) (type : String) :
    Handler (f.sendAttachment p type) := by
  refine Handler.of_ask (fun _ => rfl) fun file => Handler.of_inspect (fun _ => rfl) fun size => ?_
  refine Handler.of_inspect (fun _ => rfl) fun now => handler_of_head rfl fun _ => ?_
  refine (steady_sendPieces _ _ _ _ _).bind fun written => ?_
  exact (steady_reportShrunk _ _ _).bind fun _ => steady_pure written

theorem handler_respond (f : FileService) (p : Path) : Handler (f.respond p) := by
  unfold respond
  split
  · exact handler_sendText f p
  · exact handler_sendImage p _
  · exact handler_discard (handler_sendAttachment f p _)

end FileService

theorem Directory.handler_respondWith (entries : Tree → Except Failure (List Entry)) :
    Handler (respondWith entries) :=
  Handler.of_ask (fun _ => rfl) fun _ => handler_of_head rfl fun _ => steady_send _

namespace Site

theorem handler_serve (s : Site) (p : Path) (target : String) : Handler (s.serve p target) := by
  refine Handler.of_ask (fun _ => rfl) fun isDirectory => ?_
  cases isDirectory with
  | true => exact Directory.handler_respondWith fun t => s.entries t p target
  | false => exact Handler.of_ask (fun _ => rfl) fun _ => s.files.handler_respond p

end Site

end FileExchange
