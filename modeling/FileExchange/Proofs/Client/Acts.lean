import FileExchange.Proofs.Cutting

/-!
# What is done with a socket

The calls that the owner of a socket makes on it, one after the other and each with its result: what they put on
the wire, how they end the stream, and that none of them fails without a reason.
-/

set_option autoImplicit false

namespace FileExchange

/-- A call on a socket and what comes of it. -/
inductive Act where
  | setTimeout (timeout : Option Binary64) (result : Except Failure Unit)
  | send (bytes : Bytes) (result : Except Fault Unit)
  | shutdown (result : Except Fault Unit)
  | receive (size : Nat) (result : Except Fault Bytes)
  | close (result : Except Fault Unit)

namespace Act

/-- The call, made on the first socket, has its result and leaves the second. -/
def Leads (p p' : Peer) : Act → Prop
  | setTimeout timeout result => p.setTimeout timeout = (result, p')
  | send bytes result => p.send bytes = (result, p')
  | shutdown result => p.shutdown = (result, p')
  | receive size result => p.receive size = (result, p')
  | close result => p.close = (result, p')

/-- What a call puts on the wire. -/
def sent : Act → Bytes
  | send bytes (.ok _) => bytes
  | _ => []

def ending? : Act → Option Ending
  | shutdown _ => some .shutdown
  | close _ => some .close
  | _ => none

section Effects

variable (timeout : Option Binary64) (bytes : Bytes) (size : Nat) (fault : Fault) (result : Except Fault Unit)
  (taken : Except Failure Unit) (received : Except Fault Bytes)

@[simp] theorem sent_setTimeout : (setTimeout timeout taken).sent = [] := rfl
@[simp] theorem sent_send_ok : (send bytes (.ok ())).sent = bytes := rfl
@[simp] theorem sent_send_error : (send bytes (.error fault)).sent = [] := rfl
@[simp] theorem sent_shutdown : (shutdown result).sent = [] := rfl
@[simp] theorem sent_receive : (receive size received).sent = [] := rfl

@[simp] theorem ending?_setTimeout : (setTimeout timeout taken).ending? = none := rfl
@[simp] theorem ending?_send : (send bytes result).ending? = none := rfl
@[simp] theorem ending?_shutdown : (shutdown result).ending? = some .shutdown := rfl
@[simp] theorem ending?_receive : (receive size received).ending? = none := rfl
@[simp] theorem ending?_close : (close result).ending? = some .close := rfl

end Effects

end Act

namespace Peer

/-- These calls, made one after the other, lead from the first socket to the second. -/
inductive Acts : Peer → List Act → Peer → Prop
  | nil (p : Peer) : Acts p [] p
  | cons {p p₁ p₂ : Peer} {a : Act} {acts : List Act} (h : a.Leads p p₁) (hrest : Acts p₁ acts p₂) :
      Acts p (a :: acts) p₂

variable {p p₁ p' : Peer} {a : Act} {acts acts' : List Act}

theorem Acts.single (h : a.Leads p p') : Acts p [a] p' :=
  .cons h (.nil p')

theorem Acts.append (h : Acts p acts p₁) (h' : Acts p₁ acts' p') : Acts p (acts ++ acts') p' := by
  induction h with
  | nil => exact h'
  | cons h _ ih => exact .cons h (ih h')

theorem Acts.split (h : Acts p (acts ++ acts') p') : ∃ p₁, Acts p acts p₁ ∧ Acts p₁ acts' p' := by
  induction acts generalizing p with
  | nil => exact ⟨p, .nil p, h⟩
  | cons a acts ih =>
    cases h with
    | cons h hrest =>
      obtain ⟨p₁, hfront, hback⟩ := ih hrest
      exact ⟨p₁, .cons h hfront, hback⟩

theorem Acts.last (h : Acts p (acts ++ [a]) p') : ∃ p₁, Acts p acts p₁ ∧ a.Leads p₁ p' := by
  obtain ⟨p₁, hfront, hback⟩ := h.split
  cases hback with
  | cons hlast hnil =>
    cases hnil
    exact ⟨p₁, hfront, hlast⟩

/-! ## What calls leave behind -/

/-- What an open socket is after some calls that do not close it, and which of the calls cannot have failed. -/
structure Reaches (p : Peer) (acts : List Act) (p' : Peer) : Prop where
  live : p'.closed = false
  wire : p'.wire = p.wire ++ acts.flatMap Act.sent
  endings : p'.endings.toList = p.endings.toList ++ acts.filterMap Act.ending?
  refusal : p'.refusal = p.refusal
  shutdownFault : p'.shutdownFault = p.shutdownFault
  closeFault : p'.closeFault = p.closeFault
  taken : (∀ turn size, p.refusal turn size = none) → ∀ bytes fault, .send bytes (.error fault) ∉ acts
  ends : p.shutdownFault = none → ∀ fault, .shutdown (.error fault) ∉ acts
  answers : (Incoming.ofSegments p.inbound).fault = none →
    (Incoming.ofSegments p'.inbound).fault = none ∧ ∀ size fault, .receive size (.error fault) ∉ acts

theorem Reaches.refl (hp : p.closed = false) : Reaches p [] p where
  live := hp
  wire := (List.append_nil _).symm
  endings := (List.append_nil _).symm
  refusal := rfl
  shutdownFault := rfl
  closeFault := rfl
  taken := by simp
  ends := by simp
  answers := fun h => ⟨h, by simp⟩

theorem Reaches.trans (h : Reaches p acts p₁) (h' : Reaches p₁ acts' p') : Reaches p (acts ++ acts') p' where
  live := h'.live
  wire := by rw [h'.wire, h.wire, List.flatMap_append, List.append_assoc]
  endings := by rw [h'.endings, h.endings, List.filterMap_append, List.append_assoc]
  refusal := h'.refusal.trans h.refusal
  shutdownFault := h'.shutdownFault.trans h.shutdownFault
  closeFault := h'.closeFault.trans h.closeFault
  taken := fun htaken bytes fault hmem => (List.mem_append.mp hmem).elim (h.taken htaken bytes fault)
    (h'.taken (fun turn size => h.refusal ▸ htaken turn size) bytes fault)
  ends := fun hends fault hmem => (List.mem_append.mp hmem).elim (h.ends hends fault)
    (h'.ends (h.shutdownFault.trans hends) fault)
  answers := fun hanswers => by
    obtain ⟨hanswers₁, hfront⟩ := h.answers hanswers
    obtain ⟨hanswers', hback⟩ := h'.answers hanswers₁
    exact ⟨hanswers', fun size fault hmem => (List.mem_append.mp hmem).elim (hfront size fault) (hback size fault)⟩

theorem reaches_setTimeout {timeout : Option Binary64} {result : Except Failure Unit} (hp : p.closed = false)
    (h : (Act.setTimeout timeout result).Leads p p') : Reaches p [.setTimeout timeout result] p' := by
  simp only [Act.Leads, setTimeout, hp, Bool.false_eq_true, if_false] at h
  split at h
  · obtain ⟨rfl, rfl⟩ := Prod.mk.inj h
    exact ⟨hp, by simp, by simp, rfl, rfl, rfl, by simp, by simp,
      fun hanswers => ⟨hanswers, by simp⟩⟩
  · obtain ⟨rfl, rfl⟩ := Prod.mk.inj h
    exact ⟨rfl, by simp [wire], by simp, rfl, rfl, rfl, by simp, by simp,
      fun hanswers => ⟨hanswers, by simp⟩⟩

theorem reaches_send {bytes : Bytes} {result : Except Fault Unit} (hp : p.closed = false)
    (h : (Act.send bytes result).Leads p p') : Reaches p [.send bytes result] p' := by
  simp only [Act.Leads, send, hp, Bool.false_eq_true, if_false] at h
  split at h
  · rename_i fault hrefusal
    cases h
    refine ⟨rfl, by simp [wire], by simp, rfl, rfl, rfl, fun htaken => ?_, by simp,
      fun hanswers => ⟨hanswers, by simp⟩⟩
    rw [htaken] at hrefusal
    cases hrefusal
  · cases h
    exact ⟨rfl, by simp [wire], by simp, rfl, rfl, rfl, by simp, by simp,
      fun hanswers => ⟨hanswers, by simp⟩⟩

theorem reaches_shutdown {result : Except Fault Unit} (hp : p.closed = false)
    (h : (Act.shutdown result).Leads p p') : Reaches p [.shutdown result] p' := by
  simp only [Act.Leads, shutdown, hp, Bool.false_eq_true, if_false] at h
  split at h
  · rename_i fault hfault
    cases h
    refine ⟨rfl, by simp [wire], by simp, rfl, rfl, rfl, by simp, fun hends => ?_,
      fun hanswers => ⟨hanswers, by simp⟩⟩
    rw [hends] at hfault
    cases hfault
  · cases h
    exact ⟨rfl, by simp [wire], by simp, rfl, rfl, rfl, by simp, by simp,
      fun hanswers => ⟨hanswers, by simp⟩⟩

theorem reaches_receive {size : Nat} {result : Except Fault Bytes} (hp : p.closed = false)
    (h : (Act.receive size result).Leads p p') : Reaches p [.receive size result] p' := by
  have harriving := takeInbound_arriving size p.inbound
  simp only [Act.Leads, receive_of_open hp, Prod.mk.injEq] at h
  obtain ⟨rfl, rfl⟩ := h
  refine ⟨hp, by simp [wire], by simp, rfl, rfl, rfl, by simp, by simp,
    fun hanswers => ?_⟩
  generalize takeInbound size p.inbound = taken at harriving ⊢
  obtain ⟨result, left⟩ := taken
  cases result with
  | ok bytes =>
    rw [harriving.1] at hanswers
    exact ⟨hanswers, by simp⟩
  | error fault =>
    rw [harriving] at hanswers
    cases hanswers

/-- One lemma for each call, and the calls one after the other. -/
theorem Acts.reaches (h : Acts p acts p') (hp : p.closed = false)
    (hopen : ∀ a ∈ acts, a.ending? ≠ some .close) : Reaches p acts p' := by
  induction h with
  | nil => exact .refl hp
  | @cons p p₁ p' a acts h _ ih =>
    obtain ⟨ha, hacts⟩ := List.forall_mem_cons.mp hopen
    have hfirst : Reaches p [a] p₁ := by
      cases a with
      | setTimeout timeout result => exact reaches_setTimeout hp h
      | send bytes result => exact reaches_send hp h
      | shutdown result => exact reaches_shutdown hp h
      | receive size result => exact reaches_receive hp h
      | close result => exact absurd rfl ha
    exact hfirst.trans (ih hfirst.live hacts)

/-- Closing fails only if the other end makes it fail, and the socket is closed either way. -/
theorem close_of_leads {result : Except Fault Unit} (h : (Act.close result).Leads p p') :
    result = p.closeFault.elim (.ok ()) .error ∧ p'.closed = true ∧ p'.wire = p.wire ∧
      p'.endings.toList = p.endings.toList ++ [.close] ∧ p'.inbound = p.inbound := by
  simp only [Act.Leads, close] at h
  split at h
  all_goals
    rename_i hfault
    cases h
    refine ⟨by rw [hfault]; rfl, rfl, rfl, by simp, rfl⟩

/-- Nothing is left to come once the end of the stream has been received. -/
theorem inbound_of_leads {size : Nat} (hp : p.closed = false) (hsize : 1 ≤ size)
    (h : (Act.receive size (.ok [])).Leads p p') : p'.inbound = [] := by
  have hleft := takeInbound_leftOver size p.inbound
  simp only [Act.Leads, receive_of_open hp, Prod.mk.injEq] at h
  obtain ⟨hresult, rfl⟩ := h
  generalize takeInbound size p.inbound = taken at hleft hresult ⊢
  obtain ⟨result, left⟩ := taken
  cases hresult
  exact hleft.2 hsize rfl

end Peer

end FileExchange
