import FileExchange.Proofs.Serve.Steps
import FileExchange.Proofs.Stream
import FileExchange.Proofs.Tree.Reader

/-!
# Sending

What is on the wire after the steps of serving that send, as long as the other end takes everything.
Others may change the tree while something is sent; where they do not, the bytes are known exactly.
-/

set_option autoImplicit false

namespace FileExchange

namespace Exchange

def wire (x : Exchange) : Bytes :=
  x.connection.peer.wire

/-- Every send succeeds. -/
def Obliging (x : Exchange) : Prop :=
  x.connection.peer.closed = false ∧ ∀ turn size, x.connection.peer.refusal turn size = none

/-- Nobody else changes the tree. -/
def Quiet (x : Exchange) : Prop :=
  x.connection.peer.meddling = []

/-- Some bytes have been sent and all else that matters for sending is as it was. -/
structure Delivered (x y : Exchange) (bytes : Bytes) : Prop where
  obliging : y.Obliging
  wire : y.wire = x.wire ++ bytes
  clock : y.clock = x.clock
  undisturbed : x.Quiet → y.Quiet ∧ y.tree = x.tree

theorem Obliging.nothing {x : Exchange} (h : x.Obliging) : Delivered x x [] :=
  ⟨h, (List.append_nil _).symm, rfl, fun hquiet => ⟨hquiet, rfl⟩⟩

theorem Delivered.trans {x y z : Exchange} {first second : Bytes} (h : Delivered x y first)
    (h' : Delivered y z second) : Delivered x z (first ++ second) := by
  refine ⟨h'.obliging, ?_, h'.clock.trans h.clock, fun hquiet => ?_⟩
  · rw [h'.wire, h.wire, List.append_assoc]
  · obtain ⟨hquiet', htree⟩ := h.undisturbed hquiet
    obtain ⟨hquiet'', htree'⟩ := h'.undisturbed hquiet'
    exact ⟨hquiet'', htree'.trans htree⟩

/-- The tree when some more sends have started, if each of them succeeds. -/
def treeAfter (x : Exchange) : Nat → Tree
  | 0 => x.tree
  | count + 1 =>
    (treeAfter x count).applyAll
      { x.connection.peer with attempts := x.connection.peer.attempts + count }.dueEdits

/-! ## Once the line is read -/

theorem readLine_fresh (x : Exchange) :
    x.connection.readLine.2.peer.closed = x.connection.peer.closed ∧
      x.connection.readLine.2.peer.refusal = x.connection.peer.refusal ∧
      x.connection.readLine.2.peer.meddling = x.connection.peer.meddling ∧
      x.connection.readLine.2.peer.sends = x.connection.peer.sends ∧
      x.connection.readLine.2.bytesSent = x.connection.bytesSent := by
  obtain ⟨inbound, received, buffer, hframe⟩ := Connection.readLine_frame x.connection
  rw [hframe]
  exact ⟨rfl, rfl, rfl, rfl, rfl⟩

theorem begun_obliging {x : Exchange} (hx : x.Obliging) : x.begun.Obliging := by
  obtain ⟨hclosed, hrefusal, _⟩ := readLine_fresh x
  refine ⟨hclosed.trans hx.1, fun turn size => ?_⟩
  exact (congrFun (congrFun hrefusal turn) size).trans (hx.2 turn size)

theorem begun_wire (x : Exchange) : x.begun.wire = x.wire := by
  obtain ⟨_, _, _, hsends, _⟩ := readLine_fresh x
  exact congrArg (fun sends : Array Bytes => sends.toList.flatten) hsends

theorem begun_quiet {x : Exchange} (h : x.Quiet) : x.begun.Quiet :=
  (readLine_fresh x).2.2.1.trans h

end Exchange

namespace Peer

theorem dueEdits_of_quiet {p : Peer} (h : p.meddling = []) : p.dueEdits = [] := by
  simp [dueEdits, h]

theorem send_of_taken {p : Peer} (bytes : Bytes) (hopen : p.closed = false)
    (htaken : ∀ turn size, p.refusal turn size = none) :
    p.send bytes = (.ok (), { p with
      attempts := p.attempts + 1, sends := p.sends.push bytes, sent := p.sent + bytes.length }) := by
  simp [send, hopen, htaken]

end Peer

namespace Serving

open Exchange

variable {x : Exchange}

theorem run_meddle (h : x.connection.peer.closed = false) :
    meddle x = (.ok (), { x with tree := x.tree.applyAll x.connection.peer.dueEdits }) := by
  simp [meddle, h]

theorem run_send (h : x.Obliging) (bytes : Bytes) :
    ∃ y, send bytes x = (.ok (), y) ∧ Delivered x y bytes := by
  obtain ⟨hopen, htaken⟩ := h
  have hmeddle := run_meddle (x := (enter .writing x).2) hopen
  have hrun : send bytes x = sendBytes bytes (meddle (enter .writing x).2).2 := rfl
  rw [hrun, hmeddle, sendBytes]
  simp only [run_enter, Peer.send_of_taken bytes hopen htaken]
  refine ⟨_, rfl, ⟨hopen, htaken⟩, ?_, rfl, fun hquiet => ⟨hquiet, ?_⟩⟩
  · simp [wire, Peer.wire]
  · simp only [Peer.dueEdits_of_quiet hquiet]
    rfl

/-- What a send leaves as it is; the tree is the one that was due. -/
theorem frame_of_send (h : x.Obliging) {bytes : Bytes} {y : Exchange}
    (hsend : send bytes x = (.ok (), y)) :
    (∀ count, y.treeAfter count = x.treeAfter (count + 1)) ∧ y.journal = x.journal ∧
      y.connection.id = x.connection.id := by
  obtain ⟨hopen, htaken⟩ := h
  have hmeddle := run_meddle (x := (enter .writing x).2) hopen
  have hrun : send bytes x = sendBytes bytes (meddle (enter .writing x).2).2 := rfl
  rw [hrun, hmeddle, sendBytes] at hsend
  simp only [run_enter, Peer.send_of_taken bytes hopen htaken] at hsend
  cases hsend
  refine ⟨fun count => ?_, rfl, rfl⟩
  induction count with
  | zero => rfl
  | succ count ih =>
    rw [treeAfter, ih, treeAfter.eq_def x (count + 1 + 1)]
    simp only [Peer.dueEdits, Nat.add_assoc, Nat.add_comm 1]

theorem run_sendResponse (h : x.Obliging) (bytes : Bytes) :
    ∃ y, sendResponse bytes x = (.ok true, y) ∧ Delivered x y bytes := by
  obtain ⟨y, hsend, hdelivered⟩ := run_send h bytes
  refine ⟨y, ?_, hdelivered⟩
  have hattempt : attempt (send bytes) x = (.ok (.ok ()), y) := by rw [run_attempt, hsend]
  rw [sendResponse, run_bind_ok hattempt]
  rfl

end Serving

theorem Exchange.treeAfter_of_quiet {x : Exchange} (h : x.Quiet) (count : Nat) :
    x.treeAfter count = x.tree := by
  induction count with
  | zero => rfl
  | succ count ih =>
    have hdue : ({ x.connection.peer with attempts := x.connection.peer.attempts + count } : Peer).dueEdits =
        [] := Peer.dueEdits_of_quiet h
    rw [Exchange.treeAfter, ih, hdue]
    rfl

theorem Site.run_sendNotFound {x : Exchange} (h : x.Obliging) :
    ∃ y, Site.sendNotFound x = (.ok (some .notFound), y) ∧
      Exchange.Delivered x y Response.notFound.bytes := by
  obtain ⟨y, hsend, hdelivered⟩ := Serving.run_sendResponse h Response.notFound.bytes
  exact ⟨y, by rw [Site.sendNotFound, Serving.run_bind_ok hsend, Serving.run_pure], hdelivered⟩

namespace FileService

open Serving Exchange

variable {x : Exchange}

/-! ## Lines -/

theorem run_sendLines (f : FileService) (h : x.Obliging) (r : LineReader) (most : Nat) :
    ∃ y taken, f.sendLines r most x = (.ok (), y) ∧
      Delivered x y (taken.flatMap (lineBytes f.encoding)) ∧
      (x.Quiet → taken = (lines (r.rest x.tree)).take most) := by
  induction most generalizing x r with
  | zero => exact ⟨x, [], rfl, h.nothing, fun _ => rfl⟩
  | succ most ih =>
    obtain ⟨hhead, htail⟩ := LineReader.next_eq x.tree r
    rw [sendLines, run_bind_ok (run_inspect (fun s => r.next s.tree) x)]
    dsimp only
    cases hline : (r.next x.tree).1 with
    | none =>
      have hnil : lines (r.rest x.tree) = [] := List.head?_eq_none_iff.mp (by rw [← hhead, hline])
      exact ⟨x, [], rfl, h.nothing, fun _ => by rw [hnil]; rfl⟩
    | some line =>
      obtain ⟨y, hsend, hfirst⟩ := run_send h (lineBytes f.encoding line)
      obtain ⟨z, taken, hrun, hrest, htaken⟩ := ih hfirst.obliging (r.next x.tree).2
      refine ⟨z, line :: taken, ?_, ?_, fun hquiet => ?_⟩
      · exact (run_bind_ok hsend).trans hrun
      · rw [List.flatMap_cons]
        exact hfirst.trans hrest
      · obtain ⟨hquiet', htree⟩ := hfirst.undisturbed hquiet
        obtain ⟨more, hlines⟩ := List.head?_eq_some_iff.mp (hhead.symm.trans hline)
        rw [htaken hquiet', htree, htail, hlines, List.tail_cons, List.take_succ_cons]

/-! ## Pieces -/

section

variable {ρ : Type} {read : Tree → ρ → Nat → Bytes × ρ} {chunkSize : Nat}

/-- The pieces that a source gives when it is asked again and again for what is left, at most a chunk of it at a
time, until nothing is left or the source gives nothing. Each time it may meet another tree. -/
inductive Gives (read : Tree → ρ → Nat → Bytes × ρ) (chunkSize : Nat) :
    (Nat → Tree) → Nat → ρ → List Bytes → Prop
  | full {trees : Nat → Tree} {r : ρ} : Gives read chunkSize trees 0 r []
  | ended {trees : Nat → Tree} {left : Nat} {r : ρ} (hleft : 0 < left)
      (hend : (read (trees 0) r (min chunkSize left)).1 = []) : Gives read chunkSize trees left r []
  | piece {trees : Nat → Tree} {left : Nat} {r : ρ} {pieces : List Bytes} (hleft : 0 < left)
      (hne : (read (trees 0) r (min chunkSize left)).1 ≠ [])
      (hmore : Gives read chunkSize (fun k => trees (k + 1))
        (left - (read (trees 0) r (min chunkSize left)).1.length)
        (read (trees 0) r (min chunkSize left)).2 pieces) :
      Gives read chunkSize trees left r ((read (trees 0) r (min chunkSize left)).1 :: pieces)

/-- A source that gives no more than it is asked for gives no more than was left. -/
theorem Gives.length_le (hread : ∀ t r size, (read t r size).1.length ≤ size) {trees : Nat → Tree}
    {left : Nat} {r : ρ} {pieces : List Bytes} (h : Gives read chunkSize trees left r pieces) :
    pieces.flatten.length ≤ left := by
  induction h with
  | full => exact Nat.le_refl 0
  | ended => exact Nat.zero_le _
  | @piece trees left r pieces _ _ _ ih =>
    have hpiece := hread (trees 0) r (min chunkSize left)
    rw [List.flatten_cons, List.length_append]
    omega

/-- An open file that nobody changes gives its bytes from the front. -/
theorem Gives.flatten_eq (hchunk : 1 ≤ chunkSize) {t : Tree} {trees : Nat → Tree}
    (htrees : ∀ k, trees k = t) {left : Nat} {r : Reader} {pieces : List Bytes}
    (h : Gives (fun t r n => r.read t n) chunkSize trees left r pieces) :
    pieces.flatten = (r.rest t).take left := by
  induction h with
  | full => rfl
  | @ended trees left r hleft hend =>
    obtain ⟨hpiece, _⟩ := Reader.read_takes (t := trees 0) (r := r) (min chunkSize left)
    rw [hend, htrees] at hpiece
    rcases List.take_eq_nil_iff.mp hpiece.symm with hzero | hnil
    · omega
    · rw [hnil, List.take_nil, List.flatten_nil]
  | @piece trees left r pieces hleft _ _ ih =>
    obtain ⟨hpiece, hrest⟩ := Reader.read_takes (t := trees 0) (r := r) (min chunkSize left)
    rw [htrees] at hpiece hrest
    rw [List.flatten_cons, ih fun k => htrees (k + 1), htrees, hrest, hpiece]
    exact take_append_take_drop _ (by omega)

/-- Whatever its source gives, a loop of sending ends, and what it has sent is what it was given. -/
theorem run_sendPieces (read : Tree → ρ → Nat → Bytes × ρ) (chunkSize : Nat) (h : x.Obliging)
    (size : Nat) (r : ρ) (written : Nat) :
    ∃ y pieces, sendPieces read chunkSize size r written x =
        (.ok (written + pieces.flatten.length), y) ∧
      Gives read chunkSize x.treeAfter (size - written) r pieces ∧ Delivered x y pieces.flatten ∧
      y.journal = x.journal ∧ y.connection.id = x.connection.id := by
  -- What is left of the announced size decreases with every piece, and the tree is the next one that is due.
  generalize hleft : size - written = left
  induction left using Nat.strongRecOn generalizing x r written with
  | ind left ih =>
    rw [sendPieces]
    split
    · rename_i hle
      have hzero : left = 0 := by omega
      subst hzero
      exact ⟨x, [], rfl, .full, h.nothing, rfl, rfl⟩
    · rename_i hmore
      have hpos : 0 < left := by omega
      rw [run_bind_ok (run_inspect (fun s => read s.tree r (min chunkSize (size - written))) x), hleft]
      dsimp only
      split
      · rename_i hend
        exact ⟨x, [], rfl, .ended hpos hend, h.nothing, rfl, rfl⟩
      · rename_i hne
        have hlen := List.length_pos_iff.mpr hne
        obtain ⟨y, hsend, hfirst⟩ := run_send h (read x.tree r (min chunkSize left)).1
        obtain ⟨htree, hjournal, hid⟩ := frame_of_send h hsend
        obtain ⟨z, pieces, hrun, hgives, hrest, hjournal', hid'⟩ := ih _ (by omega) hfirst.obliging
          (read x.tree r (min chunkSize left)).2
          (written + (read x.tree r (min chunkSize left)).1.length) rfl
        refine ⟨z, _ :: pieces, ?_, .piece hpos hne ?_, ?_, hjournal'.trans hjournal, hid'.trans hid⟩
        · rw [List.flatten_cons, List.length_append, ← Nat.add_assoc]
          exact (run_bind_ok hsend).trans hrun
        · have hleft' : size - (written + (read x.tree r (min chunkSize left)).1.length) =
              left - (read x.tree r (min chunkSize left)).1.length := by omega
          rw [hleft', funext htree] at hgives
          exact hgives
        · rw [List.flatten_cons]
          exact hfirst.trans hrest

end

end FileService

end FileExchange
