import FileExchange.Proofs.Cutting
import FileExchange.Proofs.Serve.Agreement
import FileExchange.Proofs.Serve.Sending

/-!
# Pieces of another size

How large the pieces are in which a download is sent and an upload is received shows only in how often
something is sent or received. It shows neither in the bytes nor in what is stored, not even in the
temporary file that an upload leaves behind when its stream fails.
-/

set_option autoImplicit false

namespace FileExchange

open Serving

namespace Exchange

/-- Bytes have been sent, and all else is as it was, in a world where nobody else does anything. -/
structure Carried (x y : Exchange) (bytes : Bytes) : Prop where
  obliging : y.Obliging
  quiet : y.Quiet
  world : y.toWorld = x.toWorld
  wire : y.wire = x.wire ++ bytes
  count : y.connection.bytesSent = x.connection.bytesSent + bytes.length
  received : y.connection.bytesReceived = x.connection.bytesReceived
  buffer : y.connection.buffer = x.connection.buffer
  inbound : y.connection.peer.inbound = x.connection.peer.inbound

theorem Obliging.carried {x : Exchange} (h : x.Obliging) (hquiet : x.Quiet) : Carried x x [] :=
  ⟨h, hquiet, rfl, (List.append_nil _).symm, rfl, rfl, rfl, rfl⟩

theorem Carried.trans {x y z : Exchange} {first second : Bytes} (h : Carried x y first)
    (h' : Carried y z second) : Carried x z (first ++ second) := by
  refine ⟨h'.obliging, h'.quiet, h'.world.trans h.world, ?_, ?_, h'.received.trans h.received,
    h'.buffer.trans h.buffer, h'.inbound.trans h.inbound⟩
  · rw [h'.wire, h.wire, List.append_assoc]
  · rw [h'.count, h.count, List.length_append, Nat.add_assoc]

/-- The same bytes sent in other pieces. -/
structure Repieced (x x' : Exchange) : Prop where
  obliging : x.Obliging ∧ x'.Obliging
  quiet : x.Quiet ∧ x'.Quiet
  world : ∃ journal, x'.toWorld = { x.toWorld with journal }
  wire : x'.wire = x.wire
  count : x'.connection.bytesSent = x.connection.bytesSent
  received : x'.connection.bytesReceived = x.connection.bytesReceived
  buffer : x'.connection.buffer = x.connection.buffer
  inbound : x'.connection.peer.inbound = x.connection.peer.inbound

theorem Obliging.repieced {x : Exchange} (h : x.Obliging) (hquiet : x.Quiet) : Repieced x x :=
  ⟨⟨h, h⟩, ⟨hquiet, hquiet⟩, ⟨x.journal, rfl⟩, rfl, rfl, rfl, rfl, rfl⟩

theorem Repieced.carried {x x' y y' : Exchange} {bytes : Bytes} (hx : Repieced x x')
    (h : Carried x y bytes) (h' : Carried x' y' bytes) : Repieced y y' := by
  refine ⟨⟨h.obliging, h'.obliging⟩, ⟨h.quiet, h'.quiet⟩, ?_, ?_, ?_, ?_, ?_, ?_⟩
  · rw [h.world, h'.world]
    exact hx.world
  · rw [h.wire, h'.wire, hx.wire]
  · rw [h.count, h'.count, hx.count]
  · rw [h.received, h'.received, hx.received]
  · rw [h.buffer, h'.buffer, hx.buffer]
  · rw [h.inbound, h'.inbound, hx.inbound]

theorem Repieced.arriving {x x' : Exchange} (h : Repieced x x') :
    x'.connection.peer.arriving = x.connection.peer.arriving := by
  simp only [Peer.arriving, h.obliging.1.1, h.obliging.2.1, h.inbound]

end Exchange

namespace Serving

open Exchange

variable {x : Exchange}

theorem carried_send (h : x.Obliging) (hquiet : x.Quiet) (bytes : Bytes) :
    ∃ y, send bytes x = (.ok (), y) ∧ Carried x y bytes := by
  obtain ⟨hopen, htaken⟩ := h
  have htree : (beforeSend x).toWorld = x.toWorld := by
    simp [beforeSend, Peer.dueEdits_of_quiet hquiet, Tree.applyAll]
  have hsend := Peer.send_of_taken (p := (beforeSend x).connection.peer) bytes hopen htaken
  rw [run_send_eq, sendBytes, hsend]
  refine ⟨_, rfl, ⟨hopen, htaken⟩, hquiet, htree, ?_, rfl, rfl, rfl, rfl⟩
  simp [wire, Peer.wire, beforeSend]

theorem bisimilar_repieced : Bisimilar Repieced where
  world := fun _ _ hx => hx.world
  settle := fun _ _ hx w journal =>
    ⟨hx.obliging, hx.quiet, ⟨journal, rfl⟩, hx.wire, hx.count, hx.received, hx.buffer, hx.inbound⟩
  enter := fun phase _ _ hx =>
    ⟨rfl, hx.obliging, hx.quiet, hx.world, hx.wire, hx.count, hx.received, hx.buffer, hx.inbound⟩
  send := by
    intro bytes x x' hx
    obtain ⟨y, hsend, hcarried⟩ := carried_send hx.obliging.1 hx.quiet.1 bytes
    obtain ⟨y', hsend', hcarried'⟩ := carried_send hx.obliging.2 hx.quiet.2 bytes
    rw [AgreeAt, hsend, hsend']
    exact ⟨rfl, hx.carried hcarried hcarried'⟩
  count := fun _ _ hx => hx.count.symm
  meddled := by
    intro x x' hx
    have hnone : x.connection.peer.meddling = [] := hx.quiet.1
    have hnone' : x'.connection.peer.meddling = [] := hx.quiet.2
    rw [Peer.meddledSize, Peer.meddledSize, hnone, hnone']

end Serving

namespace FileService

open Serving Exchange

/-- Whatever the size of the pieces, all bytes up to the announced number are sent and counted. -/
theorem carried_sendPieces {x : Exchange} (h : x.Obliging) (hquiet : x.Quiet) {chunkSize : Nat}
    (hchunk : 1 ≤ chunkSize) (size : Nat) (r : Reader) (written : Nat) :
    ∃ y, sendPieces (fun t r n => r.read t n) chunkSize size r written x =
        (.ok (written + ((r.rest x.tree).take (size - written)).length), y) ∧
      Carried x y ((r.rest x.tree).take (size - written)) := by
  generalize hleft : size - written = left
  induction left using Nat.strongRecOn generalizing x r written with
  | ind left ih =>
    rw [sendPieces]
    split
    · rename_i hle
      have hzero : left = 0 := by omega
      subst hzero
      exact ⟨x, rfl, h.carried hquiet⟩
    · rename_i hmore
      obtain ⟨hpiece, hrest⟩ := Reader.read_takes (t := x.tree) (r := r)
        (min chunkSize (size - written))
      rw [run_bind_ok (run_inspect (fun s => r.read s.tree (min chunkSize (size - written))) x)]
      dsimp only
      split
      · -- The file has ended before all announced bytes were sent.
        rename_i hend
        rw [hend] at hpiece
        have hnone : (r.rest x.tree).take left = [] := by
          rcases List.take_eq_nil_iff.mp hpiece.symm with hzero | hnil
          · omega
          · rw [hnil, List.take_nil]
        rw [hnone]
        exact ⟨x, rfl, h.carried hquiet⟩
      · rename_i hne
        have hpos := List.length_pos_iff.mpr hne
        generalize hread : r.read x.tree (min chunkSize (size - written)) = next at hpiece hrest hne hpos
        obtain ⟨piece, r'⟩ := next
        dsimp only at hpiece hrest hne hpos ⊢
        obtain ⟨y, hsend, hfirst⟩ := carried_send h hquiet piece
        obtain ⟨z, hrun, hmore'⟩ := ih (left - piece.length) (by omega) hfirst.obliging hfirst.quiet r'
          (written + piece.length) (by omega)
        have hsplit : (r.rest x.tree).take left =
            piece ++ (r'.rest y.tree).take (left - piece.length) := by
          rw [congrArg World.tree hfirst.world, hrest, hpiece]
          exact (take_append_take_drop _ (by omega)).symm
        refine ⟨z, ?_, ?_⟩
        · rw [hsplit, List.length_append, ← Nat.add_assoc]
          exact (run_bind_ok hsend).trans hrun
        · rw [hsplit]
          exact hfirst.trans hmore'

end FileService

namespace Serving

open Exchange

variable {n m : Nat}

theorem agree_sendPieces_repieced (hn : 1 ≤ n) (hm : 1 ≤ m) (file : FileId) (size : Nat) :
    Agree Repieced
      (FileService.sendPieces (fun t r k => r.read t k) n size ({ file } : Reader) 0)
      (FileService.sendPieces (fun t r k => r.read t k) m size ({ file } : Reader) 0) := by
  intro x x' hx
  have htree := bisimilar_repieced.tree_eq hx
  obtain ⟨y, hrun, hcarried⟩ :=
    FileService.carried_sendPieces hx.obliging.1 hx.quiet.1 hn size { file } 0
  obtain ⟨y', hrun', hcarried'⟩ :=
    FileService.carried_sendPieces hx.obliging.2 hx.quiet.2 hm size { file } 0
  rw [← htree] at hrun' hcarried'
  rw [AgreeAt, hrun, hrun']
  exact ⟨rfl, hx.carried hcarried hcarried'⟩

theorem fill_left (part : World.PartFile) (n : Nat) (x : Exchange) :
    (Upload.fill part n x).2 = { x with
      connection := (x.connection.takeBody n).2,
      tree := x.tree.setContent part.id (x.connection.takeBody n).1.bytes } := by
  simp only [Upload.fill]
  cases (x.connection.takeBody n).1.fault <;> rfl

/-- A failing stream leaves the same bytes in the temporary file. -/
theorem agree_fill_repieced (hn : 1 ≤ n) (hm : 1 ≤ m) (part : World.PartFile) :
    Agree Repieced (Upload.fill part n) (Upload.fill part m) := by
  intro x x' hx
  have hpending : x'.connection.pending = x.connection.pending := by
    rw [Connection.pending, Connection.pending, hx.arriving, hx.buffer]
  obtain ⟨hbytes, hfault⟩ := Connection.takeBody_eq (c := x.connection) hn
  obtain ⟨hbytes', hfault'⟩ := Connection.takeBody_eq (c := x'.connection) hm
  rw [hpending, ← hbytes] at hbytes'
  rw [hpending, ← hfault] at hfault'
  have hleft := Connection.takeBody_exhausted (c := x.connection) hn
  have hleft' := Connection.takeBody_exhausted (c := x'.connection) hm
  rw [Connection.exhausted, Peer.exhausted_of_open hx.obliging.1.1] at hleft
  rw [Connection.exhausted, Peer.exhausted_of_open hx.obliging.2.1] at hleft'
  have hresult : (Upload.fill part n x).1 = (Upload.fill part m x').1 := by
    simp only [Upload.fill, hfault', hbytes']
    cases (x.connection.takeBody n).1.fault <;> rfl
  refine ⟨hresult, ?_⟩
  obtain ⟨journal, hworld⟩ := hx.world
  rw [fill_left, fill_left, hbytes', hleft, hleft']
  refine ⟨hx.obliging, hx.quiet, ⟨journal, ?_⟩, hx.wire, hx.count, ?_, rfl, ?_⟩
  · simp only [hworld]
  · simp only [hx.received, hx.arriving]
  · simp only [hx.inbound]

theorem divisible_repieced (hn : 1 ≤ n) (hm : 1 ≤ m) : Divisible Repieced n m :=
  ⟨agree_sendPieces_repieced hn hm, agree_fill_repieced hn hm⟩

end Serving

namespace Site

open Exchange

/-- The size of the pieces shows in nothing: not in the status or the failure, not in the bytes that are
sent and received, and not in the tree, the same random names being drawn. -/
theorem dispatch_rechunked {s : Site} {x : Exchange} {n : Nat} (hchunk : 1 ≤ s.files.chunkSize)
    (hn : 1 ≤ n) (hx : x.Obliging) (hquiet : x.Quiet) :
    ((s.rechunked n).dispatch x).1 = (s.dispatch x).1 ∧
      ((s.rechunked n).dispatch x).2.wire = (s.dispatch x).2.wire ∧
      ((s.rechunked n).dispatch x).2.connection.bytesReceived =
        (s.dispatch x).2.connection.bytesReceived ∧
      ((s.rechunked n).dispatch x).2.tree = (s.dispatch x).2.tree := by
  have hread : AgreeAt Repieced readLine readLine x x := by
    refine ⟨rfl, Obliging.repieced ?_ ?_⟩
    · exact begun_obliging hx
    · exact begun_quiet hquiet
  obtain ⟨hresult, hleft⟩ := agreeAt_dispatch bisimilar_repieced (divisible_repieced hchunk hn) hread
  exact ⟨hresult.symm, hleft.wire, hleft.received, (bisimilar_repieced.tree_eq hleft).symm⟩

/-- An upload whose stream fails behind its second segment. -/
def tornUpload : Exchange :=
  let x := Exchange.ofLine {} ""
  let inbound := [.data (Utf8.encode "UPLOAD a\nhel"), .data (Utf8.encode "lo"),
    .failure (.plain .connectionReset)]
  { x with connection := { x.connection with peer := { x.connection.peer with inbound } } }

theorem dispatch_rechunked_tornUpload :
    let s : Site := { root := ⟨.root, []⟩, uploads := ⟨.root, ["uploaded"]⟩ }
    1 ≤ s.files.chunkSize ∧ 1 ≤ 2 ∧ tornUpload.Obliging ∧ tornUpload.Quiet ∧
      (s.dispatch tornUpload).2.tree.nodes =
        [(["uploaded", "a.0.part"], .file 0), (["uploaded"], .directory)] ∧
      (s.dispatch tornUpload).2.tree.content 0 = Utf8.encode "hello" ∧
      ((s.rechunked 2).dispatch tornUpload).2.tree = (s.dispatch tornUpload).2.tree := by
  intro s
  have hquiet : tornUpload.Quiet := rfl
  have hobliging : tornUpload.Obliging := ⟨rfl, fun _ _ => rfl⟩
  have hsame := dispatch_rechunked (s := s) (n := 2) (by decide) (by decide) hobliging hquiet
  refine ⟨by decide, by decide, hobliging, hquiet, by decide +kernel, by decide +kernel, ?_⟩
  exact hsame.2.2.2

end Site

end FileExchange
