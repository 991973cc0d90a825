import FileExchange.Proofs.Cutting
import FileExchange.Proofs.Serve.Agreement
import FileExchange.Proofs.Serve.Sending

/-!
# Connections whose bytes are cut anew

The bytes of a connection come in segments and are received in portions. Neither the cut nor the size of
the portions shows in what is answered and stored, unless a line feed lies behind the longest line that is
allowed.
-/

set_option autoImplicit false

namespace FileExchange

open Serving

namespace Peer

/-- Sending does not look at what is still to come. -/
theorem send_inbound (p : Peer) (inbound : List Segment) (bytes : Bytes) :
    { p with inbound }.send bytes = ((p.send bytes).1, { (p.send bytes).2 with inbound }) := by
  by_cases hclosed : p.closed = true
  · simp only [send, hclosed, if_true]
  · simp only [send, if_neg hclosed]
    cases p.refusal (p.attempts + 1) (p.sent + bytes.length) <;> rfl

theorem arriving_send (p : Peer) (bytes : Bytes) : (p.send bytes).2.arriving = p.arriving := by
  unfold send
  split
  · rfl
  · dsimp only
    split <;> rfl

theorem leftOver_of_ofSegments {segments : List Segment}
    (h : (Incoming.ofSegments segments).fault = none) : leftOver segments = [] := by
  induction segments with
  | nil => rfl
  | cons segment rest ih =>
    cases segment with
    | data bytes => exact ih h
    | failure fault => cases h

theorem exhausted_arriving {p : Peer} (h : p.arriving.fault = none) :
    p.exhausted.arriving = ⟨[], none⟩ := by
  cases hclosed : p.closed with
  | true => simp [arriving, hclosed] at h
  | false =>
    simp only [arriving, hclosed] at h
    simp [exhausted, arriving, hclosed, leftOver_of_ofSegments h, Incoming.ofSegments]

theorem exhausted_inbound (p : Peer) (inbound : List Segment) :
    ∃ left, { p with inbound }.exhausted = { p.exhausted with inbound := left } := by
  unfold exhausted
  split
  · exact ⟨_, rfl⟩
  · exact ⟨_, rfl⟩

end Peer

namespace Exchange

/-- The same exchange with bytes still to come that are cut in another way. -/
structure Recut (x x' : Exchange) : Prop where
  world : ∃ journal, x'.toWorld = { x.toWorld with journal }
  peer : ∃ inbound, x'.connection.peer = { x.connection.peer with inbound }
  count : x'.connection.bytesSent = x.connection.bytesSent
  pending : x'.connection.pending = x.connection.pending
  ends : x.connection.pending.fault = none

end Exchange

namespace Serving

theorem recut_beforeSend {x x' : Exchange} (h : x.Recut x') :
    (beforeSend x).Recut (beforeSend x') := by
  obtain ⟨journal, hworld⟩ := h.world
  obtain ⟨inbound, hpeer⟩ := h.peer
  refine ⟨⟨journal, ?_⟩, ⟨inbound, hpeer⟩, h.count, h.pending, h.ends⟩
  simp only [beforeSend, hpeer, hworld]
  rfl

theorem pending_sendBytes (bytes : Bytes) (x : Exchange) :
    (sendBytes bytes x).2.connection.pending = x.connection.pending := by
  have harriving := Peer.arriving_send x.connection.peer bytes
  unfold sendBytes
  split
  all_goals
    rename_i hsend
    rw [hsend] at harriving
    exact congrArg (Incoming.after x.connection.buffer) harriving

theorem agree_sendBytes_recut (bytes : Bytes) :
    Agree Exchange.Recut (sendBytes bytes) (sendBytes bytes) := by
  intro x x' hx
  obtain ⟨inbound, hpeer⟩ := hx.peer
  have hpending : (sendBytes bytes x').2.connection.pending =
      (sendBytes bytes x).2.connection.pending := by
    rw [pending_sendBytes, pending_sendBytes, hx.pending]
  have hends : (sendBytes bytes x).2.connection.pending.fault = none := by
    rw [pending_sendBytes]
    exact hx.ends
  have hsend := Peer.send_inbound x.connection.peer inbound bytes
  rw [← hpeer] at hsend
  cases hrun : x.connection.peer.send bytes with
  | mk r p =>
    rw [hrun] at hsend
    cases r with
    | ok _ =>
      have hcount := congrArg (· + bytes.length) hx.count
      simp only [AgreeAt, sendBytes, hrun, hsend] at hpending hends ⊢
      exact ⟨trivial, hx.world, ⟨inbound, rfl⟩, hcount, hpending, hends⟩
    | error fault =>
      simp only [AgreeAt, sendBytes, hrun, hsend] at hpending hends ⊢
      exact ⟨trivial, hx.world, ⟨inbound, rfl⟩, hx.count, hpending, hends⟩

theorem bisimilar_recut : Bisimilar Exchange.Recut where
  world := fun _ _ hx => hx.world
  settle := fun _ _ hx w journal => ⟨⟨journal, rfl⟩, hx.peer, hx.count, hx.pending, hx.ends⟩
  enter := fun phase _ _ hx => ⟨rfl, hx.world, hx.peer, hx.count, hx.pending, hx.ends⟩
  send := by
    intro bytes x x' hx
    rw [AgreeAt, run_send_eq, run_send_eq]
    exact agree_sendBytes_recut bytes (recut_beforeSend hx)
  count := fun _ _ hx => hx.count.symm
  meddled := by
    intro x x' hx
    obtain ⟨inbound, hpeer⟩ := hx.peer
    rw [hpeer]
    rfl

/-- Storing takes all that is still to come, however it comes. -/
theorem agree_fill_recut {n : Nat} (hn : 1 ≤ n) (part : World.PartFile) :
    Agree Exchange.Recut (Upload.fill part n) (Upload.fill part n) := by
  intro x x' hx
  obtain ⟨hbytes, hfault⟩ := Connection.takeBody_eq (c := x.connection) hn
  obtain ⟨hbytes', hfault'⟩ := Connection.takeBody_eq (c := x'.connection) hn
  rw [hx.ends] at hfault
  rw [hx.pending, hx.ends] at hfault'
  rw [hx.pending, ← hbytes] at hbytes'
  obtain ⟨journal, hworld⟩ := hx.world
  obtain ⟨inbound, hpeer⟩ := hx.peer
  have hleft := Connection.takeBody_exhausted (c := x.connection) hn
  have hleft' := Connection.takeBody_exhausted (c := x'.connection) hn
  have hdone : (x.connection.takeBody n).2.pending = ⟨[], none⟩ := by
    rw [hleft]
    exact Peer.exhausted_arriving hx.ends
  have hdone' : (x'.connection.takeBody n).2.pending = ⟨[], none⟩ := by
    rw [hleft']
    exact Peer.exhausted_arriving ((congrArg Incoming.fault hx.pending).trans hx.ends)
  obtain ⟨left, hinbound⟩ := Peer.exhausted_inbound x.connection.peer inbound
  simp only [AgreeAt, Upload.fill, hfault, hfault', hbytes']
  refine ⟨trivial, ⟨journal, ?_⟩, ⟨left, ?_⟩, ?_, hdone'.trans hdone.symm, ?_⟩
  · simp only [hworld]
  · rw [hleft, hleft', Connection.exhausted, Connection.exhausted, hpeer]
    exact hinbound
  · rw [hleft, hleft']
    exact hx.count
  · rw [hdone]

theorem divisible_recut {n : Nat} (hn : 1 ≤ n) : Divisible Exchange.Recut n n :=
  ⟨fun _ size => FileService.agree_sendPieces bisimilar_recut _ n size _ 0, agree_fill_recut hn⟩

end Serving

namespace Exchange

/-- Nothing has been read from the connection, and a line may have this many bytes. -/
structure Fresh (x : Exchange) (limit : Nat) : Prop where
  live : x.connection.peer.closed = false
  empty : x.connection.buffer = []
  limit : x.connection.maxLine = limit

/-- The bytes come one segment for each entry, and so many of them are received at once at most. -/
def receiving (x : Exchange) (segments : List Bytes) (size : Nat) : Exchange :=
  { x with connection := { x.connection.cutInto segments with bufferSize := size } }

theorem Fresh.brings {x : Exchange} {limit : Nat} (h : x.Fresh limit) (segments : List Bytes)
    (size : Nat) : (x.receiving segments size).connection.Brings segments.flatten :=
  ⟨h.live, h.empty, segments, rfl, rfl⟩

end Exchange

/-- Segments that are not empty and together are these bytes. -/
structure Cuts (bytes : Bytes) (segments : List Bytes) : Prop where
  flatten : segments.flatten = bytes
  nonempty : [] ∉ segments

theorem Cuts.of_pos {bytes : Bytes} {segments : List Bytes} (h : segments.flatten = bytes)
    (hpos : ∀ segment ∈ segments, 0 < segment.length) : Cuts bytes segments :=
  ⟨h, fun hmem => Nat.lt_irrefl 0 (hpos [] hmem)⟩

namespace Site

/-- The two connections are told apart by nothing that is read, answered, sent or stored. -/
structure SameAnswer (s : Site) (x x' : Exchange) : Prop where
  line : x.connection.readLine.1 = x'.connection.readLine.1
  status : (s.dispatch x).1 = (s.dispatch x').1
  wire : (s.dispatch x).2.wire = (s.dispatch x').2.wire
  tree : (s.dispatch x).2.tree = (s.dispatch x').2.tree

/-- However the bytes are cut, and however many are received at once, the answer is the same. -/
def Indifferent (s : Site) (limit : Nat) (bytes : Bytes) : Prop :=
  ∀ (x : Exchange) (first second : List Bytes) (n m : Nat), x.Fresh limit → Cuts bytes first →
    Cuts bytes second → 1 ≤ n → 1 ≤ m → s.SameAnswer (x.receiving first n) (x.receiving second m)

theorem agreeAt_readLine_receiving {x : Exchange} {limit : Nat} {first second : List Bytes} {n m : Nat}
    (hx : x.Fresh limit) (hsame : first.flatten = second.flatten) (hn : 1 ≤ n) (hm : 1 ≤ m)
    (hsight : InSight limit first.flatten) :
    AgreeAt Exchange.Recut readLine readLine (x.receiving first n) (x.receiving second m) := by
  have hbrings := hx.brings first n
  have hbrings' := hx.brings second m
  rw [← hsame] at hbrings'
  rw [← hx.limit] at hsight
  obtain ⟨hline, hpending, hends⟩ := hbrings.readLine_agree hbrings' hn hm rfl hsight
  obtain ⟨inbound, _, _, hframe⟩ := Connection.readLine_frame (x.receiving first n).connection
  obtain ⟨inbound', _, _, hframe'⟩ := Connection.readLine_frame (x.receiving second m).connection
  refine ⟨hline.symm, ⟨x.journal, rfl⟩, ⟨inbound', ?_⟩, ?_, hpending, hends⟩
  · rw [run_readLine, run_readLine, hframe, hframe']
    rfl
  · rw [run_readLine, run_readLine, hframe, hframe']
    rfl

theorem indifferent_of_inSight {s : Site} {limit : Nat} {bytes : Bytes} (hchunk : 1 ≤ s.files.chunkSize)
    (h : InSight limit bytes) : s.Indifferent limit bytes := by
  intro x first second n m hx hfirst hsecond hn hm
  have hsame : first.flatten = second.flatten := hfirst.flatten.trans hsecond.flatten.symm
  have hread := agreeAt_readLine_receiving hx hsame hn hm (hfirst.flatten ▸ h)
  obtain ⟨hstatus, hleft⟩ := agreeAt_dispatch bisimilar_recut (divisible_recut hchunk) hread
  rw [rechunked_self] at hstatus hleft
  obtain ⟨inbound, hpeer⟩ := hleft.peer
  exact ⟨hread.1, hstatus, (congrArg Peer.wire hpeer).symm, bisimilar_recut.tree_eq hleft⟩

/-- A connection on which a line may have so many bytes, in a world where nothing else happens. -/
def waiting (limit : Nat) : Exchange :=
  let x := Exchange.ofLine {} ""
  { x with connection := { x.connection with maxLine := limit } }

/-- A line feed behind the longest line that is allowed is met by one cut and missed by another. -/
theorem inSight_of_indifferent {s : Site} {limit : Nat} {bytes : Bytes} (h : s.Indifferent limit bytes) :
    InSight limit bytes := by
  intro hmem
  by_contra hsight
  obtain ⟨front, rest, hbytes, hfront⟩ := List.eq_append_cons_of_mem hmem
  have hlong : limit + 1 < bytes.length := by
    by_contra hshort
    exact hsight (by rwa [List.take_of_length_le (Nat.le_of_not_lt hshort)])
  -- Received at once the line feed is met; cut right behind the longest line it comes too late.
  let c : Connection := { (waiting limit).connection with bufferSize := bytes.length }
  have hone : (c.cutInto [bytes]).readLine.1 = .ok (some (front ++ [0x0A])) := by
    rw [hbytes]
    exact Connection.readLine_of_one_piece rfl rfl hfront (hbytes ▸ Nat.le_refl _)
  have htwo : (c.cutInto [bytes.take (limit + 1), bytes.drop (limit + 1)]).readLine.1 =
      .error (.lineTooLong limit) :=
    Connection.readLine_of_two_pieces (c := c) rfl rfl (Nat.lt_of_succ_lt hlong) hsight
      (Nat.le_of_lt hlong)
  have hpos : 1 ≤ bytes.length := by omega
  have hcut : Cuts bytes [bytes] := by
    apply Cuts.of_pos (by simp)
    simp only [List.mem_singleton, forall_eq]
    exact hpos
  have hcut' : Cuts bytes [bytes.take (limit + 1), bytes.drop (limit + 1)] := by
    apply Cuts.of_pos (by simp)
    simp only [List.mem_cons, List.not_mem_nil, or_false, forall_eq_or_imp, forall_eq,
      List.length_take, List.length_drop]
    omega
  have hline := (h (waiting limit) _ _ _ _ ⟨rfl, rfl, rfl⟩ hcut hcut' hpos hpos).line
  have hclash := hone.symm.trans (hline.trans htwo)
  cases hclash

/-- Bytes are answered in the same way however they are cut exactly if no line feed is out of sight. -/
theorem indifferent_iff {s : Site} {limit : Nat} {bytes : Bytes} (hchunk : 1 ≤ s.files.chunkSize) :
    s.Indifferent limit bytes ↔ InSight limit bytes :=
  ⟨inSight_of_indifferent, indifferent_of_inSight hchunk⟩

theorem indifferent_of_short_line :
    let s : Site := { root := ⟨.root, []⟩, uploads := ⟨.root, []⟩ }
    1 ≤ s.files.chunkSize ∧ s.Indifferent 14 (Utf8.encode "GET / HTTP/1.0\n") := by
  intro s
  have hsight : InSight 14 (Utf8.encode "GET / HTTP/1.0\n") := by decide
  exact ⟨by decide, (indifferent_iff (by decide)).mpr hsight⟩

/-- One request line, received at once and in two pieces, where a line may have four bytes. -/
theorem not_indifferent_of_long_line :
    let s : Site := { root := ⟨.root, []⟩, uploads := ⟨.root, []⟩ }
    let bytes := Utf8.encode "GET / HTTP/1.0\n"
    (s.dispatch ((waiting 4).receiving [bytes] 8192)).1 = .ok 200 ∧
      (s.dispatch ((waiting 4).receiving [bytes.take 6, bytes.drop 6] 8192)).1 = .ok 404 ∧
      ¬ s.Indifferent 4 bytes := by
  intro s bytes
  have hone : (s.dispatch ((waiting 4).receiving [bytes] 8192)).1 = .ok 200 := by decide +kernel
  have htwo : (s.dispatch ((waiting 4).receiving [bytes.take 6, bytes.drop 6] 8192)).1 = .ok 404 := by
    decide +kernel
  refine ⟨hone, htwo, fun h => ?_⟩
  have hcut : Cuts bytes [bytes] := Cuts.of_pos (by decide) (by decide)
  have hcut' : Cuts bytes [bytes.take 6, bytes.drop 6] := Cuts.of_pos (by decide) (by decide)
  have hstatus := (h (waiting 4) _ _ 8192 8192 ⟨rfl, rfl, rfl⟩ hcut hcut' (by decide) (by decide)).status
  rw [hone, htwo] at hstatus
  cases hstatus

end Site

end FileExchange
