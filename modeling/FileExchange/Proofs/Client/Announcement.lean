import FileExchange.Client.Sender
import FileExchange.Proofs.Arrival
import FileExchange.Proofs.Http.Grammar

/-!
# The announcing line

The client takes a name exactly if the server reads back that very name from the line that announces it, and
leaves the bytes behind the line for the file.
-/

set_option autoImplicit false

namespace FileExchange.Sender

variable {name : String} {line : Bytes}

/-! ## Names that can be sent -/

theorem isWord_of_isSendable (h : isSendable name = true) : Text.IsWord name.toList := by
  simp only [isSendable, Bool.and_eq_true, bne_iff_ne, ne_eq, Bool.not_eq_true',
    List.any_eq_false] at h
  obtain ⟨hne, hsolid⟩ := h
  refine ⟨fun hnil => hne (String.toList_eq_nil_iff.mp hnil), fun c hc => ?_⟩
  simpa using hsolid c hc

theorem isSendable_of_isWord (h : Text.IsWord name.toList) : isSendable name = true := by
  simp only [isSendable, Bool.and_eq_true, bne_iff_ne, ne_eq, Bool.not_eq_true',
    List.any_eq_false]
  exact ⟨fun hempty => h.ne_nil (String.toList_eq_nil_iff.mpr hempty), fun c hc => by simp [h.solid c hc]⟩

/-- The bytes that announce a name, whether it is one that can be sent or not. -/
def announcement (name : String) : Bytes :=
  Utf8.encode ("UPLOAD " ++ name ++ "\r\n")

theorem announcement_eq (name : String) :
    announcement name = Utf8.encode ("UPLOAD " ++ name) ++ [0x0D, 0x0A] :=
  Request.encode_crlf _

theorem preamble_eq_ok_iff : preamble name = .ok line ↔ Text.IsWord name.toList ∧ line = announcement name := by
  unfold preamble
  split
  · rename_i hsendable
    refine ⟨fun h => ?_, fun h => ?_⟩
    · cases h
      exact ⟨isWord_of_isSendable hsendable, rfl⟩
    · rw [h.2]
      rfl
  · rename_i hunsendable
    refine ⟨fun h => ?_, fun h => absurd (isSendable_of_isWord h.1) hunsendable⟩
    cases h

/-! ## Reading the line -/

section Reading

variable {c : Connection} {behind : Incoming}

theorem feed_notMem_announced (h : Text.IsWord name.toList) : 0x0A ∉ Utf8.encode ("UPLOAD " ++ name) := by
  refine Request.feed_notMem_encode ?_
  rw [String.toList_append, List.mem_append, not_or]
  exact ⟨by decide, Request.isWord_notMem h (by decide)⟩

/-- The line that is read is the announcement, and what comes behind it is left. -/
theorem readLine_announcement (h : Text.IsWord name.toList) (hbuffer : 1 ≤ c.bufferSize)
    (hsize : (announcement name).length ≤ c.maxLine + 1) (hcomes : c.pending = behind.after (announcement name)) :
    c.readLine.1 = .ok (some (announcement name)) ∧ c.readLine.2.pending = behind := by
  have hfeed : 0x0A ∉ Utf8.encode ("UPLOAD " ++ name) ++ [0x0D] := by
    rw [List.mem_append, not_or]
    exact ⟨feed_notMem_announced h, by decide⟩
  have hsplit : announcement name = Utf8.encode ("UPLOAD " ++ name) ++ [0x0D] ++ [0x0A] := by
    rw [announcement_eq, List.append_assoc]
    rfl
  rw [hsplit, List.length_append] at hsize
  have hpending : c.pending =
      ⟨Utf8.encode ("UPLOAD " ++ name) ++ [0x0D] ++ 0x0A :: behind.bytes, behind.fault⟩ := by
    rw [hcomes, hsplit, Incoming.after, List.append_assoc _ [0x0A], List.singleton_append]
  rw [hsplit]
  exact Connection.readLine_of_pending hbuffer hfeed (Nat.le_of_succ_le_succ hsize) hpending

theorem parse_announcement (h : Text.IsWord name.toList) :
    Request.parse (some (Request.decodeLine (announcement name))) =
      .ok ⟨.upload, name, "", "UPLOAD " ++ name⟩ := by
  rw [announcement_eq, Request.decodeLine_crlf, Request.parse_upload h]

end Reading

/-! ## Both sides -/

/-- The next line of a connection is a request to store a file under a name, and what is left behind the line
is this. -/
structure Understood (c : Connection) (name : String) (behind : Incoming) : Prop where
  request : ∃ line r, c.readLine.1 = .ok (some line) ∧
    Request.parse (some (Request.decodeLine line)) = .ok r ∧ r.method = .upload ∧ r.target = name
  left : c.readLine.2.pending = behind

/-- The line is in the stream, in the buffer or still to come, cut in any way, and anything may follow it. -/
theorem understood_iff {c : Connection} {behind : Incoming} (name : String) (hbuffer : 1 ≤ c.bufferSize)
    (hsize : (announcement name).length ≤ c.maxLine + 1) (hcomes : c.pending = behind.after (announcement name)) :
    ((∃ line, preamble name = .ok line) ↔ Understood c name behind) ∧
      ∀ line, preamble name = .ok line → line = announcement name := by
  refine ⟨⟨?_, ?_⟩, fun line h => (preamble_eq_ok_iff.mp h).2⟩
  · rintro ⟨line, h⟩
    have hword := (preamble_eq_ok_iff.mp h).1
    obtain ⟨hread, hleft⟩ := readLine_announcement hword hbuffer hsize hcomes
    exact ⟨⟨_, _, hread, parse_announcement hword, rfl, rfl⟩, hleft⟩
  · rintro ⟨⟨line, r, -, hparse, hmethod, htarget⟩, -⟩
    refine ⟨_, preamble_eq_ok_iff.mpr ⟨?_, rfl⟩⟩
    cases Request.spells_of_parse hparse with
    | get => cases hmethod
    | @upload word hwords =>
      rw [← htarget, String.toList_ofList]
      exact hwords.isWord word (by simp)

/-- Half of the line is in the buffer, and its last byte comes with the file. -/
def halfArrived : Connection where
  id := "c0"
  clientIp := "10.0.0.7"
  buffer := Utf8.encode "UPLOAD no"
  peer := { inbound := [.data (Utf8.encode "te.txt\r"), .data (Utf8.encode "\nhello")] }

theorem understood_halfArrived :
    1 ≤ halfArrived.bufferSize ∧ (announcement "note.txt").length ≤ halfArrived.maxLine + 1 ∧
      halfArrived.pending = (⟨Utf8.encode "hello", none⟩ : Incoming).after (announcement "note.txt") ∧
      preamble "note.txt" = .ok (announcement "note.txt") ∧
      Understood halfArrived "note.txt" ⟨Utf8.encode "hello", none⟩ := by
  have hbuffer : 1 ≤ halfArrived.bufferSize := by decide
  have hsize : (announcement "note.txt").length ≤ halfArrived.maxLine + 1 := by decide +kernel
  have hcomes : halfArrived.pending =
      (⟨Utf8.encode "hello", none⟩ : Incoming).after (announcement "note.txt") := by decide +kernel
  have hline : preamble "note.txt" = .ok (announcement "note.txt") := by decide +kernel
  exact ⟨hbuffer, hsize, hcomes, hline, (understood_iff "note.txt" hbuffer hsize hcomes).1.mp ⟨_, hline⟩⟩

end FileExchange.Sender
