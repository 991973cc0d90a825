import FileExchange.Http.Request
import FileExchange.Proofs.Text.Percent
import FileExchange.Proofs.Text.Utf8
import FileExchange.Proofs.Text.Words
import Mathlib.Data.List.TakeWhile

/-!
# Request lines there and back

What the server makes of the line of a request: the terminator goes, the bytes are the text, and the words
are the request.
-/

set_option autoImplicit false

namespace FileExchange.Request

open Text

/-! ## From bytes to the text of a line -/

theorem dropTerminator_crlf (bytes : Bytes) : dropTerminator (bytes ++ [0x0D, 0x0A]) = bytes := by
  have hsplit : bytes ++ [0x0D, 0x0A] = bytes ++ [0x0D] ++ [0x0A] := by simp
  rw [hsplit]
  simp [dropTerminator]

theorem dropTerminator_feed {bytes : Bytes} (h : 0x0D ∉ bytes) :
    dropTerminator (bytes ++ [0x0A]) = bytes := by
  have hreturn : (bytes.getLast? == some 0x0D) = false := by
    simpa using fun hlast => h (List.mem_of_getLast? hlast)
  simp [dropTerminator, hreturn]

theorem dropTerminator_of_notMem {bytes : Bytes} (hfeed : 0x0A ∉ bytes) (h : 0x0D ∉ bytes) :
    dropTerminator bytes = bytes := by
  have hreturn : (bytes.getLast? == some 0x0D) = false := by
    simpa using fun hlast => h (List.mem_of_getLast? hlast)
  have hend : (bytes.getLast? == some 0x0A) = false := by
    simpa using fun hlast => hfeed (List.mem_of_getLast? hlast)
  simp [dropTerminator, hreturn, hend]

theorem decodeLine_crlf (line : String) :
    decodeLine (Utf8.encode line ++ [0x0D, 0x0A]) = line := by
  rw [decodeLine, dropTerminator_crlf, Utf8.decode_encode]

theorem encode_crlf (line : String) :
    Utf8.encode (line ++ "\r\n") = Utf8.encode line ++ [0x0D, 0x0A] := by
  rw [Utf8.encode_append]
  rfl

theorem feed_notMem_encode {line : String} (h : '\n' ∉ line.toList) : 0x0A ∉ Utf8.encode line :=
  Utf8.notMem_encodeChars (by decide) h

/-! ## From the text to the request -/

theorem isWord_notMem {w : List Char} (hw : IsWord w) {c : Char} (hc : isBlank c = true) : c ∉ w := by
  intro hmem
  rw [hw.solid c hmem] at hc
  cases hc

theorem parse_upload {name : String} (hname : IsWord name.toList) :
    parse (some ("UPLOAD " ++ name)) = .ok ⟨.upload, name, "", "UPLOAD " ++ name⟩ := by
  have hverb : IsWord "UPLOAD".toList := ⟨by decide, by simp [isBlank]⟩
  have hchars : ("UPLOAD " ++ name).toList = "UPLOAD".toList ++ ' ' :: name.toList := by
    rw [String.toList_append]
    rfl
  have hwords : words ("UPLOAD " ++ name).toList = ["UPLOAD".toList, name.toList] := by
    rw [hchars, words_append hverb (by decide), words_of_isWord hname]
  have hmethod : Method.ofToken "UPLOAD" = .upload := by decide
  simp only [parse, hwords, ofWords, String.ofList_toList, hmethod]

theorem name_of_ofToken {token : String} {m : Method} (h : Method.ofToken token = m) (hm : m ≠ .unknown) :
    token = m.name := by
  subst h
  by_cases hget : token = "GET"
  · subst hget
    decide
  · by_cases hupload : token = "UPLOAD"
    · subst hupload
      decide
    · exact absurd (by simp [Method.ofToken, hget, hupload]) hm

/-- The two kinds of requests, each with the words of its line. -/
theorem words_of_parse {line : Option String} {r : Request} (h : parse line = .ok r) :
    line = some r.raw ∧
      ((∃ uri version, words r.raw.toList = ["GET".toList, uri, version] ∧
          r = ⟨.get, targetOf uri, String.ofList version, r.raw⟩) ∨
        ∃ name, words r.raw.toList = ["UPLOAD".toList, name] ∧
          r = ⟨.upload, String.ofList name, "", r.raw⟩) := by
  cases line with
  | none => cases h
  | some line =>
    simp only [parse] at h
    cases hwords : words line.toList with
    | nil => simp [hwords, ofWords] at h
    | cons verb rest =>
      have hverb : ∀ {m : Method}, Method.ofToken (String.ofList verb) = m → m ≠ .unknown →
          verb = m.name.toList := by
        intro m hmethod hm
        rw [← name_of_ofToken hmethod hm, String.toList_ofList]
      simp only [hwords, ofWords] at h
      split at h
      · rename_i hmethod
        obtain rfl := hverb hmethod (by decide)
        split at h
        · cases h
          exact ⟨rfl, Or.inl ⟨_, _, hwords, rfl⟩⟩
        · cases h
      · rename_i hmethod
        obtain rfl := hverb hmethod (by decide)
        split at h
        · cases h
          exact ⟨rfl, Or.inr ⟨_, hwords, rfl⟩⟩
        · cases h
      · cases h

theorem targetOf_ne_empty (uri : List Char) : targetOf uri ≠ "" := by
  unfold targetOf
  dsimp only
  split
  · decide
  · rename_i hsome
    exact fun hempty => hsome (List.isEmpty_iff.mpr (String.ofList_eq_empty_iff.mp hempty))

/-- A percent-encoded text stands for itself as a target. -/
theorem targetOf_encodeChars {target : String} (h : target ≠ "") :
    targetOf (Percent.encodeChars target.toList) = target := by
  have hpath : (Percent.encodeChars target.toList).takeWhile (· != '?') =
      Percent.encodeChars target.toList :=
    List.takeWhile_eq_self_iff.mpr fun c hc => by simpa using (Percent.isSolid_of_mem_encodeChars hc).2.1
  have hsome : target.toList.isEmpty = false := by simpa using h
  simp [targetOf, hpath, Percent.decodeChars_encodeChars, hsome]

theorem isWord_encodeChars {target : String} (h : target ≠ "") :
    IsWord (Percent.encodeChars target.toList) := by
  refine ⟨fun hnil => h ?_, fun c hc => (Percent.isSolid_of_mem_encodeChars hc).2.2⟩
  have hdecoded := Percent.decodeChars_encodeChars target.toList
  rw [hnil] at hdecoded
  exact String.toList_eq_nil_iff.mp hdecoded.symm

theorem parse_get {uri version : String} (huri : IsWord uri.toList) (hversion : IsWord version.toList) :
    parse (some ("GET " ++ uri ++ " " ++ version)) =
      .ok ⟨.get, targetOf uri.toList, version, "GET " ++ uri ++ " " ++ version⟩ := by
  have hverb : IsWord "GET".toList := ⟨by decide, by simp [isBlank]⟩
  have hchars : ("GET " ++ uri ++ " " ++ version).toList =
      "GET".toList ++ ' ' :: (uri.toList ++ ' ' :: version.toList) := by
    simp
  have hwords : words ("GET " ++ uri ++ " " ++ version).toList =
      ["GET".toList, uri.toList, version.toList] := by
    rw [hchars, words_append hverb (by decide), words_append huri (by decide), words_of_isWord hversion]
  have hmethod : Method.ofToken "GET" = .get := by decide
  simp only [parse, hwords, ofWords, String.ofList_toList, hmethod]

/-- A text, percent-encoded, is asked for under its own name. -/
theorem parse_encoded {target version : String} (h : target ≠ "") (hversion : IsWord version.toList) :
    parse (some ("GET " ++ Percent.encode target ++ " " ++ version)) =
      .ok ⟨.get, target, version, "GET " ++ Percent.encode target ++ " " ++ version⟩ := by
  have huri : IsWord (Percent.encode target).toList := by
    rw [Percent.encode, String.toList_ofList]
    exact isWord_encodeChars h
  have htarget : targetOf (Percent.encode target).toList = target := by
    rw [Percent.encode, String.toList_ofList, targetOf_encodeChars h]
  rw [parse_get huri hversion, htarget]

/-- The link to a text, put into a request line, asks for that text. -/
theorem parse_link {target : String} (h : target ≠ "") :
    parse (some ("GET " ++ Percent.encode target ++ " HTTP/1.0")) =
      .ok ⟨.get, target, "HTTP/1.0", "GET " ++ Percent.encode target ++ " HTTP/1.0"⟩ := by
  have hversion : IsWord "HTTP/1.0".toList := ⟨by decide, by simp [isBlank]⟩
  have hend : " HTTP/1.0" = " " ++ "HTTP/1.0" := by decide
  rw [hend, ← String.append_assoc]
  exact parse_encoded h hversion

/-! ## Lines on the wire -/

/-- The bytes that bring a line: a line feed ends it, with a carriage return before it or without, or the stream
is over behind it. -/
inductive Brought (line : String) : Bytes → Prop
  | ended : Brought line (Utf8.encode line)
  | feed (rest : Bytes) : Brought line (Utf8.encode line ++ 0x0A :: rest)
  | crlf (rest : Bytes) : Brought line (Utf8.encode line ++ 0x0D :: 0x0A :: rest)

end FileExchange.Request
