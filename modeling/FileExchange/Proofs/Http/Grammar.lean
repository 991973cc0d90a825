import FileExchange.Proofs.Http.RequestLine

/-!
# Lines that are requests

Which lines spell a request, and which one: the words of the line, where the path of a `GET` is decoded once.
Every request can be written as a line again, and that line spells it.
-/

set_option autoImplicit false

namespace FileExchange.Request

open Text

/-! ## What a line spells -/

/-- A line has the words of a `GET` or those of an `UPLOAD`. -/
def HasShape (line : String) : Prop :=
  (∃ uri version, Spaced line.toList ["GET".toList, uri, version]) ∨
    ∃ name, Spaced line.toList ["UPLOAD".toList, name]

/-- The target that a word of a `GET` names: what the word holds in front of its first question mark, decoded,
or the root if that is nothing. -/
def Names (uri : List Char) (target : String) : Prop :=
  ∃ path query, uri = path ++ query ∧ '?' ∉ path ∧ (∀ c, query.head? = some c → c = '?') ∧
    (Percent.decodeChars path ≠ [] ∧ target = String.ofList (Percent.decodeChars path) ∨
      Percent.decodeChars path = [] ∧ target = "/")

inductive Spells (line : String) : Request → Prop
  | get {uri version : List Char} {target : String}
      (hwords : Spaced line.toList ["GET".toList, uri, version]) (htarget : Names uri target) :
      Spells line ⟨.get, target, String.ofList version, line⟩
  | upload {name : List Char} (hwords : Spaced line.toList ["UPLOAD".toList, name]) :
      Spells line ⟨.upload, String.ofList name, "", line⟩

theorem names_targetOf (uri : List Char) : Names uri (targetOf uri) := by
  refine ⟨uri.takeWhile (· != '?'), uri.dropWhile (· != '?'), List.takeWhile_append_dropWhile.symm, ?_, ?_, ?_⟩
  · intro hmem
    have hne := List.mem_takeWhile_imp hmem
    simp at hne
  · intro c hc
    have hnot := List.head?_dropWhile_not (· != '?') uri
    rw [hc] at hnot
    simpa using hnot
  · by_cases hpath : Percent.decodeChars (uri.takeWhile (· != '?')) = []
    · exact Or.inr ⟨hpath, by simp [targetOf, hpath]⟩
    · exact Or.inl ⟨hpath, by simp [targetOf, hpath]⟩

theorem targetOf_of_names {uri : List Char} {target : String} (h : Names uri target) :
    targetOf uri = target := by
  obtain ⟨path, query, rfl, hpath, hquery, htarget⟩ := h
  have htake : (path ++ query).takeWhile (· != '?') = path := by
    have hall : ∀ c ∈ path, (c != '?') = true := fun c hc => by
      simpa using fun heq : c = '?' => hpath (heq ▸ hc)
    rw [List.takeWhile_append_of_pos hall]
    cases query with
    | nil => simp
    | cons c query => simp [hquery c rfl]
  rcases htarget with ⟨hsome, rfl⟩ | ⟨hnone, rfl⟩
  · simp [targetOf, htake, hsome]
  · simp [targetOf, htake, hnone]

/-- A text that is encoded once is decoded to itself, whatever it holds and whatever query is behind it. -/
theorem names_encoded {text : String} (h : text ≠ "") {query : List Char}
    (hquery : ∀ c, query.head? = some c → c = '?') :
    Names (Percent.encodeChars text.toList ++ query) text := by
  have hdecoded := Percent.decodeChars_encodeChars text.toList
  refine ⟨_, query, rfl, fun hmem => (Percent.isSolid_of_mem_encodeChars hmem).2.1 rfl, hquery, Or.inl ⟨?_, ?_⟩⟩
  · rw [hdecoded]
    exact fun hnil => h (String.toList_eq_nil_iff.mp hnil)
  · rw [hdecoded, String.ofList_toList]

/-! ## Reading -/

theorem spells_of_parse {line : String} {r : Request} (h : parse (some line) = .ok r) : Spells line r := by
  obtain ⟨hraw, ⟨uri, version, hwords, hr⟩ | ⟨name, hwords, hr⟩⟩ := words_of_parse h
  · obtain rfl := Option.some.inj hraw
    rw [hr]
    exact .get (hwords ▸ spaced_words _) (names_targetOf uri)
  · obtain rfl := Option.some.inj hraw
    rw [hr]
    exact .upload (hwords ▸ spaced_words _)

theorem Spells.parse_eq {line : String} {r : Request} (h : Spells line r) : parse (some line) = .ok r := by
  cases h with
  | get hwords htarget =>
    have hmethod : Method.ofToken "GET" = .get := by decide
    simp only [parse, hwords.words_eq, ofWords, String.ofList_toList, hmethod, targetOf_of_names htarget]
  | upload hwords =>
    have hmethod : Method.ofToken "UPLOAD" = .upload := by decide
    simp only [parse, hwords.words_eq, ofWords, String.ofList_toList, hmethod]

theorem parse_eq_ok_iff {line : String} {r : Request} : parse (some line) = .ok r ↔ Spells line r :=
  ⟨spells_of_parse, Spells.parse_eq⟩

theorem hasShape_iff {line : String} : HasShape line ↔ ∃ r, Spells line r := by
  constructor
  · rintro (⟨uri, version, hwords⟩ | ⟨name, hwords⟩)
    · exact ⟨_, .get hwords (names_targetOf uri)⟩
    · exact ⟨_, .upload hwords⟩
  · rintro ⟨r, hr⟩
    cases hr with
    | get hwords _ => exact Or.inl ⟨_, _, hwords⟩
    | upload hwords => exact Or.inr ⟨_, hwords⟩

/-! ## Writing again -/

/-- A request as a line, with the target of a `GET` percent-encoded. -/
def written (r : Request) : String :=
  match r.method with
  | .upload => "UPLOAD " ++ r.target
  | _ => "GET " ++ Percent.encode r.target ++ " " ++ r.rest

theorem Names.ne_empty {uri : List Char} {target : String} (h : Names uri target) : target ≠ "" :=
  targetOf_of_names h ▸ targetOf_ne_empty uri

theorem Spells.target_ne_empty {line : String} {r : Request} (h : Spells line r) : r.target ≠ "" := by
  cases h with
  | get hwords htarget => exact htarget.ne_empty
  | @upload name hwords =>
    have hname := hwords.isWord name (by simp)
    exact fun hempty => hname.ne_nil (String.ofList_eq_empty_iff.mp hempty)

/-- The line that a request is written as is read as that request. -/
theorem Spells.parse_written {line : String} {r : Request} (h : Spells line r) :
    parse (some r.written) = .ok { r with raw := r.written } := by
  have hne := h.target_ne_empty
  cases h with
  | @get uri version target hwords htarget =>
    have hversion : IsWord (String.ofList version).toList := by
      rw [String.toList_ofList]
      exact hwords.isWord version (by simp)
    exact parse_encoded hne hversion
  | @upload name hwords =>
    have hname : IsWord (String.ofList name).toList := by
      rw [String.toList_ofList]
      exact hwords.isWord name (by simp)
    exact parse_upload hname

/-! ## Grammar and normal form -/

/-- What reading a line comes to: a line of the right shape is read as the request that it spells, any other is
refused, a text that is encoded once is decoded once, and a request that was read can be written and read
again. -/
structure Settles (line : String) : Prop where
  shape : (∃ r, parse (some line) = .ok r) ↔ HasShape line
  refused : ¬ HasShape line → ∃ e, parse (some line) = .error e
  spelled : ∀ r, parse (some line) = .ok r → Spells line r
  verb : ∀ r, parse (some line) = .ok r →
    (line.toList.dropWhile isBlank).takeWhile (fun c => !isBlank c) = r.method.name.toList
  once : ∀ text query version, text ≠ "" → (∀ c, query.head? = some c → c = '?') →
    Spaced line.toList ["GET".toList, Percent.encodeChars text.toList ++ query, version] →
    ∃ r, parse (some line) = .ok r ∧ r.target = text
  again : ∀ r, parse (some line) = .ok r → parse (some r.written) = .ok { r with raw := r.written }
  named : ∀ r, parse (some line) = .ok r → r.target ≠ ""

theorem settles_of_line (line : String) : Settles line := by
  have hshape : (∃ r, parse (some line) = .ok r) ↔ HasShape line := by
    rw [hasShape_iff]
    exact exists_congr fun r => parse_eq_ok_iff
  refine ⟨hshape, fun hnot => ?_, fun r h => spells_of_parse h, fun r h => ?_,
    fun text query version hne hquery hwords => ?_, fun r h => (spells_of_parse h).parse_written,
    fun r h => (spells_of_parse h).target_ne_empty⟩
  · cases hparse : parse (some line) with
    | ok r => exact absurd (hshape.mp ⟨r, hparse⟩) hnot
    | error e => exact ⟨e, rfl⟩
  · cases spells_of_parse h with
    | get hwords htarget => exact hwords.first_eq
    | upload hwords => exact hwords.first_eq
  · exact ⟨_, (Spells.get hwords (names_encoded hne hquery)).parse_eq, rfl⟩

example : (parse (some "\tGET /a%2541?b v ")).map Request.target = .ok "/a%41" := by decide +kernel

end FileExchange.Request
