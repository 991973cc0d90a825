import FileExchange.Proofs.Serve.Pages
import FileExchange.Proofs.Serve.ShownText

/-!
# Pages of texts

What stands on the page of a text file between its opening and its closing. It is inert whatever the file holds,
and it reads as the lines of the file, each of them ended. That is the text as it is written, with a line feed
behind a last line that has none, exactly if no carriage return stands alone in the text.
-/

set_option autoImplicit false

namespace FileExchange

theorem Markup.escapeChars_injective {s s' : List Char} (h : escapeChars s = escapeChars s') : s = s' := by
  rw [← unescapeChars_escapeChars known_predefined s, h, unescapeChars_escapeChars known_predefined]

theorem Utf8.encodeChars_injective {s s' : List Char} (h : encodeChars s = encodeChars s') : s = s' := by
  rw [← decodeChars_encodeChars s, h, decodeChars_encodeChars]

namespace FileService

open Serving Exchange Markup

/-- The page that shows a block of text, from its head on. -/
def textPage (block : List Char) : Bytes :=
  (Response.htmlHead .ok).head ++ (Utf8.encode (pageOpening ++ textOpening) ++
    (Utf8.encodeChars block ++ Utf8.encode (textClosing ++ pageClosing)))

theorem textPage_injective {block block' : List Char} (h : textPage block = textPage block') :
    block = block' := by
  have hopening := List.append_cancel_left (List.append_cancel_left h)
  exact Utf8.encodeChars_injective (List.append_cancel_right hopening)

/-- The page of a file shows a text escaped and otherwise as it is written, with a line feed behind a last line
that has none. -/
def ShowsAsWritten (f : FileService) (x : Exchange) (p : Path) (text : List Char) : Prop :=
  ∃ y, f.sendText p x = (.ok (), y) ∧ y.wire = x.wire ++ textPage (escapeChars text ++
    if text = [] ∨ text.getLast? = some '\n' then [] else ['\n'])

theorem escapeChars_shown (text : List Char) :
    escapeChars (shown text) =
      escapeChars text ++ if text = [] ∨ text.getLast? = some '\n' then [] else ['\n'] := by
  cases text with
  | nil => rfl
  | cons c text =>
    by_cases hlast : (c :: text).getLast? = some '\n'
    · rw [if_pos (Or.inr hlast), List.append_nil, shown, if_neg (by simp), completeLine,
        if_pos (by simpa using hlast)]
    · rw [if_neg (not_or.mpr ⟨by simp, hlast⟩), shown, if_neg (by simp), completeLine,
        if_neg (by simpa using hlast), escapeChars, List.flatMap_append]
      rfl

/-! ## What is sent -/

section

variable {x : Exchange} {f : FileService} {p : Path} {id : FileId}

/-- The lines that are sent together are one block of escaped text. -/
theorem wire_sendText (hx : x.Obliging) (hopen : x.tree.openFile p = .ok id) :
    ∃ y taken, f.sendText p x = (.ok (), y) ∧
      y.wire = x.wire ++
        textPage (escapeChars ((taken.map f.encoding.decodeChars).flatMap completeLine)) ∧
      (x.Quiet → taken = lines (x.tree.content id)) := by
  obtain ⟨y, taken, hrun, hdelivered, htaken⟩ := f.run_sendText hx hopen
  refine ⟨y, taken, hrun, ?_, htaken⟩
  rw [textPage, ← flatMap_lineBytes, hdelivered.wire]

/-- What is shown is the text with every line of it completed, and nothing else. -/
theorem showsAsWritten_iff_completed (hx : x.Obliging) (hquiet : x.Quiet)
    (hopen : x.tree.openFile p = .ok id) (text : List Char) :
    f.ShowsAsWritten x p text ↔
      completed (f.encoding.decodeChars (x.tree.content id)) = shown text := by
  obtain ⟨y, taken, hrun, hwire, htaken⟩ := f.wire_sendText hx hopen
  rw [htaken hquiet, flatMap_completeLine_lines] at hwire
  constructor
  · rintro ⟨y', hrun', hwire'⟩
    have hy : y = y' := congrArg Prod.snd (hrun.symm.trans hrun')
    rw [← hy, hwire, ← escapeChars_shown] at hwire'
    exact escapeChars_injective (textPage_injective (List.append_cancel_left hwire'))
  · intro heq
    refine ⟨y, hrun, ?_⟩
    rw [hwire, heq, escapeChars_shown]

/-- A file is shown as it is written exactly if its text has no carriage return that stands alone. -/
theorem showsAsWritten_iff (hx : x.Obliging) (hquiet : x.Quiet) (hopen : x.tree.openFile p = .ok id) :
    f.ShowsAsWritten x p (f.encoding.decodeChars (x.tree.content id)) ↔
      NoLoneReturn (f.encoding.decodeChars (x.tree.content id)) := by
  rw [showsAsWritten_iff_completed hx hquiet hopen, completed_eq_shown_iff]

end

/-! ## Carriage returns -/

def pageTree (text : String) : Tree where
  nodes := [(["a.txt"], .file 0)]
  contents := #[Utf8.encode text]

def pagePath : Path := ⟨.root, ["a.txt"]⟩

/-- A pair of carriage return and line feed is kept, and so is a carriage return at the end. -/
theorem showsAsWritten_pair :
    (Exchange.ofLine (pageTree "1 < 2\r\n&\r") "").Obliging ∧
      (Exchange.ofLine (pageTree "1 < 2\r\n&\r") "").Quiet ∧
      (pageTree "1 < 2\r\n&\r").openFile pagePath = .ok 0 ∧
      ({} : FileService).ShowsAsWritten (.ofLine (pageTree "1 < 2\r\n&\r") "") pagePath
        "1 < 2\r\n&\r".toList := by
  have hopen : (pageTree "1 < 2\r\n&\r").openFile pagePath = .ok 0 := by decide +kernel
  have hx : (Exchange.ofLine (pageTree "1 < 2\r\n&\r") "").Obliging := ⟨rfl, fun _ _ => rfl⟩
  have htext : Encoding.utf8.decodeChars ((pageTree "1 < 2\r\n&\r").content 0) =
      "1 < 2\r\n&\r".toList := by decide +kernel
  have hnone : NoLoneReturn "1 < 2\r\n&\r".toList :=
    (completed_eq_shown_iff _).mp (by decide +kernel)
  refine ⟨hx, rfl, hopen, ?_⟩
  have hshows := (showsAsWritten_iff (f := {}) hx rfl hopen).mpr (htext.symm ▸ hnone)
  exact htext ▸ hshows

/-- A carriage return inside a text ends a line, and a line feed that the file does not hold is sent behind it. -/
theorem not_showsAsWritten_loneReturn :
    (pageTree "a\rb").openFile pagePath = .ok 0 ∧
      Encoding.utf8.decodeChars ((pageTree "a\rb").content 0) = "a\rb".toList ∧
      ¬ ({} : FileService).ShowsAsWritten (.ofLine (pageTree "a\rb") "") pagePath "a\rb".toList := by
  have hopen : (pageTree "a\rb").openFile pagePath = .ok 0 := by decide +kernel
  have hx : (Exchange.ofLine (pageTree "a\rb") "").Obliging := ⟨rfl, fun _ _ => rfl⟩
  refine ⟨hopen, by decide +kernel, fun hshows => ?_⟩
  have heq := (showsAsWritten_iff_completed (f := {}) hx rfl hopen "a\rb".toList).mp hshows
  exact absurd heq (by decide +kernel)

/-! ## Markup -/

/-- Whatever a file holds, and whatever others make of it meanwhile, its page has a block that is inert and ends
in a line feed. It is read as the lines of the file, each of them ended by a line feed. -/
theorem inert_of_sendText {x : Exchange} {f : FileService} {p : Path} {id : FileId} (hx : x.Obliging)
    (hopen : x.tree.openFile p = .ok id) :
    ∃ y block, f.sendText p x = (.ok (), y) ∧ y.wire = x.wire ++ textPage block ∧
      Inert block ∧ (block = [] ∨ block.getLast? = some '\n') ∧
      (x.Quiet → ∀ references : References, references.Known → unescapeChars references block =
        (Text.lines (f.encoding.decodeChars (x.tree.content id))).flatMap completeLine) := by
  obtain ⟨y, taken, hrun, hwire, htaken⟩ := f.wire_sendText hx hopen
  refine ⟨y, _, hrun, hwire, inert_escapeChars _, ?_, fun hquiet references hknown => ?_⟩
  · rcases getLast?_flatMap_completeLine (taken.map f.encoding.decodeChars) with hnil | hlast
    · exact Or.inl (by rw [hnil]; rfl)
    · exact Or.inr (getLast?_escapeChars hlast)
  · rw [unescapeChars_escapeChars hknown, htaken hquiet, flatMap_completeLine_lines, completed]

theorem inert_of_sendText_closing :
    (Exchange.ofLine (pageTree "</b></pre>\r&lt;") "").Obliging ∧
      (pageTree "</b></pre>\r&lt;").openFile pagePath = .ok 0 ∧
      ∃ y block, ({} : FileService).sendText pagePath (.ofLine (pageTree "</b></pre>\r&lt;") "") =
          (.ok (), y) ∧
        y.wire = textPage block ∧ Inert block ∧
        unescapeChars predefined block = "</b></pre>\r\n&lt;\n".toList := by
  have hopen : (pageTree "</b></pre>\r&lt;").openFile pagePath = .ok 0 := by decide +kernel
  have hx : (Exchange.ofLine (pageTree "</b></pre>\r&lt;") "").Obliging := ⟨rfl, fun _ _ => rfl⟩
  obtain ⟨y, block, hrun, hwire, hinert, _, hread⟩ := inert_of_sendText (f := {}) hx hopen
  refine ⟨hx, hopen, y, block, hrun, hwire, hinert, ?_⟩
  rw [hread rfl predefined known_predefined]
  decide +kernel

end FileService

end FileExchange
