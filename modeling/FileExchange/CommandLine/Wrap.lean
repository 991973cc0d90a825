import FileExchange.Text.Blank
import FileExchange.Text.Digit
import FileExchange.Text.Printable

/-!
# Wrapped text

A paragraph broken into lines of limited width: between words, behind a hyphen inside a word, around
a dash between words, and elsewhere inside a word only where the word is longer than a line.
-/

set_option autoImplicit false

namespace FileExchange.Wrap

/-! ## Characters -/

def isAsciiBlank (c : Char) : Bool :=
  c == ' ' || (0x09 ≤ c.toNat && c.toNat ≤ 0x0D)

/-- Beyond ASCII, every character with a visible form counts as part of a word. -/
def isWordChar (c : Char) : Bool :=
  c.isAlphanum || c == '_' || (0x80 ≤ c.toNat && Text.isPrintable c && !Text.isBlank c)

def isLetter (c : Char) : Bool :=
  isWordChar c && (Text.digitValue? c).isNone

/-- The characters that may stand in front of a dash between words. -/
def isWordOrMark (c : Char) : Bool :=
  isWordChar c || ['!', '"', '\'', '&', '.', ',', '?'].contains c

/-! ## Places to break

In this section `before` is what stands before a place, nearest character first, and `after` is what
follows it. -/

/-- The hyphens of a dash between words that starts here; none if there is no such dash. -/
def dashLength (before after : List Char) : Nat :=
  let dashes := (after.takeWhile (· == '-')).length
  if before.head?.any isWordOrMark && 2 ≤ dashes && (after.drop dashes).head?.any isWordChar then dashes
  else 0

/-- Whether a hyphen joins two parts of a word, each with two letters next to the hyphen or with a
letter and a hyphen between. -/
def joinsParts (before after : List Char) : Bool :=
  let front := match before with
    | a :: b :: rest => isLetter a && (isLetter b || (b == '-' && rest.head?.any isLetter))
    | _ => false
  let back := match after with
    | a :: '-' :: b :: _ => isLetter a && isLetter b
    | a :: b :: _ => isLetter a && isLetter b
    | _ => false
  front && back

/-- How many more characters belong to a word that has begun. -/
def wordRest (before : List Char) : List Char → Nat
  | [] => 0
  | c :: rest =>
    if c == ' ' then 0
    else if c == '-' && joinsParts before rest then 1
    else if dashLength before (c :: rest) != 0 then 0
    else wordRest (c :: before) rest + 1

/-- How many characters belong to the piece that starts with `c`, beside `c` itself. -/
def pieceRest (before : List Char) (c : Char) (after : List Char) : Nat :=
  if c == ' ' then (after.takeWhile (· == ' ')).length
  else if dashLength before (c :: after) != 0 then dashLength before (c :: after) - 1
  else wordRest (c :: before) after

/-- Cuts a text into blanks, dashes, words and parts of words. -/
def cut (before : List Char) : List Char → List (List Char)
  | [] => []
  | c :: after =>
    let n := pieceRest before c after
    let piece := c :: after.take n
    piece :: cut (piece.reverse ++ before) (after.drop n)
termination_by text => text.length
decreasing_by simp only [List.length_drop, List.length_cons]; omega

/-! ## Lines -/

def isGap (piece : List Char) : Bool :=
  Text.isBlankText piece

/-- As many pieces as fit, those left over, and the length of those that fit. -/
def fill (width used : Nat) (line : List (List Char)) :
    List (List Char) → List (List Char) × List (List Char) × Nat
  | [] => (line, [], used)
  | p :: rest =>
    if used + p.length ≤ width then fill width (used + p.length) (line ++ [p]) rest
    else (line, p :: rest, used)

/-- Where a piece is broken that is longer than a line: behind the last hyphen that fits, if
something else than hyphens stands before that one. -/
def breakPoint (space : Nat) (piece : List Char) : Nat :=
  let front := piece.take space
  let tail := (front.reverse.takeWhile (· != '-')).length
  let hyphen := front.length - tail - 1
  if tail < front.length && (piece.take hyphen).any (· != '-') then hyphen + 1 else space

def dropLastGap (line : List (List Char)) : List (List Char) :=
  match line.getLast? with
  | some p => if isGap p then line.dropLast else line
  | none => line

/-- The lines of pieces; a line takes at least one character, so `most` steps are enough when it is
more than the number of characters. Blanks at a break are lost. -/
def fillLines (width : Nat) (first : Bool) : Nat → List (List Char) → List String
  | 0, _ => []
  | _, [] => []
  | most + 1, p :: rest =>
    let pieces := if !first && isGap p then rest else p :: rest
    let (line, left, used) := fill width 0 [] pieces
    let (line, left) := match left with
      | q :: more =>
        if width < q.length then
          let point := breakPoint (width - used) q
          (line ++ [q.take point], q.drop point :: more)
        else (line, left)
      | [] => (line, [])
    let line := dropLastGap line
    if line.isEmpty then fillLines width first most left
    else String.ofList line.flatten :: fillLines width false most left

/-- Every run of blanks becomes one space. -/
def collapseBlanks : List Char → List Char
  | [] => []
  | c :: rest =>
    if !isAsciiBlank c then c :: collapseBlanks rest
    else if rest.head?.any isAsciiBlank then collapseBlanks rest
    else ' ' :: collapseBlanks rest

def wrap (width : Nat) (text : String) : List String :=
  let s := Text.trim (collapseBlanks text.toList)
  fillLines width true (s.length + 1) (cut [] s)

end FileExchange.Wrap
