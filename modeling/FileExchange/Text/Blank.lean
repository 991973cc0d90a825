/-!
# White space and words

Which characters separate words, how a text is trimmed of them, and how it is cut into words.
-/

set_option autoImplicit false

namespace FileExchange.Text

/-- The separators of Unicode: the tabulating controls, the information separators and every
space, line and paragraph separator. -/
def isBlank (c : Char) : Bool :=
  let n := c.toNat
  (0x09 ≤ n && n ≤ 0x0D) || (0x1C ≤ n && n ≤ 0x20) || n == 0x85 || n == 0xA0 || n == 0x1680 ||
    (0x2000 ≤ n && n ≤ 0x200A) || n == 0x2028 || n == 0x2029 || n == 0x202F || n == 0x205F ||
    n == 0x3000

def isBlankText (s : List Char) : Bool :=
  s.all isBlank

/-! ## Trimming -/

def trimEnd (drop : Char → Bool) (s : List Char) : List Char :=
  (s.reverse.dropWhile drop).reverse

/-- Removes the characters of a class from both ends. -/
def trimBy (drop : Char → Bool) (s : List Char) : List Char :=
  trimEnd drop (s.dropWhile drop)

def trim (s : List Char) : List Char :=
  trimBy isBlank s

/-! ## Words -/

/-- One more character in front of words already cut: `joined` tells whether the character that
follows belongs to the first word. -/
def prependToWords (c : Char) : List (List Char) × Bool → List (List Char) × Bool
  | (ws, joined) =>
    if isBlank c then (ws, false)
    else
      match ws, joined with
      | w :: rest, true => ((c :: w) :: rest, true)
      | ws, _ => ([c] :: ws, true)

/-- The maximal runs of characters that are not blank. -/
def words (s : List Char) : List (List Char) :=
  (s.foldr prependToWords ([], false)).1

end FileExchange.Text
