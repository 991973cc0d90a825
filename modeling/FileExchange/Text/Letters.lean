/-!
# Letter case

Lower and upper case where the result is compared with ASCII words. Two letters outside ASCII have
an ASCII capital or small letter; the case of the others never decides such a comparison.
-/

set_option autoImplicit false

namespace FileExchange.Text

def lowerChar (c : Char) : Char :=
  if c == '\u212A' then 'k' else c.toLower

/-- Lower case: the letters `A` to `Z` and the sign U+212A have small letters in ASCII. -/
def lower (s : List Char) : List Char :=
  s.map lowerChar

/-- Upper case: besides `a` to `z`, the dotless i, the long s, the sharp s and the ligatures of
Latin letters have capitals in ASCII. -/
def upperChar (c : Char) : List Char :=
  match c with
  | '\u0131' => ['I']
  | '\u017F' => ['S']
  | '\u00DF' => ['S', 'S']
  | '\uFB00' => ['F', 'F']
  | '\uFB01' => ['F', 'I']
  | '\uFB02' => ['F', 'L']
  | '\uFB03' => ['F', 'F', 'I']
  | '\uFB04' => ['F', 'F', 'L']
  | '\uFB05' => ['S', 'T']
  | '\uFB06' => ['S', 'T']
  | c => [c.toUpper]

def upper (s : List Char) : List Char :=
  s.flatMap upperChar

def upperText (s : String) : String :=
  String.ofList (upper s.toList)

end FileExchange.Text
