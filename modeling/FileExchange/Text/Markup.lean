/-!
# Markup

Text inside an HTML page: the characters that would be read as markup are written as entities.
-/

set_option autoImplicit false

namespace FileExchange.Markup

/-- Between tags `&`, `<` and `>` are written as entities. -/
def escapeChar : Char → List Char
  | '&' => "&amp;".toList
  | '<' => "&lt;".toList
  | '>' => "&gt;".toList
  | c => [c]

/-- Inside an attribute both quotes are written as entities too. -/
def escapeQuotedChar : Char → List Char
  | '"' => "&quot;".toList
  | '\'' => "&#x27;".toList
  | c => escapeChar c

def escapeChars (s : List Char) : List Char :=
  s.flatMap escapeChar

def escapeQuoted (s : String) : String :=
  String.ofList (s.toList.flatMap escapeQuotedChar)

end FileExchange.Markup
