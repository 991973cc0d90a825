/-!
# Cutting and joining at a separator

The pieces of a text between the occurrences of one character, and tests of how a text starts.
-/

set_option autoImplicit false

namespace FileExchange.Text

/-- One more character in front of the pieces already cut. -/
def prependToPieces (sep c : Char) (pieces : List (List Char)) : List (List Char) :=
  if c == sep then [] :: pieces
  else
    match pieces with
    | [] => [[c]]
    | p :: rest => (c :: p) :: rest

/-- The pieces between separators: one more piece than there are separators. -/
def splitOnChar (sep : Char) (s : List Char) : List (List Char) :=
  s.foldr (prependToPieces sep) [[]]

def splitText (sep : Char) (s : String) : List String :=
  (splitOnChar sep s.toList).map String.ofList

def joinTexts (sep : String) (pieces : List String) : String :=
  String.intercalate sep pieces

def startsWith (front s : String) : Bool :=
  front.toList.isPrefixOf s.toList

end FileExchange.Text
