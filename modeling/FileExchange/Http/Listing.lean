import FileExchange.Text.Markup
import FileExchange.Text.Percent
import FileExchange.Text.Split

/-!
# Directory pages

The page that lists the children of a directory, each with a link back to this server.
-/

set_option autoImplicit false

namespace FileExchange

structure Entry where
  name : String
  href : String
  isDirectory : Bool
  deriving Repr, DecidableEq

namespace Listing

/-- A request path and a child's name, joined by one slash. -/
def hrefOf (parent name : String) : String :=
  if parent.toList.getLast? == some '/' then parent ++ name else parent ++ "/" ++ name

/-- The label of a directory is bold and italic. -/
def label (e : Entry) : String :=
  let name := Markup.escapeQuoted e.name
  if e.isDirectory then "<b><i>" ++ name ++ "</i></b>" else name

def item (e : Entry) : String :=
  "<li><a href=\"" ++ Percent.encode e.href ++ "\">" ++ label e ++ "</a></li>"

def opening : String := "<html><body><h1>Directory Listing</h1><ul>"

def closing : String := "</ul></body></html>"

def page (entries : List Entry) : String :=
  String.join ((opening :: entries.map item ++ [closing]).map (· ++ "\r\n"))

end Listing

end FileExchange
