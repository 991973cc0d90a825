import FileExchange.Http.Response
import FileExchange.Media.Type
import FileExchange.Serve.Exchange
import FileExchange.Text.Ascii
import FileExchange.Text.Base64
import FileExchange.Text.Encoding
import FileExchange.Text.Markup
import FileExchange.Tree.Reader

/-!
# Serving files

A text is shown on a page line by line, an image is embedded in a page, and everything else is a
download of exactly the announced size.
-/

set_option autoImplicit false

namespace FileExchange

structure FileService where
  chunkSize : Nat := 32
  serverName : String := "FileShare/1.0"
  encoding : Encoding := .utf8
  deriving Repr, DecidableEq

namespace FileService

open Serving

/-! ## Pages -/

def pageOpening : String := "<html><h1>File Content</h1><body>\r\n"

def pageClosing : String := "</body></html>\r\n"

def textOpening : String := "<pre><b>\r\n"

def textClosing : String := "</b></pre>\r\n"

def sendHead (r : Response) : Serving Unit :=
  send r.head

def openFile (p : Path) : Serving FileId :=
  ask (·.tree.openFile p)

/-! ## Text -/

/-- A line that does not end in a line feed gets one. -/
def completeLine (line : List Char) : List Char :=
  if line.getLast? == some '\n' then line else line ++ ['\n']

def lineBytes (encoding : Encoding) (line : Bytes) : Bytes :=
  Utf8.encodeChars (Markup.escapeChars (completeLine (encoding.decodeChars line)))

/-- Sends the lines of a file; `most` is an upper bound of their number. -/
def sendLines (f : FileService) (r : LineReader) : Nat → Serving Unit
  | 0 => return
  | most + 1 => do
    let (line?, r) ← inspect fun s => r.next s.tree
    match line? with
    | none => return
    | some line =>
      send (lineBytes f.encoding line)
      sendLines f r most

/-- While it is sent, a file never becomes longer than what it holds and what others write. -/
def lengthBound (s : Exchange) (id : FileId) : Nat :=
  (s.tree.content id).length + s.connection.peer.meddledSize

def sendText (f : FileService) (p : Path) : Serving Unit := do
  let file ← openFile p
  let most ← inspect fun s => lengthBound s file
  sendHead (Response.htmlHead .ok)
  send (Utf8.encode (pageOpening ++ textOpening))
  sendLines f { file } (most + 1)
  send (Utf8.encode (textClosing ++ pageClosing))

/-! ## Images -/

def imagePage (type : String) (bytes : Bytes) : List Char :=
  (pageOpening ++ "<img src=\"data:" ++ type ++ ";base64,").toList ++ Base64.encodeChars bytes ++
    ("\" alt=\"Image\" />\r\n" ++ pageClosing).toList

/-- A page of ASCII alone, or the first run of characters that are not. -/
def asciiBytes (page : List Char) : Except Failure Bytes :=
  let front := page.takeWhile Text.isAscii
  let run := (page.drop front.length).takeWhile (!Text.isAscii ·)
  if run.isEmpty then .ok (page.map fun c => UInt8.ofNat c.toNat)
  else .error (.notAscii run front.length)

def sendImage (p : Path) (type : String) : Serving Unit := do
  let file ← openFile p
  let bytes ← inspect (·.tree.content file)
  sendHead (Response.htmlHead .ok)
  send (← ask fun _ => asciiBytes (imagePage type bytes))

/-! ## Downloads -/

/-- Sends pieces until as many bytes are sent as were announced or the file ends. `read` gives the
next piece of at most some size from the tree as it is then. -/
def sendPieces {ρ : Type} (read : Tree → ρ → Nat → Bytes × ρ) (chunkSize size : Nat) (r : ρ)
    (written : Nat) : Serving Nat := do
  if _h : size ≤ written then return written
  else
    let (piece, r) ← inspect fun s => read s.tree r (min chunkSize (size - written))
    if _hne : piece = [] then return written
    else
      send piece
      sendPieces read chunkSize size r (written + piece.length)
termination_by size - written
decreasing_by
  have := List.length_pos_iff.mpr _hne
  omega

/-- A file that became shorter than announced is reported. -/
def reportShrunk (name : String) (size written : Nat) : Serving Unit :=
  if written != size then
    report .error .files (name ++ " shrank while sending: announced " ++ toString size ++
      " bytes, sent " ++ toString written)
  else return

/-- The size is taken once, before the head; the number of bytes sent is the result. -/
def sendAttachment (f : FileService) (p : Path) (type : String) : Serving Nat := do
  let file ← openFile p
  let size ← inspect fun s => (s.tree.content file).length
  let now ← inspect (·.clock.now)
  sendHead (Response.attachmentHead now type size p.name f.serverName)
  let written ← sendPieces (fun t r n => r.read t n) f.chunkSize size ({ file } : Reader) 0
  reportShrunk p.name size written
  return written

/-! ## All files -/

def respond (f : FileService) (p : Path) : Serving Unit := do
  match Media.classify p with
  | (.text, _) => sendText f p
  | (.image, type) => sendImage p type
  | (_, type) => discard (sendAttachment f p type)

end FileService

end FileExchange
