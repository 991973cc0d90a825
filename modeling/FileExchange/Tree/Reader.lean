import FileExchange.Tree.Basic

/-!
# Open files

Reading a file piece by piece while others may change it. Bytes are taken from the file in blocks,
and what a block held stays readable although the file has changed since.
-/

set_option autoImplicit false

namespace FileExchange

namespace Tree

/-- At most `size` bytes of a file from a position on. -/
def bytesAt (t : Tree) (id : FileId) (position size : Nat) : Bytes :=
  ((t.content id).drop position).take size

end Tree

/-! ## Bytes -/

/-- An open file: how far the blocks were read, and what is left of the last one. -/
structure Reader where
  file : FileId
  position : Nat := 0
  ahead : Bytes := []
  deriving Repr, DecidableEq

namespace Reader

def blockSize : Nat := 4096

/-- Whole blocks that go straight to the caller. -/
def readWhole (t : Tree) (r : Reader) (size : Nat) : Bytes × Reader :=
  let bytes := t.bytesAt r.file r.position size
  (bytes, { r with position := r.position + bytes.length })

/-- One block, of which the caller takes the front. -/
def readBlock (t : Tree) (r : Reader) (size : Nat) : Bytes × Reader :=
  let bytes := t.bytesAt r.file r.position blockSize
  (bytes.take size, { r with position := r.position + bytes.length, ahead := bytes.drop size })

/-- Bytes from the file itself: whole blocks first, then the start of one more. -/
def readThrough (t : Tree) (r : Reader) (size : Nat) : Bytes × Reader :=
  let whole := size - size % blockSize
  if whole == 0 then readBlock t r size
  else
    let (front, r) := readWhole t r whole
    if front.length < whole || whole == size then (front, r)
    else
      let (back, r) := readBlock t r (size - whole)
      (front ++ back, r)

/-- At most `size` bytes; fewer only at the end of the file. -/
def read (t : Tree) (r : Reader) (size : Nat) : Bytes × Reader :=
  if size ≤ r.ahead.length then (r.ahead.take size, { r with ahead := r.ahead.drop size })
  else
    let (bytes, r') := readThrough t { r with ahead := [] } (size - r.ahead.length)
    (r.ahead ++ bytes, r')

end Reader

/-! ## Lines -/

/-- The first line of some bytes if they show where it ends, with its terminator, and what follows
it. A line ends at a line feed, at a carriage return, or at both in this order. -/
def cutLineOnto (front : Bytes) : Bytes → Option (Bytes × Bytes)
  | [] => none
  | b :: rest =>
    if b == 0x0A then some ((b :: front).reverse, rest)
    else if b == 0x0D then
      match rest with
      | [] => none
      | c :: rest' =>
        if c == 0x0A then some ((c :: b :: front).reverse, rest')
        else some ((b :: front).reverse, rest)
    else cutLineOnto (b :: front) rest

def cutLine (bytes : Bytes) : Option (Bytes × Bytes) :=
  cutLineOnto [] bytes

/-- An open text file: how far it was read, and the bytes read that are no line yet. -/
structure LineReader where
  file : FileId
  position : Nat := 0
  pending : Bytes := []
  deriving Repr, DecidableEq

namespace LineReader

def blockSize : Nat := 8192

/-- What is left at the end of the file is a line without a terminator. -/
def flush (r : LineReader) : Option Bytes × LineReader :=
  (if r.pending.isEmpty then none else some r.pending, { r with pending := [] })

/-- The next line of a file, or nothing at its end. Blocks are read until a line is complete, and each
of them brings the position nearer to the end of the file. -/
def next (t : Tree) (r : LineReader) : Option Bytes × LineReader :=
  match cutLine r.pending with
  | some (line, rest) => (some line, { r with pending := rest })
  | none =>
    let block := t.bytesAt r.file r.position blockSize
    if _h : block = [] then r.flush
    else next t { r with position := r.position + block.length, pending := r.pending ++ block }
termination_by (t.content r.file).length - r.position
decreasing_by
  have hpos := List.length_pos_iff.mpr _h
  have hlen : (t.bytesAt r.file r.position blockSize).length ≤ (t.content r.file).length - r.position := by
    simp only [Tree.bytesAt, List.length_take, List.length_drop]
    omega
  simp only [block] at hpos ⊢
  omega

end LineReader

end FileExchange
