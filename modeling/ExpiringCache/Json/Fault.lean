import ExpiringCache.Json.Cause

/-! Where a document is refused. A reader names the place of a fault by the text that it
had left and how many bytes into that text the fault lies; the line and the column are
worked out from the whole document at the end. Columns count bytes. -/

namespace ExpiringCache.Json

/-- A fault `past` bytes into the text `rest` that was left to read. -/
structure Fault where
  cause : Cause
  rest : List Char
  past : Nat
deriving Repr

/-- The number of bytes that characters take. -/
def byteSize (cs : List Char) : Nat := cs.foldr (fun c n => c.utf8Size + n) 0

namespace Fault

/-- A fault just before what is left to read. -/
def here (cause : Cause) (rest : List Char) : Fault := ⟨cause, rest, 0⟩

/-- A fault in the next byte, or at the end of the text if there is none. -/
def next (cause : Cause) (rest : List Char) : Fault := ⟨cause, rest, min 1 rest.length⟩

/-- The number of bytes of the document before the fault. -/
def offset (f : Fault) (document : List Char) : Nat :=
  byteSize document - byteSize f.rest + f.past

end Fault

/-- The line and the column after `offset` bytes of a text, starting from given ones. -/
def positionFrom (line column : Nat) : List Char → Nat → Nat × Nat
  | [], offset => (line, column + offset)
  | c :: cs, offset =>
    if offset < c.utf8Size then (line, column + offset)
    else if c = '\n' then positionFrom (line + 1) 0 cs (offset - 1)
    else positionFrom line (column + c.utf8Size) cs (offset - c.utf8Size)

/-- Lines count from one, columns are the bytes since the line began. -/
def position (document : List Char) (offset : Nat) : Nat × Nat :=
  positionFrom 1 0 document offset

/-- A fault with its place in the document. -/
structure Refusal where
  cause : Cause
  line : Nat
  column : Nat
deriving Repr

def Refusal.message (r : Refusal) : String :=
  r.cause.message ++ " at line " ++ toString r.line ++ " column " ++ toString r.column

def Fault.locate (f : Fault) (document : List Char) : Refusal :=
  let (line, column) := position document (f.offset document)
  ⟨f.cause, line, column⟩

end ExpiringCache.Json
