import EfiLoader.Log

/-!
# EfiLoader.Console

The text console.  The firmware prints NUL-terminated UCS-2 strings, so text
is handed over in chunks of at most 128 units, the NUL included.  A newline
becomes CR LF and a character outside the basic plane becomes a question
mark.
-/

namespace EfiLoader.Console

/-! ## Chunks -/

/-- Units in one chunk, the closing NUL included. -/
def chunkLength : Nat := 128

/-- Text on its way to the console. -/
structure Writer where
  /-- Units not handed over yet; the last place of a chunk is kept for the NUL. -/
  pending : List UInt16 := []
  /-- Chunks handed over so far, oldest first, each with its NUL. -/
  chunks : List (List UInt16) := []
deriving DecidableEq

namespace Writer

/-- Hand the pending units over as one chunk; nothing pending is no chunk. -/
def flush (w : Writer) : Writer :=
  if w.pending.isEmpty then w else ⟨[], w.chunks ++ [w.pending ++ [0]]⟩

/-- Add one unit, making room first if only the place of the NUL is left. -/
def push (w : Writer) (u : UInt16) : Writer :=
  let w := if w.pending.length = chunkLength - 1 then w.flush else w
  { w with pending := w.pending ++ [u] }

end Writer

/-- The unit that prints a character. -/
def unit (c : Char) : UInt16 :=
  if c.toNat ≤ 0xFFFF then UInt16.ofNat c.toNat else UInt16.ofNat '?'.toNat

/-- The units that print a character. -/
def units (c : Char) : List UInt16 :=
  if c = '\n' then [UInt16.ofNat '\r'.toNat, unit c] else [unit c]

/-- Add a text. -/
def Writer.write (w : Writer) (text : List Char) : Writer :=
  text.foldl (fun w c => (units c).foldl Writer.push w) w

/-- The chunks of texts written one after the other and then flushed. -/
def chunksOf (texts : List (List Char)) : List (List UInt16) :=
  (texts.foldl Writer.write {}).flush.chunks

/-! ## Log lines on the console -/

/-- The tag of a level, five characters wide. -/
def tag : Level → String
  | .warn => "WARN "
  | .info => "INFO "
  | level => level.name

/-- The text of a log line, without the newline that ends it. -/
def lineText (e : Entry) : String := s!"[{tag e.level}] {e.target}: {e.message}"

/-- A console logger: whether there is a console, and what it lets through. -/
structure Logger where
  present : Bool
  verbosity : Verbosity
deriving DecidableEq

namespace Logger

/-- The chunks that print a line; none if it is filtered or nothing listens. -/
def chunks (l : Logger) (e : Entry) : List (List UInt16) :=
  if l.present && l.verbosity.admits e.level then chunksOf [(lineText e ++ "\n").toList] else []

/-- The printed lines of `es`, each without its line end. -/
def lines (l : Logger) (es : List Entry) : List String :=
  let printed := es.filter fun e => l.present && l.verbosity.admits e.level
  printed.map fun e => String.ofList <|
    ((lineText e).toList.flatMap units).map fun u => Char.ofNat u.toNat

end Logger

end EfiLoader.Console
