import EfiLoader.Zstd.Huffman

/-!
# EfiLoader.Zstd.Literals

The literals section of a compressed block: plain bytes, one byte repeated,
or Huffman-coded bytes in one stream or four.
-/

namespace EfiLoader.Zstd.Literals

/-- How literals are written. -/
inductive Form where
  | raw
  | repeated
  | coded
  /-- Coded with the table of an earlier block. -/
  | codedAgain
deriving DecidableEq

/-- The header of a literals section. -/
structure Header where
  form : Form
  /-- Number of literals. -/
  count : Nat
  /-- Bytes of the section after the header. -/
  length : Nat
  /-- Whether coded literals are in four streams. -/
  fourStreams : Bool
  /-- Bytes of the header. -/
  headerSize : Nat

/-- The form with a given number. -/
def formOf (n : Nat) : Form :=
  match n % 4 with
  | 0 => .raw
  | 1 => .repeated
  | 2 => .coded
  | _ => .codedAgain

/-- The header of literals that are not coded: a count of 5, 12 or 20 bits. -/
def plainHeader (block : ByteArray) (form : Form) (format : Nat) : Option Header :=
  let make (size count : Nat) : Header :=
    ⟨form, count, if form = .raw then count else 1, false, size⟩
  match format with
  | 1 => (Bytes.le? block 0 2).map fun n => make 2 (n / 16)
  | 3 => (Bytes.le? block 0 3).map fun n => make 3 (n / 16)
  | _ => (Bytes.le? block 0 1).map fun n => make 1 (n / 8)

/-- The header of coded literals: a count and a length of 10, 14 or 18 bits. -/
def codedHeader (block : ByteArray) (form : Form) (format : Nat) : Option Header :=
  let make (size width n : Nat) : Header :=
    ⟨form, n / 16 % (1 <<< width), (n >>> (4 + width)) % (1 <<< width), format != 0, size⟩
  match format with
  | 2 => (Bytes.le? block 0 4).map (make 4 14)
  | 3 => (Bytes.le? block 0 5).map (make 5 18)
  | _ => (Bytes.le? block 0 3).map (make 3 10)

/-- The header at the start of a block. -/
def readHeader (block : ByteArray) : Option Header :=
  match Bytes.get? block 0 with
  | none => none
  | some b =>
    let form := formOf b.toNat
    let format := b.toNat / 4 % 4
    match form with
    | .raw | .repeated => plainHeader block form format
    | .coded | .codedAgain => codedHeader block form format

/-- The literals of four streams, the lengths of the first three of which
stand before them.  Each stream uses up its bits exactly. -/
def decodeFour (t : Huffman.Table) (bytes : ByteArray) : Option ByteArray :=
  match Bytes.le? bytes 0 2, Bytes.le? bytes 2 2, Bytes.le? bytes 4 2 with
  | some a, some b, some c =>
    if bytes.size < 6 + a + b + c then
      none
    else
      let bounds := [(6, 6 + a), (6 + a, 6 + a + b), (6 + a + b, 6 + a + b + c),
        (6 + a + b + c, bytes.size)]
      bounds.foldlM (fun out p =>
        match Huffman.decodeStream t (bytes.extract p.1 p.2) out with
        | none => none
        | some (out, left) => if left = -(t.maxBits : Int) then some out else none)
        ByteArray.empty
  | _, _, _ => none

/-- The literals of `bytes`, coded with the table `t`. -/
def decodeCoded (t : Huffman.Table) (fourStreams : Bool) (bytes : ByteArray) : Option ByteArray :=
  if fourStreams then
    decodeFour t bytes
  else
    (Huffman.decodeStream t bytes ByteArray.empty).map (·.1)

/-- The literals of a section with header `h` and the table that later blocks
may use again. -/
def decode (h : Header) (section_ : ByteArray) (table : Option Huffman.Table) :
    Option (ByteArray × Option Huffman.Table) :=
  match h.form with
  | .raw => some (section_, table)
  | .repeated => some (Bytes.replicate h.count (Bytes.byte section_ 0), table)
  | .coded =>
    match Huffman.Table.read section_ with
    | none => none
    | some (t, used) =>
      match decodeCoded t h.fourStreams (Bytes.drop section_ used) with
      | none => none
      | some out => if out.size = h.count then some (out, some t) else none
  | .codedAgain =>
    match table with
    | none => none
    | some t =>
      match decodeCoded t h.fourStreams section_ with
      | none => none
      | some out => if out.size = h.count then some (out, some t) else none

end EfiLoader.Zstd.Literals
