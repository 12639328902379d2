import EfiLoader.Zstd.Bits

/-!
# EfiLoader.Zstd.Fse

Finite state entropy coding.  A table of `2 ^ log` states is laid out from
the probabilities of the symbols; each state names its symbol and how the
next state is made from the following bits.
-/

namespace EfiLoader.Zstd.Fse

open Bits

/-- One state: its symbol, how many bits select the next state, and the state
they are added to. -/
structure State where
  symbol : Nat
  bits : Nat
  base : Nat
deriving Inhabited

/-- A decoding table. -/
structure Table where
  log : Nat
  states : Array State

/-- The state with a given number. -/
def Table.state (t : Table) (i : Nat) : State := t.states.getD i default

/-! ## Laying out a table -/

/-- The order in which the places of a table of `size` states are taken. -/
def places (size : Nat) : List Nat :=
  (List.range size).map fun i => i * (size / 2 + size / 8 + 3) % size

/-- The symbols whose probability is "less than one", in order. -/
def rareSymbols (probabilities : List Int) : List Nat :=
  (probabilities.zipIdx.filter fun p => p.1 == -1).map (·.2)

/-- Every symbol as often as its probability says, in order. -/
def commonSymbols (probabilities : List Int) : List Nat :=
  probabilities.zipIdx.flatMap fun p => List.replicate p.1.toNat p.2

/-- The symbol of each place: rare symbols take the last places, the others
are spread over the rest. -/
def spread (log : Nat) (probabilities : List Int) : Array Nat :=
  let size := 1 <<< log
  let rare := rareSymbols probabilities
  let free := size - rare.length
  let table := (rare.zipIdx).foldl (fun t p => t.setIfInBounds (size - 1 - p.2) p.1)
    (Array.replicate size 0)
  (((places size).filter (· < free)).zip (commonSymbols probabilities)).foldl
    (fun t p => t.setIfInBounds p.1 p.2) table

/-- The state of the `x`-th number of a symbol: numbers start at the symbol's
probability and run to just below twice that. -/
def stateOf (log symbol x : Nat) : State :=
  let bits := log - Nat.log2 x
  ⟨symbol, bits, (x <<< bits) - (1 <<< log)⟩

/-- The states of the places, which number the occurrences of each symbol. -/
def number (log : Nat) : List Nat → Array Nat → Array State → Array State
  | [], _, states => states
  | symbol :: rest, next, states =>
    let x := next.getD symbol 1
    number log rest (next.setIfInBounds symbol (x + 1)) (states.push (stateOf log symbol x))

/-- The table for the given probabilities, which add up to `2 ^ log`. -/
def Table.ofProbabilities (log : Nat) (probabilities : List Int) : Table :=
  let first := probabilities.map fun p => if p = -1 then 1 else p.toNat
  ⟨log, number log (spread log probabilities).toList first.toArray #[]⟩

/-! ## Reading a table description -/

/-- Zero probabilities announced two bits at a time; 3 announces more.  Every
step takes two bits, so `fuel` is the number of bits. -/
def readZeros : (fuel : Nat) → Forward → Nat → Option (Nat × Forward)
  | 0, _, _ => none
  | fuel + 1, r, count =>
    match r.read? 2 with
    | none => none
    | some (more, r) =>
      if more = 3 then readZeros fuel r (count + 3) else some (count + more, r)

/-- One probability, given how much of the total is left. -/
def readProbability (r : Forward) (left : Nat) : Option (Int × Forward) :=
  let most := left + 1
  let width := Nat.log2 most + 1
  match r.read? width with
  | none => none
  | some (raw, wide) =>
    let short := (1 <<< width) - 1 - most
    let half := 1 <<< (width - 1)
    let low := raw % half
    if low < short then
      some ((low : Int) - 1, { r with pos := r.pos + (width - 1) })
    else if half ≤ raw then
      some ((raw - short : Nat) - 1, wide)
    else
      some ((raw : Int) - 1, wide)

/-- Probabilities until the total is used up, last one first.  Every step
takes at least one bit, so `fuel` is the number of bits. -/
def readProbabilities : (fuel : Nat) → Forward → Nat → List Int → Option (List Int × Forward)
  | 0, _, _, _ => none
  | fuel + 1, r, left, done =>
    if left = 0 then
      some (done, r)
    else
      match readProbability r left with
      | none => none
      | some (p, r) =>
        if p = 0 then
          match readZeros (8 * r.bytes.size + 1) r 0 with
          | none => none
          | some (zeros, r) =>
            readProbabilities fuel r left (List.replicate zeros 0 ++ p :: done)
        else
          let used := if p = -1 then 1 else p.toNat
          if left < used then none else readProbabilities fuel r (left - used) (p :: done)

/-- The table described at the start of `bytes`, and the length of its
description.  Neither the log nor the number of symbols may be too large. -/
def Table.read (bytes : ByteArray) (maxLog maxSymbols : Nat) : Option (Table × Nat) :=
  match (Forward.mk bytes 0).read? 4 with
  | none => none
  | some (low, r) =>
    let log := low + 5
    if maxLog < log then
      none
    else
      match readProbabilities (8 * bytes.size + 2) r (1 <<< log) [] with
      | none => none
      | some (reversed, r) =>
        if maxSymbols < reversed.length then
          none
        else
          some (Table.ofProbabilities log reversed.reverse, r.bytesRead)

/-! ## Decoding -/

/-- The first state of a stream. -/
def Table.start (t : Table) (r : Backward) : State × Backward :=
  let (i, r) := r.read t.log
  (t.state i, r)

/-- The state after `s`. -/
def Table.next (t : Table) (s : State) (r : Backward) : State × Backward :=
  let (n, r) := r.read s.bits
  (t.state (s.base + n), r)

end EfiLoader.Zstd.Fse
