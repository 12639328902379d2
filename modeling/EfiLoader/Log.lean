import EfiLoader.Status

/-!
# EfiLoader.Log

Log lines and computations that write them.  A `Logged α` is a value together
with the lines written on the way to it; the lines never influence the value,
so statements about a computation are statements about its `value`.
-/

namespace EfiLoader

/-! ## Levels -/

/-- How grave a log line is. -/
inductive Level where
  | error
  | warn
  | info
  | debug
  | trace
deriving DecidableEq

namespace Level

/-- The position of a level, gravest first. -/
def rank : Level → Nat
  | error => 1
  | warn => 2
  | info => 3
  | debug => 4
  | trace => 5

/-- The name of a level. -/
def name : Level → String
  | error => "ERROR"
  | warn => "WARN"
  | info => "INFO"
  | debug => "DEBUG"
  | trace => "TRACE"

/-- All levels, gravest first. -/
def all : List Level := [error, warn, info, debug, trace]

end Level

/-- The gravity down to which lines are written; `none` silences everything. -/
structure Verbosity where
  limit : Option Level
deriving DecidableEq

namespace Verbosity

def off : Verbosity := ⟨none⟩

/-- Whether a line of this level is written. -/
def admits (v : Verbosity) (level : Level) : Bool :=
  match v.limit with
  | none => false
  | some limit => level.rank ≤ limit.rank

/-- The name of a verbosity. -/
def name (v : Verbosity) : String :=
  match v.limit with
  | none => "OFF"
  | some limit => limit.name

/-- All verbosities, quietest first. -/
def all : List Verbosity := off :: Level.all.map fun l => ⟨some l⟩

/-- The verbosity a word names, in any letter case. -/
def ofWord? (word : List Char) : Option Verbosity :=
  all.find? fun v => v.name.toList == word.map Char.toUpper

end Verbosity

/-! ## Lines -/

/-- One log line. -/
structure Entry where
  level : Level
  /-- The component that wrote the line. -/
  target : String
  message : String
deriving DecidableEq

/-- A value and the log lines written on the way to it, oldest first. -/
structure Logged (α : Type) where
  lines : List Entry
  value : α

namespace Logged

instance : Monad Logged where
  pure a := ⟨[], a⟩
  bind x f := ⟨x.lines ++ (f x.value).lines, (f x.value).value⟩

@[ext] theorem ext {x y : Logged α} (hl : x.lines = y.lines) (hv : x.value = y.value) : x = y := by
  cases x; cases y; simp_all

@[simp] theorem value_pure (a : α) : (pure a : Logged α).value = a := rfl

@[simp] theorem lines_pure (a : α) : (pure a : Logged α).lines = [] := rfl

@[simp] theorem value_bind (x : Logged α) (f : α → Logged β) :
    (x >>= f).value = (f x.value).value := rfl

@[simp] theorem lines_bind (x : Logged α) (f : α → Logged β) :
    (x >>= f).lines = x.lines ++ (f x.value).lines := rfl

instance : LawfulMonad Logged :=
  LawfulMonad.mk' _
    (fun _ => ext (List.append_nil _) rfl)
    (fun _ _ => ext (List.nil_append _) rfl)
    (fun _ _ _ => ext (List.append_assoc _ _ _) rfl)

/-- Write the given lines. -/
def write (lines : List Entry) : Logged Unit := ⟨lines, ()⟩

@[simp] theorem value_write (lines : List Entry) : (write lines).value = () := rfl

end Logged

/-! ## Errors with a status and lines -/

/-- An error type whose members have a status and the log lines that report
them. -/
class Fault (ε : Type) where
  status : ε → Status
  report : ε → List Entry

end EfiLoader
