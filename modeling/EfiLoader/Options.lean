import EfiLoader.Text.Utf16
import EfiLoader.Text.Words
import EfiLoader.Log.Target

/-!
# EfiLoader.Options

The options the loader is started with: one line of words.  Words that begin
with `zloader.` set up the loader and all others make up the command line of
the kernel.  A word that cannot be honoured is reported and changes nothing,
except that a path that does not fit leaves its field empty.
-/

namespace EfiLoader

open Text Log

/-- Which loader starts the payload. -/
inductive LoaderChoice where
  /-- The built-in one; the firmware's for images the built-in one does not support. -/
  | builtin
  /-- The firmware's only. -/
  | firmware
deriving DecidableEq

/-- The options of one boot attempt. -/
structure Options where
  /-- Path of the payload on the boot volume; empty for the default. -/
  image : String := ""
  /-- Path of the initrd on the boot volume; empty for none. -/
  initrd : String := ""
  /-- Command line of the kernel. -/
  cmdline : String := ""
  /-- How much is logged. -/
  verbosity : Verbosity := ⟨some .info⟩
  /-- Which loader starts the payload. -/
  mode : LoaderChoice := .builtin
deriving DecidableEq

namespace Options

/-- Most UTF-8 bytes of a path. -/
def maxPath : Nat := 128

/-- Most UTF-8 bytes of a command line. -/
def maxCmdline : Nat := 1024

/-- The payload that is loaded when nothing names one. -/
def defaultImage : String := "\\EFI\\Linux\\Image.zst"

/-- What the words that set up the loader begin with. -/
def settingStart : List Char := "zloader.".toList

/-- The UTF-8 length of a text. -/
def byteLength (cs : List Char) : Nat := cs.foldr (fun c n => c.utf8Size + n) 0

/-- Forward slashes become backslashes. -/
def backslashed (cs : List Char) : List Char := cs.map fun c => if c = '/' then '\\' else c

/-! ## Single words -/

/-- The path a value stands for: backslash separated, and empty if the value
is too long. -/
def path (value : List Char) : List Char :=
  if byteLength value ≤ maxPath then backslashed value else []

/-- `path`, reporting a value that is too long. -/
def notedPath (value : List Char) : Logged String := do
  if maxPath < byteLength value then
    note (Component.options.warn s!"Path too long: {String.ofList value}")
  return String.ofList (path value)

/-- The key and the value of a setting; the value is empty without a `=`. -/
def splitSetting (setting : List Char) : List Char × List Char :=
  (setting.takeWhile (· != '='), (setting.dropWhile (· != '=')).drop 1)

/-- The loader a word names. -/
def loaderOfWord? (word : List Char) : Option LoaderChoice :=
  if word = "builtin".toList then some .builtin
  else if word = "firmware".toList then some .firmware
  else none

/-- Apply the setting `setting`, written as `token` in full. -/
def set (o : Options) (token setting : List Char) : Logged Options := do
  let (key, value) := splitSetting setting
  if key = "image".toList then
    return { o with image := ← notedPath value }
  else if key = "initrd".toList then
    return { o with initrd := ← notedPath value }
  else if key = "log".toList then
    match Verbosity.ofWord? value with
    | some verbosity => return { o with verbosity }
    | none =>
      note (Component.options.warn s!"Unknown log level '{String.ofList value}'")
      return o
  else if key = "loader".toList then
    match loaderOfWord? value with
    | some mode => return { o with mode }
    | none =>
      note (Component.options.warn s!"Unknown loader '{String.ofList value}'")
      return o
  else
    note (Component.options.warn s!"Unknown option '{String.ofList token}'")
    return o

/-- The command line with one more word, if that fits. -/
def appendWord? (cmdline token : List Char) : Option (List Char) :=
  let longer := if cmdline.isEmpty then token else cmdline ++ ' ' :: token
  if byteLength longer ≤ maxCmdline then some longer else none

/-- Add a word to the command line, or drop it whole. -/
def pass (o : Options) (token : List Char) : Logged Options :=
  match appendWord? o.cmdline.toList token with
  | some longer => return { o with cmdline := String.ofList longer }
  | none => do
    note (Component.options.warn
      s!"Kernel command line too long, dropping '{String.ofList token}'")
    return o

/-- Apply one word. -/
def apply (o : Options) (token : List Char) : Logged Options :=
  if settingStart.isPrefixOf token then
    o.set token (token.drop settingStart.length)
  else
    o.pass token

/-! ## Whole lines -/

/-- Whether a word is the path of an EFI executable: what follows its last
dot is `efi`, in any letter case. -/
def namesExecutable (word : List Char) : Bool :=
  word.contains '.' &&
    (word.reverse.takeWhile (· != '.')).reverse.map Char.toLower == "efi".toList

/-- The words that are options: all but the path of the loader itself, which
boot entries usually put first. -/
def optionWords : List (List Char) → List (List Char)
  | [] => []
  | first :: rest => if namesExecutable first then rest else first :: rest

/-- Apply words from left to right. -/
def applyAll (o : Options) : List (List Char) → Logged Options
  | [] => return o
  | token :: rest => do applyAll (← o.apply token) rest

/-- Read a line of options. -/
def parse (line : List Char) : Logged Options := applyAll {} (optionWords (words line))

/-- Read the options from UTF-16 units, up to the first NUL. -/
def ofUnits (units : List UInt16) : Logged Options :=
  parse (Utf16.decode (Utf16.untilNul units))

/-- The path of the payload. -/
def imagePath (o : Options) : String := if o.image.isEmpty then defaultImage else o.image

/-- The path of the initrd, if there is one. -/
def initrdPath? (o : Options) : Option String := if o.initrd.isEmpty then none else some o.initrd

end Options

/-- A text as NUL-terminated UTF-16 units. -/
def terminatedUnits (text : String) : List UInt16 := Utf16.encode text ++ [0]

end EfiLoader
