import EfiLoader.Text.Utf16

/-!
# EfiLoader.FilePath

Paths as the file system takes them: backslash separated UTF-16 units with
one NUL, at the end.
-/

namespace EfiLoader.FilePath

open Text

/-- Most units of a path, the closing NUL included. -/
def maxUnits : Nat := 256

/-- The units of a path; forward slashes become backslashes.  An empty path,
one that is too long and one with a NUL inside have none. -/
def encode? (path : String) : Option (List UInt16) :=
  let units := Utf16.encodeChars (path.toList.map fun c => if c = '/' then '\\' else c)
  if units = [] ∨ maxUnits ≤ units.length ∨ 0 ∈ units then none else some (units ++ [0])

end EfiLoader.FilePath
