/-!
# EfiLoader.Identity

What the loader calls itself, and what it says where there is no firmware.
-/

namespace EfiLoader

/-- The name of the loader. -/
def programName : String := "zloader"

/-- The version of the loader. -/
def programVersion : String := "0.1.0"

/-- What the loader says when it is started as an ordinary program. -/
def hostNotice : String :=
  programName ++ " runs as a UEFI application; build it for a *-unknown-uefi target"

end EfiLoader
