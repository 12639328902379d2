import EfiLoader.Identity

/-!
# EfiLoader.Main

The loader as an ordinary program.  There is no firmware to talk to, so it
only says how it is meant to be used, and succeeds.
-/

/-- Say how the loader is used. -/
def main : IO Unit := IO.eprintln EfiLoader.hostNotice
