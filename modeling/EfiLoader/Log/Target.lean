import EfiLoader.Log

/-!
# EfiLoader.Log.Target

The components that write log lines, by the name their lines carry, and one
function per component and level that is in use.
-/

namespace EfiLoader.Log

/-- A component of the loader. -/
inductive Component where
  | boot
  | buffer
  | options
  | payload
  | lz4
  | zstd
  | loader
  | headers
  | placement
  | fixup
  | embedded
  | image
  | initrd
  | loadFile
  | imageRecord
  | fileSystem
  | bootServices
deriving DecidableEq

/-- The name a component's lines carry. -/
def Component.target : Component → String
  | .boot => "zloader::boot"
  | .buffer => "zloader::buffer"
  | .options => "zloader::config"
  | .payload => "zloader::decompress"
  | .lz4 => "zloader::decompress::lz4"
  | .zstd => "zloader::decompress::zstd"
  | .loader => "zloader::pe"
  | .headers => "zloader::pe::parser"
  | .placement => "zloader::pe::relocate"
  | .fixup => "zloader::pe::fixup"
  | .embedded => "zloader::pe::sections"
  | .image => "zloader::image"
  | .initrd => "zloader::initrd"
  | .loadFile => "zloader::efi::protocols::load_file2"
  | .imageRecord => "zloader::efi::protocols::loaded_image"
  | .fileSystem => "zloader::efi::protocols::simple_file_system"
  | .bootServices => "zloader::efi::boot_services"

/-- A line of component `c`. -/
def Component.line (c : Component) (level : Level) (message : String) : Entry :=
  ⟨level, c.target, message⟩

def Component.error (c : Component) (message : String) : Entry := c.line .error message
def Component.warn (c : Component) (message : String) : Entry := c.line .warn message
def Component.info (c : Component) (message : String) : Entry := c.line .info message
def Component.debug (c : Component) (message : String) : Entry := c.line .debug message

/-- Write one line. -/
def note (e : Entry) : Logged Unit := Logged.write [e]

/-- End with `e`'s status after writing its lines, or go on with the value. -/
def settle [Fault ε] : Except ε α → Logged (Except Status α)
  | .ok a => pure (.ok a)
  | .error e => ⟨Fault.report e, .error (Fault.status e)⟩

end EfiLoader.Log
