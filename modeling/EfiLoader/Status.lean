/-!
# EfiLoader.Status

UEFI status codes.  Bit 63 separates errors from success and warnings; the
low bits number the condition.  Everything the loader reports to its caller
is one of these codes, so the error types of the other modules each come
with a function into `Status`.
-/

namespace EfiLoader

/-- A UEFI status code. -/
structure Status where
  /-- The 64-bit code as the firmware interface carries it. -/
  code : UInt64
deriving DecidableEq

namespace Status

/-- The bit that marks a code as an error. -/
def errorBit : UInt64 := 0x8000000000000000

/-- The error code with number `n`. -/
def error (n : UInt64) : Status := ⟨errorBit ||| n⟩

/-- Errors are the codes with bit 63 set; warnings and success are not. -/
def isError (s : Status) : Bool := s.code &&& errorBit != 0

/-! ## Named codes -/

def success : Status := ⟨0⟩
def loadError : Status := error 1
def invalidParameter : Status := error 2
def unsupported : Status := error 3
def bufferTooSmall : Status := error 5
def notReady : Status := error 6
def deviceError : Status := error 7
def outOfResources : Status := error 9
def volumeCorrupted : Status := error 10
def noMedia : Status := error 12
def mediaChanged : Status := error 13
def notFound : Status := error 14
def accessDenied : Status := error 15
def timeout : Status := error 18
def alreadyStarted : Status := error 20
def aborted : Status := error 21
def securityViolation : Status := error 26
def crcError : Status := error 27
def compromisedData : Status := error 33

/-- The codes that have a name, with the name. -/
def named : List (String × Status) :=
  [("SUCCESS", success), ("LOAD_ERROR", loadError), ("INVALID_PARAMETER", invalidParameter),
   ("UNSUPPORTED", unsupported), ("BUFFER_TOO_SMALL", bufferTooSmall), ("NOT_READY", notReady),
   ("DEVICE_ERROR", deviceError), ("OUT_OF_RESOURCES", outOfResources),
   ("VOLUME_CORRUPTED", volumeCorrupted), ("NO_MEDIA", noMedia),
   ("MEDIA_CHANGED", mediaChanged), ("NOT_FOUND", notFound), ("ACCESS_DENIED", accessDenied),
   ("TIMEOUT", timeout), ("ALREADY_STARTED", alreadyStarted), ("ABORTED", aborted),
   ("SECURITY_VIOLATION", securityViolation), ("CRC_ERROR", crcError),
   ("COMPROMISED_DATA", compromisedData)]

/-- The name of a code, if it has one. -/
def name? (s : Status) : Option String :=
  (named.find? fun p => p.2 == s).map (·.1)

/-- The code with a given name. -/
def ofName? (name : String) : Option Status :=
  (named.find? fun p => p.1 == name).map (·.2)

/-- The form a status takes in log lines: its code in decimal. -/
def text (s : Status) : String := s!"Status({s.code.toNat})"

@[simp] theorem isError_success : success.isError = false := by decide

theorem isError_error (n : UInt64) : (error n).isError = true := by
  have h : (errorBit ||| n) &&& errorBit = errorBit := by
    apply UInt64.toBitVec_inj.1
    simp only [UInt64.toBitVec_and, UInt64.toBitVec_or]
    ext i hi
    simp only [BitVec.getElem_and, BitVec.getElem_or]
    cases errorBit.toBitVec[i] <;> simp
  simp only [isError, error, h]
  decide

end Status

end EfiLoader
