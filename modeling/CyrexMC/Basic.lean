import Mathlib.Data.List.Basic
set_option autoImplicit false

namespace CyrexMC

abbrev Bytes := List UInt8

structure UUID where
  bytes : Bytes
  size_eq : bytes.length = 16
  deriving DecidableEq, Repr

def UUID.nil : UUID := ⟨List.replicate 16 0,rfl⟩

instance : Inhabited UUID := ⟨UUID.nil⟩

def UUID.isNil (u : UUID) : Bool := u == UUID.nil

def Bytes.toText (bytes : Bytes) : String := String.ofList (bytes.map fun b => Char.ofNat b.toNat)

inductive ZipError where
  | notOpened : Bytes → ZipError
  | tooSmall
  | tailRead
  | endNotFound
  | directoryBounds
  | directoryRead
  | nameNotFound : Bytes → ZipError
  | localHeaderRead
  | localHeaderSignature
  | dataBounds
  | dataRead
  deriving DecidableEq, Repr

def ZipError.what : ZipError → String
  | .notOpened zipPath => "Failed to open zip file: " ++ zipPath.toText
  | .tooSmall => "Not a valid zip (file too small)"
  | .tailRead => "Failed reading zip tail"
  | .endNotFound => "End of central directory not found"
  | .directoryBounds => "Central directory extends past end of file"
  | .directoryRead => "Failed reading central directory"
  | .nameNotFound filename => filename.toText ++ " not found in zip"
  | .localHeaderRead => "Failed reading local header"
  | .localHeaderSignature => "Invalid local header signature"
  | .dataBounds => "Compressed data extends past end of file"
  | .dataRead => "Failed reading compressed data"

/-- The exceptions the modelled code throws, or lets through from a library it calls. -/
inductive Thrown where
  | readerOverflow
  | varUIntOverflow
  | varULongOverflow
  | invalidUuidString : Bytes → Thrown
  | invalidUuidFormat
  | jsonParseError
  | jsonTypeError
  | vectorLength
  | packLength
  | chunkOffset
  | chunkLength
  | offsetRange
  | chunkRead
  | maxChunkSize
  | invalidManifest
  | zip : ZipError → Thrown
  deriving DecidableEq, Repr

/-- The text of what the code throws itself. -/
def Thrown.what : Thrown → Option String
  | .readerOverflow => some "BinaryReader overflow"
  | .varUIntOverflow => some "VarUInt overflow"
  | .varULongOverflow => some "VarULong overflow"
  | .invalidUuidString str => some ("Invalid UUID string: " ++ str.toText)
  | .invalidUuidFormat => some "Invalid UUID format"
  | .packLength => some "Pack length must be positive"
  | .chunkOffset => some "Requested a resource pack chunk with invalid start offset"
  | .chunkLength => some "Chunk length must be positive"
  | .offsetRange => some "Offset is out of file bounds"
  | .chunkRead => some "Failed to read full chunk from file"
  | .maxChunkSize => some "Max chunk size must be positive"
  | .invalidManifest => some "Invalid resource pack manifest"
  | .zip e => some e.what
  | .jsonParseError | .jsonTypeError | .vectorLength => none

/-- Steps to which C++ gives no meaning. -/
inductive Undefined where
  | outOfBounds
  | emptyOptional
  | nullPointer
  | uninitialised
  | doubleToInt
  deriving DecidableEq, Repr

inductive Fault where
  | throws : Thrown → Fault
  | undefined : Undefined → Fault
  | outOfFuel
  deriving DecidableEq, Repr

end CyrexMC
