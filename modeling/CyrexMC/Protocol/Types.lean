import CyrexMC.BinaryReader
import CyrexMC.BinaryWriter
set_option autoImplicit false

/-! `network/mcbe/protocol/types`. An enumeration read off the wire by `static_cast` can hold
any value of its underlying type, so it is that value with the enumerators as names. -/

namespace CyrexMC
open BinaryReader BinaryWriter

structure PlayStatus where
  value : UInt32
  deriving DecidableEq, Repr

namespace PlayStatus
def LoginSuccess : PlayStatus := ⟨0⟩
def LoginFailedClient : PlayStatus := ⟨1⟩
def LoginFailedServer : PlayStatus := ⟨2⟩
end PlayStatus

structure CompressionAlgorithm where
  value : UInt8
  deriving DecidableEq, Repr

namespace CompressionAlgorithm
def ZLIB : CompressionAlgorithm := ⟨0⟩
def SNAPPY : CompressionAlgorithm := ⟨1⟩
def NONE : CompressionAlgorithm := ⟨0xFF⟩
end CompressionAlgorithm

structure ResourcePackClientResponseStatus where
  value : UInt8
  deriving DecidableEq, Repr

namespace ResourcePackClientResponseStatus
def Refused : ResourcePackClientResponseStatus := ⟨1⟩
def SendPacks : ResourcePackClientResponseStatus := ⟨2⟩
def HaveAllPacks : ResourcePackClientResponseStatus := ⟨3⟩
def Completed : ResourcePackClientResponseStatus := ⟨4⟩
end ResourcePackClientResponseStatus

structure ResourcePackDataType where
  value : UInt8
  deriving DecidableEq, Repr

def ResourcePackDataType.Resource : ResourcePackDataType := ⟨6⟩

structure ResourcePackInfoEntry where
  packId : UUID := UUID.nil
  packVersion : Bytes := []
  packSize : UInt64 := 0
  encryptionKey : Bytes := []
  subPackName : Bytes := []
  contentIdentity : Bytes := []
  scripting : Bool := false
  addonPack : Bool := false
  raytracingCapable : Bool := false
  cdnUrl : Bytes := []
  deriving DecidableEq, Repr

def ResourcePackInfoEntry.encode (e : ResourcePackInfoEntry) : Bytes :=
  writeUUID e.packId ++ writeString e.packVersion ++ writeU64LE e.packSize ++
  writeString e.encryptionKey ++ writeString e.subPackName ++ writeString e.contentIdentity ++
  writeBool e.scripting ++ writeBool e.addonPack ++ writeBool e.raytracingCapable ++
  writeString e.cdnUrl

def ResourcePackInfoEntry.decode : Read ResourcePackInfoEntry := do
  let packId ← readUUID
  let packVersion ← readString
  let packSize ← readU64LE
  let encryptionKey ← readString
  let subPackName ← readString
  let contentIdentity ← readString
  let scripting ← readBool
  let addonPack ← readBool
  let raytracingCapable ← readBool
  let cdnUrl ← readString
  pure { packId, packVersion, packSize, encryptionKey, subPackName, contentIdentity,
         scripting, addonPack, raytracingCapable, cdnUrl }

structure ResourcePackStackEntry where
  packId : Bytes := []
  packVersion : Bytes := []
  subPackName : Bytes := []
  deriving DecidableEq, Repr

def ResourcePackStackEntry.encode (e : ResourcePackStackEntry) : Bytes :=
  writeString e.packId ++ writeString e.packVersion ++ writeString e.subPackName

def ResourcePackStackEntry.decode : Read ResourcePackStackEntry := do
  let packId ← readString
  let packVersion ← readString
  let subPackName ← readString
  pure { packId, packVersion, subPackName }

structure ExperimentEntry where
  name : Bytes := []
  enabled : Bool := false
  deriving DecidableEq, Repr

def ExperimentEntry.encode (e : ExperimentEntry) : Bytes := writeString e.name ++ writeBool e.enabled

def ExperimentEntry.decode : Read ExperimentEntry := do
  let name ← readString
  let enabled ← readBool
  pure { name, enabled }

structure Experiments where
  activeToggles : List ExperimentEntry := []
  alwaysOnToggles : List ExperimentEntry := []
  wereAnyExperimentsEverToggled : Bool := false
  deriving DecidableEq, Repr

def Experiments.encode (e : Experiments) : Bytes :=
  writeU32LE (UInt32.ofNat (e.activeToggles.length+e.alwaysOnToggles.length)) ++
  e.activeToggles.flatMap ExperimentEntry.encode ++
  e.alwaysOnToggles.flatMap ExperimentEntry.encode ++
  writeBool e.wereAnyExperimentsEverToggled

/-- All toggles come back in `activeToggles`. -/
def Experiments.decode : Read Experiments := do
  let total ← readU32LE
  let activeToggles ← Pull.repeated ExperimentEntry.decode total.toNat
  let wereAnyExperimentsEverToggled ← readBool
  pure { activeToggles, alwaysOnToggles := [], wereAnyExperimentsEverToggled }

end CyrexMC
