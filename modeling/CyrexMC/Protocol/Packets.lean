import CyrexMC.Protocol.Types
import CyrexMC.ThirdParty
set_option autoImplicit false

/-! The packets `PacketFactory::registerAll` registers. `encodePayload` is `none` where the
source returns false, and a decoder gives `none` where the source returns false. -/

namespace CyrexMC
open BinaryReader BinaryWriter

namespace PacketId
def Login : UInt32 := 0x01
def PlayStatus : UInt32 := 0x02
def ServerToClientHandshake : UInt32 := 0x03
def ClientToServerHandshake : UInt32 := 0x04
def ResourcePacksInfo : UInt32 := 0x06
def ResourcePackStack : UInt32 := 0x07
def ResourcePackClientResponse : UInt32 := 0x08
def ResourcePackDataInfo : UInt32 := 0x52
def ResourcePackChunkData : UInt32 := 0x53
def ResourcePackChunkRequest : UInt32 := 0x54
def ClientCacheStatus : UInt32 := 0x81
def NetworkSettings : UInt32 := 0x8f
def RequestNetworkSettings : UInt32 := 0xc1
end PacketId

structure RequestNetworkSettingsPacket where
  protocolVersion : UInt32 := 0
  deriving DecidableEq, Repr

def RequestNetworkSettingsPacket.decodePayload : Read RequestNetworkSettingsPacket := do
  let protocolVersion ← readU32BE
  pure { protocolVersion }

structure NetworkSettingsPacket where
  compressionThreshold : Int16 := 1
  compressionAlgorithm : Int16 := 0
  enableClientThrottling : Bool := false
  clientThrottleThreshold : Int8 := 0
  clientThrottleScalar : UInt32 := 0
  deriving DecidableEq, Repr

def NetworkSettingsPacket.compressEverything : Int16 := 1

def NetworkSettingsPacket.encodePayload (pk : NetworkSettingsPacket) : Bytes :=
  writeI16LE pk.compressionThreshold ++ writeI16LE pk.compressionAlgorithm ++
  writeBool pk.enableClientThrottling ++ writeI8 pk.clientThrottleThreshold ++
  writeFloatLE pk.clientThrottleScalar

structure LoginPacket where
  protocol : UInt32 := 0
  authInfoJson : Bytes := []
  clientDataJwt : Bytes := []
  deriving DecidableEq, Repr

def LoginPacket.tryEncodeRequestForConnection (pk : LoginPacket) : Bytes :=
  writeStringU32LE pk.authInfoJson ++ writeStringU32LE pk.clientDataJwt

def LoginPacket.encodePayload (pk : LoginPacket) : Bytes :=
  writeU32BE pk.protocol ++ writeString pk.tryEncodeRequestForConnection

def LoginPacket.requestForConnection : Read (Bytes × Bytes) := do
  let authInfoJson ← readStringU32LE
  let clientDataJwt ← readStringU32LE
  pure (authInfoJson,clientDataJwt)

def LoginPacket.tryDecodeRequestForConnection (binary : Bytes) : Read (Bytes × Bytes) :=
  match exec requestForConnection (ofBytes binary) with
  | .ok strings _ => .done strings
  | .error f _ => .fail f

def LoginPacket.decodePayload : Read LoginPacket := do
  let protocol ← readU32BE
  let binary ← readString
  let (authInfoJson,clientDataJwt) ← tryDecodeRequestForConnection binary
  pure { protocol, authInfoJson, clientDataJwt }

structure PlayStatusPacket where
  status : CyrexMC.PlayStatus := PlayStatus.LoginSuccess
  deriving DecidableEq, Repr

def PlayStatusPacket.encodePayload (pk : PlayStatusPacket) : Bytes := writeU32BE pk.status.value

def PlayStatusPacket.decodePayload : Read PlayStatusPacket := do
  let v ← readU32BE
  pure { status := ⟨v⟩ }

structure ServerToClientHandshakePacket where
  jwt : Bytes := []
  deriving DecidableEq, Repr

def ServerToClientHandshakePacket.encodePayload (pk : ServerToClientHandshakePacket) : Bytes :=
  writeString pk.jwt

def ServerToClientHandshakePacket.decodePayload : Read ServerToClientHandshakePacket := do
  let jwt ← readString
  pure { jwt }

structure ClientCacheStatusPacket where
  enabled : Bool := false
  deriving DecidableEq, Repr

def ClientCacheStatusPacket.encodePayload (pk : ClientCacheStatusPacket) : Bytes := writeBool pk.enabled

def ClientCacheStatusPacket.decodePayload : Read ClientCacheStatusPacket := do
  let enabled ← readBool
  pure { enabled }

structure ResourcePacksInfoPacket where
  mustAccept : Bool := false
  hasAddonPacks : Bool := false
  scripting : Bool := false
  disableVibrantVisuals : Bool := false
  worldTemplateId : UUID := UUID.nil
  worldTemplateVersion : Bytes := []
  resourcePackEntries : List ResourcePackInfoEntry := []
  deriving DecidableEq, Repr

def ResourcePacksInfoPacket.encodePacks (packs : List ResourcePackInfoEntry) : Bytes :=
  writeU16LE (UInt16.ofNat packs.length) ++ packs.flatMap ResourcePackInfoEntry.encode

def ResourcePacksInfoPacket.encodePayload (pk : ResourcePacksInfoPacket) : Bytes :=
  writeBool pk.mustAccept ++ writeBool pk.hasAddonPacks ++ writeBool pk.scripting ++
  writeBool pk.disableVibrantVisuals ++ writeUUID pk.worldTemplateId ++
  writeString pk.worldTemplateVersion ++ encodePacks pk.resourcePackEntries

structure ResourcePackChunkDataPacket where
  packId : UUID := UUID.nil
  packVersion : Bytes := []
  chunkIndex : Int := 0
  progress : UInt64 := 0
  data : Bytes := []
  deriving DecidableEq, Repr

def ResourcePackChunkDataPacket.encodePayload (tp : ThirdParty) (pk : ResourcePackChunkDataPacket) :
    Bytes :=
  writeString (tp.uuidToString pk.packId) ++ writeU32LE (Int32.ofInt pk.chunkIndex).toUInt32 ++
  writeU64LE pk.progress ++ writeString pk.data

def fromString (tp : ThirdParty) (str : Bytes) : Read UUID :=
  match tp.uuidFromString str with
  | some id => .done id
  | none => .fail (.throws (.invalidUuidString str))

structure ResourcePackChunkRequestPacket where
  packId : UUID := UUID.nil
  packVersion : Bytes := []
  chunkIndex : Int := 0
  deriving DecidableEq, Repr

def ResourcePackChunkRequestPacket.decodePayload (tp : ThirdParty) :
    Read ResourcePackChunkRequestPacket := do
  let packInfo ← readString
  let packId ← fromString tp packInfo
  let chunkIndex ← readI16LE
  pure { packId, packVersion := [], chunkIndex := chunkIndex.toInt }

structure ResourcePackClientResponsePacket.Entry where
  uuid : UUID := UUID.nil
  version : Bytes := []
  deriving DecidableEq, Repr

structure ResourcePackClientResponsePacket where
  responseStatus : ResourcePackClientResponseStatus := ⟨0⟩
  packEntries : List ResourcePackClientResponsePacket.Entry := []
  deriving DecidableEq, Repr

namespace ResourcePackClientResponsePacket

/-- The body of the entry loop; a string without an underscore leaves the default entry. -/
def decodeEntry (tp : ThirdParty) : Read Entry := do
  let s ← readString
  match s.findIdx? (· == 0x5F) with
  | some pos => do
    let id ← fromString tp (s.take pos)
    pure { uuid := id, version := s.drop (pos+1) }
  | none => pure {}

def decodeEntries (tp : ThirdParty) : Nat → Read (List Entry)
  | 0 => pure []
  | n+1 => do
    let e ← decodeEntry tp
    let es ← decodeEntries tp n
    pure (e :: es)

def decodePayload (tp : ThirdParty) : Read ResourcePackClientResponsePacket := do
  let status ← readU8
  let len ← readU16LE
  let packEntries ← decodeEntries tp len.toNat
  pure { responseStatus := ⟨status⟩, packEntries }

end ResourcePackClientResponsePacket

structure ResourcePackDataInfoPacket where
  packId : UUID := UUID.nil
  packVersion : Bytes := []
  maxChunkSize : Int := 0
  chunkCount : Int := 0
  compressedPackSize : UInt64 := 0
  sha256 : Bytes := []
  premium : Bool := false
  type : ResourcePackDataType := ResourcePackDataType.Resource
  deriving DecidableEq, Repr

def ResourcePackDataInfoPacket.encodePayload (tp : ThirdParty) (pk : ResourcePackDataInfoPacket) :
    Bytes :=
  writeString (tp.uuidToString pk.packId) ++ writeI32LE (Int32.ofInt pk.maxChunkSize) ++
  writeI32LE (Int32.ofInt pk.chunkCount) ++ writeU64LE pk.compressedPackSize ++
  writeVarUInt (UInt32.ofNat pk.sha256.length) ++ pk.sha256 ++ writeBool pk.premium ++
  writeU8 pk.type.value

structure ResourcePackStackPacket where
  mustAccept : Bool := false
  resourcePackStack : List ResourcePackStackEntry := []
  baseGameVersion : Bytes := []
  experiments : Experiments := {}
  includeEditorPacks : Bool := false
  deriving DecidableEq, Repr

def ResourcePackStackPacket.encodePayload (pk : ResourcePackStackPacket) : Bytes :=
  writeBool pk.mustAccept ++ writeVarUInt (UInt32.ofNat pk.resourcePackStack.length) ++
  pk.resourcePackStack.flatMap ResourcePackStackEntry.encode ++ writeString pk.baseGameVersion ++
  pk.experiments.encode ++ writeBool pk.includeEditorPacks

end CyrexMC
