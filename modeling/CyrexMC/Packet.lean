import CyrexMC.Protocol.Packets
set_option autoImplicit false

/-! `packet.cpp`, `packet_def.cpp` and `packet_factory.cpp`. -/

namespace CyrexMC
open BinaryReader BinaryWriter

inductive PacketBody where
  | requestNetworkSettings : RequestNetworkSettingsPacket → PacketBody
  | networkSettings : NetworkSettingsPacket → PacketBody
  | login : LoginPacket → PacketBody
  | playStatus : PlayStatusPacket → PacketBody
  | serverToClientHandshake : ServerToClientHandshakePacket → PacketBody
  | clientCacheStatus : ClientCacheStatusPacket → PacketBody
  | clientToServerHandshake : PacketBody
  | resourcePacksInfo : ResourcePacksInfoPacket → PacketBody
  | resourcePackChunkData : ResourcePackChunkDataPacket → PacketBody
  | resourcePackChunkRequest : ResourcePackChunkRequestPacket → PacketBody
  | resourcePackClientResponse : ResourcePackClientResponsePacket → PacketBody
  | resourcePackDataInfo : ResourcePackDataInfoPacket → PacketBody
  | resourcePackStack : ResourcePackStackPacket → PacketBody
  deriving DecidableEq, Repr

/-- `subClientId` is a bit field of width 3. -/
structure Packet where
  subClientId : UInt32 := 0
  body : PacketBody
  deriving DecidableEq, Repr

inductive PacketDef where
  | requestNetworkSettings | networkSettings | login | playStatus | serverToClientHandshake
  | clientCacheStatus | clientToServerHandshake | resourcePacksInfo | resourcePackChunkData
  | resourcePackChunkRequest | resourcePackClientResponse | resourcePackDataInfo | resourcePackStack
  deriving DecidableEq, Repr

def PacketDef.networkId : PacketDef → UInt32
  | .requestNetworkSettings => PacketId.RequestNetworkSettings
  | .networkSettings => PacketId.NetworkSettings
  | .login => PacketId.Login
  | .playStatus => PacketId.PlayStatus
  | .serverToClientHandshake => PacketId.ServerToClientHandshake
  | .clientCacheStatus => PacketId.ClientCacheStatus
  | .clientToServerHandshake => PacketId.ClientToServerHandshake
  | .resourcePacksInfo => PacketId.ResourcePacksInfo
  | .resourcePackChunkData => PacketId.ResourcePackChunkData
  | .resourcePackChunkRequest => PacketId.ResourcePackChunkRequest
  | .resourcePackClientResponse => PacketId.ResourcePackClientResponse
  | .resourcePackDataInfo => PacketId.ResourcePackDataInfo
  | .resourcePackStack => PacketId.ResourcePackStack

def PacketBody.getDef : PacketBody → PacketDef
  | .requestNetworkSettings _ => .requestNetworkSettings
  | .networkSettings _ => .networkSettings
  | .login _ => .login
  | .playStatus _ => .playStatus
  | .serverToClientHandshake _ => .serverToClientHandshake
  | .clientCacheStatus _ => .clientCacheStatus
  | .clientToServerHandshake => .clientToServerHandshake
  | .resourcePacksInfo _ => .resourcePacksInfo
  | .resourcePackChunkData _ => .resourcePackChunkData
  | .resourcePackChunkRequest _ => .resourcePackChunkRequest
  | .resourcePackClientResponse _ => .resourcePackClientResponse
  | .resourcePackDataInfo _ => .resourcePackDataInfo
  | .resourcePackStack _ => .resourcePackStack

def PacketBody.encodePayload (tp : ThirdParty) : PacketBody → Option Bytes
  | .requestNetworkSettings _ => none
  | .networkSettings pk => some pk.encodePayload
  | .login pk => some pk.encodePayload
  | .playStatus pk => some pk.encodePayload
  | .serverToClientHandshake pk => some pk.encodePayload
  | .clientCacheStatus pk => some pk.encodePayload
  | .clientToServerHandshake => some []
  | .resourcePacksInfo pk => some pk.encodePayload
  | .resourcePackChunkData pk => some (pk.encodePayload tp)
  | .resourcePackChunkRequest _ => some []
  | .resourcePackClientResponse _ => some []
  | .resourcePackDataInfo pk => some (pk.encodePayload tp)
  | .resourcePackStack pk => some pk.encodePayload

/-- `PacketDef::decode`: a fresh packet of the class decodes itself. -/
def PacketDef.decode (tp : ThirdParty) : PacketDef → Read (Option PacketBody)
  | .requestNetworkSettings => do
    let pk ← RequestNetworkSettingsPacket.decodePayload
    pure (some (.requestNetworkSettings pk))
  | .networkSettings => pure none
  | .login => do
    let pk ← LoginPacket.decodePayload
    pure (some (.login pk))
  | .playStatus => do
    let pk ← PlayStatusPacket.decodePayload
    pure (some (.playStatus pk))
  | .serverToClientHandshake => do
    let pk ← ServerToClientHandshakePacket.decodePayload
    pure (some (.serverToClientHandshake pk))
  | .clientCacheStatus => do
    let pk ← ClientCacheStatusPacket.decodePayload
    pure (some (.clientCacheStatus pk))
  | .clientToServerHandshake => pure (some .clientToServerHandshake)
  | .resourcePacksInfo => pure none
  | .resourcePackChunkData => pure (some (.resourcePackChunkData {}))
  | .resourcePackChunkRequest => do
    let pk ← ResourcePackChunkRequestPacket.decodePayload tp
    pure (some (.resourcePackChunkRequest pk))
  | .resourcePackClientResponse => do
    let pk ← ResourcePackClientResponsePacket.decodePayload tp
    pure (some (.resourcePackClientResponse pk))
  | .resourcePackDataInfo => pure (some (.resourcePackDataInfo {}))
  | .resourcePackStack => pure (some (.resourcePackStack {}))

/-- The entries after `registerAll`. -/
def PacketFactory.registered : List PacketDef :=
  [.requestNetworkSettings,.networkSettings,.login,.playStatus,.serverToClientHandshake,
   .clientCacheStatus,.clientToServerHandshake,.resourcePacksInfo,.resourcePackChunkData,
   .resourcePackChunkRequest,.resourcePackClientResponse,.resourcePackDataInfo,.resourcePackStack]

def PacketFactory.find (id : UInt32) : Option PacketDef :=
  registered.find? fun d => d.networkId == id

theorem PacketFactory.find_networkId (d : PacketDef) : find d.networkId = some d := by
  cases d <;> decide

def packetHeader (networkId subClientId : UInt32) : UInt32 :=
  (networkId &&& (0x3FF : UInt32)) ||| (subClientId <<< (10 : UInt32))

def frame (networkId subClientId : UInt32) (payload : Bytes) : Bytes :=
  writeVarUInt (UInt32.ofNat (payload.length+getVarUIntSize (packetHeader networkId subClientId))) ++
  writeVarUInt (packetHeader networkId subClientId) ++ payload

theorem frame_length_le (networkId subClientId : UInt32) (payload : Bytes) :
    (frame networkId subClientId payload).length ≤ payload.length+10 := by
  have hsize : ∀ v : UInt32, (writeVarUInt v).length ≤ 5 := fun v => by
    rw [writeVarUInt_length]
    exact getVarSizeLoop_le 5 v.toNat
  have hlength := hsize (UInt32.ofNat (payload.length+getVarUIntSize (packetHeader networkId subClientId)))
  have hheader := hsize (packetHeader networkId subClientId)
  simp only [frame,List.length_append]
  omega

/-- The bytes `Packet::encode` appends; it returns false, and appends none, with its payload. -/
def Packet.encode (tp : ThirdParty) (pk : Packet) : Bytes :=
  match pk.body.encodePayload tp with
  | some payload => frame pk.body.getDef.networkId pk.subClientId payload
  | none => []

end CyrexMC
