import CyrexMC.Transforms
import CyrexMC.Packet
import CyrexMC.ResourcePacks.Factory
import Mathlib.Logic.Function.Basic
set_option autoImplicit false

/-! `network_session.cpp`. -/

namespace CyrexMC
open BinaryReader Stateful

abbrev Guid := UInt64

structure NetworkSession where
  guid : Guid
  compressionEnabled : Bool := false
  /-- Has no initial value in the source. -/
  compressor : Option CompressionAlgorithm := none
  encryptionEnabled : Bool := false
  markedForDisconnect : Bool := false
  sendQueue : List Packet := []
  cipher : Option AesEncryptor := none
  loadedPacks : UUID → Option ResourcePackMeta := fun _ => none
  packQueue : List UUID := []
  pendingChunks : List (UUID × Int) := []
  currentPack : UUID := UUID.nil
  queueProcessing : Bool := false

/-- What the sessions share: the packs and their streams, the transport (`sent` holds what it
was handed, oldest first) and the source of random UUIDs. -/
structure Server where
  factory : ResourcePackFactory
  forceResources : Bool
  sent : List (Guid × Bytes) := []
  random : Nat → UUID

def Server.bare : Server := { factory := {}, forceResources := false, random := fun _ => UUID.nil }

structure World where
  session : NetworkSession
  server : Server

/-- A member function of a session. A throw keeps what was changed before it. -/
abbrev SessionM (α : Type) := EStateM Fault World α

def getSession : SessionM NetworkSession := do return (← get).session

def getServer : SessionM Server := do return (← get).server

def modifySession (f : NetworkSession → NetworkSession) : SessionM Unit :=
  modify fun w => { w with session := f w.session }

@[simp] theorem getSession_apply (w : World) : getSession w = .ok w.session w := rfl
@[simp] theorem getServer_apply (w : World) : getServer w = .ok w.server w := rfl
@[simp] theorem modifySession_apply (f : NetworkSession → NetworkSession) (w : World) :
    modifySession f w = .ok () { w with session := f w.session } := rfl

def transportSend (guid : Guid) (data : Bytes) : SessionM Unit :=
  modify fun w => { w with server := { w.server with sent := w.server.sent ++ [(guid,data)] } }

@[simp] theorem transportSend_apply (guid : Guid) (data : Bytes) (w : World) :
    transportSend guid data w =
      .ok () { w with server := { w.server with sent := w.server.sent ++ [(guid,data)] } } := rfl

def randomUUID : SessionM UUID := do
  let server ← getServer
  modify fun w => { w with server := { w.server with random := fun n => w.server.random (n+1) } }
  return server.random 0

/-- A call through a `ResourcePackDef*`. -/
def callPack {α : Type} (i : Nat) (call : ZippedResourcePack.Call α) : SessionM α := fun w =>
  let put (p : ZippedResourcePack) : World :=
    { w with server := { w.server with factory := { w.server.factory with packs := w.server.factory.packs.set i p } } }
  match w.server.factory.packs[i]? with
  | none => .error (.undefined .nullPointer) w
  | some p =>
    match call p with
    | .ok a p => .ok a (put p)
    | .error e p => .error e (put p)

def getPackSize (i : Nat) : SessionM Nat := callPack i do return (← get).getPackSize

namespace ProtocolInfo
def minecraftVersionNetwork : Bytes := ascii "26.0"
def R26U00 : UInt32 := 924
def currentProtocol : UInt32 := R26U00
/-- An array of two with one initializer. -/
def acceptedProtocols : List UInt32 := [R26U00,0]
end ProtocolInfo

def isSupportedProtocol (protocol : UInt32) : Bool :=
  ProtocolInfo.acceptedProtocols.any fun p => p == protocol

namespace NetworkSession

variable (tp : ThirdParty)

/-- What goes on the wire for a payload before encryption. -/
def compressOutgoing (session : NetworkSession) (payload : Bytes) : Except Fault Bytes :=
  if session.compressionEnabled then
    match session.compressor with
    | none => .error (.undefined .uninitialised)
    | some algorithm =>
      match getCompressor algorithm with
      | some comp =>
        if comp.shouldCompress payload.length then
          match comp.compress tp payload with
          | some compressed => .ok (algorithm.value :: compressed)
          | none => .error (.undefined .emptyOptional)
        else .ok (CompressionAlgorithm.NONE.value :: payload)
      | none => .ok (CompressionAlgorithm.NONE.value :: payload)
  else .ok payload

def encryptOutgoing (old : Bytes) : SessionM (Option Bytes) := do
  match (← getSession).cipher with
  | none => throw (.undefined .emptyOptional)
  | some cipher =>
    let (data,cipher) := cipher.encrypt tp old
    modifySession fun s => { s with cipher := some cipher }
    return data

def sendInternal (payload : Bytes) : SessionM Unit := do
  let session ← getSession
  let out ← fromExcept (compressOutgoing tp session payload)
  if session.encryptionEnabled then
    match ← encryptOutgoing tp out with
    | some out => transportSend session.guid (0xFE :: out)
    | none => return ()
  else transportSend session.guid (0xFE :: out)

theorem sendInternal_plain {tp : ThirdParty} {s : World} {payload out : Bytes} (hs : s.session.encryptionEnabled = false)
    (hout : compressOutgoing tp s.session payload = .ok out) :
    sendInternal tp payload s =
      .ok () { s with server := { s.server with sent := s.server.sent ++ [(s.session.guid,0xFE :: out)] } } := by
  simp [sendInternal,bind_apply,hs,hout]

def send (packet : Packet) (immediately : Bool) : SessionM Unit := do
  if immediately then sendInternal tp (packet.encode tp)
  else modifySession fun s => { s with sendQueue := s.sendQueue ++ [packet] }

def sendBatch (packets : List Packet) (immediately : Bool) : SessionM Unit := do
  if immediately then sendInternal tp (packets.flatMap fun packet => packet.encode tp)
  else modifySession fun s => { s with sendQueue := s.sendQueue ++ packets }

def flush : SessionM Unit := do
  let session ← getSession
  if session.sendQueue.isEmpty then return ()
  sendInternal tp (session.sendQueue.flatMap fun packet => packet.encode tp)
  modifySession fun s => { s with sendQueue := [] }

def tick : SessionM Unit := flush tp

def markForDisconnect : SessionM Unit := modifySession fun s => { s with markedForDisconnect := true }

def disconnectUserForIncompatibleProtocol (protocolVersion : UInt32) : SessionM Bool := do
  let status := if protocolVersion < ProtocolInfo.currentProtocol then PlayStatus.LoginFailedClient
    else PlayStatus.LoginFailedServer
  send tp { body := .playStatus { status } } true
  return true

/-- The body of the loop of `doLoginSuccess`; the chunk count is computed for the log. -/
def infoEntry (d : Nat) : SessionM ResourcePackInfoEntry := do
  let packSize ← getPackSize d
  let server ← getServer
  let _ ← fromExcept (ceilChunkCount packSize server.factory.maxChunkSize.val)
  let packId ← callPack d (ZippedResourcePack.getPackId tp)
  let packVersion ← callPack d ZippedResourcePack.getPackVersion
  let packSize ← getPackSize d
  return { packId, packVersion, packSize := UInt64.ofNat packSize,
           encryptionKey := ZippedResourcePack.getEncryptionKey, subPackName := [],
           contentIdentity := tp.uuidToString packId, scripting := ZippedResourcePack.usesScript,
           addonPack := ZippedResourcePack.isAddonPack,
           raytracingCapable := ZippedResourcePack.isRaytracingCapable,
           cdnUrl := ZippedResourcePack.cdnUrl }

def infoEntries : List Nat → SessionM (List ResourcePackInfoEntry)
  | [] => return []
  | d :: defs => do
    let entry ← infoEntry tp d
    let entries ← infoEntries defs
    return entry :: entries

def doLoginSuccess : SessionM Unit := do
  send tp { body := .playStatus { status := PlayStatus.LoginSuccess } } false
  let server ← getServer
  let resourcePackEntries ← infoEntries tp server.factory.getResourceStack
  let worldTemplateId ← randomUUID
  let pk : ResourcePacksInfoPacket :=
    { mustAccept := server.forceResources, disableVibrantVisuals := false, worldTemplateId,
      worldTemplateVersion := [], resourcePackEntries }
  send tp { body := .resourcePacksInfo pk } false

def handleLogin (version : UInt32) (authInfoJson _clientDataJwt : Bytes) : SessionM Bool := do
  if !isSupportedProtocol version then
    let _ ← disconnectUserForIncompatibleProtocol tp version
    return false
  if !tp.jsonAccepts authInfoJson then throw (.throws .jsonParseError)
  doLoginSuccess tp
  return true

def networkSettings : NetworkSettingsPacket :=
  { compressionThreshold := NetworkSettingsPacket.compressEverything,
    compressionAlgorithm := CompressionAlgorithm.ZLIB.value.toUInt16.toInt16,
    enableClientThrottling := false, clientThrottleThreshold := 0, clientThrottleScalar := 0 }

def handleRequestNetworkSettings (version : UInt32) : SessionM Bool := do
  if !isSupportedProtocol version then
    let _ ← disconnectUserForIncompatibleProtocol tp version
    return false
  modifySession fun s => { s with compressor := some CompressionAlgorithm.ZLIB }
  send tp { body := .networkSettings networkSettings } true
  modifySession fun s => { s with compressionEnabled := true }
  return true

/-- `std::map::emplace` keeps an entry that is there. -/
def emplacePack (id : UUID) (data : ResourcePackMeta) (s : NetworkSession) : NetworkSession :=
  { s with loadedPacks := if (s.loadedPacks id).isSome then s.loadedPacks
                          else Function.update s.loadedPacks id (some data) }

/-- The loop over the entries of a SendPacks response. -/
def sendPacks : List ResourcePackClientResponsePacket.Entry → SessionM Unit
  | [] => return ()
  | entry :: entries => do
    let factory := (← getServer).factory
    match factory.getPackById entry.uuid with
    | none => markForDisconnect
    | some resourcePack =>
      let maxChunkSize := factory.maxChunkSize.val
      let packSize ← getPackSize resourcePack
      let chunkCount ← fromExcept (ceilChunkCount packSize maxChunkSize)
      let packId ← callPack resourcePack (ZippedResourcePack.getPackId tp)
      let data ← fromExcept (ResourcePackMeta.create packId resourcePack maxChunkSize chunkCount)
      modifySession fun s => { s with packQueue := s.packQueue ++ [data.packId] }
      modifySession (emplacePack data.packId data)
      let packId ← callPack resourcePack (ZippedResourcePack.getPackId tp)
      let packVersion ← callPack resourcePack ZippedResourcePack.getPackVersion
      let compressedPackSize ← getPackSize resourcePack
      let sha256 ← callPack resourcePack (ZippedResourcePack.getSha256 tp)
      let pk : ResourcePackDataInfoPacket :=
        { packId, packVersion, maxChunkSize, chunkCount,
          compressedPackSize := UInt64.ofNat compressedPackSize, sha256 }
      send tp { body := .resourcePackDataInfo pk } true
      sendPacks entries

def stackEntries : List Nat → SessionM (List ResourcePackStackEntry)
  | [] => return []
  | d :: defs => do
    let packId ← callPack d (ZippedResourcePack.getPackId tp)
    let packVersion ← callPack d ZippedResourcePack.getPackVersion
    let entries ← stackEntries defs
    return { packId := tp.uuidToString packId, packVersion,
             subPackName := ZippedResourcePack.getSubPackName } :: entries

def handleResourcePackClientResponse (pk : ResourcePackClientResponsePacket) : SessionM Bool := do
  let server ← getServer
  if pk.responseStatus = ResourcePackClientResponseStatus.Refused then
    if server.forceResources then markForDisconnect
  else if pk.responseStatus = ResourcePackClientResponseStatus.SendPacks then
    sendPacks tp pk.packEntries
  else if pk.responseStatus = ResourcePackClientResponseStatus.HaveAllPacks then
    let resourcePackStack ← stackEntries tp server.factory.getResourceStack
    let stack : ResourcePackStackPacket :=
      { mustAccept := server.forceResources, resourcePackStack,
        baseGameVersion := ProtocolInfo.minecraftVersionNetwork, experiments := {} }
    send tp { body := .resourcePackStack stack } true
  return true

def nextPack (s : NetworkSession) : NetworkSession :=
  let packQueue := match s.packQueue with
    | [] => []
    | front :: rest => if front = s.currentPack then rest else s.packQueue.filter (· ≠ s.currentPack)
  { s with packQueue, currentPack := packQueue.headD UUID.nil }

/-- The pack a chunk request names: its place in `loadedPacks`, which is filled if need be. -/
def findPack (packId : UUID) : SessionM (Option UUID) := do
  match (← getSession).loadedPacks packId with
  | some _ => return some packId
  | none =>
    let factory := (← getServer).factory
    match factory.getPackById packId with
    | none => return none
    | some rawPack =>
      let maxSize := factory.maxChunkSize.val
      let packSize ← getPackSize rawPack
      let totalChunks := roundedChunkCount packSize maxSize
      let id ← callPack rawPack (ZippedResourcePack.getPackId tp)
      let packInfo ← fromExcept (ResourcePackMeta.create id rawPack maxSize totalChunks)
      modifySession (emplacePack packInfo.packId packInfo)
      return some packInfo.packId

/-- The body of the loop of `processChunkQueue`; false where the source returns from it. -/
def processOne (packId : UUID) (idx : Int) : SessionM Bool := do
  match (← getSession).loadedPacks packId with
  | none => return true
  | some pack =>
    if idx < 0 ∨ idx ≥ pack.chunkCount then
      markForDisconnect
      return false
    match pack.chunks[idx.toNat]? with
    | none => throw (.undefined .outOfBounds)
    | some chunkState =>
      if chunkState.sent then return true
      let packSize ← getPackSize pack.pack
      let startOffset := idx.toNat*pack.maxChunkSize%2^64
      let chunkSize := min pack.maxChunkSize ((packSize+2^64-startOffset)%2^64)
      let chunk ← callPack pack.pack (ZippedResourcePack.getPackChunkString startOffset chunkSize)
      if chunk.isEmpty then
        markForDisconnect
        return false
      let packVersion ← callPack pack.pack ZippedResourcePack.getPackVersion
      let pk : ResourcePackChunkDataPacket :=
        { packId := pack.packId, packVersion, chunkIndex := idx,
          progress := UInt64.ofNat startOffset, data := chunk }
      send tp { body := .resourcePackChunkData pk } true
      let pack := (pack.setSent idx.toNat).advance
      modifySession fun s => { s with loadedPacks := Function.update s.loadedPacks packId (some pack) }
      if pack.finished then modifySession nextPack
      return true

/-- Every round takes one request off `pendingChunks` and none is added. -/
def drain : Nat → SessionM Unit
  | 0 => return ()
  | n+1 => do
    match (← getSession).pendingChunks with
    | [] => return ()
    | (packId,idx) :: rest =>
      modifySession fun s => { s with pendingChunks := rest }
      if ← processOne tp packId idx then drain n

def setQueueProcessing (b : Bool) : SessionM Unit := modifySession fun s => { s with queueProcessing := b }

def processChunkQueue : SessionM Unit := do
  let session ← getSession
  if session.queueProcessing then return ()
  setQueueProcessing true
  tryCatch (drain tp session.pendingChunks.length) fun e => do
    setQueueProcessing false
    throw e
  setQueueProcessing false

/-- Puts a request for a chunk that `packInfo` has on the list of those to serve. -/
def wantChunk (key : UUID) (packInfo : ResourcePackMeta) (chunkIndex : Int) (s : NetworkSession) :
    NetworkSession :=
  if chunkIndex ≥ 0 ∧ chunkIndex < packInfo.chunkCount then
    { s with loadedPacks := Function.update s.loadedPacks key (some (packInfo.setWant chunkIndex.toNat)),
             pendingChunks := s.pendingChunks ++ [(packInfo.packId,chunkIndex)] }
  else s

/-- The update of `currentPack` and `packQueue` by a request for the pack `id`. -/
def enqueuePack (id : UUID) (s : NetworkSession) : NetworkSession :=
  { s with currentPack := if s.currentPack.isNil then id else s.currentPack,
           packQueue := if id ∈ s.packQueue then s.packQueue else s.packQueue ++ [id] }

def handleResourcePackChunkRequest (request : ResourcePackChunkRequestPacket) : SessionM Bool := do
  match ← findPack tp request.packId with
  | none =>
    markForDisconnect
    return true
  | some key =>
    match (← getSession).loadedPacks key with
    | none => throw (.undefined .nullPointer)
    | some packInfo =>
      modifySession (wantChunk key packInfo request.chunkIndex)
      modifySession (enqueuePack packInfo.packId)
      processChunkQueue tp
      return true

def handle : PacketBody → SessionM Bool
  | .requestNetworkSettings pk => handleRequestNetworkSettings tp pk.protocolVersion
  | .login pk => handleLogin tp pk.protocol pk.authInfoJson pk.clientDataJwt
  | .resourcePackChunkRequest pk => handleResourcePackChunkRequest tp pk
  | .resourcePackClientResponse pk => handleResourcePackClientResponse tp pk
  | .networkSettings _ | .playStatus _ | .serverToClientHandshake _ | .clientCacheStatus _
  | .clientToServerHandshake | .resourcePacksInfo _ | .resourcePackChunkData _
  | .resourcePackDataInfo _ | .resourcePackStack _ => return true

/-- The log line with the raw payload reads every byte of it; it is left out for a login. -/
def logsPayload (data : Bytes) (packetId packetLength : UInt32) (start headerSize : Nat) : Bool :=
  let payloadSize := (packetLength.toNat+2^64-headerSize)%2^64
  packetId = 0x01 ∨ payloadSize = 0 ∨ start+headerSize+payloadSize ≤ data.length

/-- One round of the loop of `onRaw` up to the call of `handle`: the packet and the batch cursor
after its frame, or `none` where the source returns. -/
def decodeFrame (data : Bytes) (batch : BinaryReader) : Except Fault (Option (Packet × BinaryReader)) :=
  match exec readVarUInt batch with
  | .error f _ => .error f
  | .ok packetLength batch =>
    let packetBuffer : BinaryReader := { dataPtr := data.drop batch.offset, dataSize := data.length }
    let next := { batch with offset := batch.offset+packetLength.toNat }
    match exec readVarUInt packetBuffer with
    | .error f _ => .error f
    | .ok packetHeader packetBuffer =>
      let packetId := packetHeader &&& 0x3FF
      if logsPayload data packetId packetLength batch.offset packetBuffer.offset then
        match PacketFactory.find packetId with
        | none => .ok none
        | some packetDef =>
          match exec (packetDef.decode tp) packetBuffer with
          | .error f _ => .error f
          | .ok none _ => .ok none
          | .ok (some body) _ => .ok (some ({ subClientId := packetHeader >>> 10 &&& 0x03, body },next))
      else .error (.undefined .outOfBounds)

def onRawLoop (data : Bytes) : Nat → BinaryReader → SessionM Unit
  | 0, _ => throw .outOfFuel
  | fuel+1, batch => do
    match decodeFrame tp data batch with
    | .error f => throw f
    | .ok none => return ()
    | .ok (some (packet,batch)) =>
      if ← handle tp packet.body then
        if batch.remaining > 0 then onRawLoop data fuel batch

/-- Every round moves the cursor over at least one byte. -/
def onRaw (data : Bytes) : SessionM Unit := onRawLoop tp data (data.length+1) (ofBytes data)

end NetworkSession

end CyrexMC
