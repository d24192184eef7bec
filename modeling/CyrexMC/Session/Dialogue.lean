import CyrexMC.Session.Advertised
import CyrexMC.Session.Connections
import CyrexMC.Session.Restoring
set_option autoImplicit false

/-! What the server is to one client: a dialogue, without chunk queues, tables of packs, caches or file streams. -/

namespace CyrexMC

namespace ZippedResourcePack

def version (p : ZippedResourcePack) : Bytes := (headerVersion p.manifest).toOption.getD []

/-- The entry of a pack in the list that follows a login. -/
def infoEntry (tp : ThirdParty) (p : ZippedResourcePack) : ResourcePackInfoEntry :=
  { packId := p.id, packVersion := p.version, packSize := UInt64.ofNat p.getPackSize, encryptionKey := getEncryptionKey,
    subPackName := [], contentIdentity := tp.uuidToString p.id, scripting := usesScript, addonPack := isAddonPack,
    raytracingCapable := isRaytracingCapable, cdnUrl }

def stackEntry (tp : ThirdParty) (p : ZippedResourcePack) : ResourcePackStackEntry :=
  { packId := tp.uuidToString p.id, packVersion := p.version, subPackName := getSubPackName }

end ZippedResourcePack

namespace ResourcePackFactory

def chunkOf (f : ResourcePackFactory) (r : UUID × Int) : Packet :=
  f.chunkPacket (((f.packOf r.1).map ZippedResourcePack.version).getD []) (UInt64.ofNat (f.chunkAt r).2.2.1) r

end ResourcePackFactory

namespace Server

variable (tp : ThirdParty) (server : Server)

/-- The list of the packs, but for the world template, which is drawn. -/
def packsInfo : ResourcePacksInfoPacket :=
  { mustAccept := server.forceResources, resourcePackEntries := server.factory.packs.map (ZippedResourcePack.infoEntry tp) }

def packStack : ResourcePackStackPacket :=
  { mustAccept := server.forceResources, resourcePackStack := server.factory.packs.map (ZippedResourcePack.stackEntry tp),
    baseGameVersion := ProtocolInfo.minecraftVersionNetwork }

end Server

structure Line where
  compressed : Bool
  packets : List Packet
  deriving DecidableEq, Repr

structure Dialogue where
  compressed : Bool := false
  /-- What the next tick says. -/
  waiting : List Packet := []
  served : List (UUID × Int) := []
  leaving : Bool := false
  lines : List Line := []
  deriving DecidableEq, Repr

namespace Dialogue

def say (packets : List Packet) (d : Dialogue) : Dialogue := { d with lines := d.lines ++ [⟨d.compressed,packets⟩] }

def sayEach (packets : List Packet) (d : Dialogue) : Dialogue :=
  { d with lines := d.lines ++ packets.map fun packet => ⟨d.compressed,[packet]⟩ }

variable (tp : ThirdParty) (server : Server)

def respond (pk : ResourcePackClientResponsePacket) (d : Dialogue) : Dialogue :=
  if pk.responseStatus = ResourcePackClientResponseStatus.Refused then
    { d with leaving := d.leaving || server.forceResources }
  else if pk.responseStatus = ResourcePackClientResponseStatus.SendPacks then
    let d := d.sayEach ((NetworkSession.infosFor tp server.factory pk.packEntries).map NetworkSession.dataInfo)
    { d with leaving := d.leaving || pk.packEntries.any fun entry => (server.factory.getPackById entry.uuid).isNone }
  else if pk.responseStatus = ResourcePackClientResponseStatus.HaveAllPacks then
    d.say [{ body := .resourcePackStack (server.packStack tp) }]
  else d

def serve (r : UUID × Int) (d : Dialogue) : Dialogue :=
  if (server.factory.getPackById r.1).isNone then { d with leaving := true }
  else if server.factory.Has r ∧ r ∉ d.served then { d.say [server.factory.chunkOf r] with served := d.served ++ [r] }
  else d

def hear : PacketBody → Dialogue → Dialogue
  | .requestNetworkSettings pk, d =>
    if isSupportedProtocol pk.protocolVersion then
      { d.say [{ body := .networkSettings NetworkSession.networkSettings }] with compressed := true }
    else d.say [NetworkSession.refusal pk.protocolVersion]
  | .login pk, d =>
    if isSupportedProtocol pk.protocol then
      { d with waiting := d.waiting ++
          [NetworkSession.loginSuccess,{ body := .resourcePacksInfo (server.packsInfo tp) }] }
    else d.say [NetworkSession.refusal pk.protocol]
  | .resourcePackClientResponse pk, d => d.respond tp server pk
  | .resourcePackChunkRequest pk, d => d.serve server (pk.packId,pk.chunkIndex)
  | .networkSettings _, d | .playStatus _, d | .serverToClientHandshake _, d | .clientCacheStatus _, d
  | .clientToServerHandshake, d | .resourcePacksInfo _, d | .resourcePackChunkData _, d
  | .resourcePackDataInfo _, d | .resourcePackStack _, d => d

/-- The packets of a batch, up to one that ends it. -/
def hearAll : List Packet → Dialogue → Dialogue
  | [], d => d
  | packet :: packets, d =>
    let d := d.hear tp server packet.body
    if NetworkSession.goesOn packet.body then d.hearAll packets else d

/-- A datagram, from behind the 0xFE on. -/
def receive (data : Bytes) (d : Dialogue) : Dialogue :=
  if data.length ≤ 1 then d
  else
    match McbePacketRouter.decompressIncoming tp d.compressed data with
    | .ok batch => d.hearAll tp server (parseBatch tp batch).1
    | .error _ => d

def tick (d : Dialogue) : Dialogue := if d.waiting.isEmpty then d else { d.say d.waiting with waiting := [] }

end Dialogue

/-- A client, with what was said to it in earlier dialogues. -/
structure Client where
  past : List Line := []
  dialogue : Option Dialogue := none
  deriving DecidableEq, Repr

namespace Client

def lines (c : Client) : List Line := c.past ++ (c.dialogue.map Dialogue.lines).getD []

variable (tp : ThirdParty) (server : Server)

def packet (c : Client) (packet : RakNetPacket) : Client :=
  match packet.event tp with
  | .connect => { c with dialogue := some (c.dialogue.getD {}) }
  | .disconnect => { c with dialogue := c.dialogue.map fun d => { d with leaving := true } }
  | .data => { c with dialogue := c.dialogue.map (Dialogue.receive tp server packet.data.tail) }
  | .ignored => c

def tick (c : Client) : Client := { c with dialogue := c.dialogue.map Dialogue.tick }

def cleanup (c : Client) : Client := if (c.dialogue.map Dialogue.leaving).getD false then { past := c.lines } else c

/-- A poll, with the packets that it brings from this client. -/
def poll (c : Client) (packets : List RakNetPacket) : Client := (packets.foldl (packet tp server) c).tick.cleanup

def polls (schedule : List (List RakNetPacket)) : Client := schedule.foldl (poll tp server) {}

end Client

end CyrexMC
