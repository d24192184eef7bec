import CyrexMC.Lib.Table
import CyrexMC.Session.NetworkSession
set_option autoImplicit false

/-! `mcbe_packet_router.cpp`, `raknet_connections.cpp` and `raknet_handler.cpp`. -/

namespace CyrexMC
open Stateful

/-- A `RakNet::Packet`. `random` is what `uuid::randomUUID` gives while it is handled. -/
structure RakNetPacket where
  guid : Guid
  data : Bytes
  random : Nat → UUID

namespace McbePacketRouter

variable (tp : ThirdParty)

def decryptIncoming (data : Bytes) : SessionM (Option Bytes) := do
  match (← getSession).cipher with
  | none => throw (.undefined .emptyOptional)
  | some cipher =>
    let (payload,cipher) ← fromExcept (cipher.decrypt tp data)
    modifySession fun s => { s with cipher := some cipher }
    return payload

def decompressIncoming (compressionEnabled : Bool) (payload : Bytes) : Except Fault Bytes :=
  if compressionEnabled then
    match payload with
    | [] => .error (.undefined .outOfBounds)
    | method :: rest =>
      match getCompressor ⟨method⟩ with
      | some compressor =>
        match compressor.decompress tp rest with
        | some payload => .ok payload
        | none => .error (.undefined .emptyOptional)
      | none => .ok rest
  else .ok payload

/-- `route` for the session that was found; `data` starts behind the 0xFE. -/
def routeSession (data : Bytes) : SessionM Unit := do
  let session ← getSession
  if data.length ≤ 1 then return ()
  if session.encryptionEnabled then
    match ← decryptIncoming tp data with
    | some payload =>
      let payload ← fromExcept (decompressIncoming tp session.compressionEnabled payload)
      NetworkSession.onRaw tp payload
    | none => return ()
  else
    let payload ← fromExcept (decompressIncoming tp session.compressionEnabled data)
    NetworkSession.onRaw tp payload

theorem routeSession_unencrypted {tp : ThirdParty} {data payload : Bytes} {w : World}
    (hw : w.session.encryptionEnabled = false) (hlen : 2 ≤ data.length)
    (h : decompressIncoming tp w.session.compressionEnabled data = .ok payload) :
    routeSession tp data w = NetworkSession.onRaw tp payload w := by
  have hlong : ¬ data.length ≤ 1 := by omega
  simp [routeSession,bind_apply,hlong,hw,h]

end McbePacketRouter

structure RaknetHandler where
  connections : Table Guid NetworkSession
  server : Server

abbrev HandlerM (α : Type) := EStateM Fault RaknetHandler α

namespace RaknetConnections

def onConnect (guid : Guid) : HandlerM Unit :=
  modify fun h => { h with connections := h.connections.emplace guid { guid } }

def onDisconnect (guid : Guid) : HandlerM Unit :=
  modify fun h =>
    match h.connections.get? guid with
    | none => h
    | some session =>
      { h with connections := h.connections.set guid { session with markedForDisconnect := true } }

/-- Runs a member function of the session for `guid`, if there is one. -/
def onSession (guid : Guid) (m : SessionM Unit) : HandlerM Unit := fun h =>
  let put (w : World) : RaknetHandler :=
    { connections := h.connections.set guid w.session, server := w.server }
  match h.connections.get? guid with
  | none => .ok () h
  | some session =>
    match m { session, server := h.server } with
    | .ok a w => .ok a (put w)
    | .error e w => .error e (put w)

/-- The range loop of `tick`, over the keys it visits. -/
def tickLoop (tp : ThirdParty) : List Guid → HandlerM Unit
  | [] => return ()
  | guid :: guids => do
    onSession guid (NetworkSession.tick tp)
    tickLoop tp guids

def tick (tp : ThirdParty) : HandlerM Unit := do
  let h ← get
  tickLoop tp h.connections.keys

def cleanup : HandlerM Unit :=
  modify fun h => { h with connections := h.connections.eraseIf fun s => s.markedForDisconnect }

end RaknetConnections

/-- A datagram is not empty when it gets here. -/
def McbePacketRouter.route (tp : ThirdParty) (guid : Guid) (data : Bytes) : HandlerM Unit :=
  RaknetConnections.onSession guid (routeSession tp data.tail)

namespace RaknetHandler
open RaknetConnections

variable (tp : ThirdParty)

def handlePacket (packet : RakNetPacket) : HandlerM Unit := do
  match packet.data with
  | [] => return ()
  | identifier :: _ =>
    if identifier = tp.idNewIncomingConnection then onConnect packet.guid
    else if identifier = tp.idConnectionLost ∨ identifier = tp.idDisconnectionNotification then
      onDisconnect packet.guid
    else if identifier = 0xFE then do
      modify fun h => { h with server := { h.server with random := packet.random } }
      McbePacketRouter.route tp packet.guid packet.data

/-- The receive loop of `poll`, over the packets `receive` hands out. -/
def handlePackets : List RakNetPacket → HandlerM Unit
  | [] => return ()
  | packet :: packets => do
    handlePacket tp packet
    handlePackets packets

def poll (packets : List RakNetPacket) : HandlerM Unit := do
  handlePackets tp packets
  tick tp
  cleanup

end RaknetHandler

end CyrexMC
