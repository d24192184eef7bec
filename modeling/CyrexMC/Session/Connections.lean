import CyrexMC.Session.Batch
import CyrexMC.Session.Effects
import CyrexMC.Session.RaknetHandler
set_option autoImplicit false

namespace CyrexMC
open Stateful

variable {tp : ThirdParty}

theorem keeps_serve (packets : List Packet) (ending : Option Fault) :
    Within (Keeps tp) (fun _ _ => True) (serve tp packets ending) := by
  induction packets with
  | nil =>
    cases ending with
    | none => exact Within.returns keepsBound ()
    | some f => exact Within.raises keepsBound fun _ => trivial
  | cons packet packets ih =>
    refine Within.bind keepsBound (NetworkSession.keeps_handle packet.body) fun b => ?_
    cases b with
    | true => exact ih
    | false => exact Within.returns keepsBound ()

namespace McbePacketRouter

theorem keeps_decryptIncoming (data : Bytes) :
    Within (Keeps tp) (fun _ _ => True) (decryptIncoming tp data) := by
  refine Within.bind keepsBound (fun w => keepsBound.refl w) fun session => ?_
  cases session.cipher with
  | none => exact Within.raises keepsBound fun _ => trivial
  | some cipher =>
    refine Within.bind keepsBound (Within.excepts keepsBound fun _ _ _ => trivial) fun found => ?_
    have hcipher : Within (Keeps tp) (fun _ (_ : Fault) => True)
        (modifySession fun s => { s with cipher := some found.2 }) := fun w => (Does.cipher _).keeps
    exact Within.bind keepsBound hcipher fun _ => Within.returns keepsBound _

theorem keeps_routeSession (data : Bytes) :
    Within (Keeps tp) (fun _ _ => True) (routeSession tp data) := by
  have hraw : ∀ compressionEnabled payload, Within (Keeps tp) (fun _ (_ : Fault) => True) (do
      let payload ← fromExcept (decompressIncoming tp compressionEnabled payload)
      NetworkSession.onRaw tp payload) := fun compressionEnabled payload => by
    refine Within.bind keepsBound (Within.excepts keepsBound fun _ _ _ => trivial) fun payload => ?_
    rw [onRaw_serve]
    exact keeps_serve _ _
  refine Within.bind keepsBound (fun w => keepsBound.refl w) fun session => ?_
  split
  · exact Within.returns keepsBound ()
  · split
    · refine Within.bind keepsBound (keeps_decryptIncoming data) fun payload => ?_
      cases payload with
      | none => exact Within.returns keepsBound ()
      | some payload => exact hraw _ payload
    · exact hraw _ data

end McbePacketRouter

namespace RaknetConnections

/-- A call of a session that returns: there is none, or its entry alone is replaced. -/
theorem onSession_ok {guid : Guid} {m : SessionM Unit} {h h' : RaknetHandler}
    (hr : onSession guid m h = .ok () h') :
    (h.connections.get? guid = none ∧ h' = h) ∨
    ∃ session w, h.connections.get? guid = some session ∧ m ⟨session,h.server⟩ = .ok () w ∧
      h' = { connections := h.connections.set guid w.session, server := w.server } := by
  unfold onSession at hr
  cases hs : h.connections.get? guid with
  | none =>
    simp only [hs,EStateM.Result.ok.injEq,true_and] at hr
    exact Or.inl ⟨rfl,hr.symm⟩
  | some session =>
    simp only [hs] at hr
    cases hm : m ⟨session,h.server⟩ with
    | ok a w =>
      simp only [hm,EStateM.Result.ok.injEq,true_and] at hr
      exact Or.inr ⟨session,w,rfl,hm,hr.symm⟩
    | error e w => simp [hm] at hr

end RaknetConnections

inductive Event where
  | connect | disconnect | data | ignored
  deriving DecidableEq, Repr

def RakNetPacket.event (tp : ThirdParty) (packet : RakNetPacket) : Event :=
  match packet.data with
  | [] => .ignored
  | identifier :: _ =>
    if identifier = tp.idNewIncomingConnection then .connect
    else if identifier = tp.idConnectionLost ∨ identifier = tp.idDisconnectionNotification then .disconnect
    else if identifier = 0xFE then .data
    else .ignored

theorem RaknetHandler.handlePacket_event (packet : RakNetPacket) (h : RaknetHandler) :
    handlePacket tp packet h =
      match packet.event tp with
      | .connect => RaknetConnections.onConnect packet.guid h
      | .disconnect => RaknetConnections.onDisconnect packet.guid h
      | .data => McbePacketRouter.route tp packet.guid packet.data
          { h with server := { h.server with random := packet.random } }
      | .ignored => .ok () h := by
  obtain ⟨guid,data,random⟩ := packet
  cases data with
  | nil => rfl
  | cons identifier data =>
    simp only [handlePacket,RakNetPacket.event]
    split
    · rfl
    · split
      · rfl
      · split
        · rfl
        · rfl

end CyrexMC
