import CyrexMC.Session.Connections
import CyrexMC.Session.Serving
set_option autoImplicit false

namespace CyrexMC
open Relation Stateful

variable {tp : ThirdParty}

/-- Every packet that is handled is acceptable, and the batch is not broken behind the last. -/
def Accepted (tp : ThirdParty) : List Packet → Option Fault → Prop
  | [], ending => ending = none
  | packet :: packets, ending => NetworkSession.Acceptable tp packet.body ∧
      (NetworkSession.goesOn packet.body = true → Accepted tp packets ending)

/-- A session is done with the datagram at once, or the datagram unwraps to a batch that is
accepted. -/
def Digestible (tp : ThirdParty) (s : NetworkSession) (data : Bytes) : Prop :=
  data.length ≤ 1 ∨ ∃ payload, McbePacketRouter.decompressIncoming tp s.compressionEnabled data = .ok payload ∧
    Accepted tp (parseBatch tp payload).1 (parseBatch tp payload).2

def Contained (tp : ThirdParty) (h : RaknetHandler) (packet : RakNetPacket) : Prop :=
  packet.event tp = .data → ∀ s, h.connections.get? packet.guid = some s → Digestible tp s packet.data.tail

structure HandlerGood (tp : ThirdParty) (f₀ : ResourcePackFactory) (h : RaknetHandler) : Prop where
  server : Serving tp f₀ h.server
  sessions : ∀ guid s, h.connections.get? guid = some s → s.Sound f₀

section

variable {f₀ : ResourcePackFactory} (hready : f₀.Ready tp) (hdeflates : Deflates tp)
  (hcounted : ∀ p ∈ f₀.packs, p.CountedWithin f₀.maxChunkSize)

include hready hdeflates hcounted in
theorem total_serve {packets : List Packet} {ending : Option Fault} (h : Accepted tp packets ending) :
    Total (Good tp f₀) (fun _ => True) (serve tp packets ending) := by
  induction packets with
  | nil =>
    cases h
    exact Total.returns trivial
  | cons packet packets ih =>
    refine Total.bind (NetworkSession.total_handle hready hdeflates hcounted h.1) fun b hb => ?_
    subst hb
    split
    · rename_i hon
      exact ih (h.2 hon)
    · exact Total.returns trivial

include hready hdeflates hcounted in
theorem accepted_of_serve {packets : List Packet} {ending : Option Fault} {w w' : World} (hw : Good tp f₀ w)
    (h : serve tp packets ending w = .ok () w') : Accepted tp packets ending := by
  induction packets generalizing w with
  | nil =>
    cases ending with
    | none => rfl
    | some f => cases h
  | cons packet packets ih =>
    by_cases hacceptable : NetworkSession.Acceptable tp packet.body
    · refine ⟨hacceptable,fun hon => ?_⟩
      obtain ⟨b,w₁,hhandle,hb,hw₁⟩ := NetworkSession.total_handle hready hdeflates hcounted hacceptable w hw
      obtain ⟨b',w₁',hhandle',hrest⟩ := of_bind_ok h
      rw [hhandle] at hhandle'
      cases hhandle'
      rw [hb,hon] at hrest
      exact ih hw₁ hrest
    · obtain ⟨b,w₁,hhandle,-⟩ := of_bind_ok h
      rw [NetworkSession.handle_unacceptable hacceptable] at hhandle
      cases hhandle

include hready hdeflates hcounted in
theorem routeSession_digestible {data : Bytes} {w : World} (hw : Good tp f₀ w)
    (h : Digestible tp w.session data) :
    ∃ w', McbePacketRouter.routeSession tp data w = .ok () w' ∧ Good tp f₀ w' := by
  rcases h with hshort | ⟨payload,hpayload,haccepted⟩
  · exact ⟨w,by simp [McbePacketRouter.routeSession,bind_apply,hshort],hw⟩
  · by_cases hshort : data.length ≤ 1
    · exact ⟨w,by simp [McbePacketRouter.routeSession,bind_apply,hshort],hw⟩
    · obtain ⟨a,w',hserve,-,hw'⟩ := total_serve hready hdeflates hcounted haccepted w hw
      rw [McbePacketRouter.routeSession_unencrypted hw.session.plain (by omega) hpayload,onRaw_serve]
      exact ⟨w',hserve,hw'⟩

include hready hdeflates hcounted in
theorem digestible_of_routeSession {data : Bytes} {w w' : World} (hw : Good tp f₀ w)
    (h : McbePacketRouter.routeSession tp data w = .ok () w') : Digestible tp w.session data := by
  by_cases hshort : data.length ≤ 1
  · exact Or.inl hshort
  · right
    cases hpayload : McbePacketRouter.decompressIncoming tp w.session.compressionEnabled data with
    | error e => simp [McbePacketRouter.routeSession,bind_apply,hshort,hw.session.plain,hpayload] at h
    | ok payload =>
      rw [McbePacketRouter.routeSession_unencrypted hw.session.plain (by omega) hpayload,onRaw_serve] at h
      exact ⟨payload,rfl,accepted_of_serve hready hdeflates hcounted hw h⟩

theorem onSession_good (guid : Guid) {m : SessionM Unit} {h : RaknetHandler} (hh : HandlerGood tp f₀ h)
    (hm : ∀ s, h.connections.get? guid = some s → ∃ w', m ⟨s,h.server⟩ = .ok () w' ∧ Good tp f₀ w') :
    ∃ h', RaknetConnections.onSession guid m h = .ok () h' ∧ HandlerGood tp f₀ h' := by
  cases hs : h.connections.get? guid with
  | none => exact ⟨h,by simp [RaknetConnections.onSession,hs],hh⟩
  | some s =>
    obtain ⟨w',hrun,hw'⟩ := hm s hs
    let h' : RaknetHandler := { connections := h.connections.set guid w'.session, server := w'.server }
    have hone : RaknetConnections.onSession guid m h = .ok () h' := by
      simp only [RaknetConnections.onSession,hs,hrun,h']
    refine ⟨h',hone,hw'.server,fun guid' s' hs' => ?_⟩
    by_cases hg : guid' = guid
    · subst hg
      rw [Table.get?_set,if_pos rfl,hs] at hs'
      cases hs'
      exact hw'.session
    · rw [Table.get?_set,if_neg hg] at hs'
      exact hh.sessions guid' s' hs'

include hready hdeflates hcounted in
theorem handlePacket_contained {packet : RakNetPacket} {h : RaknetHandler} (hh : HandlerGood tp f₀ h)
    (hc : Contained tp h packet) :
    ∃ h', RaknetHandler.handlePacket tp packet h = .ok () h' ∧ HandlerGood tp f₀ h' := by
  rw [RaknetHandler.handlePacket_event]
  cases he : packet.event tp with
  | connect =>
    refine ⟨_,rfl,hh.server,fun guid s hs => ?_⟩
    have hnew : ({ guid := packet.guid } : NetworkSession).Sound f₀ :=
      ⟨rfl,(fun hmode => nomatch hmode),fun id m hm => nomatch hm⟩
    rw [Table.get?_emplace] at hs
    split at hs
    · cases hold : h.connections.get? packet.guid with
      | none =>
        rw [hold] at hs
        cases hs
        exact hnew
      | some s₀ =>
        rw [hold] at hs
        cases hs
        exact hh.sessions packet.guid s₀ hold
    · exact hh.sessions guid s hs
  | disconnect =>
    refine ⟨_,rfl,?_⟩
    cases hold : h.connections.get? packet.guid with
    | none => simpa [hold] using hh
    | some s₀ =>
      refine ⟨by simpa [hold] using hh.server,fun guid s hs => ?_⟩
      simp only [hold] at hs
      by_cases hg : guid = packet.guid
      · subst hg
        rw [Table.get?_set,if_pos rfl,hold] at hs
        cases hs
        exact (hh.sessions _ s₀ hold).congr rfl rfl (hh.sessions _ s₀ hold).mode
      · rw [Table.get?_set,if_neg hg] at hs
        exact hh.sessions guid s hs
  | data =>
    let server := { h.server with random := packet.random }
    have hh' : HandlerGood tp f₀ { h with server } := ⟨⟨hh.server.touched,hh.server.streams⟩,hh.sessions⟩
    exact onSession_good packet.guid hh' fun s hs =>
      routeSession_digestible hready hdeflates hcounted ⟨hh.sessions _ s hs,hh'.server⟩ (hc he s hs)
  | ignored => exact ⟨h,rfl,hh⟩

include hready hdeflates hcounted in
theorem contained_of_handlePacket {packet : RakNetPacket} {h h' : RaknetHandler} (hh : HandlerGood tp f₀ h)
    (hr : RaknetHandler.handlePacket tp packet h = .ok () h') : Contained tp h packet := by
  intro he s hs
  rw [RaknetHandler.handlePacket_event,he] at hr
  rcases RaknetConnections.onSession_ok hr with ⟨hnone,-⟩ | ⟨s',w,hs',hrun,-⟩
  · have hnone' : h.connections.get? packet.guid = none := hnone
    rw [hs] at hnone'
    cases hnone'
  · have hs'' : h.connections.get? packet.guid = some s' := hs'
    rw [hs] at hs''
    cases hs''
    exact digestible_of_routeSession hready hdeflates hcounted
      ⟨hh.sessions _ s hs,hh.server.touched,hh.server.streams⟩ hrun

end

def datagram (data : Bytes) : RakNetPacket := { guid := 7, data := 0xFE :: data, random := fun _ => UUID.nil }

end CyrexMC
