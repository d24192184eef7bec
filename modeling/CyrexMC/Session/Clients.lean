import CyrexMC.Lib.Runs
import CyrexMC.Session.NonInterference
import CyrexMC.Session.Speaking
set_option autoImplicit false

namespace CyrexMC
open Stateful

variable {tp : ThirdParty}

namespace RaknetHandler

/-- The handler is with the client `g` where its dialogue is, and has sent it what was said. -/
structure Attends (tp : ThirdParty) (server : Server) (g : Guid) (c : Client) (h : RaknetHandler) : Prop where
  keyed : h.Keyed
  good : HandlerGood tp server.factory h
  forceResources : h.server.forceResources = server.forceResources
  dialogue : Option.Rel (fun s d => Speaks tp server g c.past d { session := s, server := h.server })
    (h.connections.get? g) c.dialogue
  lines : List.Forall₂ (Says tp g) c.lines (h.server.sentTo g)

theorem handlePacket_unseen {packet : RakNetPacket} {g : Guid} (hne : packet.guid ≠ g) {h h' : RaknetHandler}
    (hk : h.Keyed) (hr : handlePacket tp packet h = .ok () h') : Unseen tp g h h' := by
  rw [handlePacket_event] at hr
  cases he : packet.event tp with
  | connect =>
    rw [he] at hr
    exact RaknetConnections.onConnect_unseen hne hk hr
  | disconnect =>
    rw [he] at hr
    exact RaknetConnections.onDisconnect_unseen hne hk hr
  | data =>
    rw [he] at hr
    have hu := RaknetConnections.onSession_unseen (McbePacketRouter.keeps_routeSession _) hne (by exact hk) hr
    exact ⟨hu.session,hu.keyed,hu.factory,hu.forceResources,hu.sentTo⟩
  | ignored =>
    rw [he] at hr
    cases hr
    exact ⟨rfl,hk,.refl _,rfl,rfl⟩

namespace Attends

variable {server : Server} {g : Guid} {c : Client} {h h' : RaknetHandler}

theorem start (hstreams : ∀ p ∈ server.factory.packs, p.fileStream.failbit = false) (hnone : server.sent = []) :
    Attends tp server g {} { connections := .empty, server } := by
  refine ⟨fun guid s hs => by simp at hs,⟨⟨.refl _,hstreams⟩,fun guid s hs => by simp at hs⟩,rfl,.none,?_⟩
  simp [Client.lines,Server.sentTo,hnone]

theorem unseen (ha : Attends tp server g c h) (hu : Unseen tp g h h') (hgood : HandlerGood tp server.factory h') :
    Attends tp server g c h' := by
  constructor
  · exact hu.keyed
  · exact hgood
  · exact hu.forceResources.trans ha.forceResources
  · rw [hu.session]
    have hrel := ha.dialogue
    generalize h.connections.get? g = s, c.dialogue = d at hrel ⊢
    cases hrel with
    | none => exact .none
    | some hs => exact .some (hs.others hu.factory hgood.server.streams hu.forceResources hu.sentTo)
  · rw [hu.sentTo]
    exact ha.lines

theorem next {s : NetworkSession} {d : Dialogue} (hkeyed : h'.Keyed) (hgood : HandlerGood tp server.factory h')
    (hget : h'.connections.get? g = some s) (hs : Speaks tp server g c.past d { session := s, server := h'.server }) :
    Attends tp server g { c with dialogue := some d } h' := by
  constructor
  · exact hkeyed
  · exact hgood
  · exact hs.forceResources
  · rw [hget]
    exact .some hs
  · exact hs.lines

theorem begins (ha : Attends tp server g c h) :
    Speaks tp server g c.lines {} { session := { guid := g }, server := h.server } := by
  have hstart := progress_begin tp g false server
  have halike : Alike tp server.factory (.begin g false) { session := { guid := g }, server := h.server } :=
    ⟨ha.good.server.touched,rfl,rfl,rfl,rfl⟩
  constructor
  · exact ⟨⟨rfl,(fun hmode => nomatch hmode),fun id m hm => nomatch hm⟩,ha.good.server⟩
  · exact hstart.keep halike rfl rfl rfl
  · rfl
  · rfl
  · exact ha.forceResources
  · simpa using ha.lines

section

variable (hready : server.factory.Ready tp)
  (hcounted : ∀ p ∈ server.factory.packs, p.Counted server.factory.maxChunkSize)
  (hcat : server.factory.Catalogued tp) (hdeflates : Deflates tp)

theorem connect (ha : Attends tp server g c h) (hgood : HandlerGood tp server.factory h')
    (hr : RaknetConnections.onConnect g h = .ok () h') :
    Attends tp server g { c with dialogue := some (c.dialogue.getD {}) } h' := by
  have hrel := ha.dialogue
  have hbegins := ha.begins
  unfold Client.lines at hbegins
  cases hr
  have hget := Table.get?_emplace h.connections g g { guid := g }
  rw [if_pos rfl] at hget
  generalize hs : h.connections.get? g = found, hd : c.dialogue = dialogue at hrel hget hbegins
  cases hrel with
  | none => exact next (ha.keyed.emplace rfl) hgood hget (by simpa using hbegins)
  | some hthis => exact next (ha.keyed.emplace rfl) hgood hget hthis

theorem disconnect (ha : Attends tp server g c h) (hgood : HandlerGood tp server.factory h')
    (hr : RaknetConnections.onDisconnect g h = .ok () h') :
    Attends tp server g { c with dialogue := c.dialogue.map fun d => { d with leaving := true } } h' := by
  have hrel := ha.dialogue
  generalize hs : h.connections.get? g = found, hd : c.dialogue = dialogue at hrel
  cases hrel with
  | none =>
    simp only [RaknetConnections.onDisconnect,modify_apply,hs,EStateM.Result.ok.injEq,true_and] at hr
    subst hr
    rw [Option.map_none,← hd]
    exact ha
  | @some s d hthis =>
    simp only [RaknetConnections.onDisconnect,modify_apply,hs,EStateM.Result.ok.injEq,true_and] at hr
    subst hr
    let marked : NetworkSession := { s with markedForDisconnect := true }
    have hget := Table.get?_set h.connections g g marked
    rw [if_pos rfl,hs] at hget
    exact next (ha.keyed.set marked (ha.keyed g s hs) h.server) hgood hget (hthis.mark true)

theorem onSession (ha : Attends tp server g c h) {m : SessionM Unit} {say : Dialogue → Dialogue}
    (hgood : HandlerGood tp server.factory h') (hm : Within (Keeps tp) (fun _ _ => True) m)
    (hsaid : ∀ (d : Dialogue) (w w' : World), Speaks tp server g c.past d w → m w = .ok () w' →
      Speaks tp server g c.past (say d) w')
    (hr : RaknetConnections.onSession g m h = .ok () h') :
    Attends tp server g { c with dialogue := c.dialogue.map say } h' := by
  have hrel := ha.dialogue
  rcases RaknetConnections.onSession_ok hr with ⟨hs,rfl⟩ | ⟨s,w,hs,hrun,rfl⟩
  · rw [hs] at hrel
    generalize hd : c.dialogue = dialogue at hrel
    cases hrel
    rw [Option.map_none,← hd]
    exact ha
  · rw [hs] at hrel
    generalize hd : c.dialogue = dialogue at hrel
    cases hrel with
    | some hthis =>
      have hget := Table.get?_set h.connections g g w.session
      rw [if_pos rfl,hs] at hget
      have hguid := (hm.ok hrun).guid.trans (ha.keyed g s hs)
      exact next (ha.keyed.set w.session hguid w.server) hgood hget (hsaid _ _ _ hthis hrun)

include hready hcounted hcat hdeflates in
theorem packet (ha : Attends tp server g c h) {packet : RakNetPacket} (hguid : packet.guid = g)
    (hgood : HandlerGood tp server.factory h') (hr : handlePacket tp packet h = .ok () h') :
    Attends tp server g (c.packet tp server packet) h' := by
  rw [handlePacket_event,hguid] at hr
  unfold Client.packet
  cases he : packet.event tp with
  | connect =>
    rw [he] at hr
    exact ha.connect hgood hr
  | disconnect =>
    rw [he] at hr
    exact ha.disconnect hgood hr
  | data =>
    rw [he] at hr
    have hdrawn : Unseen tp g h { h with server := { h.server with random := packet.random } } :=
      ⟨rfl,ha.keyed,.refl _,rfl,rfl⟩
    have hstart := ha.unseen hdrawn ⟨⟨ha.good.server.touched,ha.good.server.streams⟩,ha.good.sessions⟩
    exact hstart.onSession hgood (McbePacketRouter.keeps_routeSession _)
      (fun d w w' hs hrun => hs.receive hready hcounted hcat hdeflates hrun) hr
  | ignored =>
    rw [he] at hr
    cases hr
    exact ha

include hready hcounted hcat hdeflates in
theorem refines_handlePacket :
    Refines (Attends tp server g) (fun packet => packet.guid = g) (Client.packet tp server) (handlePacket tp) := by
  have hwithin := fun p hp => (hcounted p hp).within
  have hgood : ∀ packet h h', HandlerGood tp server.factory h → handlePacket tp packet h = .ok () h' →
      HandlerGood tp server.factory h' := by
    intro packet h h' hh hr
    have hcontained := contained_of_handlePacket hready hdeflates hwithin hh hr
    obtain ⟨h₁,hagain,hgood⟩ := handlePacket_contained hready hdeflates hwithin hh hcontained
    cases hr.symm.trans hagain
    exact hgood
  constructor
  · intro packet hguid c h h' ha hr
    exact ha.packet hready hcounted hcat hdeflates (by simpa using hguid) (hgood packet h h' ha.good hr) hr
  · intro packet hguid c h h' ha hr
    exact ha.unseen (handlePacket_unseen (by simpa using hguid) ha.keyed hr) (hgood packet h h' ha.good hr)

include hdeflates in
theorem refines_tick : Refines (Attends tp server g) (fun guid : Guid => guid = g) (fun c _ => c.tick)
    (fun guid => RaknetConnections.onSession guid (NetworkSession.tick tp)) := by
  have hkeeps : Within (Keeps tp) (fun _ _ => True) (NetworkSession.tick tp) :=
    NetworkSession.within_flush.mono (fun _ _ hd => hd.keeps) fun _ _ _ => trivial
  have hgood : ∀ guid h h', HandlerGood tp server.factory h →
      RaknetConnections.onSession guid (NetworkSession.tick tp) h = .ok () h' → HandlerGood tp server.factory h' := by
    intro guid h h' hh hr
    obtain ⟨h₁,hagain,hgood⟩ := onSession_good guid (m:=NetworkSession.tick tp) hh fun s hs => by
      obtain ⟨a,w',hrun,-,hw'⟩ := NetworkSession.total_tick hdeflates ⟨s,h.server⟩ ⟨hh.sessions guid s hs,hh.server⟩
      exact ⟨w',hrun,hw'⟩
    cases hr.symm.trans hagain
    exact hgood
  constructor
  · intro guid hguid c h h' ha hr
    have heq : guid = g := by simpa using hguid
    subst heq
    exact ha.onSession (hgood guid h h' ha.good hr) hkeeps (fun d w w' hs hrun => hs.tick hdeflates hrun) hr
  · intro guid hguid c h h' ha hr
    exact ha.unseen (RaknetConnections.onSession_unseen hkeeps (by simpa using hguid) ha.keyed hr)
      (hgood guid h h' ha.good hr)

include hdeflates in
theorem tick (ha : Attends tp server g c h) (hr : RaknetConnections.tick tp h = .ok () h') :
    Attends tp server g c.tick h' := by
  have hloop : RaknetConnections.tickLoop tp h.connections.keys h = .ok () h' := hr
  rw [RaknetConnections.tickLoop_eq] at hloop
  have hafter := (refines_tick hdeflates).runAll ha hloop
  rw [RaknetConnections.keys_filter] at hafter
  have hrel := ha.dialogue
  generalize hfound : h.connections.get? g = found, hd : c.dialogue = dialogue at hrel hafter
  cases hrel with
  | none => rwa [Client.tick,hd,Option.map_none,← hd]
  | some hs => exact hafter

theorem cleanup (ha : Attends tp server g c h) (hr : RaknetConnections.cleanup h = .ok () h') :
    Attends tp server g c.cleanup h' := by
  have hrel := ha.dialogue
  cases hr
  have hget := Table.get?_eraseIf h.connections (fun s => s.markedForDisconnect) g
  have hgood : HandlerGood tp server.factory
      { h with connections := h.connections.eraseIf fun s => s.markedForDisconnect } := by
    refine ⟨ha.good.server,fun guid s hs => ?_⟩
    rw [Table.get?_eraseIf,Option.filter_eq_some_iff] at hs
    exact ha.good.sessions guid s hs.1
  have hkeyed : Keyed { h with connections := h.connections.eraseIf fun s => s.markedForDisconnect } := by
    intro guid s hs
    rw [Table.get?_eraseIf,Option.filter_eq_some_iff] at hs
    exact ha.keyed guid s hs.1
  generalize hfound : h.connections.get? g = found, hd : c.dialogue = dialogue at hrel hget
  cases hrel with
  | none =>
    have hsame : c.cleanup = c := by simp [Client.cleanup,hd]
    rw [hsame]
    refine ⟨hkeyed,hgood,ha.forceResources,?_,ha.lines⟩
    rw [hget,hd]
    exact .none
  | @some s d hs =>
    have hmarked : s.markedForDisconnect = d.leaving := hs.leaving
    cases hleaving : d.leaving with
    | true =>
      have hover : c.cleanup = { past := c.lines } := by simp [Client.cleanup,hd,hleaving]
      rw [hover]
      refine ⟨hkeyed,hgood,ha.forceResources,?_,by simpa [Client.lines] using ha.lines⟩
      rw [hget,Option.filter_some,if_neg (by simp [hmarked,hleaving])]
      exact .none
    | false =>
      have hstays : c.cleanup = c := by simp [Client.cleanup,hd,hleaving]
      rw [Option.filter_some,if_pos (by simp [hmarked,hleaving])] at hget
      have hnext := next hkeyed hgood hget hs
      rw [← hd] at hnext
      rw [hstays]
      exact hnext

include hready hcounted hcat hdeflates in
theorem refines_poll : Refines (Attends tp server g) (fun _ => true)
    (fun c packets => c.poll tp server (packetsOf g packets)) (RaknetHandler.poll tp) := by
  refine ⟨fun packets _ c h h' ha hr => ?_,fun packets hnone => Bool.noConfusion hnone⟩
  obtain ⟨a,h₁,hpackets,hrest⟩ := of_bind_ok hr
  obtain ⟨b,h₂,htick,hcleanup⟩ := of_bind_ok hrest
  rw [handlePackets_eq] at hpackets
  have hafter := (refines_handlePacket hready hcounted hcat hdeflates).runAll ha hpackets
  exact (hafter.tick hdeflates htick).cleanup hcleanup

include hready hcounted hcat hdeflates in
theorem polls (ha : Attends tp server g {} { connections := .empty, server }) {schedule : List (List RakNetPacket)}
    (hr : RaknetHandler.polls tp schedule { connections := .empty, server } = .ok () h) :
    Attends tp server g (Client.polls tp server (schedule.map (packetsOf g))) h := by
  have hafter := (refines_poll hready hcounted hcat hdeflates).runAll ha hr
  rw [List.filter_true] at hafter
  rw [Client.polls,List.foldl_map]
  exact hafter

end

end Attends

structure Mirrors (s : NetworkSession) (d : Dialogue) : Prop where
  compressed : s.compressionEnabled = d.compressed
  waiting : s.sendQueue.map Packet.untemplated = d.waiting
  served : ∀ id m, s.loadedPacks id = some m → ∀ j < m.chunks.length, m.isSent j = true ↔ (id,(j : Int)) ∈ d.served
  leaving : s.markedForDisconnect = d.leaving

/-- Whatever the schedule of the polls: each client is sent, datagram by datagram, what the dialogue with it says, which
depends on its own packets alone, and has a session just as long as the dialogue is not over. -/
theorem clients_served {server : Server} (hready : server.factory.Ready tp)
    (hstreams : ∀ p ∈ server.factory.packs, p.fileStream.failbit = false)
    (hcounted : ∀ p ∈ server.factory.packs, p.Counted server.factory.maxChunkSize)
    (hcat : server.factory.Catalogued tp) (hdeflates : Deflates tp) (hnone : server.sent = [])
    {schedule : List (List RakNetPacket)} {h : RaknetHandler}
    (hr : polls tp schedule { connections := .empty, server } = .ok () h) (g : Guid) :
    let c := Client.polls tp server (schedule.map (packetsOf g))
    List.Forall₂ (Says tp g) c.lines (h.server.sentTo g) ∧ Option.Rel Mirrors (h.connections.get? g) c.dialogue := by
  intro c
  have ha : Attends tp server g c h := (Attends.start hstreams hnone).polls hready hcounted hcat hdeflates hr
  have hrel := ha.dialogue
  refine ⟨ha.lines,?_⟩
  generalize h.connections.get? g = found, c.dialogue = dialogue at hrel ⊢
  cases hrel with
  | none => exact .none
  | some hs =>
    exact .some ⟨hs.progress.alike.compressionEnabled,hs.waiting,hs.progress.flags,hs.leaving⟩

theorem twoPacks_catalogued : Server.twoPacks.factory.Catalogued .rawIds := by
  have hload : ResourcePackFactory.reloadPacks .rawIds { maxChunkSize := ⟨22,by decide,by decide⟩ }
      [.ofId (.filled 1) 44 (by decide),.ofId (.filled 2) 22 (by decide)] = .ok Server.twoPacks.factory := rfl
  apply ResourcePackFactory.reloadPacks_catalogued _ hload
  intro p hp
  simp only [List.mem_cons,List.not_mem_nil,or_false] at hp
  rcases hp with rfl | rfl <;> rfl

theorem clients_served_twoPacks :
    let from7 (data : Bytes) : RakNetPacket := { guid := 7, data, random := fun _ => UUID.nil }
    let settings := frame PacketId.RequestNetworkSettings 0 (BinaryWriter.writeU32BE ProtocolInfo.currentProtocol)
    let haveAll := frame PacketId.ResourcePackClientResponse 0 [3,0,0]
    let request := frame PacketId.ResourcePackChunkRequest 0 (16 :: (UUID.filled 1).bytes ++ [1,0,0,0])
    let schedule := [[from7 [19],from7 (0xFE :: settings)],
      [from7 (0xFE :: 0xFF :: haveAll),chunkRequest 8 (.filled 1) 0,from7 (0xFE :: 0xFF :: request)]]
    let c := Client.polls .rawIds .twoPacks (schedule.map (packetsOf 7))
    ∃ h, polls .rawIds schedule { connections := .empty, server := .twoPacks } = .ok () h ∧
      (h.server.sentTo 7).length = 3 ∧ List.Forall₂ (Says .rawIds 7) c.lines (h.server.sentTo 7) ∧
      Option.Rel Mirrors (h.connections.get? 7) c.dialogue := by
  intro from7 settings haveAll request schedule c
  have hends : endsWith (polls .rawIds schedule) (fun h => (h.server.sentTo 7).length = 3)
      { connections := .empty, server := .twoPacks } = true := by decide +kernel
  obtain ⟨h,hr,hthree⟩ := exists_of_endsWith hends
  exact ⟨h,hr,by simpa using hthree,clients_served Server.twoPacks_prepared.ready Server.twoPacks_prepared.streams
    Server.twoPacks_counted twoPacks_catalogued deflates_rawIds rfl hr 7⟩

end RaknetHandler

end CyrexMC
