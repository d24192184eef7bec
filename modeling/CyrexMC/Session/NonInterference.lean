import CyrexMC.Session.SameView
set_option autoImplicit false

namespace CyrexMC
open Stateful

variable {tp : ThirdParty} {f₀ : ResourcePackFactory} {g : Guid}

namespace RaknetHandler

def Keyed (h : RaknetHandler) : Prop := ∀ guid s, h.connections.get? guid = some s → s.guid = guid

/-- Two handlers that look the same to the client `g`. -/
structure SameView (tp : ThirdParty) (f₀ : ResourcePackFactory) (g : Guid) (h k : RaknetHandler) : Prop where
  session : h.connections.get? g = k.connections.get? g
  server : h.server.SameView tp f₀ g k.server
  left : h.Keyed
  right : k.Keyed

theorem SameView.symm {h k : RaknetHandler} (hk : SameView tp f₀ g h k) : SameView tp f₀ g k h :=
  ⟨hk.session.symm,⟨hk.server.right,hk.server.left,hk.server.forceResources.symm,hk.server.sentTo.symm⟩,
    hk.right,hk.left⟩

theorem SameView.setRandom {h k : RaknetHandler} (hk : SameView tp f₀ g h k) (random random' : Nat → UUID) :
    SameView tp f₀ g { h with server := { h.server with random } }
      { k with server := { k.server with random := random' } } :=
  ⟨hk.session,⟨hk.server.left,hk.server.right,hk.server.forceResources,hk.server.sentTo⟩,hk.left,hk.right⟩

structure Unseen (tp : ThirdParty) (g : Guid) (h h' : RaknetHandler) : Prop where
  session : h'.connections.get? g = h.connections.get? g
  keyed : h'.Keyed
  factory : h.server.factory.Touched tp h'.server.factory
  forceResources : h'.server.forceResources = h.server.forceResources
  sentTo : h'.server.sentTo g = h.server.sentTo g

theorem SameView.unseen {h h' k : RaknetHandler} (hk : SameView tp f₀ g h k) (hu : Unseen tp g h h') :
    SameView tp f₀ g h' k :=
  ⟨hu.session.trans hk.session,⟨hk.server.left.trans hu.factory,hk.server.right,
    hu.forceResources.trans hk.server.forceResources,hu.sentTo.trans hk.server.sentTo⟩,hu.keyed,hk.right⟩

theorem Keyed.set {h : RaknetHandler} (hk : h.Keyed) {guid : Guid} (s : NetworkSession) (hs : s.guid = guid)
    (server : Server) : Keyed { connections := h.connections.set guid s, server } := by
  intro guid' s' hs'
  rw [Table.get?_set] at hs'
  by_cases heq : guid' = guid
  · rw [if_pos heq,Option.map_eq_some_iff] at hs'
    obtain ⟨_,_,rfl⟩ := hs'
    exact hs.trans heq.symm
  · rw [if_neg heq] at hs'
    exact hk guid' s' hs'

theorem Keyed.emplace {h : RaknetHandler} (hk : h.Keyed) {guid : Guid} {s : NetworkSession} (hs : s.guid = guid) :
    Keyed { h with connections := h.connections.emplace guid s } := by
  intro guid' s' hs'
  rw [Table.get?_emplace] at hs'
  by_cases heq : guid' = guid
  · rw [if_pos heq] at hs'
    cases hget : h.connections.get? guid with
    | none =>
      rw [hget] at hs'
      cases hs'
      exact hs.trans heq.symm
    | some s₀ =>
      rw [hget] at hs'
      cases hs'
      exact (hk guid s₀ hget).trans heq.symm
  · rw [if_neg heq] at hs'
    exact hk guid' s' hs'

end RaknetHandler

namespace RaknetConnections
open RaknetHandler

theorem onSession_unseen {guid : Guid} {m : SessionM Unit} (hm : Within (Keeps tp) (fun _ _ => True) m)
    (hne : guid ≠ g) {h h' : RaknetHandler} (hk : h.Keyed) (hr : onSession guid m h = .ok () h') :
    Unseen tp g h h' := by
  rcases onSession_ok hr with ⟨-,rfl⟩ | ⟨s,w,hs,hrun,rfl⟩
  · exact ⟨rfl,hk,.refl _,rfl,rfl⟩
  · have hkeeps := hm.ok hrun
    have hguid := hk guid s hs
    obtain ⟨datagrams,hsent⟩ := hkeeps.sent
    constructor
    · rw [Table.get?_set,if_neg (Ne.symm hne)]
    · exact hk.set w.session (hkeeps.guid.trans hguid) w.server
    · exact hkeeps.factory
    · exact hkeeps.forceResources
    · have hothers : (datagrams.map fun d => (s.guid,d)).filter (fun d => d.1 = g) = [] := by
        rw [hguid]
        simp [List.filter_map,Function.comp_def,hne]
      simp only [Server.sentTo,hsent,List.filter_append,hothers,List.append_nil]

theorem onSession_sameView {draws : Prop} {m : SessionM Unit} (hm : Within (Keeps tp) (fun _ _ => True) m)
    (hsame : Same tp f₀ g draws m) {h k h' k' : RaknetHandler} (hk : SameView tp f₀ g h k)
    (hrandom : draws → h.server.random = k.server.random) (hr : onSession g m h = .ok () h')
    (hr' : onSession g m k = .ok () k') : SameView tp f₀ g h' k' := by
  have hget := hk.session
  rcases onSession_ok hr with ⟨hnone,rfl⟩ | ⟨s,w,hs,hrun,rfl⟩
  · rcases onSession_ok hr' with ⟨-,rfl⟩ | ⟨t,v,ht,-,-⟩
    · exact hk
    · rw [hnone,ht] at hget
      cases hget
  · rcases onSession_ok hr' with ⟨hnone,-⟩ | ⟨t,v,ht,hrun',rfl⟩
    · rw [hs,hnone] at hget
      cases hget
    · rw [hs,ht] at hget
      cases hget
      obtain ⟨-,hwv⟩ := hsame ⟨s,h.server⟩ ⟨s,k.server⟩ ⟨rfl,hk.server,hrandom⟩ () w () v hrun hrun'
      constructor
      · rw [Table.get?_set,Table.get?_set,if_pos rfl,if_pos rfl,hs,ht,hwv.session]
      · exact hwv.server
      · exact hk.left.set w.session ((hm.ok hrun).guid.trans (hk.left g s hs)) _
      · exact hk.right.set v.session ((hm.ok hrun').guid.trans (hk.right g s ht)) _

theorem onConnect_unseen {guid : Guid} (hne : guid ≠ g) {h h' : RaknetHandler} (hk : h.Keyed)
    (hr : onConnect guid h = .ok () h') : Unseen tp g h h' := by
  cases hr
  refine ⟨?_,hk.emplace rfl,.refl _,rfl,rfl⟩
  rw [Table.get?_emplace,if_neg (Ne.symm hne)]

theorem onDisconnect_unseen {guid : Guid} (hne : guid ≠ g) {h h' : RaknetHandler} (hk : h.Keyed)
    (hr : onDisconnect guid h = .ok () h') : Unseen tp g h h' := by
  cases hs : h.connections.get? guid with
  | none =>
    simp only [onDisconnect,modify_apply,hs,EStateM.Result.ok.injEq,true_and] at hr
    subst hr
    exact ⟨rfl,hk,.refl _,rfl,rfl⟩
  | some s =>
    simp only [onDisconnect,modify_apply,hs,EStateM.Result.ok.injEq,true_and] at hr
    subst hr
    have hguid : s.guid = guid := hk guid s hs
    refine ⟨?_,hk.set { s with markedForDisconnect := true } hguid h.server,.refl _,rfl,rfl⟩
    rw [Table.get?_set,if_neg (Ne.symm hne)]

theorem onConnect_sameView {h k h' k' : RaknetHandler} (hk : SameView tp f₀ g h k)
    (hr : onConnect g h = .ok () h') (hr' : onConnect g k = .ok () k') : SameView tp f₀ g h' k' := by
  cases hr
  cases hr'
  refine ⟨?_,hk.server,hk.left.emplace rfl,hk.right.emplace rfl⟩
  rw [Table.get?_emplace,Table.get?_emplace,hk.session]

theorem onDisconnect_sameView {h k h' k' : RaknetHandler} (hk : SameView tp f₀ g h k)
    (hr : onDisconnect g h = .ok () h') (hr' : onDisconnect g k = .ok () k') : SameView tp f₀ g h' k' := by
  have hget := hk.session
  cases hs : h.connections.get? g with
  | none =>
    rw [hs] at hget
    simp only [onDisconnect,modify_apply,hs,EStateM.Result.ok.injEq,true_and] at hr
    simp only [onDisconnect,modify_apply,← hget,EStateM.Result.ok.injEq,true_and] at hr'
    subst hr
    subst hr'
    exact hk
  | some s =>
    rw [hs] at hget
    simp only [onDisconnect,modify_apply,hs,EStateM.Result.ok.injEq,true_and] at hr
    simp only [onDisconnect,modify_apply,← hget,EStateM.Result.ok.injEq,true_and] at hr'
    subst hr
    subst hr'
    have hguid : s.guid = g := hk.left g s hs
    let marked := { s with markedForDisconnect := true }
    refine ⟨?_,hk.server,hk.left.set marked hguid h.server,hk.right.set marked hguid k.server⟩
    rw [Table.get?_set,Table.get?_set,hs,← hget]

/-- The tick visits every session, and the client sees that of its own. -/
theorem unwinding_tick :
    Unwinding (SameView tp f₀ g) (fun guid => guid = g) fun guid => onSession guid (NetworkSession.tick tp) := by
  have hkeeps : Within (Keeps tp) (fun _ _ => True) (NetworkSession.tick tp) :=
    NetworkSession.within_flush.mono (fun _ _ h => h.keeps) fun _ _ _ => trivial
  constructor
  · exact fun h k => SameView.symm
  · intro guid hguid h k h' hk hr
    exact hk.unseen (onSession_unseen hkeeps (by simpa using hguid) hk.left hr)
  · intro guid hguid h k hk a h' b k' hr hr'
    have heq : guid = g := by simpa using hguid
    subst heq
    exact ⟨trivial,onSession_sameView hkeeps NetworkSession.same_tick hk (fun h : False => h.elim) hr hr'⟩

theorem tickLoop_eq (guids : List Guid) :
    tickLoop tp guids = runAll (fun guid => onSession guid (NetworkSession.tick tp)) guids := by
  induction guids with
  | nil => rfl
  | cons guid guids ih => simp only [tickLoop,runAll,ih]

theorem keys_filter (t : Table Guid NetworkSession) :
    t.keys.filter (fun guid => guid = g) = if (t.get? g).isSome then [g] else [] := by
  have hnodup : t.keys.Nodup := t.nodup
  rw [List.filter_eq,hnodup.count]
  simp only [Table.get?_isSome]
  split
  · rfl
  · rfl

theorem coupled_tick : Coupled (SameView tp f₀ g) (fun _ _ => True) (tick tp) (tick tp) := by
  intro h k hk a h' b k' hr hr'
  have hkeys : h.connections.keys.filter (fun guid => guid = g) = k.connections.keys.filter (fun guid => guid = g) := by
    rw [keys_filter,keys_filter,hk.session]
  have hloop : Coupled (SameView tp f₀ g) (fun _ _ => True) (tickLoop tp h.connections.keys)
      (tickLoop tp k.connections.keys) := by
    rw [tickLoop_eq,tickLoop_eq]
    exact unwinding_tick.runAll hkeys
  exact hloop h k hk a h' b k' hr hr'

theorem coupled_cleanup : Coupled (SameView tp f₀ g) (fun _ _ => True) cleanup cleanup := by
  have hkeyed : ∀ h : RaknetHandler, h.Keyed →
      Keyed { h with connections := h.connections.eraseIf fun s => s.markedForDisconnect } := by
    intro h hk guid s hs
    rw [Table.get?_eraseIf,Option.filter_eq_some_iff] at hs
    exact hk guid s hs.1
  apply Coupled.update
  intro h k hk
  refine ⟨?_,hk.server,hkeyed h hk.left,hkeyed k hk.right⟩
  rw [Table.get?_eraseIf,Table.get?_eraseIf,hk.session]

end RaknetConnections

namespace RaknetHandler
open RaknetConnections

theorem unwinding_handlePacket :
    Unwinding (SameView tp f₀ g) (fun packet => packet.guid = g) (handlePacket tp) := by
  constructor
  · exact fun h k => SameView.symm
  · intro packet hpacket h k h' hk hr
    have hne : packet.guid ≠ g := by simpa using hpacket
    rw [handlePacket_event] at hr
    cases he : packet.event tp with
    | connect =>
      rw [he] at hr
      exact hk.unseen (onConnect_unseen hne hk.left hr)
    | disconnect =>
      rw [he] at hr
      exact hk.unseen (onDisconnect_unseen hne hk.left hr)
    | data =>
      rw [he] at hr
      have hk' := hk.setRandom packet.random k.server.random
      exact hk'.unseen (onSession_unseen (McbePacketRouter.keeps_routeSession _) hne hk.left hr)
    | ignored =>
      rw [he] at hr
      cases hr
      exact hk
  · intro packet hpacket h k hk a h' b k' hr hr'
    have heq : packet.guid = g := by simpa using hpacket
    rw [handlePacket_event,heq] at hr hr'
    refine ⟨trivial,?_⟩
    cases he : packet.event tp with
    | connect =>
      rw [he] at hr hr'
      exact onConnect_sameView hk hr hr'
    | disconnect =>
      rw [he] at hr hr'
      exact onDisconnect_sameView hk hr hr'
    | data =>
      rw [he] at hr hr'
      exact onSession_sameView (McbePacketRouter.keeps_routeSession _) (McbePacketRouter.same_routeSession _)
        (hk.setRandom packet.random packet.random) (fun _ => rfl) hr hr'
    | ignored =>
      rw [he] at hr hr'
      cases hr
      cases hr'
      exact hk

theorem handlePackets_eq (packets : List RakNetPacket) :
    handlePackets tp packets = runAll (handlePacket tp) packets := by
  induction packets with
  | nil => rfl
  | cons packet packets ih => simp only [handlePackets,runAll,ih]

/-- What a poll brings for a client. -/
def packetsOf (g : Guid) (packets : List RakNetPacket) : List RakNetPacket :=
  packets.filter fun packet => packet.guid = g

theorem coupled_poll {packets packets' : List RakNetPacket} (h : packetsOf g packets = packetsOf g packets') :
    Coupled (SameView tp f₀ g) (fun _ _ => True) (poll tp packets) (poll tp packets') := by
  have hpackets : Coupled (SameView tp f₀ g) (fun _ _ => True) (handlePackets tp packets)
      (handlePackets tp packets') := by
    rw [handlePackets_eq,handlePackets_eq]
    exact unwinding_handlePacket.runAll h
  exact Coupled.bind hpackets fun _ _ _ => Coupled.bind coupled_tick fun _ _ _ => coupled_cleanup

def polls (tp : ThirdParty) (schedule : List (List RakNetPacket)) : HandlerM Unit := runAll (poll tp) schedule

/-- Two schedules of polls that return and bring a client the same packets in the same polls: the
client is sent the same datagrams, whatever the other clients send. -/
theorem polls_noninterference (server : Server) (g : Guid) {schedule schedule' : List (List RakNetPacket)}
    (hsame : schedule.map (packetsOf g) = schedule'.map (packetsOf g)) {h h' : RaknetHandler}
    (hr : polls tp schedule { connections := .empty, server } = .ok () h)
    (hr' : polls tp schedule' { connections := .empty, server } = .ok () h') :
    h.server.sentTo g = h'.server.sentTo g := by
  have hkeyed : Keyed { connections := .empty, server } := fun guid s hs => by simp at hs
  have hstart : SameView tp server.factory g { connections := .empty, server } { connections := .empty, server } :=
    ⟨rfl,⟨.refl _,.refl _,rfl,rfl⟩,hkeyed,hkeyed⟩
  have hpolls : List.Forall₂ (fun ps ps' => packetsOf g ps = packetsOf g ps') schedule schedule' := by
    rwa [← List.forall₂_eq_eq_eq,List.forall₂_map_left_iff,List.forall₂_map_right_iff] at hsame
  have hcoupled : Coupled (SameView tp server.factory g) (fun _ _ => True) (polls tp schedule) (polls tp schedule') :=
    Coupled.runAll (hpolls.imp fun ps ps' hps => coupled_poll hps)
  obtain ⟨-,hview⟩ := hcoupled _ _ hstart () h () h' hr hr'
  exact hview.server.sentTo

def endsWith (m : HandlerM Unit) (p : RaknetHandler → Bool) (h : RaknetHandler) : Bool :=
  match m h with
  | .ok _ h' => p h'
  | .error _ _ => false

theorem exists_of_endsWith {m : HandlerM Unit} {p : RaknetHandler → Bool} {h : RaknetHandler}
    (hr : endsWith m p h = true) : ∃ h', m h = .ok () h' ∧ p h' = true := by
  unfold endsWith at hr
  cases hm : m h with
  | ok a h' => exact ⟨h',rfl,by simpa [hm] using hr⟩
  | error e h' => simp [hm] at hr

def chunkRequest (guid : Guid) (packId : UUID) (chunkIndex : UInt8) : RakNetPacket :=
  let payload := 16 :: packId.bytes ++ [chunkIndex,0]
  { guid, data := 0xFE :: frame PacketId.ResourcePackChunkRequest 0 payload, random := fun _ => UUID.nil }

theorem polls_noninterference_twoPacks :
    let connect (guid : Guid) : RakNetPacket := { guid, data := [19], random := fun _ => UUID.nil }
    let start : RaknetHandler := { connections := .empty, server := .twoPacks }
    let alone := [[connect 7],[chunkRequest 7 (.filled 1) 0,chunkRequest 7 (.filled 1) 1]]
    let among := [[connect 8,connect 7],[chunkRequest 7 (.filled 1) 0,chunkRequest 8 (.filled 2) 0,
      chunkRequest 8 (.filled 1) 0,chunkRequest 7 (.filled 1) 1,chunkRequest 8 (.filled 1) 1]]
    ∃ h h', polls .rawIds alone start = .ok () h ∧ polls .rawIds among start = .ok () h' ∧
      (h.server.sentTo 7).length = 2 ∧ h.server.sentTo 7 = h'.server.sentTo 7 := by
  intro connect start alone among
  have hends : endsWith (polls .rawIds alone) (fun h => (h.server.sentTo 7).length = 2) start = true := by
    decide +kernel
  have hends' : endsWith (polls .rawIds among) (fun _ => true) start = true := by decide +kernel
  obtain ⟨h,hr,htwo⟩ := exists_of_endsWith hends
  obtain ⟨h',hr',-⟩ := exists_of_endsWith hends'
  have hsame : alone.map (packetsOf 7) = among.map (packetsOf 7) := rfl
  exact ⟨h,h',hr,hr',by simpa using htwo,polls_noninterference .twoPacks 7 hsame hr hr'⟩

end RaknetHandler

end CyrexMC
