import CyrexMC.Lib.Table
import CyrexMC.Session.NonInterference
set_option autoImplicit false

namespace CyrexMC
open Stateful

variable (tp : ThirdParty)

/-- A connect puts a GUID into the set of those that are connected, and a disconnect takes it out. -/
def RakNetPacket.assignment (packet : RakNetPacket) : List (Assignments.Op Guid Unit) :=
  match packet.event tp with
  | .connect => [.put packet.guid ()]
  | .disconnect => [.drop packet.guid]
  | .data | .ignored => []

def Connected (packets : List RakNetPacket) (guid : Guid) : Prop :=
  (Assignments.run (fun _ => none) (packets.flatMap (RakNetPacket.assignment tp)) guid).isSome

/-- The GUID was connected before a poll, or became so with one of its packets. -/
def Addressed (before packets : List RakNetPacket) (guid : Guid) : Prop :=
  Connected tp before guid ∨ ∃ packet ∈ packets, packet.guid = guid ∧ packet.event tp = .connect

variable {tp}

theorem connected_concat (packets : List RakNetPacket) (packet : RakNetPacket) (guid : Guid) :
    Connected tp (packets ++ [packet]) guid ↔
      if packet.guid = guid ∧ packet.event tp = .connect then True
      else if packet.guid = guid ∧ packet.event tp = .disconnect then False
      else Connected tp packets guid := by
  rw [Connected,Connected,List.flatMap_append,Assignments.run_append,List.flatMap_singleton]
  by_cases hguid : packet.guid = guid
  · subst hguid
    cases hevent : packet.event tp <;>
      simp [RakNetPacket.assignment,hevent,Assignments.run,Assignments.apply,Assignments.Op.key,Assignments.Op.value]
  · have hne : guid ≠ packet.guid := fun h => hguid h.symm
    cases hevent : packet.event tp <;>
      simp [RakNetPacket.assignment,hevent,hguid,hne,Assignments.run,Assignments.apply,Assignments.Op.key]

theorem Addressed.mono {before packets : List RakNetPacket} {guid : Guid} (h : Addressed tp before packets guid)
    (more : List RakNetPacket) : Addressed tp before (packets ++ more) guid := by
  rcases h with h | ⟨packet,hpacket,h⟩
  · exact Or.inl h
  · exact Or.inr ⟨packet,List.mem_append_left more hpacket,h⟩

namespace RaknetHandler

/-- The handler between two polls: its sessions are those of connected GUIDs. -/
structure Settled (tp : ThirdParty) (before : List RakNetPacket) (h : RaknetHandler) : Prop where
  keyed : h.Keyed
  sessions : ∀ guid s, h.connections.get? guid = some s → Connected tp before guid

def Writes (tp : ThirdParty) (before packets : List RakNetPacket) (sent : List (Guid × Bytes)) (h : RaknetHandler) : Prop :=
  ∃ added, h.server.sent = sent ++ added ∧ ∀ a ∈ added, Addressed tp before packets a.1

/-- The handler after some packets of a poll. A session that has lost its connection is marked. -/
structure Serves (tp : ThirdParty) (before packets : List RakNetPacket) (sent : List (Guid × Bytes))
    (h : RaknetHandler) : Prop where
  keyed : h.Keyed
  sessions : ∀ guid s, h.connections.get? guid = some s → Addressed tp before packets guid
  unmarked : ∀ guid s, h.connections.get? guid = some s → s.markedForDisconnect = false →
    Connected tp (before ++ packets) guid
  writes : Writes tp before packets sent h

theorem Writes.mono {before packets : List RakNetPacket} {sent : List (Guid × Bytes)} {h : RaknetHandler}
    (hw : Writes tp before packets sent h) (more : List RakNetPacket) : Writes tp before (packets ++ more) sent h := by
  obtain ⟨added,hsent,hall⟩ := hw
  exact ⟨added,hsent,fun a ha => (hall a ha).mono more⟩

theorem Settled.serves {before : List RakNetPacket} {h : RaknetHandler} (hh : Settled tp before h) :
    Serves tp before [] h.server.sent h := by
  refine ⟨hh.keyed,fun guid s hs => Or.inl (hh.sessions guid s hs),fun guid s hs _ => ?_,[],by simp,by simp⟩
  rw [List.append_nil]
  exact hh.sessions guid s hs

variable {before packets : List RakNetPacket} {sent : List (Guid × Bytes)} {h h' : RaknetHandler}

theorem Serves.session {w : World} (hh : Serves tp before packets sent h) {guid : Guid} {s : NetworkSession}
    (hs : h.connections.get? guid = some s) (hk : Keeps tp { session := s, server := h.server } w) :
    Serves tp before packets sent { connections := h.connections.set guid w.session, server := w.server } := by
  have hguid := hh.keyed guid s hs
  have hget : ∀ g s', (h.connections.set guid w.session).get? g = some s' →
      ∃ s₀, h.connections.get? g = some s₀ ∧ (s'.markedForDisconnect = false → s₀.markedForDisconnect = false) := by
    intro g s' hs'
    rw [Table.get?_set] at hs'
    by_cases hg : g = guid
    · subst hg
      rw [if_pos rfl,hs] at hs'
      cases hs'
      refine ⟨s,hs,fun hmark => ?_⟩
      by_contra hno
      have hmarked := hk.marked (by simpa using hno)
      rw [hmark] at hmarked
      cases hmarked
    · rw [if_neg hg] at hs'
      exact ⟨s',hs',id⟩
  constructor
  · exact hh.keyed.set w.session (hk.guid.trans hguid) w.server
  · intro g s' hs'
    obtain ⟨s₀,hs₀,-⟩ := hget g s' hs'
    exact hh.sessions g s₀ hs₀
  · intro g s' hs' hmark
    obtain ⟨s₀,hs₀,hback⟩ := hget g s' hs'
    exact hh.unmarked g s₀ hs₀ (hback hmark)
  · obtain ⟨added,hsent,hall⟩ := hh.writes
    obtain ⟨datagrams,hmore⟩ := hk.sent
    refine ⟨added ++ datagrams.map (s.guid,·),by simp [hmore,hsent],fun a ha => ?_⟩
    rcases List.mem_append.mp ha with ha | ha
    · exact hall a ha
    · obtain ⟨d,-,rfl⟩ := List.mem_map.mp ha
      rw [hguid]
      exact hh.sessions guid s hs

def Ends (P Q : RaknetHandler → Prop) : EStateM.Result Fault RaknetHandler Unit → Prop
  | .ok _ h => P h
  | .error _ h => Q h

theorem Serves.onSession {m : SessionM Unit} (hh : Serves tp before packets sent h)
    (hm : Within (Keeps tp) (fun _ _ => True) m) (guid : Guid) :
    Ends (Serves tp before packets sent) (Writes tp before packets sent) (RaknetConnections.onSession guid m h) := by
  unfold RaknetConnections.onSession
  cases hs : h.connections.get? guid with
  | none => exact hh
  | some s =>
    simp only
    cases hrun : m { session := s, server := h.server } with
    | ok a w => exact hh.session hs (hm.ok hrun)
    | error e w => exact (hh.session hs (hm.error hrun).1).writes

theorem Serves.handlePacket (hh : Serves tp before packets sent h) (packet : RakNetPacket) :
    Ends (Serves tp before (packets ++ [packet]) sent) (Writes tp before (packets ++ [packet]) sent)
      (handlePacket tp packet h) := by
  have hconnected : ∀ guid, Connected tp (before ++ (packets ++ [packet])) guid ↔
      if packet.guid = guid ∧ packet.event tp = .connect then True
      else if packet.guid = guid ∧ packet.event tp = .disconnect then False
      else Connected tp (before ++ packets) guid := fun guid => by
    rw [← List.append_assoc]
    exact connected_concat (before ++ packets) packet guid
  rw [handlePacket_event]
  cases hevent : packet.event tp with
  | connect =>
    have hget := fun guid => Table.get?_emplace h.connections packet.guid guid { guid := packet.guid }
    simp only [hevent,reduceCtorEq,and_true,and_false,if_false] at hconnected
    refine ⟨hh.keyed.emplace rfl,fun guid s hs => ?_,fun guid s hs hmark => (hconnected guid).mpr ?_,
      hh.writes.mono [packet]⟩
    · by_cases hguid : guid = packet.guid
      · exact Or.inr ⟨packet,by simp,hguid.symm,hevent⟩
      · rw [hget,if_neg hguid] at hs
        exact (hh.sessions guid s hs).mono [packet]
    · split
      · trivial
      · rename_i hne
        rw [hget,if_neg (Ne.symm hne)] at hs
        exact hh.unmarked guid s hs hmark
  | disconnect =>
    simp only [hevent,reduceCtorEq,and_true,and_false,if_false] at hconnected
    cases hs : h.connections.get? packet.guid with
    | none =>
      have hrun : RaknetConnections.onDisconnect packet.guid h = .ok () h := by
        simp [RaknetConnections.onDisconnect,hs]
      simp only [hrun]
      refine ⟨hh.keyed,fun guid s hs' => (hh.sessions guid s hs').mono [packet],fun guid s hs' hmark => ?_,
        hh.writes.mono [packet]⟩
      have hne : packet.guid ≠ guid := by
        rintro rfl
        rw [hs] at hs'
        cases hs'
      rw [hconnected,if_neg hne]
      exact hh.unmarked guid s hs' hmark
    | some s =>
      let marked : NetworkSession := { s with markedForDisconnect := true }
      have hrun : RaknetConnections.onDisconnect packet.guid h =
          .ok () { h with connections := h.connections.set packet.guid marked } := by
        simp [RaknetConnections.onDisconnect,hs,marked]
      have hget := fun guid => Table.get?_set h.connections packet.guid guid marked
      simp only [hrun]
      refine ⟨hh.keyed.set marked (hh.keyed packet.guid s hs) h.server,fun guid s' hs' => ?_,
        fun guid s' hs' hmark => ?_,hh.writes.mono [packet]⟩
      · rw [hget] at hs'
        split at hs'
        · rename_i hguid
          subst hguid
          exact (hh.sessions packet.guid s hs).mono [packet]
        · exact (hh.sessions guid s' hs').mono [packet]
      · rw [hget] at hs'
        split at hs'
        · rw [hs,Option.map_some,Option.some_inj] at hs'
          subst hs'
          cases hmark
        · rename_i hguid
          rw [hconnected,if_neg (Ne.symm hguid)]
          exact hh.unmarked guid s' hs' hmark
  | data =>
    simp only [hevent,reduceCtorEq,and_false,if_false] at hconnected
    have hnext : Serves tp before (packets ++ [packet]) sent
        { h with server := { h.server with random := packet.random } } :=
      ⟨hh.keyed,fun guid s hs => (hh.sessions guid s hs).mono [packet],
        fun guid s hs hmark => (hconnected guid).mpr (hh.unmarked guid s hs hmark),hh.writes.mono [packet]⟩
    exact hnext.onSession (McbePacketRouter.keeps_routeSession _) packet.guid
  | ignored =>
    simp only [hevent,reduceCtorEq,and_false,if_false] at hconnected
    exact ⟨hh.keyed,fun guid s hs => (hh.sessions guid s hs).mono [packet],
      fun guid s hs hmark => (hconnected guid).mpr (hh.unmarked guid s hs hmark),hh.writes.mono [packet]⟩

theorem Serves.handlePackets (hh : Serves tp before packets sent h) (more : List RakNetPacket) :
    Ends (Serves tp before (packets ++ more) sent) (Writes tp before (packets ++ more) sent)
      (handlePackets tp more h) := by
  induction more generalizing packets h with
  | nil =>
    rw [List.append_nil]
    exact hh
  | cons packet more ih =>
    have hfirst := hh.handlePacket packet
    rw [RaknetHandler.handlePackets,bind_apply]
    cases hrun : RaknetHandler.handlePacket tp packet h with
    | ok a h' =>
      rw [hrun] at hfirst
      simpa using ih hfirst
    | error e h' =>
      rw [hrun] at hfirst
      simpa [Ends] using Writes.mono hfirst more

theorem Serves.tickLoop (hh : Serves tp before packets sent h) (guids : List Guid) :
    Ends (Serves tp before packets sent) (Writes tp before packets sent) (RaknetConnections.tickLoop tp guids h) := by
  have htick : Within (Keeps tp) (fun _ _ => True) (NetworkSession.tick tp) :=
    NetworkSession.within_flush.mono (fun _ _ => Does.keeps) fun _ _ _ => trivial
  induction guids generalizing h with
  | nil => exact hh
  | cons guid guids ih =>
    have hfirst := hh.onSession htick guid
    rw [RaknetConnections.tickLoop,bind_apply]
    cases hrun : RaknetConnections.onSession guid (NetworkSession.tick tp) h with
    | ok a h' =>
      rw [hrun] at hfirst
      exact ih hfirst
    | error e h' =>
      rw [hrun] at hfirst
      exact hfirst

theorem Serves.settled (hh : Serves tp before packets sent h) (hr : RaknetConnections.cleanup h = .ok () h') :
    Settled tp (before ++ packets) h' ∧ Writes tp before packets sent h' := by
  cases hr
  have hget : ∀ guid s, (h.connections.eraseIf fun s => s.markedForDisconnect).get? guid = some s →
      h.connections.get? guid = some s ∧ s.markedForDisconnect = false := by
    intro guid s hs
    rw [Table.get?_eraseIf,Option.filter_eq_some_iff] at hs
    exact ⟨hs.1,by simpa using hs.2⟩
  refine ⟨⟨fun guid s hs => hh.keyed guid s (hget guid s hs).1,fun guid s hs => ?_⟩,hh.writes⟩
  obtain ⟨hs',hmark⟩ := hget guid s hs
  exact hh.unmarked guid s hs' hmark

theorem Settled.poll (hh : Settled tp before h) (packets : List RakNetPacket) :
    Ends (fun h' => Settled tp (before ++ packets) h' ∧ Writes tp before packets h.server.sent h')
      (Writes tp before packets h.server.sent) (poll tp packets h) := by
  have hpackets := hh.serves.handlePackets packets
  rw [RaknetHandler.poll,bind_apply]
  cases hrun : handlePackets tp packets h with
  | error e h₁ =>
    rw [hrun] at hpackets
    exact hpackets
  | ok a h₁ =>
    rw [hrun] at hpackets
    have htick := hpackets.tickLoop h₁.connections.keys
    change Ends _ _ ((RaknetConnections.tickLoop tp h₁.connections.keys >>= fun _ => RaknetConnections.cleanup) h₁)
    rw [bind_apply]
    cases hloop : RaknetConnections.tickLoop tp h₁.connections.keys h₁ with
    | error e h₂ =>
      rw [hloop] at htick
      exact htick
    | ok a h₂ =>
      rw [hloop] at htick
      exact Serves.settled htick rfl

theorem Settled.polls {server : Server} (schedule : List (List RakNetPacket))
    (hr : polls tp schedule { connections := .empty, server } = .ok () h) : Settled tp schedule.flatten h := by
  induction schedule using List.reverseRecOn generalizing h with
  | nil =>
    cases hr
    exact ⟨fun guid s hs => by simp at hs,fun guid s hs => by simp at hs⟩
  | append_singleton schedule packets ih =>
    rw [RaknetHandler.polls,runAll_append] at hr
    obtain ⟨a,h₁,hfirst,hlast⟩ := of_bind_ok hr
    obtain ⟨b,h₂,hpoll,hend⟩ := of_bind_ok hlast
    cases hend
    have hthis := (ih hfirst).poll packets
    rw [hpoll] at hthis
    simpa using hthis.1

/-- Between polls the sessions are those of connected GUIDs, and a poll, whether it ends or throws, sends only to
GUIDs that were connected before it or have become so in it: a client that has left is not written to in the polls
behind that in which this is known, until it connects again. -/
theorem sent_to_connected (server : Server) (schedule : List (List RakNetPacket)) (packets : List RakNetPacket)
    (hr : RaknetHandler.polls tp schedule { connections := .empty, server } = .ok () h) :
    Settled tp schedule.flatten h ∧
      Ends (Writes tp schedule.flatten packets h.server.sent) (Writes tp schedule.flatten packets h.server.sent)
        (RaknetHandler.poll tp packets h) := by
  have hsettled := Settled.polls schedule hr
  refine ⟨hsettled,?_⟩
  have hpoll := hsettled.poll packets
  revert hpoll
  cases RaknetHandler.poll tp packets h with
  | ok a h' => exact And.right
  | error e h' => exact id

theorem sent_to_connected_twoPacks :
    let connect (guid : Guid) : RakNetPacket := { guid, data := [19], random := fun _ => UUID.nil }
    let leave : RakNetPacket := { guid := 7, data := [21], random := fun _ => UUID.nil }
    let schedule := [[connect 7],[chunkRequest 7 (.filled 1) 0,leave]]
    let packets := [connect 8,chunkRequest 7 (.filled 1) 1,chunkRequest 8 (.filled 1) 1]
    ∃ h, RaknetHandler.polls .rawIds schedule { connections := .empty, server := .twoPacks } = .ok () h ∧
      h.server.sent.length = 1 ∧ Settled .rawIds schedule.flatten h ∧
      Ends (Writes .rawIds schedule.flatten packets h.server.sent) (Writes .rawIds schedule.flatten packets h.server.sent)
        (RaknetHandler.poll .rawIds packets h) := by
  intro connect leave schedule packets
  have hends : endsWith (RaknetHandler.polls .rawIds schedule) (fun h => h.server.sent.length = 1)
      { connections := .empty, server := .twoPacks } = true := by decide +kernel
  obtain ⟨h,hr,hone⟩ := exists_of_endsWith hends
  exact ⟨h,hr,by simpa using hone,sent_to_connected .twoPacks schedule packets hr⟩

end RaknetHandler

end CyrexMC
