import CyrexMC.Session.Connections
set_option autoImplicit false

namespace CyrexMC
open Relation Stateful

/-- The handler with what an observer of its events knows. -/
structure Tracked where
  handler : RaknetHandler
  /-- The number of the connect by which a GUID is connected. -/
  connected : Guid → Option Nat := fun _ => none
  /-- The number of the connect for which the session in the table was made: right behind that connect
  the entry is a new session, with its GUID and nothing else set (`handlePacket_connect`). -/
  madeFor : Guid → Option Nat := fun _ => none
  /-- The session of the connection was marked while it handled a datagram. -/
  struck : Guid → Bool := fun _ => false
  events : Nat := 0
  /-- Nothing has happened since the last poll ended. -/
  settled : Bool := true

namespace Tracked

def session (t : Tracked) (guid : Guid) : Option NetworkSession := t.handler.connections.get? guid

def isMarked (h : RaknetHandler) (guid : Guid) : Bool :=
  (h.connections.get? guid).any fun s => s.markedForDisconnect

variable (tp : ThirdParty)

/-- What is known once `handlePacket` has led to `h`. -/
def next (t : Tracked) (packet : RakNetPacket) (h : RaknetHandler) : Tracked :=
  match packet.event tp with
  | .connect =>
    { handler := h, connected := Function.update t.connected packet.guid (some t.events),
      madeFor := if (t.session packet.guid).isNone then Function.update t.madeFor packet.guid (some t.events)
                 else t.madeFor,
      struck := Function.update t.struck packet.guid false, events := t.events+1, settled := false }
  | .disconnect =>
    { t with handler := h, connected := Function.update t.connected packet.guid none,
             events := t.events+1, settled := false }
  | .data | .ignored =>
    { t with handler := h, events := t.events+1, settled := false,
             struck := Function.update t.struck packet.guid
               (t.struck packet.guid || (!isMarked t.handler packet.guid && isMarked h packet.guid)) }

/-- A step of a poll: one of its packets, or what follows the last of them. Connects and
disconnects of one GUID take turns. -/
inductive Moment : Option RakNetPacket → Tracked → Tracked → Prop where
  | packet {t : Tracked} (packet : RakNetPacket) (h : RaknetHandler)
      (hconnect : packet.event tp = .connect → t.connected packet.guid = none)
      (hdisconnect : packet.event tp = .disconnect → t.connected packet.guid ≠ none)
      (hr : RaknetHandler.handlePacket tp packet t.handler = .ok () h) :
      Moment (some packet) t (t.next tp packet h)
  | finish {t : Tracked} (h : RaknetHandler)
      (hr : (do RaknetConnections.tick tp; RaknetConnections.cleanup : HandlerM Unit) t.handler = .ok () h) :
      Moment none t { t with handler := h, settled := true }

/-- No connect comes while the table holds a session for its GUID. -/
def Admissible (t : Tracked) (packet : Option RakNetPacket) : Prop :=
  ∀ p, packet = some p → p.event tp = .connect → t.session p.guid = none

def start (server : Server) : Tracked := { handler := ⟨Table.empty,server⟩ }

/-- The session of a connected GUID is the one made for that connection, and after a poll it is
there as long as its own handlers have not marked it. -/
structure Follows (t : Tracked) : Prop where
  owned : ∀ guid n s, t.connected guid = some n → t.session guid = some s → t.madeFor guid = some n
  held : t.settled = true →
    ∀ guid, (t.session guid).isSome ↔ (t.connected guid).isSome ∧ t.struck guid = false

structure Inv (t : Tracked) : Prop where
  gone : ∀ guid s, t.session guid = some s → t.connected guid = none → s.markedForDisconnect = true
  live : ∀ guid n, t.connected guid = some n → t.struck guid = false →
    ∃ s, t.session guid = some s ∧ s.markedForDisconnect = false
  struck : ∀ guid s, (t.connected guid).isSome → t.struck guid = true → t.session guid = some s →
    s.markedForDisconnect = true
  owned : ∀ guid n s, t.connected guid = some n → t.session guid = some s → t.madeFor guid = some n
  past : ∀ guid n, t.madeFor guid = some n → n < t.events
  clean : t.settled = true → ∀ guid s, t.session guid = some s → s.markedForDisconnect = false

theorem Inv.follows {t : Tracked} (h : Inv t) : Follows t := by
  refine ⟨h.owned,fun hs guid => ⟨fun hsome => ?_,fun ⟨hc,hstruck⟩ => ?_⟩⟩
  · obtain ⟨s,hget⟩ := Option.isSome_iff_exists.mp hsome
    have hunmarked := h.clean hs guid s hget
    have hc : (t.connected guid).isSome := by
      by_contra hn
      have := h.gone guid s hget (Option.not_isSome_iff_eq_none.mp hn)
      simp [hunmarked] at this
    refine ⟨hc,?_⟩
    by_contra hstruck
    have := h.struck guid s hc (by simpa using hstruck) hget
    simp [hunmarked] at this
  · obtain ⟨n,hn⟩ := Option.isSome_iff_exists.mp hc
    obtain ⟨s,hget,-⟩ := h.live guid n hn hstruck
    simp [hget]

theorem inv_start (server : Server) : Inv (start server) := by
  refine ⟨?_,?_,?_,?_,?_,?_⟩ <;> intros <;> simp_all [start,session]

variable {tp}

theorem handlePacket_connect {packet : RakNetPacket} {h h' : RaknetHandler}
    (he : packet.event tp = .connect) (hr : RaknetHandler.handlePacket tp packet h = .ok () h') (guid : Guid) :
    h'.connections.get? guid =
      if guid = packet.guid then some ((h.connections.get? packet.guid).getD { guid := packet.guid })
      else h.connections.get? guid := by
  rw [RaknetHandler.handlePacket_event] at hr
  simp only [he,RaknetConnections.onConnect,modify_apply,EStateM.Result.ok.injEq,true_and] at hr
  subst hr
  exact Table.get?_emplace _ _ _ _

theorem handlePacket_disconnect {packet : RakNetPacket} {h h' : RaknetHandler}
    (he : packet.event tp = .disconnect) (hr : RaknetHandler.handlePacket tp packet h = .ok () h') (guid : Guid) :
    h'.connections.get? guid =
      if guid = packet.guid then
        (h.connections.get? guid).map fun s => { s with markedForDisconnect := true }
      else h.connections.get? guid := by
  rw [RaknetHandler.handlePacket_event] at hr
  simp only [he,RaknetConnections.onDisconnect,modify_apply,EStateM.Result.ok.injEq,true_and] at hr
  subst hr
  cases hget : h.connections.get? packet.guid with
  | none =>
    by_cases hg : guid = packet.guid
    · simp [hg,hget]
    · simp [hg]
  | some s =>
    by_cases hg : guid = packet.guid
    · simp [hg,hget,Table.get?_set]
    · simp [hg,Table.get?_set]

theorem handlePacket_data {packet : RakNetPacket} {h h' : RaknetHandler}
    (he : packet.event tp = .data ∨ packet.event tp = .ignored)
    (hr : RaknetHandler.handlePacket tp packet h = .ok () h') :
    (∀ guid, guid ≠ packet.guid → h'.connections.get? guid = h.connections.get? guid) ∧
    (h.connections.get? packet.guid = none → h'.connections.get? packet.guid = none) ∧
    ∀ s, h.connections.get? packet.guid = some s → ∃ s', h'.connections.get? packet.guid = some s' ∧
      (s.markedForDisconnect = true → s'.markedForDisconnect = true) := by
  rw [RaknetHandler.handlePacket_event] at hr
  rcases he with he | he
  · simp only [he,McbePacketRouter.route] at hr
    rcases RaknetConnections.onSession_ok hr with ⟨hnone,rfl⟩ | ⟨s,w,hget,hrun,rfl⟩
    · exact ⟨fun _ _ => rfl,fun _ => hnone,fun s hs => ⟨s,hs,id⟩⟩
    · simp only at hget
      refine ⟨fun guid hne => by simp [Table.get?_set,hne],fun hn => by simp [hn] at hget,fun s' hs' => ?_⟩
      rw [hget] at hs'
      cases hs'
      have hmark := ((McbePacketRouter.keeps_routeSession _).ok hrun).marked
      exact ⟨w.session,by simp [Table.get?_set,hget],hmark⟩
  · simp only [he,EStateM.Result.ok.injEq,true_and] at hr
    subst hr
    exact ⟨fun _ _ => rfl,id,fun s hs => ⟨s,hs,id⟩⟩

theorem tickLoop_marks {guids : List Guid} {h h' : RaknetHandler}
    (hr : RaknetConnections.tickLoop tp guids h = .ok () h') (guid : Guid) :
    (h'.connections.get? guid).map (fun s => s.markedForDisconnect) =
      (h.connections.get? guid).map (fun s => s.markedForDisconnect) := by
  induction guids generalizing h with
  | nil =>
    cases hr
    rfl
  | cons g guids ih =>
    obtain ⟨a,k,hk,hrest⟩ := of_bind_ok hr
    rw [ih hrest]
    rcases RaknetConnections.onSession_ok hk with ⟨-,rfl⟩ | ⟨s,w,hget,hrun,rfl⟩
    · rfl
    · obtain ⟨cipher,sendQueue,hs⟩ := NetworkSession.tick_session hrun
      by_cases hg : guid = g
      · subst hg
        simp [Table.get?_set,hget,hs]
      · simp [Table.get?_set,hg]

theorem finish_session {h h' : RaknetHandler}
    (hr : (do RaknetConnections.tick tp; RaknetConnections.cleanup : HandlerM Unit) h = .ok () h') (guid : Guid) :
    (∀ s, h'.connections.get? guid = some s → s.markedForDisconnect = false ∧
      ∃ s', h.connections.get? guid = some s' ∧ s'.markedForDisconnect = false) ∧
    ∀ s, h.connections.get? guid = some s → s.markedForDisconnect = false →
      ∃ s', h'.connections.get? guid = some s' ∧ s'.markedForDisconnect = false := by
  obtain ⟨a,k,hk,hcleanup⟩ := of_bind_ok hr
  have hmarks := tickLoop_marks hk guid
  cases hcleanup
  simp only [Table.get?_eraseIf]
  cases hkget : k.connections.get? guid with
  | none =>
    rw [hkget,Option.map_none] at hmarks
    refine ⟨fun s hs => by simp at hs,fun s hs => ?_⟩
    rw [hs] at hmarks
    cases hmarks
  | some s =>
    rw [hkget,Option.map_some] at hmarks
    obtain ⟨s',hs',hmark⟩ := Option.map_eq_some_iff.mp hmarks.symm
    constructor
    · intro r hr
      rw [Option.filter_eq_some_iff] at hr
      obtain ⟨hr,hunmarked⟩ := hr
      cases hr
      have hfalse : s.markedForDisconnect = false := by simpa using hunmarked
      exact ⟨hfalse,s',hs',hmark.trans hfalse⟩
    · intro r hr hunmarked
      rw [hs'] at hr
      cases hr
      have hfalse : s.markedForDisconnect = false := hmark.symm.trans hunmarked
      exact ⟨s,by simp [Option.filter,hfalse],hfalse⟩

theorem Inv.connect {t : Tracked} (hinv : Inv t) {packet : RakNetPacket} {h : RaknetHandler}
    (he : packet.event tp = .connect) (hnone : t.session packet.guid = none)
    (hr : RaknetHandler.handlePacket tp packet t.handler = .ok () h) : Inv (t.next tp packet h) := by
  have hsession : ∀ guid, (t.next tp packet h).session guid =
      if guid = packet.guid then some { guid := packet.guid } else t.session guid := fun guid => by
    have hconnect := handlePacket_connect he hr guid
    rw [show t.handler.connections.get? packet.guid = none from hnone] at hconnect
    simpa [next,he,session] using hconnect
  constructor
  case past =>
    intro guid n hm
    simp only [next,he,hnone,Option.isNone_none,if_true,Function.update_apply] at hm ⊢
    split at hm
    · cases hm
      exact Nat.lt_succ_self _
    · exact Nat.lt_succ_of_lt (hinv.past guid n hm)
  case clean => simp [next,he]
  all_goals simp only [hsession]
  all_goals simp only [next,he,hnone,Option.isNone_none,if_true,Function.update_apply]
  · intro guid s hs hc
    split at hs
    · simp_all
    · exact hinv.gone guid s hs (by simp_all)
  · intro guid n hc hstruck
    split
    · exact ⟨_,rfl,rfl⟩
    · exact hinv.live guid n (by simp_all) (by simp_all)
  · intro guid s hc hstruck hs
    split at hs
    · simp_all
    · exact hinv.struck guid s (by simp_all) (by simp_all) hs
  · intro guid n s hc hs
    split at hs
    · simp_all
    · simp_all [hinv.owned guid n s]

theorem Inv.disconnect {t : Tracked} (hinv : Inv t) {packet : RakNetPacket} {h : RaknetHandler}
    (he : packet.event tp = .disconnect)
    (hr : RaknetHandler.handlePacket tp packet t.handler = .ok () h) : Inv (t.next tp packet h) := by
  have hsession : ∀ guid, (t.next tp packet h).session guid =
      if guid = packet.guid then
        (t.session guid).map fun s => { s with markedForDisconnect := true }
      else t.session guid := fun guid => by
    simpa [next,he,session] using handlePacket_disconnect he hr guid
  constructor
  case past =>
    intro guid n hm
    simp only [next,he] at hm ⊢
    exact Nat.lt_succ_of_lt (hinv.past guid n hm)
  case clean => simp [next,he]
  all_goals simp only [hsession]
  all_goals simp only [next,he,Function.update_apply]
  · intro guid s hs hc
    split at hs
    · obtain ⟨r,-,rfl⟩ := Option.map_eq_some_iff.mp hs
      rfl
    · exact hinv.gone guid s hs (by simp_all)
  · intro guid n hc hstruck
    split at hc
    · cases hc
    · simp_all [hinv.live guid n]
  · intro guid s hc hstruck hs
    split at hc
    · cases hc
    · simp_all [hinv.struck guid s]
  · intro guid n s hc hs
    split at hc
    · cases hc
    · simp_all [hinv.owned guid n s]

theorem Inv.datagram {t : Tracked} (hinv : Inv t) {packet : RakNetPacket} {h : RaknetHandler}
    (he : packet.event tp = .data ∨ packet.event tp = .ignored)
    (hr : RaknetHandler.handlePacket tp packet t.handler = .ok () h) : Inv (t.next tp packet h) := by
  obtain ⟨hother,habsent,hstays⟩ := handlePacket_data he hr
  have hnext : t.next tp packet h =
      { t with handler := h, events := t.events+1, settled := false,
               struck := Function.update t.struck packet.guid
                 (t.struck packet.guid || (!isMarked t.handler packet.guid && isMarked h packet.guid)) } := by
    rcases he with he | he <;> simp [next,he]
  -- A session after the datagram was there before it, and its mark could only be set.
  have hback : ∀ guid s, h.connections.get? guid = some s →
      ∃ r, t.session guid = some r ∧ (r.markedForDisconnect = true → s.markedForDisconnect = true) := by
    intro guid s hs
    by_cases hg : guid = packet.guid
    · subst hg
      cases hr : t.handler.connections.get? packet.guid with
      | none =>
        rw [habsent hr] at hs
        cases hs
      | some r =>
        obtain ⟨s',hs',hmark⟩ := hstays r hr
        rw [hs] at hs'
        cases hs'
        exact ⟨r,hr,hmark⟩
    · rw [hother guid hg] at hs
      exact ⟨s,hs,id⟩
  rw [hnext]
  constructor
  · intro guid s hs hc
    obtain ⟨r,hr,hmark⟩ := hback guid s hs
    exact hmark (hinv.gone guid r hr hc)
  · intro guid n hc hstruck
    simp only [Function.update_apply] at hstruck
    by_cases hg : guid = packet.guid
    · subst hg
      simp only [if_true,Bool.or_eq_false_iff] at hstruck
      obtain ⟨s,hs,hunmarked⟩ := hinv.live _ n hc hstruck.1
      obtain ⟨s',hs',-⟩ := hstays s hs
      have hs₀ : t.handler.connections.get? packet.guid = some s := hs
      exact ⟨s',hs',by simpa [isMarked,hs₀,hs',hunmarked] using hstruck.2⟩
    · rw [if_neg hg] at hstruck
      obtain ⟨s,hs,hunmarked⟩ := hinv.live guid n hc hstruck
      exact ⟨s,(hother guid hg).trans hs,hunmarked⟩
  · intro guid s hc hstruck hs
    have hs₁ : h.connections.get? guid = some s := hs
    obtain ⟨r,hr,hmark⟩ := hback guid s hs
    simp only [Function.update_apply] at hstruck
    by_cases hg : guid = packet.guid
    · subst hg
      simp only [if_true,Bool.or_eq_true,Bool.and_eq_true] at hstruck
      rcases hstruck with hstruck | ⟨-,hmarked⟩
      · exact hmark (hinv.struck _ r hc hstruck hr)
      · simpa [isMarked,hs₁] using hmarked
    · rw [if_neg hg] at hstruck
      exact hmark (hinv.struck guid r hc hstruck hr)
  · intro guid n s hc hs
    obtain ⟨r,hr,-⟩ := hback guid s hs
    exact hinv.owned guid n r hc hr
  · intro guid n hm
    exact Nat.lt_succ_of_lt (hinv.past guid n hm)
  · intro hf
    cases hf

theorem Inv.finish {t : Tracked} (hinv : Inv t) {h : RaknetHandler}
    (hr : (do RaknetConnections.tick tp; RaknetConnections.cleanup : HandlerM Unit) t.handler = .ok () h) :
    Inv { t with handler := h, settled := true } := by
  have hfinish := finish_session hr
  constructor
  · intro guid s hs hc
    obtain ⟨-,r,hr,hunmarked⟩ := (hfinish guid).1 s hs
    have hmarked := hinv.gone guid r hr hc
    simp [hunmarked] at hmarked
  · intro guid n hc hstruck
    obtain ⟨s,hs,hunmarked⟩ := hinv.live guid n hc hstruck
    exact (hfinish guid).2 s hs hunmarked
  · intro guid s hc hstruck hs
    obtain ⟨-,r,hr,hunmarked⟩ := (hfinish guid).1 s hs
    have hmarked := hinv.struck guid r hc hstruck hr
    simp [hunmarked] at hmarked
  · intro guid n s hc hs
    obtain ⟨-,r,hr,-⟩ := (hfinish guid).1 s hs
    exact hinv.owned guid n r hc hr
  · exact hinv.past
  · intro _ guid s hs
    exact ((hfinish guid).1 s hs).1

theorem inv_moment {t t' : Tracked} {packet : Option RakNetPacket} (hm : Moment tp packet t t')
    (ha : Admissible tp t packet) (hinv : Inv t) : Inv t' := by
  cases hm with
  | packet packet h _ _ hr =>
    cases he : packet.event tp with
    | connect => exact hinv.connect he (ha packet rfl he) hr
    | disconnect => exact hinv.disconnect he hr
    | data => exact hinv.datagram (Or.inl he) hr
    | ignored => exact hinv.datagram (Or.inr he) hr
  | finish h hr => exact hinv.finish hr

/-- A connect that finds a session leaves it to the new connection. -/
theorem not_follows {t t' : Tracked} {packet : Option RakNetPacket} (hm : Moment tp packet t t')
    (hinv : Inv t) (hn : ¬ Admissible tp t packet) : ¬ Follows t' := by
  intro hfollows
  apply hn
  rintro p rfl he
  by_contra hsome
  obtain ⟨s,hs⟩ := Option.ne_none_iff_exists'.mp hsome
  cases hm with
  | packet _ h _ _ hr =>
    have hstays := handlePacket_connect he hr p.guid
    rw [if_pos rfl,show t.handler.connections.get? p.guid = some s from hs] at hstays
    have howned := hfollows.owned p.guid t.events s (by simp [next,he]) (by simpa [next,he,session] using hstays)
    simp only [next,he,hs,Option.isNone_some] at howned
    exact absurd (hinv.past p.guid t.events howned) (Nat.lt_irrefl _)

def Step (tp : ThirdParty) (t t' : Tracked) : Prop := ∃ packet, Moment tp packet t t'

def AdmissibleStep (tp : ThirdParty) (t t' : Tracked) : Prop :=
  ∃ packet, Moment tp packet t t' ∧ Admissible tp t packet

theorem inv_run {server : Server} {t : Tracked} (hrun : ReflTransGen (AdmissibleStep tp) (start server) t) :
    Inv t := by
  induction hrun with
  | refl => exact inv_start server
  | tail _ hstep ih =>
    obtain ⟨packet,hm,ha⟩ := hstep
    exact inv_moment hm ha ih

/-- The table follows the connections over every run in which no connect comes while the table
still holds a session for its GUID, and the first such connect leaves it behind. -/
theorem follows_iff_admissible {server : Server} {t : Tracked}
    (hrun : ReflTransGen (AdmissibleStep tp) (start server) t) :
    Follows t ∧ ∀ packet t', Moment tp packet t t' → (Follows t' ↔ Admissible tp t packet) := by
  have hinv := inv_run hrun
  refine ⟨hinv.follows,fun packet t' hm => ⟨fun hfollows => ?_,fun ha => (inv_moment hm ha hinv).follows⟩⟩
  by_contra hn
  exact not_follows hm hinv hn hfollows

def newConnection (guid : Guid) : RakNetPacket := { guid, data := [19], random := fun _ => UUID.nil }
def connectionLost (guid : Guid) : RakNetPacket := { guid, data := [22], random := fun _ => UUID.nil }

def onceConnected : Tracked :=
  (start Server.bare).next .failing (newConnection 7)
    { connections := Table.empty.emplace 7 { guid := 7 }, server := Server.bare }

theorem follows_iff_admissible_reconnect :
    ∃ t, ReflTransGen (AdmissibleStep .failing) (start Server.bare) t ∧
      (t.connected 7 = some 2 ∧ t.madeFor 7 = some 2 ∧ t.session 7 = some { guid := 7 }) ∧
      Follows t ∧ ∀ packet t', Moment .failing packet t t' → (Follows t' ↔ Admissible .failing t packet) := by
  let h₁ : RaknetHandler := { connections := Table.empty.emplace 7 { guid := 7 }, server := Server.bare }
  let h₂ : RaknetHandler :=
    { h₁ with connections := h₁.connections.set 7 { guid := 7, markedForDisconnect := true } }
  let t₁ : Tracked := { onceConnected with settled := true }
  let t₂ := t₁.next .failing (connectionLost 7) h₂
  let t₃ : Tracked := { t₂ with handler := { h₂ with connections := Table.empty }, settled := true }
  let t := t₃.next .failing (newConnection 7) h₁
  have hrun : ReflTransGen (AdmissibleStep .failing) (start Server.bare) t := by
    refine .head (b:=onceConnected) ⟨some (newConnection 7),
      .packet _ _ (fun _ => rfl) (fun h => absurd h (by decide)) rfl,fun p hp _ => by cases hp; rfl⟩ ?_
    refine .head (b:=t₁) ⟨none,.finish _ rfl,fun p hp => by cases hp⟩ ?_
    refine .head (b:=t₂) ⟨some (connectionLost 7),
      .packet _ _ (fun h => absurd h (by decide)) (fun _ h => by cases h) rfl,fun p hp he => ?_⟩ ?_
    · cases hp
      exact absurd he (by decide)
    refine .head (b:=t₃) ⟨none,.finish _ rfl,fun p hp => by cases hp⟩ ?_
    exact .single ⟨some (newConnection 7),
      .packet _ _ (fun _ => rfl) (fun h => absurd h (by decide)) rfl,fun p hp _ => by cases hp; rfl⟩
  exact ⟨t,hrun,⟨rfl,rfl,rfl⟩,follows_iff_admissible hrun⟩

/-- A disconnect and a reconnect within one poll: the new connection is left without a session. -/
theorem reconnect_in_one_poll :
    ∃ h t, RaknetHandler.poll .failing [newConnection 7] (start Server.bare).handler = .ok () h ∧
      RaknetHandler.poll .failing [connectionLost 7,newConnection 7] h = .ok () t.handler ∧
      ReflTransGen (Step .failing) (start Server.bare) t ∧ t.settled = true ∧
      (t.connected 7).isSome ∧ t.struck 7 = false ∧ t.session 7 = none ∧ ¬ Follows t := by
  let h₁ : RaknetHandler := { connections := Table.empty.emplace 7 { guid := 7 }, server := Server.bare }
  let h₂ : RaknetHandler :=
    { h₁ with connections := h₁.connections.set 7 { guid := 7, markedForDisconnect := true } }
  let t₁ : Tracked := { onceConnected with settled := true }
  let t₂ := (t₁.next .failing (connectionLost 7) h₂).next .failing (newConnection 7) h₂
  let t : Tracked := { t₂ with handler := { h₂ with connections := Table.empty }, settled := true }
  have hrun : ReflTransGen (Step .failing) (start Server.bare) t := by
    refine .head (b:=onceConnected) ⟨some (newConnection 7),.packet _ _ (fun _ => rfl) (fun h => absurd h (by decide)) rfl⟩ ?_
    refine .head (b:=t₁) ⟨none,.finish _ rfl⟩ ?_
    refine .head (b:=t₁.next .failing (connectionLost 7) h₂)
      ⟨some (connectionLost 7),.packet _ _ (fun h => absurd h (by decide)) (fun _ h => by cases h) rfl⟩ ?_
    refine .head (b:=t₂)
      ⟨some (newConnection 7),.packet _ _ (fun _ => rfl) (fun h => absurd h (by decide)) rfl⟩ ?_
    exact .single ⟨none,.finish _ rfl⟩
  have hlost : ¬ Follows t := fun hfollows => by
    have := (hfollows.held rfl 7).mpr ⟨rfl,rfl⟩
    cases this
  exact ⟨_,t,rfl,rfl,hrun,rfl,rfl,rfl,rfl,hlost⟩

def TakeTurns (tp : ThirdParty) : (Guid → Bool) → List RakNetPacket → Prop
  | _, [] => True
  | connected, p :: packets =>
    match p.event tp with
    | .connect => connected p.guid = false ∧ TakeTurns tp (Function.update connected p.guid true) packets
    | .disconnect => connected p.guid = true ∧ TakeTurns tp (Function.update connected p.guid false) packets
    | .data | .ignored => TakeTurns tp connected packets

theorem next_connected (t : Tracked) (packet : RakNetPacket) (h : RaknetHandler) :
    (fun guid => ((t.next tp packet h).connected guid).isSome) =
      match packet.event tp with
      | .connect => Function.update (fun guid => (t.connected guid).isSome) packet.guid true
      | .disconnect => Function.update (fun guid => (t.connected guid).isSome) packet.guid false
      | .data | .ignored => fun guid => (t.connected guid).isSome := by
  funext guid
  cases he : packet.event tp with
  | connect => by_cases hg : guid = packet.guid <;> simp [next,he,hg]
  | disconnect => by_cases hg : guid = packet.guid <;> simp [next,he,hg]
  | data => simp [next,he]
  | ignored => simp [next,he]

theorem handlePackets_steps {packets : List RakNetPacket} {t : Tracked} {h : RaknetHandler}
    (hr : RaknetHandler.handlePackets tp packets t.handler = .ok () h)
    (hturns : TakeTurns tp (fun guid => (t.connected guid).isSome) packets) :
    ∃ t', ReflTransGen (Step tp) t t' ∧ t'.handler = h := by
  induction packets generalizing t with
  | nil =>
    cases hr
    exact ⟨t,.refl,rfl⟩
  | cons p packets ih =>
    obtain ⟨a,k,hk,hrest⟩ := of_bind_ok hr
    have hhandler : (t.next tp p k).handler = k := by
      unfold next
      split <;> rfl
    have hfirst : Step tp t (t.next tp p k) := by
      refine ⟨some p,.packet p k (fun he => ?_) (fun he => ?_) hk⟩
      · simp only [TakeTurns,he] at hturns
        simpa using hturns.1
      · simp only [TakeTurns,he] at hturns
        intro hn
        simp [hn] at hturns
    have hturns' : TakeTurns tp (fun guid => ((t.next tp p k).connected guid).isSome) packets := by
      rw [next_connected]
      cases he : p.event tp <;> simp_all [TakeTurns]
    obtain ⟨t',hrun,hend⟩ := ih (by rw [hhandler]; exact hrest) hturns'
    exact ⟨t',.head hfirst hrun,hend⟩

theorem poll_steps {packets : List RakNetPacket} {t : Tracked} {h : RaknetHandler}
    (hr : RaknetHandler.poll tp packets t.handler = .ok () h)
    (hturns : TakeTurns tp (fun guid => (t.connected guid).isSome) packets) :
    ∃ t', ReflTransGen (Step tp) t t' ∧ t'.handler = h ∧ t'.settled = true := by
  obtain ⟨a,k,hk,hfinish⟩ := of_bind_ok hr
  obtain ⟨t',hrun,hend⟩ := handlePackets_steps hk hturns
  exact ⟨_,hrun.tail ⟨none,.finish h (by rw [hend]; exact hfinish)⟩,rfl,rfl⟩

end Tracked

end CyrexMC
