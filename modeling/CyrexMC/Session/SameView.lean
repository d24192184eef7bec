import CyrexMC.Lib.Runs
import CyrexMC.Session.Connections
import CyrexMC.Session.Download
set_option autoImplicit false

/-! Two runs of the same member function of a session, on servers whose streams and caches
differ. -/

namespace CyrexMC
open Stateful

variable {tp : ThirdParty}

namespace ZippedResourcePack

def Copies (tp : ThirdParty) (p q : ZippedResourcePack) : Prop := ∃ p₀ : ZippedResourcePack, p₀.Touched tp p ∧ p₀.Touched tp q

theorem Copies.file {p q : ZippedResourcePack} (h : p.Copies tp q) : p.file = q.file := by
  obtain ⟨p₀,hp,hq⟩ := h
  exact hp.file.trans hq.file.symm

theorem Copies.manifest {p q : ZippedResourcePack} (h : p.Copies tp q) : p.manifest = q.manifest := by
  obtain ⟨p₀,hp,hq⟩ := h
  exact hp.manifest.trans hq.manifest.symm

/-- Both copies give the same value whenever both calls return. -/
def Agrees (tp : ThirdParty) {α : Type} (call : Call α) : Prop :=
  ∀ p q, p.Copies tp q → ∀ a p' b q', call p = .ok a p' → call q = .ok b q' → a = b

theorem agrees_getPackId : Agrees tp (getPackId tp) := by
  rintro p q ⟨p₀,hp,hq⟩ a p' b q' ha hb
  have hboth := (hp.getPackId_ok ha).symm.trans (hq.getPackId_ok hb)
  exact Option.some_inj.mp hboth

theorem agrees_getSha256 : Agrees tp (getSha256 tp) := by
  rintro p q ⟨p₀,hp,hq⟩ a p' b q' ha hb
  have hsame : p.sha256 tp = q.sha256 tp := hp.sha256.trans hq.sha256.symm
  exact (getSha256_ok ha).trans (hsame.trans (getSha256_ok hb).symm)

theorem agrees_getPackVersion : Agrees tp getPackVersion := by
  intro p q h a p' b q' ha hb
  rw [getPackVersion_apply,h.manifest] at ha
  rw [getPackVersion_apply] at hb
  cases hversion : headerVersion q.manifest with
  | error e => simp [hversion] at ha
  | ok version =>
    simp only [hversion,EStateM.Result.ok.injEq] at ha hb
    exact ha.1.symm.trans hb.1

theorem agrees_getPackChunkString (start length : Nat) : Agrees tp (getPackChunkString start length) := by
  intro p q h a p' b q' ha hb
  rw [getPackChunkString_ok ha,getPackChunkString_ok hb,h.file]

end ZippedResourcePack

def Server.sentTo (server : Server) (g : Guid) : List Bytes :=
  (server.sent.filter fun d => d.1 = g).map Prod.snd

/-- The packs are those of `f₀`, and the client `g` has been sent the same. -/
structure Server.SameView (tp : ThirdParty) (f₀ : ResourcePackFactory) (g : Guid) (u v : Server) : Prop where
  left : f₀.Touched tp u.factory
  right : f₀.Touched tp v.factory
  forceResources : u.forceResources = v.forceResources
  sentTo : u.sentTo g = v.sentTo g

/-- One session on two such servers. The random UUIDs have to agree where they are drawn. -/
structure World.SameView (tp : ThirdParty) (f₀ : ResourcePackFactory) (g : Guid) (draws : Prop) (w v : World) :
    Prop where
  session : w.session = v.session
  server : w.server.SameView tp f₀ g v.server
  random : draws → w.server.random = v.server.random

variable {f₀ : ResourcePackFactory} {g : Guid} {draws : Prop}

theorem Server.SameView.copies {u v : Server} (h : u.SameView tp f₀ g v) {i : Nat} {p q : ZippedResourcePack}
    (hp : u.factory.packs[i]? = some p) (hq : v.factory.packs[i]? = some q) : p.Copies tp q := by
  have hi : i < f₀.packs.length := by
    rw [← h.left.length]
    exact (List.getElem?_eq_some_iff.mp hp).1
  have hp₀ := List.getElem?_eq_getElem hi
  obtain ⟨p',hp',hleft⟩ := h.left.packs i _ hp₀
  obtain ⟨q',hq',hright⟩ := h.right.packs i _ hp₀
  rw [hp] at hp'
  rw [hq] at hq'
  cases hp'
  cases hq'
  exact ⟨_,hleft,hright⟩

theorem Server.SameView.getResourceStack {u v : Server} (h : u.SameView tp f₀ g v) :
    u.factory.getResourceStack = v.factory.getResourceStack := by
  simp only [ResourcePackFactory.getResourceStack,h.left.length,h.right.length]

theorem Server.SameView.getPackById {u v : Server} (h : u.SameView tp f₀ g v) (id : UUID) :
    u.factory.getPackById id = v.factory.getPackById id := by
  rw [h.left.getPackById,h.right.getPackById]

theorem Server.SameView.maxChunkSize {u v : Server} (h : u.SameView tp f₀ g v) :
    u.factory.maxChunkSize = v.factory.maxChunkSize := by
  rw [h.left.maxChunkSize,h.right.maxChunkSize]

def Same (tp : ThirdParty) (f₀ : ResourcePackFactory) (g : Guid) (draws : Prop) {α : Type} (m : SessionM α) : Prop :=
  Coupled (World.SameView tp f₀ g draws) Eq m m

theorem Same.bind {α β : Type} {m : SessionM α} {f : α → SessionM β} (hm : Same tp f₀ g draws m)
    (hf : ∀ a, Same tp f₀ g draws (f a)) : Same tp f₀ g draws (m >>= f) := by
  refine Coupled.bind hm fun a b hab => ?_
  subst hab
  exact hf a

namespace NetworkSession

theorem same_pure {α : Type} (a : α) : Same tp f₀ g draws (pure a) := Coupled.returns rfl

theorem same_throw {α : Type} (e : Fault) : Same tp f₀ g draws (throw e : SessionM α) := Coupled.raises_left

theorem same_fromExcept {α : Type} (x : Except Fault α) : Same tp f₀ g draws (fromExcept x) := Coupled.excepts x

theorem same_getSession : Same tp f₀ g draws getSession := by
  intro w v hwv a w' b v' ha hb
  cases ha
  cases hb
  exact ⟨hwv.session,hwv⟩

theorem same_modifySession (f : NetworkSession → NetworkSession) : Same tp f₀ g draws (modifySession f) := by
  intro w v hwv a w' b v' ha hb
  cases ha
  cases hb
  exact ⟨rfl,congrArg f hwv.session,hwv.server,hwv.random⟩

theorem same_getServer_bind {α : Type} {f : Server → SessionM α}
    (hf : ∀ u v, u.SameView tp f₀ g v → Coupled (World.SameView tp f₀ g draws) Eq (f u) (f v)) :
    Same tp f₀ g draws (getServer >>= f) := by
  intro w v hwv
  exact hf w.server v.server hwv.server w v hwv

theorem same_transportSend (guid : Guid) (data : Bytes) : Same tp f₀ g draws (transportSend guid data) := by
  intro w v hwv a w' b v' ha hb
  cases ha
  cases hb
  refine ⟨rfl,hwv.session,⟨hwv.server.left,hwv.server.right,hwv.server.forceResources,?_⟩,hwv.random⟩
  have hsent := hwv.server.sentTo
  simp only [Server.sentTo,List.filter_append,List.map_append] at hsent ⊢
  rw [hsent]

theorem same_randomUUID : Same tp f₀ g True randomUUID := by
  intro w v hwv a w' b v' ha hb
  cases ha
  cases hb
  have hrandom := hwv.random trivial
  exact ⟨congrFun hrandom 0,hwv.session,⟨hwv.server.left,hwv.server.right,hwv.server.forceResources,
    hwv.server.sentTo⟩,fun _ => funext fun n => congrFun hrandom (n+1)⟩

theorem same_callPack {α : Type} (i : Nat) {call : ZippedResourcePack.Call α}
    (hwithin : Within (ZippedResourcePack.Touched tp) ZippedResourcePack.Faults call)
    (hagrees : ZippedResourcePack.Agrees tp call) : Same tp f₀ g draws (callPack i call) := by
  intro w v hwv a w' b v' ha hb
  obtain ⟨p,p',hp,hcp,rfl⟩ := callPack_ok ha
  obtain ⟨q,q',hq,hcq,rfl⟩ := callPack_ok hb
  have hleft := hwv.server.left.trans (.set hp (hwithin.ok hcp))
  have hright := hwv.server.right.trans (.set hq (hwithin.ok hcq))
  exact ⟨hagrees p q (hwv.server.copies hp hq) a p' b q' hcp hcq,hwv.session,
    ⟨hleft,hright,hwv.server.forceResources,hwv.server.sentTo⟩,hwv.random⟩

theorem same_getPackSize (i : Nat) : Same tp f₀ g draws (getPackSize i) := by
  refine same_callPack i (fun p => .refl p) ?_
  intro p q h a p' b q' ha hb
  cases ha
  cases hb
  simp only [ZippedResourcePack.getPackSize,h.file]

theorem same_getPackId (i : Nat) : Same tp f₀ g draws (callPack i (ZippedResourcePack.getPackId tp)) :=
  same_callPack i ZippedResourcePack.within_getPackId ZippedResourcePack.agrees_getPackId

theorem same_getPackVersion (i : Nat) : Same tp f₀ g draws (callPack i ZippedResourcePack.getPackVersion) :=
  same_callPack i ZippedResourcePack.within_getPackVersion ZippedResourcePack.agrees_getPackVersion

theorem same_getSha256 (i : Nat) : Same tp f₀ g draws (callPack i (ZippedResourcePack.getSha256 tp)) :=
  same_callPack i ZippedResourcePack.within_getSha256 ZippedResourcePack.agrees_getSha256

theorem same_getPackChunkString (i start length : Nat) :
    Same tp f₀ g draws (callPack i (ZippedResourcePack.getPackChunkString start length)) :=
  same_callPack i (ZippedResourcePack.within_getPackChunkString start length)
    (ZippedResourcePack.agrees_getPackChunkString start length)

theorem same_encryptOutgoing (old : Bytes) : Same tp f₀ g draws (encryptOutgoing tp old) := by
  refine same_getSession.bind fun session => ?_
  cases session.cipher with
  | none => exact same_throw _
  | some cipher => exact (same_modifySession _).bind fun _ => same_pure _

theorem same_sendInternal (payload : Bytes) : Same tp f₀ g draws (sendInternal tp payload) := by
  refine same_getSession.bind fun session => (same_fromExcept _).bind fun out => ?_
  split
  · refine (same_encryptOutgoing out).bind fun data => ?_
    cases data with
    | none => exact same_pure ()
    | some data => exact same_transportSend session.guid (0xFE :: data)
  · exact same_transportSend session.guid (0xFE :: out)

theorem same_send (packet : Packet) (immediately : Bool) : Same tp f₀ g draws (send tp packet immediately) := by
  cases immediately with
  | true => exact same_sendInternal (packet.encode tp)
  | false => exact same_modifySession fun s => { s with sendQueue := s.sendQueue ++ [packet] }

theorem same_tick : Same tp f₀ g draws (tick tp) := by
  refine same_getSession.bind fun session => ?_
  split
  · exact same_pure ()
  · exact (same_sendInternal _).bind fun _ => same_modifySession _

theorem same_markForDisconnect : Same tp f₀ g draws markForDisconnect := same_modifySession _

theorem same_disconnectUserForIncompatibleProtocol (version : UInt32) :
    Same tp f₀ g draws (disconnectUserForIncompatibleProtocol tp version) :=
  (same_send _ true).bind fun _ => same_pure true

theorem same_handleRequestNetworkSettings (version : UInt32) :
    Same tp f₀ g draws (handleRequestNetworkSettings tp version) := by
  unfold handleRequestNetworkSettings
  split
  · exact (same_disconnectUserForIncompatibleProtocol version).bind fun _ => same_pure false
  · refine (same_modifySession _).bind fun _ => (same_send _ true).bind fun _ => ?_
    exact (same_modifySession _).bind fun _ => same_pure true

theorem same_infoEntry (d : Nat) : Same tp f₀ g draws (infoEntry tp d) := by
  refine (same_getPackSize d).bind fun packSize => same_getServer_bind fun u v huv => ?_
  rw [huv.maxChunkSize]
  refine (same_fromExcept _).bind fun _ => (same_getPackId d).bind fun packId => ?_
  exact (same_getPackVersion d).bind fun packVersion => (same_getPackSize d).bind fun packSize => same_pure _

theorem same_infoEntries (defs : List Nat) : Same tp f₀ g draws (infoEntries tp defs) := by
  induction defs with
  | nil => exact same_pure []
  | cons d defs ih => exact (same_infoEntry d).bind fun entry => ih.bind fun entries => same_pure _

theorem same_doLoginSuccess : Same tp f₀ g True (doLoginSuccess tp) := by
  refine (same_send _ false).bind fun _ => same_getServer_bind fun u v huv => ?_
  rw [huv.getResourceStack,huv.forceResources]
  refine (same_infoEntries _).bind fun resourcePackEntries => ?_
  exact same_randomUUID.bind fun worldTemplateId => same_send _ false

theorem same_handleLogin (version : UInt32) (authInfoJson clientDataJwt : Bytes) :
    Same tp f₀ g True (handleLogin tp version authInfoJson clientDataJwt) := by
  unfold handleLogin
  split
  · exact (same_disconnectUserForIncompatibleProtocol version).bind fun _ => same_pure false
  · split
    · exact same_throw _
    · exact same_doLoginSuccess.bind fun _ => same_pure true

theorem same_sendPacks (entries : List ResourcePackClientResponsePacket.Entry) :
    Same tp f₀ g draws (sendPacks tp entries) := by
  induction entries with
  | nil => exact same_pure ()
  | cons entry entries ih =>
    refine same_getServer_bind fun u v huv => ?_
    simp only [huv.getPackById,huv.maxChunkSize]
    cases v.factory.getPackById entry.uuid with
    | none => exact same_markForDisconnect
    | some i =>
      refine (same_getPackSize i).bind fun packSize => (same_fromExcept _).bind fun chunkCount => ?_
      refine (same_getPackId i).bind fun packId => (same_fromExcept _).bind fun data => ?_
      refine (same_modifySession _).bind fun _ => (same_modifySession _).bind fun _ => ?_
      refine (same_getPackId i).bind fun packId => (same_getPackVersion i).bind fun packVersion => ?_
      refine (same_getPackSize i).bind fun packSize => (same_getSha256 i).bind fun sha256 => ?_
      exact (same_send _ true).bind fun _ => ih

theorem same_stackEntries (defs : List Nat) : Same tp f₀ g draws (stackEntries tp defs) := by
  induction defs with
  | nil => exact same_pure []
  | cons d defs ih =>
    refine (same_getPackId d).bind fun packId => (same_getPackVersion d).bind fun packVersion => ?_
    exact ih.bind fun entries => same_pure _

theorem same_handleResourcePackClientResponse (pk : ResourcePackClientResponsePacket) :
    Same tp f₀ g draws (handleResourcePackClientResponse tp pk) := by
  refine same_getServer_bind fun u v huv => ?_
  rw [huv.getResourceStack,huv.forceResources]
  split
  · split
    · exact same_markForDisconnect.bind fun _ => same_pure true
    · exact same_pure true
  · split
    · exact (same_sendPacks pk.packEntries).bind fun _ => same_pure true
    · split
      · refine (same_stackEntries _).bind fun resourcePackStack => ?_
        exact (same_send _ true).bind fun _ => same_pure true
      · exact same_pure true

theorem same_findPack (packId : UUID) : Same tp f₀ g draws (findPack tp packId) := by
  refine same_getSession.bind fun session => ?_
  cases session.loadedPacks packId with
  | some m => exact same_pure _
  | none =>
    refine same_getServer_bind fun u v huv => ?_
    simp only [huv.getPackById,huv.maxChunkSize]
    cases v.factory.getPackById packId with
    | none => exact same_pure none
    | some i =>
      refine (same_getPackSize i).bind fun packSize => (same_getPackId i).bind fun id => ?_
      refine (same_fromExcept _).bind fun packInfo => ?_
      exact (same_modifySession _).bind fun _ => same_pure _

/-- Every chunk is read from where the request says, wherever other sessions left the stream. -/
theorem same_processOne (packId : UUID) (idx : Int) : Same tp f₀ g draws (processOne tp packId idx) := by
  refine same_getSession.bind fun session => ?_
  cases session.loadedPacks packId with
  | none => exact same_pure true
  | some pack =>
    dsimp only
    split
    · exact same_markForDisconnect.bind fun _ => same_pure false
    · cases pack.chunks[idx.toNat]? with
      | none => exact same_throw _
      | some chunkState =>
        dsimp only
        split
        · exact same_pure true
        · refine (same_getPackSize pack.pack).bind fun packSize => ?_
          refine (same_getPackChunkString pack.pack _ _).bind fun chunk => ?_
          split
          · exact same_markForDisconnect.bind fun _ => same_pure false
          · refine (same_getPackVersion pack.pack).bind fun packVersion => (same_send _ true).bind fun _ => ?_
            refine (same_modifySession _).bind fun _ => ?_
            split
            · exact (same_modifySession nextPack).bind fun _ => same_pure true
            · exact same_pure true

theorem same_drain (n : Nat) : Same tp f₀ g draws (drain tp n) := by
  induction n with
  | zero => exact same_pure ()
  | succ n ih =>
    refine same_getSession.bind fun session => ?_
    split
    · exact same_pure ()
    · refine (same_modifySession _).bind fun _ => (same_processOne _ _).bind fun b => ?_
      cases b with
      | true => exact ih
      | false => exact same_pure ()

theorem same_processChunkQueue : Same tp f₀ g draws (processChunkQueue tp) := by
  refine same_getSession.bind fun session => ?_
  split
  · exact same_pure ()
  · have hdrain : Same tp f₀ g draws (tryCatch (drain tp session.pendingChunks.length) fun e => do
        setQueueProcessing false
        throw e) := Coupled.rethrow (same_drain _)
    exact (same_modifySession _).bind fun _ => hdrain.bind fun _ => same_modifySession _

theorem same_handleResourcePackChunkRequest (request : ResourcePackChunkRequestPacket) :
    Same tp f₀ g draws (handleResourcePackChunkRequest tp request) := by
  refine (same_findPack request.packId).bind fun found => ?_
  cases found with
  | none => exact same_markForDisconnect.bind fun _ => same_pure true
  | some key =>
    refine same_getSession.bind fun session => ?_
    cases session.loadedPacks key with
    | none => exact same_throw _
    | some packInfo =>
      refine (same_modifySession _).bind fun _ => (same_modifySession _).bind fun _ => ?_
      exact same_processChunkQueue.bind fun _ => same_pure true

theorem same_handle (body : PacketBody) : Same tp f₀ g True (handle tp body) := by
  cases body with
  | requestNetworkSettings pk => exact same_handleRequestNetworkSettings pk.protocolVersion
  | login pk => exact same_handleLogin pk.protocol pk.authInfoJson pk.clientDataJwt
  | resourcePackChunkRequest pk => exact same_handleResourcePackChunkRequest pk
  | resourcePackClientResponse pk => exact same_handleResourcePackClientResponse pk
  | _ => exact same_pure true

end NetworkSession

theorem same_serve (packets : List Packet) (ending : Option Fault) :
    Same tp f₀ g True (serve tp packets ending) := by
  induction packets with
  | nil =>
    cases ending with
    | none => exact NetworkSession.same_pure ()
    | some e => exact NetworkSession.same_throw e
  | cons packet packets ih =>
    refine (NetworkSession.same_handle packet.body).bind fun b => ?_
    cases b with
    | true => exact ih
    | false => exact NetworkSession.same_pure ()

namespace McbePacketRouter
open NetworkSession

theorem same_decryptIncoming (data : Bytes) : Same tp f₀ g draws (decryptIncoming tp data) := by
  refine same_getSession.bind fun session => ?_
  cases session.cipher with
  | none => exact same_throw _
  | some cipher =>
    refine (same_fromExcept _).bind fun found => ?_
    exact (same_modifySession _).bind fun _ => same_pure _

theorem same_routeSession (data : Bytes) : Same tp f₀ g True (routeSession tp data) := by
  have hraw : ∀ compressionEnabled payload, Same tp f₀ g True (do
      let payload ← fromExcept (decompressIncoming tp compressionEnabled payload)
      NetworkSession.onRaw tp payload) := fun compressionEnabled payload => by
    refine (same_fromExcept _).bind fun payload => ?_
    rw [onRaw_serve]
    exact same_serve _ _
  refine same_getSession.bind fun session => ?_
  split
  · exact same_pure ()
  · split
    · refine (same_decryptIncoming data).bind fun payload => ?_
      cases payload with
      | none => exact same_pure ()
      | some payload => exact hraw _ payload
    · exact hraw _ data

end McbePacketRouter

end CyrexMC
