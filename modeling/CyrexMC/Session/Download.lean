import CyrexMC.ResourcePacks.Chunks
import CyrexMC.Session.Effects
set_option autoImplicit false

namespace CyrexMC
open Stateful

variable {tp : ThirdParty}

/-- The index leads to packs with the id it has for them, cached or not. -/
def ResourcePackFactory.Indexed (tp : ThirdParty) (f : ResourcePackFactory) : Prop :=
  ∀ id i, f.getPackById id = some i →
    ∃ p, f.packs[i]? = some p ∧ p.parsedId tp = some id ∧ (p.id = UUID.nil ∨ p.id = id)

namespace ResourcePackFactory

theorem Touched.getPackById {f g : ResourcePackFactory} (h : f.Touched tp g) (id : UUID) :
    g.getPackById id = f.getPackById id := by
  simp [ResourcePackFactory.getPackById,h.packsById]

theorem Indexed.touched {f g : ResourcePackFactory} (hf : f.Indexed tp) (h : f.Touched tp g) : g.Indexed tp := by
  intro id i hi
  rw [h.getPackById] at hi
  obtain ⟨p,hp,hparsed,hid⟩ := hf id i hi
  obtain ⟨q,hq,hpq⟩ := h.packs i p hp
  refine ⟨q,hq,hpq.parsedId.trans hparsed,?_⟩
  rcases hpq.id with hqid | ⟨-,hqid⟩
  · rwa [hqid]
  · rw [hparsed,Option.some_inj] at hqid
    exact Or.inr hqid.symm

theorem addPack_ok {f g : ResourcePackFactory} {pack : ZippedResourcePack} (hid : pack.id = UUID.nil)
    (h : addPack tp f pack = .ok g) :
    ∃ q, pack.Touched tp q ∧ q.parsedId tp = some q.id ∧
      g = { f with packs := f.packs ++ [q], packsById := (q.id,f.packs.length) :: f.packsById } := by
  unfold addPack at h
  split at h
  · rename_i id q hq
    cases h
    have htouched := ZippedResourcePack.within_getPackId.ok hq
    rw [ZippedResourcePack.getPackId_apply,if_pos (by simp [hid,UUID.isNil])] at hq
    cases hstr : ZippedResourcePack.headerUuid pack.manifest with
    | error e => simp [hstr] at hq
    | ok str =>
      cases hparse : tp.uuidFromString str with
      | none => simp [hstr,hparse] at hq
      | some parsed =>
        simp only [hstr,hparse,EStateM.Result.ok.injEq] at hq
        obtain ⟨rfl,rfl⟩ := hq
        exact ⟨_,htouched,by simp [ZippedResourcePack.parsedId,hstr,hparse],rfl⟩
  · cases h

theorem addPack_indexed {f g : ResourcePackFactory} {pack : ZippedResourcePack} (hf : f.Indexed tp)
    (hid : pack.id = UUID.nil) (h : addPack tp f pack = .ok g) : g.Indexed tp := by
  obtain ⟨q,-,hparsed,rfl⟩ := addPack_ok hid h
  intro id i hi
  by_cases hlast : id = q.id
  · subst hlast
    have hlast : i = f.packs.length := by simpa [getPackById,List.lookup_cons] using hi.symm
    subst hlast
    exact ⟨q,by simp,hparsed,Or.inr rfl⟩
  · have hb : (id == q.id) = false := by simpa using hlast
    obtain ⟨p,hp,hrest⟩ := hf id i (by simpa [getPackById,List.lookup_cons,hb] using hi)
    have hlt := (List.getElem?_eq_some_iff.mp hp).1
    exact ⟨p,by simpa [List.getElem?_append_left hlt] using hp,hrest⟩

theorem addPack_packs {f g : ResourcePackFactory} {pack : ZippedResourcePack} (h : addPack tp f pack = .ok g) :
    g.maxChunkSize = f.maxChunkSize ∧
      ∃ q, g.packs = f.packs ++ [q] ∧ pack.Touched tp q ∧ q.fileStream = pack.fileStream := by
  unfold addPack at h
  split at h
  · rename_i id q hq
    cases h
    have hstream : q.fileStream = pack.fileStream := by
      rw [ZippedResourcePack.getPackId_apply] at hq
      split at hq
      · split at hq
        · cases hq
        · split at hq <;> cases hq
          rfl
      · cases hq
        rfl
    exact ⟨rfl,q,rfl,ZippedResourcePack.within_getPackId.ok hq,hstream⟩
  · cases h

/-- What holds of no packs and of one pack more holds after a reload. -/
theorem reloadPacks_rule {P : ResourcePackFactory → Prop} {f g : ResourcePackFactory}
    {loaded : List ZippedResourcePack} (hstart : P { f with packs := [], packsById := [] })
    (hstep : ∀ f' p g', p ∈ loaded → P f' → addPack tp f' p = .ok g' → P g')
    (h : reloadPacks tp f loaded = .ok g) : P g := by
  have hrun : ∀ (rest : List ZippedResourcePack) (f' : ResourcePackFactory), (∀ p ∈ rest, p ∈ loaded) →
      P f' → rest.foldlM (addPack tp) f' = .ok g → P g := by
    intro rest
    induction rest with
    | nil =>
      intro f' _ hf' h
      cases h
      exact hf'
    | cons p rest ih =>
      intro f' hmem hf' h
      rw [List.foldlM_cons] at h
      cases hp : addPack tp f' p with
      | error e => simp [hp,bind,Except.bind] at h
      | ok f'' =>
        have hf'' := hstep f' p f'' (hmem p (by simp)) hf' hp
        exact ih f'' (fun q hq => hmem q (by simp [hq])) hf'' (by simpa [hp,bind,Except.bind] using h)
  exact hrun loaded _ (fun p hp => hp) hstart h

theorem reloadPacks_packs {f g : ResourcePackFactory} {loaded : List ZippedResourcePack}
    (h : reloadPacks tp f loaded = .ok g) : g.maxChunkSize = f.maxChunkSize ∧
      ∀ q ∈ g.packs, ∃ p ∈ loaded, p.Touched tp q ∧ q.fileStream = p.fileStream := by
  refine reloadPacks_rule (P:=fun g => g.maxChunkSize = f.maxChunkSize ∧ ∀ q ∈ g.packs, ∃ p ∈ loaded,
    p.Touched tp q ∧ q.fileStream = p.fileStream) ⟨rfl,fun q hq => by cases hq⟩ ?_ h
  rintro f' p g' hp ⟨hmax,hpacks⟩ hadd
  obtain ⟨hmax',q,hq,htouched,hstream⟩ := addPack_packs hadd
  refine ⟨hmax'.trans hmax,fun r hr => ?_⟩
  rw [hq,List.mem_append,List.mem_singleton] at hr
  rcases hr with hr | rfl
  · exact hpacks r hr
  · exact ⟨p,hp,htouched,hstream⟩

theorem reloadPacks_indexed {f g : ResourcePackFactory} {loaded : List ZippedResourcePack}
    (hid : ∀ p ∈ loaded, p.id = UUID.nil) (h : reloadPacks tp f loaded = .ok g) : g.Indexed tp :=
  reloadPacks_rule (P:=fun g => g.Indexed tp) (fun id i hi => by simp [getPackById] at hi)
    (fun _ p _ hp hf hadd => addPack_indexed hf (hid p hp) hadd) h

end ResourcePackFactory

def Server.loaded (tp : ThirdParty) (maxChunkSize : ChunkSize) (packs : List ZippedResourcePack) : Server :=
  { Server.bare with factory := (ResourcePackFactory.reloadPacks tp { maxChunkSize } packs).toOption.getD { maxChunkSize } }

theorem Server.loaded_indexed {maxChunkSize : ChunkSize} {packs : List ZippedResourcePack}
    (hid : ∀ p ∈ packs, p.id = UUID.nil) : (Server.loaded tp maxChunkSize packs).factory.Indexed tp := by
  cases h : ResourcePackFactory.reloadPacks tp { maxChunkSize } packs with
  | ok f => simpa [loaded,h,Except.toOption] using ResourcePackFactory.reloadPacks_indexed hid h
  | error e =>
    intro id i hi
    simp [loaded,h,Except.toOption,ResourcePackFactory.getPackById] at hi

theorem Server.loaded_packs (tp : ThirdParty) (maxChunkSize : ChunkSize) (packs : List ZippedResourcePack) :
    (Server.loaded tp maxChunkSize packs).factory.maxChunkSize = maxChunkSize ∧
      ∀ q ∈ (Server.loaded tp maxChunkSize packs).factory.packs,
        ∃ p ∈ packs, p.Touched tp q ∧ q.fileStream = p.fileStream := by
  cases h : ResourcePackFactory.reloadPacks tp { maxChunkSize } packs with
  | ok f => simpa [loaded,h,Except.toOption] using ResourcePackFactory.reloadPacks_packs h
  | error e => simp [loaded,h,Except.toOption]

def UUID.filled (b : UInt8) : UUID := ⟨List.replicate 16 b,List.length_replicate⟩

/-- A server whose first pack has two chunks and whose second pack has one. -/
def Server.twoPacks : Server :=
  .loaded .rawIds ⟨22,by decide,by decide⟩ [.ofId (.filled 1) 44 (by decide),.ofId (.filled 2) 22 (by decide)]

theorem Server.twoPacks_indexed : twoPacks.factory.Indexed .rawIds := by
  apply loaded_indexed
  intro p hp
  simp only [List.mem_cons,List.not_mem_nil,or_false] at hp
  rcases hp with rfl | rfl <;> rfl

/-- What does not concern the download of packs. -/
structure LeavesPacks (w w' : World) : Prop where
  loadedPacks : w'.session.loadedPacks = w.session.loadedPacks
  packQueue : w'.session.packQueue = w.session.packQueue
  pendingChunks : w'.session.pendingChunks = w.session.pendingChunks
  currentPack : w'.session.currentPack = w.session.currentPack
  queueProcessing : w'.session.queueProcessing = w.session.queueProcessing

theorem LeavesPacks.refl (w : World) : LeavesPacks w w := ⟨rfl,rfl,rfl,rfl,rfl⟩

theorem leavesBound : Bound LeavesPacks fun _ (_ : Fault) => True :=
  ⟨LeavesPacks.refl,fun _ _ _ h k => ⟨k.loadedPacks.trans h.loadedPacks,k.packQueue.trans h.packQueue,
    k.pendingChunks.trans h.pendingChunks,k.currentPack.trans h.currentPack,
    k.queueProcessing.trans h.queueProcessing⟩,fun _ _ _ _ _ => trivial⟩

namespace NetworkSession

abbrev Leaves {α : Type} (m : SessionM α) : Prop := Within LeavesPacks (fun _ _ => True) m

theorem leaves_bind {α β : Type} {m : SessionM α} {f : α → SessionM β} (hm : Leaves m)
    (hf : ∀ a, Leaves (f a)) : Leaves (m >>= f) := Within.bind leavesBound hm hf

theorem leaves_pure {α : Type} (a : α) : Leaves (pure a : SessionM α) := Within.returns leavesBound a

theorem leaves_fromExcept {α : Type} (x : Except Fault α) : Leaves (fromExcept x : SessionM α) :=
  Within.excepts leavesBound fun _ _ _ => trivial

theorem leaves_callPack {α : Type} (i : Nat) (call : ZippedResourcePack.Call α) : Leaves (callPack i call) := by
  intro w
  unfold WithinAt callPack
  cases w.server.factory.packs[i]? with
  | none => exact ⟨LeavesPacks.refl w,trivial⟩
  | some p =>
    have hput : ∀ server, LeavesPacks w { w with server } := fun _ => ⟨rfl,rfl,rfl,rfl,rfl⟩
    cases hc : call p with
    | ok a q => simpa [hc] using hput _
    | error e q => simpa [hc] using hput _

theorem leaves_sendInternal (payload : Bytes) : Leaves (sendInternal tp payload) :=
  (within_sends payload).mono (fun _ _ ⟨_,_,h⟩ => by subst h; exact ⟨rfl,rfl,rfl,rfl,rfl⟩) fun _ _ h => h

theorem leaves_send (packet : Packet) (immediately : Bool) : Leaves (send tp packet immediately) := by
  cases immediately with
  | true => exact leaves_sendInternal _
  | false => exact fun w => ⟨rfl,rfl,rfl,rfl,rfl⟩

theorem leaves_markForDisconnect : Leaves markForDisconnect := fun _ => ⟨rfl,rfl,rfl,rfl,rfl⟩

theorem leaves_disconnectUserForIncompatibleProtocol (version : UInt32) :
    Leaves (disconnectUserForIncompatibleProtocol tp version) :=
  leaves_bind (leaves_send _ true) fun _ => leaves_pure true

theorem leaves_handleRequestNetworkSettings (version : UInt32) :
    Leaves (handleRequestNetworkSettings tp version) := by
  unfold handleRequestNetworkSettings
  split
  · exact leaves_bind (leaves_disconnectUserForIncompatibleProtocol version) fun _ => leaves_pure false
  · have hzlib : Leaves (modifySession fun s => { s with compressor := some CompressionAlgorithm.ZLIB }) :=
      fun _ => ⟨rfl,rfl,rfl,rfl,rfl⟩
    have hon : Leaves (modifySession fun s => { s with compressionEnabled := true }) :=
      fun _ => ⟨rfl,rfl,rfl,rfl,rfl⟩
    exact leaves_bind hzlib fun _ => leaves_bind (leaves_send _ true) fun _ =>
      leaves_bind hon fun _ => leaves_pure true

theorem leaves_tick : Leaves (tick tp) := by
  have hclear : Leaves (modifySession fun s => { s with sendQueue := [] }) := fun w => ⟨rfl,rfl,rfl,rfl,rfl⟩
  refine leaves_bind (fun w => .refl w) fun s => ?_
  split
  · exact leaves_pure ()
  · exact leaves_bind (leaves_sendInternal _) fun _ => hclear

theorem leaves_infoEntries (defs : List Nat) : Leaves (infoEntries tp defs) := by
  induction defs with
  | nil => exact leaves_pure []
  | cons d defs ih =>
    have hentry : Leaves (infoEntry tp d) :=
      leaves_bind (leaves_callPack d _) fun _ => leaves_bind (fun w => .refl w) fun _ =>
        leaves_bind (leaves_fromExcept _) fun _ => leaves_bind (leaves_callPack d _) fun _ =>
          leaves_bind (leaves_callPack d _) fun _ => leaves_bind (leaves_callPack d _) fun _ => leaves_pure _
    exact leaves_bind hentry fun _ => leaves_bind ih fun _ => leaves_pure _

theorem leaves_handleLogin (version : UInt32) (authInfoJson clientDataJwt : Bytes) :
    Leaves (handleLogin tp version authInfoJson clientDataJwt) := by
  have hrandom : Leaves randomUUID := fun w => ⟨rfl,rfl,rfl,rfl,rfl⟩
  unfold handleLogin
  split
  · exact leaves_bind (leaves_disconnectUserForIncompatibleProtocol version) fun _ => leaves_pure false
  · split
    · exact Within.raises leavesBound fun _ => trivial
    · refine leaves_bind ?_ fun _ => leaves_pure true
      exact leaves_bind (leaves_send _ false) fun _ => leaves_bind (fun w => .refl w) fun _ =>
        leaves_bind (leaves_infoEntries _) fun _ => leaves_bind hrandom fun _ => leaves_send _ false

theorem leaves_stackEntries (defs : List Nat) : Leaves (stackEntries tp defs) := by
  induction defs with
  | nil => exact leaves_pure []
  | cons d defs ih =>
    exact leaves_bind (leaves_callPack d _) fun _ => leaves_bind (leaves_callPack d _) fun _ =>
      leaves_bind ih fun _ => leaves_pure _

theorem leaves_handleResourcePackClientResponse {pk : ResourcePackClientResponsePacket}
    (h : pk.responseStatus ≠ ResourcePackClientResponseStatus.SendPacks) :
    Leaves (handleResourcePackClientResponse tp pk) := by
  refine leaves_bind (fun w => .refl w) fun server => ?_
  split
  · split
    · exact leaves_bind leaves_markForDisconnect fun _ => leaves_pure true
    · exact leaves_pure true
  · split
    · exact leaves_bind (leaves_stackEntries _) fun _ => leaves_bind (leaves_send _ true) fun _ => leaves_pure true
    · exact leaves_pure true

def Browses (tp : ThirdParty) (w w' : World) : Prop :=
  ∃ factory, w.server.factory.Touched tp factory ∧ w' = { w with server := { w.server with factory } }

theorem Browses.trans {u v w : World} (h : Browses tp u v) (k : Browses tp v w) : Browses tp u w := by
  obtain ⟨f,hf,rfl⟩ := h
  obtain ⟨g,hg,rfl⟩ := k
  exact ⟨g,hf.trans hg,rfl⟩

theorem callPack_ok {α : Type} {i : Nat} {call : ZippedResourcePack.Call α} {w w' : World} {a : α}
    (h : callPack i call w = .ok a w') :
    ∃ p q, w.server.factory.packs[i]? = some p ∧ call p = .ok a q ∧
      w' = { w with server := { w.server with
        factory := { w.server.factory with packs := w.server.factory.packs.set i q } } } := by
  unfold callPack at h
  cases hp : w.server.factory.packs[i]? with
  | none => simp [hp] at h
  | some p =>
    cases hc : call p with
    | error e q => simp [hp,hc] at h
    | ok b q =>
      simp only [hp,hc,EStateM.Result.ok.injEq] at h
      obtain ⟨rfl,rfl⟩ := h
      exact ⟨p,q,rfl,hc,rfl⟩

variable (tp) in
theorem callPack_browses {α : Type} {i : Nat} {call : ZippedResourcePack.Call α} {w w' : World} {a : α}
    (hcall : Within (ZippedResourcePack.Touched tp) ZippedResourcePack.Faults call)
    (h : callPack i call w = .ok a w') : Browses tp w w' := by
  obtain ⟨p,q,hp,hc,rfl⟩ := callPack_ok h
  exact ⟨_,.set hp (hcall.ok hc),rfl⟩

theorem getPackSize_ok {i n : Nat} {w w' : World} (h : getPackSize i w = .ok n w') :
    w' = w ∧ ∃ p, w.server.factory.packs[i]? = some p ∧ n = p.getPackSize := by
  obtain ⟨p,q,hp,hc,rfl⟩ := callPack_ok h
  cases hc
  obtain ⟨hi,rfl⟩ := List.getElem?_eq_some_iff.mp hp
  refine ⟨?_,_,hp,rfl⟩
  simp only [List.set_getElem_self]

theorem getPackId_ok {i : Nat} {id packId : UUID} {w w' : World} (hf : w.server.factory.Indexed tp)
    (hi : w.server.factory.getPackById id = some i)
    (h : callPack i (ZippedResourcePack.getPackId tp) w = .ok packId w') : packId = id ∧ Browses tp w w' := by
  refine ⟨?_,callPack_browses tp ZippedResourcePack.within_getPackId h⟩
  obtain ⟨p,hp,hparsed,hid⟩ := hf id i hi
  obtain ⟨p',q,hp',hc,-⟩ := callPack_ok h
  rw [hp] at hp'
  cases hp'
  rw [ZippedResourcePack.getPackId_apply] at hc
  by_cases hnil : p.id.isNil
  · unfold ZippedResourcePack.parsedId at hparsed
    cases hstr : ZippedResourcePack.headerUuid p.manifest with
    | error e => simp [hstr] at hparsed
    | ok str =>
      simp only [hstr] at hparsed
      simp only [hnil,if_true,hstr,hparsed,EStateM.Result.ok.injEq] at hc
      exact hc.1.symm
  · simp only [hnil,Bool.false_eq_true,if_false,EStateM.Result.ok.injEq] at hc
    rcases hid with hid | hid
    · simp [hid,UUID.isNil] at hnil
    · exact hc.1.symm.trans hid

theorem send_ok {packet : Packet} {w w' : World} {a : Unit} (h : send tp packet true w = .ok a w') :
    ∃ (cipher : Option AesEncryptor) (datagrams : List Bytes),
      w' = { session := { w.session with cipher },
             server := { w.server with sent := w.server.sent ++ datagrams.map (w.session.guid,·) } } ∧
      (w.session.encryptionEnabled = false →
        cipher = w.session.cipher ∧ ∃ d, Wraps tp w.session [packet] d ∧ datagrams = [d]) := by
  have h' : sendInternal tp (packet.encode tp) w = .ok a w' := by simpa [send] using h
  by_cases he : w.session.encryptionEnabled
  · obtain ⟨cipher,datagrams,hw⟩ := (within_sends _).ok h'
    exact ⟨cipher,datagrams,hw,fun hf => by simp [he] at hf⟩
  · cases hout : compressOutgoing tp w.session (packet.encode tp) with
    | error e => simp [sendInternal,bind_apply,hout] at h'
    | ok out =>
      rw [sendInternal_plain (by simpa using he) hout] at h'
      cases h'
      exact ⟨w.session.cipher,[0xFE :: out],by simp,fun _ => ⟨rfl,0xFE :: out,⟨out,by simpa using hout,rfl⟩,rfl⟩⟩

variable (tp) in
/-- What the loop of `sendPacks` does for a pack that is known, but for the sending. -/
def announce (resourcePack : Nat) : SessionM ResourcePackDataInfoPacket := do
  let factory := (← getServer).factory
  let maxChunkSize := factory.maxChunkSize.val
  let packSize ← getPackSize resourcePack
  let chunkCount ← fromExcept (ceilChunkCount packSize maxChunkSize)
  let packId ← callPack resourcePack (ZippedResourcePack.getPackId tp)
  let data ← fromExcept (ResourcePackMeta.create packId resourcePack maxChunkSize chunkCount)
  modifySession fun s => { s with packQueue := s.packQueue ++ [data.packId] }
  modifySession (emplacePack data.packId data)
  let packId ← callPack resourcePack (ZippedResourcePack.getPackId tp)
  let packVersion ← callPack resourcePack ZippedResourcePack.getPackVersion
  let compressedPackSize ← getPackSize resourcePack
  let sha256 ← callPack resourcePack (ZippedResourcePack.getSha256 tp)
  return { packId, packVersion, maxChunkSize, chunkCount,
           compressedPackSize := UInt64.ofNat compressedPackSize, sha256 }

def dataInfo (pk : ResourcePackDataInfoPacket) : Packet := { body := .resourcePackDataInfo pk }

theorem sendPacks_cons (entry : ResourcePackClientResponsePacket.Entry)
    (entries : List ResourcePackClientResponsePacket.Entry) (w : World) :
    sendPacks tp (entry :: entries) w =
      match w.server.factory.getPackById entry.uuid with
      | none => markForDisconnect w
      | some i => (do
          let pk ← announce tp i
          send tp (dataInfo pk) true
          sendPacks tp entries) w := by
  rw [sendPacks,bind_ok (getServer_apply w)]
  cases w.server.factory.getPackById entry.uuid with
  | none => rfl
  | some i =>
    simp only [announce,bind_assoc,pure_bind,dataInfo]
    rw [bind_ok (getServer_apply w)]

variable (tp) in
def infoOf (f : ResourcePackFactory) (id : UUID) : Option ResourcePackDataInfoPacket := do
  let i ← f.getPackById id
  let p ← f.packs[i]?
  let packVersion ← (ZippedResourcePack.headerVersion p.manifest).toOption
  let chunkCount ← (ceilChunkCount p.getPackSize f.maxChunkSize.val).toOption
  some { packId := id, packVersion, maxChunkSize := f.maxChunkSize.val, chunkCount,
         compressedPackSize := UInt64.ofNat p.getPackSize, sha256 := p.sha256 tp }

theorem infoOf_eq {f : ResourcePackFactory} {id : UUID} {i : Nat} {p : ZippedResourcePack} {packVersion : Bytes}
    {chunkCount : Int} (hi : f.getPackById id = some i) (hp : f.packs[i]? = some p)
    (hversion : ZippedResourcePack.headerVersion p.manifest = .ok packVersion)
    (hcount : ceilChunkCount p.getPackSize f.maxChunkSize.val = .ok chunkCount) :
    infoOf tp f id = some
      { packId := id, packVersion, maxChunkSize := f.maxChunkSize.val, chunkCount,
        compressedPackSize := UInt64.ofNat p.getPackSize, sha256 := p.sha256 tp } := by
  simp [infoOf,hi,hp,hversion,hcount,Except.toOption]

theorem infoOf_some {f : ResourcePackFactory} {id : UUID} {info : ResourcePackDataInfoPacket}
    (h : infoOf tp f id = some info) :
    ∃ i p, f.getPackById id = some i ∧ f.packs[i]? = some p ∧
      ZippedResourcePack.headerVersion p.manifest = .ok info.packVersion ∧
      ceilChunkCount p.getPackSize f.maxChunkSize.val = .ok info.chunkCount ∧ info.packId = id ∧
      info.maxChunkSize = f.maxChunkSize.val ∧ info.compressedPackSize = UInt64.ofNat p.getPackSize := by
  unfold infoOf at h
  cases hi : f.getPackById id with
  | none => simp [hi] at h
  | some i =>
    cases hp : f.packs[i]? with
    | none => simp [hi,hp] at h
    | some p =>
      cases hversion : ZippedResourcePack.headerVersion p.manifest with
      | error e => simp [hi,hp,hversion,Except.toOption] at h
      | ok packVersion =>
        cases hcount : ceilChunkCount p.getPackSize f.maxChunkSize.val with
        | error e => simp [hi,hp,hversion,hcount,Except.toOption] at h
        | ok count =>
          simp only [hi,hp,hversion,hcount,Except.toOption,Option.bind_eq_bind,Option.bind_some,Option.some_inj] at h
          subst h
          exact ⟨i,p,rfl,hp,hversion,hcount,rfl,rfl,rfl⟩

theorem infoOf_touched {f g : ResourcePackFactory} (h : f.Touched tp g) (id : UUID) :
    infoOf tp g id = infoOf tp f id := by
  simp only [infoOf,h.getPackById,h.maxChunkSize]
  cases f.getPackById id with
  | none => rfl
  | some i =>
    cases hq : g.packs[i]? with
    | none =>
      have hnone : f.packs[i]? = none := by
        rw [List.getElem?_eq_none_iff,← h.length]
        exact List.getElem?_eq_none_iff.mp hq
      simp only [hq,hnone,Option.bind_eq_bind,Option.bind_some,Option.bind_none]
    | some q =>
      obtain ⟨p,hp,hpq⟩ := h.back hq
      simp only [hq,hp,Option.bind_eq_bind,Option.bind_some,hpq.manifest,hpq.getPackSize,hpq.sha256]

variable (tp) in
/-- The packets that answer a SendPacks response, up to the first pack that is not known. -/
def infosFor (f : ResourcePackFactory) :
    List ResourcePackClientResponsePacket.Entry → List ResourcePackDataInfoPacket
  | [] => []
  | entry :: entries =>
    match infoOf tp f entry.uuid with
    | none => []
    | some info => info :: infosFor f entries

theorem infosFor_touched {f g : ResourcePackFactory} (h : f.Touched tp g)
    (entries : List ResourcePackClientResponsePacket.Entry) : infosFor tp g entries = infosFor tp f entries := by
  induction entries with
  | nil => rfl
  | cons entry entries ih => simp only [infosFor,infoOf_touched h,ih]

theorem announce_ok {i : Nat} {id : UUID} {pk : ResourcePackDataInfoPacket} {w w' : World}
    (hf : w.server.factory.Indexed tp) (hi : w.server.factory.getPackById id = some i)
    (h : announce tp i w = .ok pk w') :
    ∃ m factory, infoOf tp w.server.factory id = some pk ∧
      ResourcePackMeta.create id i w.server.factory.maxChunkSize.val pk.chunkCount = .ok m ∧
      w.server.factory.Touched tp factory ∧
      w' = { session := emplacePack id m { w.session with packQueue := w.session.packQueue ++ [id] },
             server := { w.server with factory } } := by
  simp only [announce] at h
  rw [bind_ok (getServer_apply w)] at h
  obtain ⟨packSize,w₁,hsize,h⟩ := of_bind_ok h
  obtain ⟨rfl,p,hp,rfl⟩ := getPackSize_ok hsize
  cases hcount : ceilChunkCount p.getPackSize w₁.server.factory.maxChunkSize.val with
  | error e => simp [hcount,bind_apply] at h
  | ok count =>
    rw [hcount,bind_ok (fromExcept_ok count w₁)] at h
    obtain ⟨packId,w₂,hid,h⟩ := of_bind_ok h
    obtain ⟨rfl,hw₂⟩ := getPackId_ok hf hi hid
    cases hm : ResourcePackMeta.create packId i w₁.server.factory.maxChunkSize.val count with
    | error e => simp [hm,bind_apply] at h
    | ok m =>
      obtain ⟨-,hmeta⟩ := ResourcePackMeta.create_ok hm
      have hpackId : m.packId = packId := by rw [hmeta]
      rw [hm,bind_ok (fromExcept_ok m w₂),bind_ok (modifySession_apply _ _),
        bind_ok (modifySession_apply _ _),hpackId] at h
      obtain ⟨packId',w₃,hid',h⟩ := of_bind_ok h
      obtain ⟨packVersion,w₄,hversion,h⟩ := of_bind_ok h
      obtain ⟨packSize,w₅,hsize,h⟩ := of_bind_ok h
      obtain ⟨sha256,w₆,hsha,h⟩ := of_bind_ok h
      cases h
      obtain ⟨f₂,hf₂,rfl⟩ := hw₂
      obtain ⟨rfl,hid₃⟩ := getPackId_ok (hf.touched hf₂) ((hf₂.getPackById packId).trans hi) hid'
      obtain ⟨f₃,hf₃,rfl⟩ := hid₃
      obtain ⟨q,q',hq,hread,-⟩ := callPack_ok hversion
      obtain ⟨f₄,hf₄,rfl⟩ := callPack_browses tp ZippedResourcePack.within_getPackVersion hversion
      obtain ⟨rfl,r,hr,rfl⟩ := getPackSize_ok hsize
      obtain ⟨r',r'',hr',hhash,-⟩ := callPack_ok hsha
      obtain ⟨f₆,hf₆,rfl⟩ := callPack_browses tp ZippedResourcePack.within_getSha256 hsha
      obtain ⟨q₀,hq₀,hpq⟩ := (hf₂.trans hf₃).packs i p hp
      obtain ⟨r₀,hr₀,hpr⟩ := ((hf₂.trans hf₃).trans hf₄).packs i p hp
      cases hq₀.symm.trans hq
      cases hr₀.symm.trans hr
      cases hr₀.symm.trans hr'
      have hheader := ZippedResourcePack.getPackVersion_ok hread
      rw [hpq.manifest] at hheader
      refine ⟨m,f₆,?_,hm,((hf₂.trans hf₃).trans hf₄).trans hf₆,rfl⟩
      rw [infoOf_eq hi hp hheader hcount,hpr.getPackSize,ZippedResourcePack.getSha256_ok hhash,hpr.sha256]

structure Announced (tp : ThirdParty) (id : UUID) (m : ResourcePackMeta) (w w' : World) : Prop where
  found : ∃ i p count, w.server.factory.getPackById id = some i ∧ w.server.factory.packs[i]? = some p ∧
    ceilChunkCount p.getPackSize w.server.factory.maxChunkSize.val = .ok count ∧
    ResourcePackMeta.create id i w.server.factory.maxChunkSize.val count = .ok m
  session : ∃ cipher, w'.session =
    { emplacePack id m { w.session with packQueue := w.session.packQueue ++ [id] } with cipher }
  factory : w.server.factory.Touched tp w'.server.factory
  sent : w.session.encryptionEnabled = false → w'.session.cipher = w.session.cipher ∧
    ∃ pk d, Wraps tp w.session [{ body := .resourcePackDataInfo pk }] d ∧
      w'.server.sent = w.server.sent ++ [(w.session.guid,d)]

theorem Announced.fields {id : UUID} {m : ResourcePackMeta} {w w' : World} (ha : Announced tp id m w w') :
    w'.session.loadedPacks = (emplacePack id m w.session).loadedPacks ∧
      w'.session.packQueue = w.session.packQueue ++ [id] ∧
      w'.session.pendingChunks = w.session.pendingChunks ∧
      w'.session.queueProcessing = w.session.queueProcessing := by
  obtain ⟨cipher,hs⟩ := ha.session
  rw [hs]
  exact ⟨rfl,rfl,rfl,rfl⟩

theorem sendPacks_ok {entry : ResourcePackClientResponsePacket.Entry}
    {entries : List ResourcePackClientResponsePacket.Entry} {w w' : World}
    (hf : w.server.factory.Indexed tp) (h : sendPacks tp (entry :: entries) w = .ok () w') :
    (w.server.factory.getPackById entry.uuid = none ∧
      w' = { w with session := { w.session with markedForDisconnect := true } }) ∨
    ∃ m w₁, Announced tp entry.uuid m w w₁ ∧ sendPacks tp entries w₁ = .ok () w' := by
  rw [sendPacks_cons] at h
  cases hi : w.server.factory.getPackById entry.uuid with
  | none =>
    simp only [hi] at h
    cases h
    exact Or.inl ⟨rfl,rfl⟩
  | some i =>
    right
    simp only [hi] at h
    obtain ⟨pk,w₁,hpk,h⟩ := of_bind_ok h
    obtain ⟨a,w₂,hsend,h⟩ := of_bind_ok h
    obtain ⟨m,factory,hinfo,hm,hfactory,rfl⟩ := announce_ok hf hi hpk
    obtain ⟨i',p,hi',hp,-,hcount,-⟩ := infoOf_some hinfo
    cases hi.symm.trans hi'
    obtain ⟨cipher,datagrams,rfl,hplain⟩ := send_ok hsend
    refine ⟨m,_,⟨⟨i,p,pk.chunkCount,hi,hp,hcount,hm⟩,⟨cipher,rfl⟩,hfactory,fun he => ?_⟩,h⟩
    obtain ⟨hcipher,d,hd,rfl⟩ := hplain he
    exact ⟨hcipher,pk,d,hd,rfl⟩

def packFor (w : World) (id : UUID) : Option ResourcePackMeta :=
  match w.session.loadedPacks id with
  | some m => some m
  | none => do
    let i ← w.server.factory.getPackById id
    let p ← w.server.factory.packs[i]?
    let maxSize := w.server.factory.maxChunkSize.val
    (ResourcePackMeta.create id i maxSize (roundedChunkCount p.getPackSize maxSize)).toOption

def withPack (id : UUID) (m : ResourcePackMeta) (s : NetworkSession) : NetworkSession :=
  { s with loadedPacks := Function.update s.loadedPacks id (some m) }

theorem emplacePack_some {s : NetworkSession} {id : UUID} {m m' : ResourcePackMeta} (h : s.loadedPacks id = some m') :
    emplacePack id m s = s := by
  simp [emplacePack,h]

theorem emplacePack_none {s : NetworkSession} {id : UUID} {m : ResourcePackMeta} (h : s.loadedPacks id = none) :
    emplacePack id m s = withPack id m s := by
  simp [emplacePack,withPack,h]

theorem findPack_ok {id : UUID} {r : Option UUID} {w w' : World} (hf : w.server.factory.Indexed tp)
    (h : findPack tp id w = .ok r w') :
    (r = none ∧ w.session.loadedPacks id = none ∧ w.server.factory.getPackById id = none ∧ w' = w) ∨
    ∃ m, r = some id ∧ packFor w id = some m ∧ w'.session = withPack id m w.session ∧
      w.server.factory.Touched tp w'.server.factory ∧ w'.server.sent = w.server.sent := by
  simp only [findPack] at h
  rw [bind_ok (getSession_apply w)] at h
  cases hm : w.session.loadedPacks id with
  | some m =>
    simp only [hm] at h
    cases h
    exact Or.inr ⟨m,rfl,by simp [packFor,hm],by simp [withPack,← hm],.refl _,rfl⟩
  | none =>
    simp only [hm] at h
    rw [bind_ok (getServer_apply w)] at h
    cases hi : w.server.factory.getPackById id with
    | none =>
      simp only [hi] at h
      cases h
      exact Or.inl ⟨rfl,rfl,rfl,rfl⟩
    | some i =>
      right
      simp only [hi] at h
      obtain ⟨packSize,w₁,hsize,h⟩ := of_bind_ok h
      obtain ⟨rfl,p,hp,rfl⟩ := getPackSize_ok hsize
      obtain ⟨packId,w₂,hid,h⟩ := of_bind_ok h
      obtain ⟨rfl,f,hw₂,rfl⟩ := getPackId_ok hf hi hid
      cases hc : ResourcePackMeta.create packId i w₁.server.factory.maxChunkSize.val
          (roundedChunkCount p.getPackSize w₁.server.factory.maxChunkSize.val) with
      | error e => simp [hc,bind_apply] at h
      | ok m =>
        obtain ⟨-,hmeta⟩ := ResourcePackMeta.create_ok hc
        have hpackId : m.packId = packId := by rw [hmeta]
        rw [hc,bind_ok (fromExcept_ok m _),bind_ok (modifySession_apply _ _)] at h
        cases h
        rw [hpackId]
        refine ⟨m,rfl,?_,?_,hw₂,rfl⟩
        · simp [packFor,hm,hi,hp,hc,Except.toOption]
        · rw [← emplacePack_none hm]

/-- The bytes of chunk `idx`, as `processChunkQueue` cuts them. -/
def cut (m : ResourcePackMeta) (idx : Int) (file : Bytes) : Bytes :=
  let startOffset := idx.toNat*m.maxChunkSize%2^64
  (file.drop startOffset).take (min m.maxChunkSize ((file.length+2^64-startOffset)%2^64))

def ReadsChunk (f : ResourcePackFactory) (m : ResourcePackMeta) (idx : Int) (chunk : Bytes) : Prop :=
  ∃ p, f.packs[m.pack]? = some p ∧ chunk = cut m idx p.file

theorem ReadsChunk.touched {f g : ResourcePackFactory} {m : ResourcePackMeta} {idx : Int} {chunk : Bytes}
    (h : f.Touched tp g) (hg : ReadsChunk g m idx chunk) : ReadsChunk f m idx chunk := by
  obtain ⟨q,hq,hchunk⟩ := hg
  obtain ⟨p,hp,hpq⟩ := h.back hq
  exact ⟨p,hp,by rw [hchunk,hpq.file]⟩

def chunkData (id : UUID) (packVersion : Bytes) (idx : Int) (maxChunkSize : Nat) (data : Bytes) : Packet :=
  let pk : ResourcePackChunkDataPacket :=
    { packId := id, packVersion, chunkIndex := idx,
      progress := UInt64.ofNat (idx.toNat*maxChunkSize%2^64), data }
  { body := .resourcePackChunkData pk }

inductive Answered (tp : ThirdParty) (id : UUID) (idx : Int) (m : ResourcePackMeta) (w w' : World) : Prop where
  | kept (m' : ResourcePackMeta) (markedForDisconnect : Bool)
      (hm : m' = m ∨ m' = m.setWant idx.toNat)
      (hwhy : ¬ (0 ≤ idx ∧ idx < m.chunkCount) ∨ m.isSent idx.toNat = true ∨
        ReadsChunk w.server.factory m idx [])
      (hs : w'.session = { enqueuePack id (withPack id m' w.session) with markedForDisconnect })
      (hsent : w'.server.sent = w.server.sent)
  | delivered (packVersion chunk : Bytes) (cipher : Option AesEncryptor)
      (hin : 0 ≤ idx ∧ idx < m.chunkCount) (hunsent : m.isSent idx.toNat = false)
      (hread : ReadsChunk w.server.factory m idx chunk) (hne : chunk ≠ [])
      (hs : w'.session =
        let s := { enqueuePack id (withPack id (m.deliver idx.toNat) w.session) with cipher }
        if (m.deliver idx.toNat).finished then nextPack s else s)
      (hsent : w.session.encryptionEnabled = false → cipher = w.session.cipher ∧
        ∃ d, Wraps tp w.session [chunkData id packVersion idx m.maxChunkSize chunk] d ∧
          w'.server.sent = w.server.sent ++ [(w.session.guid,d)])

theorem processOne_ok {id : UUID} {idx : Int} {m : ResourcePackMeta} {w w' : World} {b : Bool}
    (hm : w.session.loadedPacks id = some m) (hpackId : m.packId = id)
    (hlength : (m.chunks.length : Int) = m.chunkCount) (hin : 0 ≤ idx ∧ idx < m.chunkCount)
    (h : processOne tp id idx w = .ok b w') :
    (∃ markedForDisconnect,
      (m.isSent idx.toNat = true ∨ ReadsChunk w.server.factory m idx []) ∧
      w'.session = { w.session with markedForDisconnect } ∧ w'.server.sent = w.server.sent) ∨
    ∃ packVersion chunk cipher, m.isSent idx.toNat = false ∧ ReadsChunk w.server.factory m idx chunk ∧
      chunk ≠ [] ∧ (w'.session =
        let s := withPack id (m.setSent idx.toNat).advance { w.session with cipher }
        if (m.setSent idx.toNat).advance.finished then nextPack s else s) ∧
      (w.session.encryptionEnabled = false → cipher = w.session.cipher ∧
        ∃ d, Wraps tp w.session [chunkData id packVersion idx m.maxChunkSize chunk] d ∧
          w'.server.sent = w.server.sent ++ [(w.session.guid,d)]) := by
  have hlt : idx.toNat < m.chunks.length := by omega
  have hout : ¬ (idx < 0 ∨ idx ≥ m.chunkCount) := by omega
  have hget : m.isSent idx.toNat = m.chunks[idx.toNat].sent := by
    simp [ResourcePackMeta.isSent,hlt]
  simp only [processOne] at h
  rw [bind_ok (getSession_apply w)] at h
  simp only [hm,hout,if_false,List.getElem?_eq_getElem hlt] at h
  cases hsent : m.chunks[idx.toNat].sent with
  | true =>
    simp only [hsent,if_true] at h
    cases h
    exact Or.inl ⟨w.session.markedForDisconnect,Or.inl (hget.trans hsent),rfl,rfl⟩
  | false =>
    simp only [hsent,Bool.false_eq_true,if_false] at h
    obtain ⟨packSize,w₁,hsize,h⟩ := of_bind_ok h
    obtain ⟨rfl,p,hp,rfl⟩ := getPackSize_ok hsize
    obtain ⟨chunk,w₂,hchunk,h⟩ := of_bind_ok h
    obtain ⟨p',q,hp',hcut,-⟩ := callPack_ok hchunk
    obtain ⟨f₂,hf₂,rfl⟩ := callPack_browses tp (ZippedResourcePack.within_getPackChunkString _ _) hchunk
    rw [hp] at hp'
    cases hp'
    have hread : ReadsChunk w₁.server.factory m idx chunk := ⟨p,hp,ZippedResourcePack.getPackChunkString_ok hcut⟩
    by_cases hempty : chunk = []
    · subst hempty
      simp only [List.isEmpty_nil,if_true] at h
      cases h
      exact Or.inl ⟨true,Or.inr hread,rfl,rfl⟩
    · simp only [List.isEmpty_iff,hempty,if_false] at h
      obtain ⟨packVersion,w₃,hversion,h⟩ := of_bind_ok h
      obtain ⟨f₃,hf₃,rfl⟩ := callPack_browses tp ZippedResourcePack.within_getPackVersion hversion
      obtain ⟨a,w₄,hsend,h⟩ := of_bind_ok h
      obtain ⟨cipher,datagrams,rfl,hplain⟩ := send_ok hsend
      simp only [bind_apply,modifySession_apply] at h
      have hend : w'.session =
          (let s := withPack id (m.setSent idx.toNat).advance { w₁.session with cipher }
           if (m.setSent idx.toNat).advance.finished then nextPack s else s) ∧
          w'.server.sent = w₁.server.sent ++ datagrams.map (w₁.session.guid,·) := by
        cases hfin : (m.setSent idx.toNat).advance.finished with
        | true =>
          simp only [hfin,if_true] at h
          cases h
          exact ⟨rfl,rfl⟩
        | false =>
          simp only [hfin,Bool.false_eq_true,if_false] at h
          cases h
          exact ⟨rfl,rfl⟩
      refine Or.inr ⟨packVersion,chunk,cipher,hget.trans hsent,hread,hempty,hend.1,fun he => ?_⟩
      obtain ⟨hcipher,d,hd,rfl⟩ := hplain he
      exact ⟨hcipher,d,by simpa [chunkData,hpackId] using hd,hend.2⟩

theorem processChunkQueue_none {w w' : World} (hidle : w.session.queueProcessing = false)
    (hpending : w.session.pendingChunks = []) (h : processChunkQueue tp w = .ok () w') : w' = w := by
  simp only [processChunkQueue,bind_apply,getSession_apply,hidle,hpending,setQueueProcessing,
    modifySession_apply,tryCatch_apply,List.length_nil,drain,pure_apply,Bool.false_eq_true,if_false,
    EStateM.Result.ok.injEq,true_and] at h
  obtain ⟨s,server⟩ := w
  cases s
  simp_all

theorem processChunkQueue_one (id : UUID) (idx : Int) {w w' : World} (hidle : w.session.queueProcessing = false)
    (hpending : w.session.pendingChunks = [(id,idx)]) (h : processChunkQueue tp w = .ok () w') :
    ∃ b w₁, processOne tp id idx
        { w with session := { w.session with pendingChunks := [], queueProcessing := true } } = .ok b w₁ ∧
      w' = { w₁ with session := { w₁.session with queueProcessing := false } } := by
  simp only [processChunkQueue,bind_apply,getSession_apply,hidle,hpending,setQueueProcessing,
    modifySession_apply,tryCatch_apply,List.length_singleton,drain,Bool.false_eq_true,if_false] at h
  cases hone : processOne tp id idx
      { w with session := { w.session with pendingChunks := [], queueProcessing := true } } with
  | error e w₁ => simp [hone] at h
  | ok b w₁ =>
    refine ⟨b,w₁,rfl,?_⟩
    cases b with
    | true =>
      simp only [hone,if_true,pure_apply,EStateM.Result.ok.injEq,true_and] at h
      exact h.symm
    | false =>
      simp only [hone,Bool.false_eq_true,if_false,pure_apply,EStateM.Result.ok.injEq,true_and] at h
      exact h.symm

/-- The state of a download between two calls. -/
structure Download (s : NetworkSession) : Prop where
  pending : s.pendingChunks = []
  idle : s.queueProcessing = false
  packs : ∀ id m, s.loadedPacks id = some m → m.packId = id ∧ m.WellFormed

theorem loaded_cases {s s' : NetworkSession} {id x : UUID} {m m' : ResourcePackMeta}
    (hloaded : s'.loadedPacks = Function.update s.loadedPacks id (some m)) (hx : s'.loadedPacks x = some m') :
    x = id ∧ m' = m ∨ x ≠ id ∧ s.loadedPacks x = some m' := by
  rw [hloaded] at hx
  by_cases hid : x = id
  · subst hid
    rw [Function.update_self] at hx
    cases hx
    exact Or.inl ⟨rfl,rfl⟩
  · rw [Function.update_of_ne hid] at hx
    exact Or.inr ⟨hid,hx⟩

theorem Download.put {s s' : NetworkSession} (h : Download s) {id : UUID} {m : ResourcePackMeta}
    (hloaded : s'.loadedPacks = Function.update s.loadedPacks id (some m))
    (hpending : s'.pendingChunks = s.pendingChunks) (hidle : s'.queueProcessing = s.queueProcessing)
    (hm : m.packId = id ∧ m.WellFormed) : Download s' := by
  constructor
  · exact hpending.trans h.pending
  · exact hidle.trans h.idle
  · intro x m' hx
    rcases loaded_cases hloaded hx with ⟨rfl,rfl⟩ | ⟨-,hx⟩
    · exact hm
    · exact h.packs x m' hx

theorem Download.withPack {s : NetworkSession} (h : Download s) {id : UUID} {m : ResourcePackMeta}
    (hm : m.packId = id ∧ m.WellFormed) : Download (withPack id m s) := h.put rfl rfl rfl hm

theorem Download.packFor {w : World} (hs : Download w.session) {id : UUID} {m : ResourcePackMeta}
    (h : packFor w id = some m) : m.packId = id ∧ m.WellFormed := by
  unfold NetworkSession.packFor at h
  cases hm : w.session.loadedPacks id with
  | some m' =>
    simp only [hm,Option.some_inj] at h
    subst h
    exact hs.packs id m' hm
  | none =>
    simp only [hm,Option.bind_eq_bind,Option.bind_eq_some_iff] at h
    obtain ⟨i,-,p,-,h⟩ := h
    cases hc : ResourcePackMeta.create id i w.server.factory.maxChunkSize.val
        (roundedChunkCount p.getPackSize w.server.factory.maxChunkSize.val) with
    | error e => simp [hc,Except.toOption] at h
    | ok m' =>
      simp only [hc,Except.toOption,Option.some_inj] at h
      subst h
      exact ⟨by rw [(ResourcePackMeta.create_ok hc).2],(ResourcePackMeta.create_wellFormed hc).1⟩

theorem handleResourcePackChunkRequest_ok {request : ResourcePackChunkRequestPacket} {w w' : World} {b : Bool}
    (hf : w.server.factory.Indexed tp) (hs : Download w.session)
    (h : handleResourcePackChunkRequest tp request w = .ok b w') :
    b = true ∧
    ((w.session.loadedPacks request.packId = none ∧ w.server.factory.getPackById request.packId = none ∧
        w' = { w with session := { w.session with markedForDisconnect := true } }) ∨
      ∃ m, packFor w request.packId = some m ∧ Answered tp request.packId request.chunkIndex m w w') := by
  obtain ⟨found,w₁,hfind,hrest⟩ := of_bind_ok h
  rcases findPack_ok hf hfind with ⟨rfl,hloaded,hknown,rfl⟩ | ⟨m,rfl,hm,hw₁,htouched,hsent₁⟩
  · simp only [markForDisconnect,bind_apply,modifySession_apply,pure_apply,EStateM.Result.ok.injEq] at hrest
    exact ⟨hrest.1.symm,Or.inl ⟨hloaded,hknown,hrest.2.symm⟩⟩
  · obtain ⟨hpackId,hwf⟩ := hs.packFor hm
    have hget : w₁.session.loadedPacks request.packId = some m := by simp [hw₁,withPack]
    simp only [bind_apply,getSession_apply,hget,modifySession_apply,hpackId] at hrest
    cases hqueue : processChunkQueue tp
        { session := enqueuePack request.packId (wantChunk request.packId m request.chunkIndex w₁.session),
          server := w₁.server } with
    | error e w₂ => simp [hqueue] at hrest
    | ok a w₂ =>
      simp only [hqueue,pure_apply,EStateM.Result.ok.injEq] at hrest
      obtain ⟨rfl,rfl⟩ := hrest
      refine ⟨rfl,Or.inr ⟨m,hm,?_⟩⟩
      have hpending : w₁.session.pendingChunks = [] := by rw [hw₁]; exact hs.pending
      have hidle : w₁.session.queueProcessing = false := by rw [hw₁]; exact hs.idle
      by_cases hin : request.chunkIndex ≥ 0 ∧ request.chunkIndex < m.chunkCount
      · obtain ⟨c,w₃,hone,rfl⟩ := processChunkQueue_one request.packId request.chunkIndex
          (by simp [wantChunk,enqueuePack,hin,hidle]) (by simp [wantChunk,enqueuePack,hin,hpending,hpackId]) hqueue
        have hlength := hwf.length
        rcases processOne_ok (m:=m.setWant request.chunkIndex.toNat) (by simp [wantChunk,enqueuePack,hin])
            hpackId (by rw [ResourcePackMeta.length_setWant]; exact hlength) hin hone with
          ⟨marked,hwhy,hs₃,hsent₃⟩ | ⟨packVersion,chunk,cipher,hunsent,hread,hne,hs₃,hsend⟩
        · rw [ResourcePackMeta.isSent_setWant] at hwhy
          refine .kept (m.setWant request.chunkIndex.toNat) marked (Or.inr rfl) ?_ ?_ (hsent₃.trans hsent₁)
          · rcases hwhy with hsent | hread
            · exact Or.inr (Or.inl hsent)
            · exact Or.inr (Or.inr (hread.touched htouched))
          · rw [hs₃,hw₁]
            simp only [wantChunk,if_pos hin,withPack,enqueuePack,hs.pending,hs.idle,Function.update_idem]
        · rw [ResourcePackMeta.isSent_setWant] at hunsent
          refine .delivered packVersion chunk cipher hin hunsent (hread.touched htouched) hne ?_ ?_
          · rw [hs₃,hw₁]
            simp only [wantChunk,if_pos hin,withPack,enqueuePack,hs.pending,hs.idle,Function.update_idem,
              ResourcePackMeta.deliver]
            split
            · rfl
            · rfl
          · intro he
            simp only [wantChunk,if_pos hin,enqueuePack,hw₁,withPack,he,forall_const] at hsend
            obtain ⟨hcipher,d,hd,hsent₃⟩ := hsend
            exact ⟨hcipher,d,(wraps_congr rfl rfl).mp hd,by rw [hsent₃,hsent₁]⟩
      · rw [wantChunk,if_neg hin] at hqueue
        have hw₂ := processChunkQueue_none (by exact hidle) (by exact hpending) hqueue
        refine .kept m w.session.markedForDisconnect (Or.inl rfl) (Or.inl hin) ?_ ?_
        · rw [hw₂,hw₁]
          rfl
        · rw [hw₂]
          exact hsent₁

theorem delivered_fields {s s' : NetworkSession} {id : UUID} {m : ResourcePackMeta} {cipher : Option AesEncryptor}
    (hs : s' =
      let t := { enqueuePack id (withPack id m s) with cipher }
      if m.finished then nextPack t else t) :
    s'.loadedPacks = Function.update s.loadedPacks id (some m) ∧ s'.pendingChunks = s.pendingChunks ∧
      s'.queueProcessing = s.queueProcessing := by
  rw [hs]
  cases m.finished <;> exact ⟨rfl,rfl,rfl⟩

end NetworkSession

end CyrexMC
