import CyrexMC.Session.NetworkSession
set_option autoImplicit false

/-! What the member functions of a session can do to it and to what it shares with the others,
as one preorder. Only a request for the network settings does more. -/

namespace CyrexMC
open Stateful

def ZippedResourcePack.parsedId (tp : ThirdParty) (p : ZippedResourcePack) : Option UUID :=
  match headerUuid p.manifest with
  | .ok str => tp.uuidFromString str
  | .error _ => none

def ZippedResourcePack.sha256 (tp : ThirdParty) (p : ZippedResourcePack) : Bytes :=
  if p.sha256Hash.isEmpty then computeSha256FromFile tp p else p.sha256Hash

/-- A call can move the stream and fill the caches, from the file and the manifest. -/
structure ZippedResourcePack.Touched (tp : ThirdParty) (p q : ZippedResourcePack) : Prop where
  file : q.file = p.file
  manifest : q.manifest = p.manifest
  id : q.id = p.id ∨ p.id = UUID.nil ∧ p.parsedId tp = some q.id
  sha256Hash : q.sha256Hash = p.sha256Hash ∨
    p.sha256Hash = [] ∧ q.sha256Hash = computeSha256FromFile tp p

structure ResourcePackFactory.Touched (tp : ThirdParty) (f g : ResourcePackFactory) : Prop where
  maxChunkSize : g.maxChunkSize = f.maxChunkSize
  packsById : g.packsById = f.packsById
  length : g.packs.length = f.packs.length
  packs : ∀ (i : Nat) (p : ZippedResourcePack), f.packs[i]? = some p →
    ∃ q, g.packs[i]? = some q ∧ p.Touched tp q

namespace ZippedResourcePack

variable {tp : ThirdParty}

theorem Touched.parsedId {p q : ZippedResourcePack} (h : Touched tp p q) : q.parsedId tp = p.parsedId tp := by
  simp only [ZippedResourcePack.parsedId,h.manifest]

theorem Touched.sha256 {p q : ZippedResourcePack} (h : Touched tp p q) : q.sha256 tp = p.sha256 tp := by
  have hcomputed : computeSha256FromFile tp q = computeSha256FromFile tp p := by
    simp only [computeSha256FromFile,h.file]
  unfold ZippedResourcePack.sha256
  rw [hcomputed]
  rcases h.sha256Hash with hsame | ⟨hempty,hcached⟩
  · rw [hsame]
  · rw [hcached,hempty]
    simp

theorem Touched.getPackSize {p q : ZippedResourcePack} (h : Touched tp p q) : q.getPackSize = p.getPackSize := by
  simp only [ZippedResourcePack.getPackSize,h.file]

theorem Touched.refl (p : ZippedResourcePack) : Touched tp p p :=
  ⟨rfl,rfl,Or.inl rfl,Or.inl rfl⟩

theorem Touched.trans {p q r : ZippedResourcePack} (h : Touched tp p q) (k : Touched tp q r) :
    Touched tp p r := by
  refine ⟨k.file.trans h.file,k.manifest.trans h.manifest,?_,?_⟩
  · have hparsed := h.parsedId
    rcases k.id with hk | ⟨hnil,hk⟩
    · rw [hk]
      exact h.id
    · rcases h.id with hid | ⟨hid,hp⟩
      · exact Or.inr ⟨hid ▸ hnil,hparsed ▸ hk⟩
      · exact Or.inr ⟨hid,hparsed ▸ hk⟩
  · have hcomputed : computeSha256FromFile tp q = computeSha256FromFile tp p := by
      simp only [computeSha256FromFile,h.file]
    rcases k.sha256Hash with hk | ⟨hempty,hk⟩
    · rw [hk]
      exact h.sha256Hash
    · rcases h.sha256Hash with hq | ⟨hp,-⟩
      · exact Or.inr ⟨hq ▸ hempty,hk.trans hcomputed⟩
      · exact Or.inr ⟨hp,hk.trans hcomputed⟩

abbrev Faults (_ : ZippedResourcePack) (e : Fault) : Prop := e ≠ .undefined .uninitialised

def Spares {α : Type} (x : Except Fault α) : Prop := ∀ e, x = .error e → e ≠ .undefined .uninitialised

theorem Spares.ok {α : Type} (a : α) : Spares (.ok a : Except Fault α) := fun e h => by cases h

theorem Spares.error {α : Type} {e : Fault} (he : e ≠ .undefined .uninitialised) :
    Spares (.error e : Except Fault α) := fun e' h => by
  cases h
  exact he

theorem Spares.bind {α β : Type} {x : Except Fault α} {f : α → Except Fault β} (hx : Spares x)
    (hf : ∀ a, Spares (f a)) : Spares (x >>= f) := by
  cases x with
  | error e => exact Spares.error (hx e rfl)
  | ok a => exact hf a

theorem spares_atKey (key : Bytes) (json : Json) : Spares (json.atKey key) := by
  unfold Json.atKey
  split
  · split
    · exact Spares.ok _
    · exact Spares.error (by simp)
  · exact Spares.error (by simp)

theorem spares_atIndex (i : Nat) (json : Json) : Spares (json.atIndex i) := by
  unfold Json.atIndex
  split
  · exact Spares.ok _
  · exact Spares.ok _
  · exact Spares.error (by simp)

theorem spares_getString (json : Json) : Spares json.getString := by
  unfold Json.getString
  split
  · exact Spares.ok _
  · exact Spares.error (by simp)

theorem spares_getInt (json : Json) : Spares json.getInt := by
  unfold Json.getInt
  split
  · exact Spares.ok _
  · exact Spares.ok _
  · split
    · exact Spares.ok _
    · exact Spares.error (by simp)
  · exact Spares.error (by simp)

theorem spares_headerUuid (manifest : Json) : Spares (headerUuid manifest) :=
  (spares_atKey _ _).bind fun header => (spares_atKey _ header).bind fun uuid => spares_getString uuid

theorem spares_headerVersion (manifest : Json) : Spares (headerVersion manifest) := by
  refine (spares_atKey _ _).bind fun header => (spares_atKey _ header).bind fun version => ?_
  refine (spares_atIndex 0 version).bind fun j => (spares_getInt j).bind fun major => ?_
  refine (spares_atIndex 1 version).bind fun j => (spares_getInt j).bind fun minor => ?_
  exact (spares_atIndex 2 version).bind fun j => (spares_getInt j).bind fun patch => Spares.ok _

theorem within_getPackId : Within (Touched tp) Faults (getPackId tp) := by
  intro p
  rw [WithinAt,getPackId_apply]
  by_cases hnil : p.id.isNil
  · cases hstr : headerUuid p.manifest with
    | error e => simpa [hnil,hstr] using ⟨Touched.refl p,spares_headerUuid _ e hstr⟩
    | ok str =>
      cases hid : tp.uuidFromString str with
      | none => simpa [hnil,hstr,hid] using Touched.refl p
      | some id =>
        have hp : p.parsedId tp = some id := by simp [parsedId,hstr,hid]
        have hn : p.id = UUID.nil := by simpa [UUID.isNil] using hnil
        simpa [hnil,hstr,hid] using
          (⟨rfl,rfl,Or.inr ⟨hn,hp⟩,Or.inl rfl⟩ : Touched tp p { p with id })
  · simpa [hnil] using Touched.refl p

/-- What `getPackId` returns is the cached id or the one in the manifest, and these agree. -/
theorem Touched.getPackId_ok {p₀ p q : ZippedResourcePack} (h : p₀.Touched tp p) {id : UUID}
    (hr : getPackId tp p = .ok id q) : (if p₀.id.isNil then p₀.parsedId tp else some p₀.id) = some id := by
  have hparsed := h.parsedId
  rw [getPackId_apply] at hr
  have hreturned : (if p.id.isNil then p.parsedId tp else some p.id) = some id := by
    by_cases hnil : p.id.isNil = true
    · simp only [hnil,if_true] at hr ⊢
      unfold ZippedResourcePack.parsedId
      cases hstr : headerUuid p.manifest with
      | error e => simp [hstr] at hr
      | ok str =>
        cases hid : tp.uuidFromString str with
        | none => simp [hstr,hid] at hr
        | some parsed =>
          simp only [hstr,hid,EStateM.Result.ok.injEq] at hr
          simp [hid,hr.1]
    · simp only [hnil,Bool.false_eq_true,if_false,EStateM.Result.ok.injEq] at hr ⊢
      rw [hr.1]
  rcases h.id with hsame | ⟨hnil,hcached⟩
  · rwa [hsame,hparsed] at hreturned
  · have hnil' : p₀.id.isNil = true := by simp [UUID.isNil,hnil]
    simp only [hnil',if_true]
    by_cases hp : p.id.isNil = true
    · simpa [hp,hparsed] using hreturned
    · simp only [hp,Bool.false_eq_true,if_false] at hreturned
      rw [hcached,hreturned]

theorem within_getPackVersion : Within (Touched tp) Faults getPackVersion := by
  intro p
  rw [WithinAt,getPackVersion_apply]
  cases h : headerVersion p.manifest with
  | error e => exact ⟨Touched.refl p,spares_headerVersion _ e h⟩
  | ok version => exact Touched.refl p

theorem getSha256_ok {p q : ZippedResourcePack} {hash : Bytes} (h : getSha256 tp p = .ok hash q) :
    hash = p.sha256 tp := by
  rw [getSha256_apply] at h
  simp only [EStateM.Result.ok.injEq] at h
  exact h.1.symm

theorem within_getSha256 : Within (Touched tp) Faults (getSha256 tp) := by
  intro p
  rw [WithinAt,getSha256_apply]
  refine ⟨rfl,rfl,Or.inl rfl,?_⟩
  by_cases h : p.sha256Hash = [] <;> simp [h]

theorem Touched.stream (p : ZippedResourcePack) (stream : IfStream) :
    Touched tp p { p with fileStream := stream } :=
  ⟨rfl,rfl,Or.inl rfl,Or.inl rfl⟩

theorem within_getPackChunkString (start length : Nat) :
    Within (Touched tp) Faults (getPackChunkString start length) := by
  intro p
  rw [WithinAt,getPackChunkString_apply]
  by_cases hlen : length < 1
  · simpa [hlen] using Touched.refl p
  · by_cases hfail : (p.fileStream.seekg start).failbit
    · simpa [hlen,hfail] using Touched.stream p _
    · simpa [hlen,hfail] using Touched.stream p _

end ZippedResourcePack

namespace ResourcePackFactory

variable {tp : ThirdParty}

theorem Touched.refl (f : ResourcePackFactory) : Touched tp f f :=
  ⟨rfl,rfl,rfl,fun _ p h => ⟨p,h,.refl p⟩⟩

theorem Touched.trans {f g k : ResourcePackFactory} (h : Touched tp f g) (h' : Touched tp g k) :
    Touched tp f k := by
  refine ⟨h'.maxChunkSize.trans h.maxChunkSize,h'.packsById.trans h.packsById,h'.length.trans h.length,?_⟩
  intro i p hp
  obtain ⟨q,hq,hpq⟩ := h.packs i p hp
  obtain ⟨r,hr,hqr⟩ := h'.packs i q hq
  exact ⟨r,hr,hpq.trans hqr⟩

theorem Touched.back {f g : ResourcePackFactory} (h : Touched tp f g) {i : Nat} {q : ZippedResourcePack}
    (hq : g.packs[i]? = some q) : ∃ p, f.packs[i]? = some p ∧ p.Touched tp q := by
  have hlt : i < f.packs.length := by
    rw [← h.length]
    exact (List.getElem?_eq_some_iff.mp hq).1
  have hp := List.getElem?_eq_getElem hlt
  obtain ⟨q',hq',hpq⟩ := h.packs i _ hp
  cases hq.symm.trans hq'
  exact ⟨_,hp,hpq⟩

theorem Touched.set {f : ResourcePackFactory} {i : Nat} {p q : ZippedResourcePack}
    (hp : f.packs[i]? = some p) (h : p.Touched tp q) : Touched tp f { f with packs := f.packs.set i q } := by
  refine ⟨rfl,rfl,List.length_set,fun j r hr => ?_⟩
  by_cases hj : i = j
  · subst j
    have hi := (List.getElem?_eq_some_iff.mp hp).1
    rw [hp] at hr
    cases hr
    exact ⟨q,by simp [hi],h⟩
  · exact ⟨r,by simpa [List.getElem?_set,hj] using hr,.refl r⟩

end ResourcePackFactory

def NoSettings (packets : List Packet) : Prop :=
  ∀ packet ∈ packets, packet.body.getDef ≠ .networkSettings

/-- A datagram `sendInternal` writes for these packets in the mode of the session. -/
def Wraps (tp : ThirdParty) (s : NetworkSession) (packets : List Packet) (datagram : Bytes) : Prop :=
  ∃ out, NetworkSession.compressOutgoing tp s (packets.flatMap fun packet => packet.encode tp) = .ok out ∧
    datagram = 0xFE :: out

/-- What a session can do: its mode stays, a mark stays, what is sent goes to its own client in
its mode, and of the packs only streams and caches change. -/
structure Does (tp : ThirdParty) (w w' : World) : Prop where
  guid : w'.session.guid = w.session.guid
  compressionEnabled : w'.session.compressionEnabled = w.session.compressionEnabled
  compressor : w'.session.compressor = w.session.compressor
  encryptionEnabled : w'.session.encryptionEnabled = w.session.encryptionEnabled
  marked : w.session.markedForDisconnect = true → w'.session.markedForDisconnect = true
  queued : NoSettings w.session.sendQueue → NoSettings w'.session.sendQueue
  sent : ∃ datagrams : List Bytes,
    w'.server.sent = w.server.sent ++ datagrams.map (w.session.guid,·) ∧
    (w.session.encryptionEnabled = false → NoSettings w.session.sendQueue →
      ∀ d ∈ datagrams, ∃ packets, NoSettings packets ∧ Wraps tp w.session packets d)
  factory : w.server.factory.Touched tp w'.server.factory
  forceResources : w'.server.forceResources = w.server.forceResources

def Raises (w : World) (e : Fault) : Prop :=
  (w.session.compressionEnabled = true → w.session.compressor ≠ none) → e ≠ .undefined .uninitialised

variable {tp : ThirdParty}

theorem wraps_congr {s t : NetworkSession} (hc : t.compressionEnabled = s.compressionEnabled)
    (ha : t.compressor = s.compressor) {packets : List Packet} {d : Bytes} :
    Wraps tp t packets d ↔ Wraps tp s packets d := by
  simp [Wraps,NetworkSession.compressOutgoing,hc,ha]

theorem Does.refl (w : World) : Does tp w w :=
  ⟨rfl,rfl,rfl,rfl,id,id,⟨[],by simp,fun _ _ d hd => by simp at hd⟩,.refl _,rfl⟩

theorem Does.trans {u v w : World} (h : Does tp u v) (k : Does tp v w) : Does tp u w := by
  obtain ⟨ds,hds,hw⟩ := h.sent
  obtain ⟨es,hes,hw'⟩ := k.sent
  refine ⟨k.guid.trans h.guid,k.compressionEnabled.trans h.compressionEnabled,
    k.compressor.trans h.compressor,k.encryptionEnabled.trans h.encryptionEnabled,
    fun hm => k.marked (h.marked hm),fun hq => k.queued (h.queued hq),⟨ds ++ es,?_,?_⟩,
    h.factory.trans k.factory,k.forceResources.trans h.forceResources⟩
  · simp [hes,hds,h.guid]
  · intro he hq d hd
    rcases List.mem_append.mp hd with hd | hd
    · exact hw he hq d hd
    · obtain ⟨packets,hp,hwr⟩ := hw' (h.encryptionEnabled.trans he) (h.queued hq) d hd
      exact ⟨packets,hp,(wraps_congr h.compressionEnabled h.compressor).mp hwr⟩

theorem doesBound : Bound (Does tp) Raises :=
  ⟨Does.refl,fun _ _ _ => Does.trans,fun s t e h he hs => he (by
    rw [h.compressionEnabled,h.compressor]
    exact hs)⟩

theorem Does.session {w : World} {s : NetworkSession} (hg : s.guid = w.session.guid)
    (hc : s.compressionEnabled = w.session.compressionEnabled)
    (ha : s.compressor = w.session.compressor) (he : s.encryptionEnabled = w.session.encryptionEnabled)
    (hm : w.session.markedForDisconnect = true → s.markedForDisconnect = true)
    (hq : NoSettings w.session.sendQueue → NoSettings s.sendQueue) : Does tp w { w with session := s } :=
  ⟨hg,hc,ha,he,hm,hq,⟨[],by simp,fun _ _ d hd => by simp at hd⟩,.refl _,rfl⟩

theorem Does.send {w : World} {packets : List Packet} {d : Bytes}
    (hp : NoSettings w.session.sendQueue → NoSettings packets)
    (hd : w.session.encryptionEnabled = false → Wraps tp w.session packets d) :
    Does tp w { w with server := { w.server with sent := w.server.sent ++ [(w.session.guid,d)] } } := by
  refine ⟨rfl,rfl,rfl,rfl,id,id,⟨[d],by simp,?_⟩,.refl _,rfl⟩
  intro he hq d' hd'
  cases List.mem_singleton.mp hd'
  exact ⟨packets,hp hq,hd he⟩

theorem Does.cipher {w : World} (cipher : Option AesEncryptor) :
    Does tp w { w with session := { w.session with cipher } } :=
  Does.session rfl rfl rfl rfl id id

namespace NetworkSession

theorem within_modifySession {f : NetworkSession → NetworkSession}
    (hf : ∀ s, (f s).guid = s.guid ∧ (f s).compressionEnabled = s.compressionEnabled ∧
      (f s).compressor = s.compressor ∧ (f s).encryptionEnabled = s.encryptionEnabled ∧
      (s.markedForDisconnect = true → (f s).markedForDisconnect = true) ∧
      (NoSettings s.sendQueue → NoSettings (f s).sendQueue)) :
    Within (Does tp) Raises (modifySession f) := by
  intro w
  obtain ⟨hg,hc,ha,he,hm,hq⟩ := hf w.session
  exact Does.session hg hc ha he hm hq

theorem within_getSession : Within (Does tp) Raises getSession := fun w => Does.refl w

theorem within_getServer : Within (Does tp) Raises getServer := fun w => Does.refl w

theorem within_pure {α : Type} (a : α) : Within (Does tp) Raises (pure a : SessionM α) :=
  Within.returns doesBound a

theorem within_throw {α : Type} {e : Fault} (he : e ≠ .undefined .uninitialised) :
    Within (Does tp) Raises (throw e : SessionM α) := Within.raises doesBound fun _ _ => he

theorem within_fromExcept {α : Type} {x : Except Fault α} (h : ZippedResourcePack.Spares x) :
    Within (Does tp) Raises (fromExcept x : SessionM α) :=
  Within.excepts doesBound fun e he _ _ => h e he

theorem within_bind {α β : Type} {m : SessionM α} {f : α → SessionM β} (hm : Within (Does tp) Raises m)
    (hf : ∀ a, Within (Does tp) Raises (f a)) : Within (Does tp) Raises (m >>= f) :=
  Within.bind doesBound hm hf

theorem within_randomUUID : Within (Does tp) Raises randomUUID := by
  intro w
  exact ⟨rfl,rfl,rfl,rfl,id,id,⟨[],by simp,fun _ _ d hd => by simp at hd⟩,.refl _,rfl⟩

theorem within_callPack {α : Type} (i : Nat) {call : ZippedResourcePack.Call α}
    (h : Within (ZippedResourcePack.Touched tp) ZippedResourcePack.Faults call) :
    Within (Does tp) Raises (callPack i call) := by
  intro w
  unfold WithinAt callPack
  cases hp : w.server.factory.packs[i]? with
  | none => exact ⟨Does.refl w,fun _ => by simp⟩
  | some p =>
    have hdoes : ∀ q, p.Touched tp q → Does tp w { w with server := { w.server with
        factory := { w.server.factory with packs := w.server.factory.packs.set i q } } } := fun q hq =>
      ⟨rfl,rfl,rfl,rfl,id,id,⟨[],by simp,fun _ _ d hd => by simp at hd⟩,.set hp hq,rfl⟩
    cases hc : call p with
    | ok a q => simpa [hc] using hdoes q (h.ok hc)
    | error e q =>
      obtain ⟨hq,he⟩ := h.error hc
      simpa [hc] using ⟨hdoes q hq,fun _ => he⟩

theorem within_getPackSize (i : Nat) : Within (Does tp) Raises (getPackSize i) :=
  within_callPack i fun p => .refl p

theorem compressOutgoing_error {s : NetworkSession} {payload : Bytes} {e : Fault}
    (h : compressOutgoing tp s payload = .error e)
    (hs : s.compressionEnabled = true → s.compressor ≠ none) : e ≠ .undefined .uninitialised := by
  unfold compressOutgoing at h
  split at h
  · rename_i hmode
    split at h
    · rename_i hnone
      exact absurd hnone (hs hmode)
    · split at h
      · split at h
        · split at h <;> cases h
          simp
        · cases h
      · cases h
  · cases h

/-- The packets may be those of the queue. -/
theorem sendInternal_does {packets : List Packet} {w : World}
    (hp : NoSettings w.session.sendQueue → NoSettings packets) :
    WithinAt (Does tp) Raises (sendInternal tp (packets.flatMap fun packet => packet.encode tp)) w := by
  unfold WithinAt
  cases hout : compressOutgoing tp w.session (packets.flatMap fun packet => packet.encode tp) with
  | error e => simpa [sendInternal,bind_apply,hout] using ⟨Does.refl w,compressOutgoing_error hout⟩
  | ok out =>
    by_cases he : w.session.encryptionEnabled
    · cases hc : w.session.cipher with
      | none =>
        have hr : Raises w (.undefined .emptyOptional) := fun _ => by simp
        simpa [sendInternal,encryptOutgoing,bind_apply,hout,he,hc] using ⟨Does.refl w,hr⟩
      | some cipher =>
        cases hen : cipher.encrypt tp out with
        | mk data cipher' =>
          have hcipher : Does tp w { w with session := { w.session with cipher := some cipher' } } := Does.cipher _
          cases data with
          | none => simpa [sendInternal,encryptOutgoing,bind_apply,map_apply,hout,he,hc,hen] using hcipher
          | some data =>
            have hsend := hcipher.trans (Does.send (d:=0xFE :: data) hp fun hf => absurd hf (by simp [he]))
            simpa [sendInternal,encryptOutgoing,bind_apply,map_apply,hout,he,hc,hen] using hsend
    · have hsend : Does tp w { w with server := { w.server with
          sent := w.server.sent ++ [(w.session.guid,0xFE :: out)] } } := Does.send hp fun _ => ⟨out,hout,rfl⟩
      simpa [sendInternal,bind_apply,hout,he] using hsend

theorem within_sendInternal {packets : List Packet} (hp : NoSettings packets) :
    Within (Does tp) Raises (sendInternal tp (packets.flatMap fun packet => packet.encode tp)) :=
  fun _ => sendInternal_does fun _ => hp

theorem within_packs {f : NetworkSession → NetworkSession}
    (hf : ∀ s, ∃ loadedPacks packQueue pendingChunks currentPack queueProcessing,
      f s = { s with loadedPacks, packQueue, pendingChunks, currentPack, queueProcessing }) :
    Within (Does tp) Raises (modifySession f) := by
  refine within_modifySession fun s => ?_
  obtain ⟨l,p,c,k,b,h⟩ := hf s
  simp [h]

theorem within_markForDisconnect : Within (Does tp) Raises markForDisconnect :=
  within_modifySession fun _ => ⟨rfl,rfl,rfl,rfl,fun _ => rfl,id⟩

theorem within_send {packet : Packet} (hp : packet.body.getDef ≠ .networkSettings) (immediately : Bool) :
    Within (Does tp) Raises (send tp packet immediately) := by
  have hnone : NoSettings [packet] := fun p h => List.mem_singleton.mp h ▸ hp
  cases immediately with
  | true =>
    have hsend : Within (Does tp) Raises (sendInternal tp ([packet].flatMap fun packet => packet.encode tp)) :=
      within_sendInternal hnone
    simpa [send] using hsend
  | false =>
    change Within (Does tp) Raises (modifySession fun s => { s with sendQueue := s.sendQueue ++ [packet] })
    refine within_modifySession fun s => ⟨rfl,rfl,rfl,rfl,id,fun hq p h => ?_⟩
    rcases List.mem_append.mp h with h | h
    · exact hq p h
    · exact hnone p h

theorem within_flush : Within (Does tp) Raises (flush tp) := by
  intro w
  by_cases hempty : w.session.sendQueue = []
  · simpa [WithinAt,flush,bind_apply,hempty] using Does.refl w
  · have hsend : WithinAt (Does tp) Raises
        (sendInternal tp (w.session.sendQueue.flatMap fun packet => packet.encode tp)) w := sendInternal_does id
    have hclear : ∀ w' : World, Does tp w' { w' with session := { w'.session with sendQueue := [] } } :=
      fun w' => Does.session rfl rfl rfl rfl id fun _ p h => by simp at h
    cases hrun : sendInternal tp (w.session.sendQueue.flatMap fun packet => packet.encode tp) w with
    | ok a w' =>
      rw [WithinAt,hrun] at hsend
      simpa [WithinAt,flush,bind_apply,hempty,hrun] using hsend.trans (hclear w')
    | error e w' =>
      rw [WithinAt,hrun] at hsend
      simpa [WithinAt,flush,bind_apply,hempty,hrun] using hsend

theorem within_disconnectUserForIncompatibleProtocol (version : UInt32) :
    Within (Does tp) Raises (disconnectUserForIncompatibleProtocol tp version) := by
  refine within_bind (within_send ?_ true) fun _ => within_pure true
  simp [PacketBody.getDef]

theorem spares_ceilChunkCount (packSize maxChunkSize : Nat) :
    ZippedResourcePack.Spares (ceilChunkCount packSize maxChunkSize) := by
  unfold ceilChunkCount
  simp only
  split
  · exact ZippedResourcePack.Spares.ok _
  · exact ZippedResourcePack.Spares.error (by simp)

theorem spares_create (id : UUID) (pack maxChunk : Nat) (chunksCount : Int) :
    ZippedResourcePack.Spares (ResourcePackMeta.create id pack maxChunk chunksCount) := by
  unfold ResourcePackMeta.create
  split
  · exact ZippedResourcePack.Spares.error (by simp)
  · exact ZippedResourcePack.Spares.ok _

theorem within_infoEntry (i : Nat) : Within (Does tp) Raises (infoEntry tp i) := by
  refine within_bind (within_getPackSize i) fun _ => within_bind within_getServer fun server => ?_
  refine within_bind (within_fromExcept (spares_ceilChunkCount _ _)) fun _ => ?_
  refine within_bind (within_callPack i ZippedResourcePack.within_getPackId) fun _ => ?_
  refine within_bind (within_callPack i ZippedResourcePack.within_getPackVersion) fun _ => ?_
  exact within_bind (within_getPackSize i) fun _ => within_pure _

theorem within_infoEntries (defs : List Nat) : Within (Does tp) Raises (infoEntries tp defs) := by
  induction defs with
  | nil => exact within_pure _
  | cons d defs ih =>
    exact within_bind (within_infoEntry d) fun _ => within_bind ih fun _ => within_pure _

theorem within_doLoginSuccess : Within (Does tp) Raises (doLoginSuccess tp) := by
  refine within_bind (within_send (by simp [PacketBody.getDef]) false) fun _ => ?_
  refine within_bind within_getServer fun server => within_bind (within_infoEntries _) fun _ => ?_
  refine within_bind within_randomUUID fun _ => ?_
  exact within_send (by simp [PacketBody.getDef]) false

theorem within_handleLogin (version : UInt32) (authInfoJson clientDataJwt : Bytes) :
    Within (Does tp) Raises (handleLogin tp version authInfoJson clientDataJwt) := by
  unfold handleLogin
  split
  · exact within_bind (within_disconnectUserForIncompatibleProtocol version) fun _ => within_pure false
  · split
    · exact within_throw (by simp)
    · exact within_bind within_doLoginSuccess fun _ => within_pure true

theorem within_sendPacks (entries : List ResourcePackClientResponsePacket.Entry) :
    Within (Does tp) Raises (sendPacks tp entries) := by
  induction entries with
  | nil => exact within_pure ()
  | cons entry entries ih =>
    refine within_bind within_getServer fun server => ?_
    simp only
    split
    · exact within_markForDisconnect
    · rename_i i _
      refine within_bind (within_getPackSize i) fun _ => ?_
      refine within_bind (within_fromExcept (spares_ceilChunkCount _ _)) fun _ => ?_
      refine within_bind (within_callPack i ZippedResourcePack.within_getPackId) fun _ => ?_
      refine within_bind (within_fromExcept (spares_create _ _ _ _)) fun data => ?_
      refine within_bind (within_packs fun s => ⟨_,_,_,_,_,rfl⟩) fun _ => ?_
      refine within_bind (within_packs fun s => ⟨_,_,_,_,_,rfl⟩) fun _ => ?_
      refine within_bind (within_callPack i ZippedResourcePack.within_getPackId) fun _ => ?_
      refine within_bind (within_callPack i ZippedResourcePack.within_getPackVersion) fun _ => ?_
      refine within_bind (within_getPackSize i) fun _ => ?_
      refine within_bind (within_callPack i ZippedResourcePack.within_getSha256) fun _ => ?_
      exact within_bind (within_send (by simp [PacketBody.getDef]) true) fun _ => ih

theorem within_stackEntries (defs : List Nat) : Within (Does tp) Raises (stackEntries tp defs) := by
  induction defs with
  | nil => exact within_pure _
  | cons d defs ih =>
    refine within_bind (within_callPack d ZippedResourcePack.within_getPackId) fun _ => ?_
    refine within_bind (within_callPack d ZippedResourcePack.within_getPackVersion) fun _ => ?_
    exact within_bind ih fun _ => within_pure _

theorem within_handleResourcePackClientResponse (pk : ResourcePackClientResponsePacket) :
    Within (Does tp) Raises (handleResourcePackClientResponse tp pk) := by
  refine within_bind within_getServer fun server => ?_
  split
  · split
    · exact within_bind within_markForDisconnect fun _ => within_pure true
    · exact within_pure true
  · split
    · exact within_bind (within_sendPacks _) fun _ => within_pure true
    · split
      · refine within_bind (within_stackEntries _) fun _ => ?_
        exact within_bind (within_send (by simp [PacketBody.getDef]) true) fun _ => within_pure true
      · exact within_pure true

theorem within_findPack (packId : UUID) : Within (Does tp) Raises (findPack tp packId) := by
  refine within_bind within_getSession fun s => ?_
  split
  · exact within_pure _
  · refine within_bind within_getServer fun server => ?_
    simp only
    split
    · exact within_pure _
    · rename_i i _
      refine within_bind (within_getPackSize i) fun _ => ?_
      refine within_bind (within_callPack i ZippedResourcePack.within_getPackId) fun _ => ?_
      refine within_bind (within_fromExcept (spares_create _ _ _ _)) fun data => ?_
      exact within_bind (within_packs fun s => ⟨_,_,_,_,_,rfl⟩) fun _ => within_pure _

theorem within_processOne (packId : UUID) (idx : Int) :
    Within (Does tp) Raises (processOne tp packId idx) := by
  refine within_bind within_getSession fun s => ?_
  split
  · exact within_pure true
  · rename_i pack _
    split
    · exact within_bind within_markForDisconnect fun _ => within_pure false
    · split
      · exact within_throw (by simp)
      · split
        · exact within_pure true
        · refine within_bind (within_getPackSize _) fun _ => ?_
          refine within_bind (within_callPack _ (ZippedResourcePack.within_getPackChunkString _ _)) fun _ => ?_
          split
          · exact within_bind within_markForDisconnect fun _ => within_pure false
          · refine within_bind (within_callPack _ ZippedResourcePack.within_getPackVersion) fun _ => ?_
            refine within_bind (within_send (by simp [PacketBody.getDef]) true) fun _ => ?_
            refine within_bind (within_packs fun s => ⟨_,_,_,_,_,rfl⟩) fun _ => ?_
            split
            · exact within_bind (within_packs fun s => ⟨_,_,_,_,_,rfl⟩) fun _ => within_pure true
            · exact within_pure true

theorem within_drain (n : Nat) : Within (Does tp) Raises (drain tp n) := by
  induction n with
  | zero => exact within_pure ()
  | succ n ih =>
    refine within_bind within_getSession fun s => ?_
    split
    · exact within_pure ()
    · refine within_bind (within_packs fun s => ⟨_,_,_,_,_,rfl⟩) fun _ => ?_
      refine within_bind (within_processOne _ _) fun b => ?_
      split
      · exact ih
      · exact within_pure ()

theorem within_setQueueProcessing (b : Bool) : Within (Does tp) Raises (setQueueProcessing b) :=
  within_packs fun _ => ⟨_,_,_,_,_,rfl⟩

theorem within_processChunkQueue : Within (Does tp) Raises (processChunkQueue tp) := by
  refine within_bind within_getSession fun s => ?_
  split
  · exact within_pure ()
  · refine within_bind (within_setQueueProcessing true) fun _ => ?_
    refine within_bind ?_ fun _ => within_setQueueProcessing false
    exact Within.rethrow doesBound (within_drain _) (within_setQueueProcessing false)

theorem within_handleResourcePackChunkRequest (request : ResourcePackChunkRequestPacket) :
    Within (Does tp) Raises (handleResourcePackChunkRequest tp request) := by
  refine within_bind (within_findPack _) fun found => ?_
  split
  · exact within_bind within_markForDisconnect fun _ => within_pure true
  · refine within_bind within_getSession fun s => ?_
    split
    · exact within_throw (by simp)
    · refine within_bind (within_packs fun s => ?_) fun _ => ?_
      · unfold wantChunk
        split <;> exact ⟨_,_,_,_,_,rfl⟩
      refine within_bind (within_packs fun s => ⟨_,_,_,_,_,rfl⟩) fun _ => ?_
      exact within_bind within_processChunkQueue fun _ => within_pure true

/-- Every handler but the one that switches the compression on. -/
theorem within_handle {body : PacketBody} (h : body.getDef ≠ .requestNetworkSettings) :
    Within (Does tp) Raises (handle tp body) := by
  cases body with
  | requestNetworkSettings pk => simp [PacketBody.getDef] at h
  | login pk => exact within_handleLogin pk.protocol pk.authInfoJson pk.clientDataJwt
  | resourcePackChunkRequest pk => exact within_handleResourcePackChunkRequest pk
  | resourcePackClientResponse pk => exact within_handleResourcePackClientResponse pk
  | networkSettings pk => exact within_pure true
  | playStatus pk => exact within_pure true
  | serverToClientHandshake pk => exact within_pure true
  | clientCacheStatus pk => exact within_pure true
  | clientToServerHandshake => exact within_pure true
  | resourcePacksInfo pk => exact within_pure true
  | resourcePackChunkData pk => exact within_pure true
  | resourcePackDataInfo pk => exact within_pure true
  | resourcePackStack pk => exact within_pure true

variable (tp) in
theorem compressOutgoing_small {s : NetworkSession} {payload : Bytes}
    (hs : s.compressionEnabled = true → s.compressor ≠ none) (hsize : payload.length < defaultThreshold) :
    ∃ out, compressOutgoing tp s payload = .ok out := by
  unfold compressOutgoing
  split
  · rename_i hmode
    split
    · rename_i hnone
      exact absurd hnone (hs hmode)
    · split
      · rename_i comp _
        have hsmall : comp.shouldCompress payload.length = false := by
          simpa [Compressor.shouldCompress] using hsize
        simp [hsmall]
      · exact ⟨_,rfl⟩
  · exact ⟨_,rfl⟩

theorem send_small {packet : Packet} {w : World} (he : w.session.encryptionEnabled = false)
    (hs : w.session.compressionEnabled = true → w.session.compressor ≠ none)
    (hsize : (packet.encode tp).length < defaultThreshold) :
    ∃ d, Wraps tp w.session [packet] d ∧ send tp packet true w =
      .ok () { w with server := { w.server with sent := w.server.sent ++ [(w.session.guid,d)] } } := by
  obtain ⟨out,hout⟩ := compressOutgoing_small tp hs hsize
  refine ⟨0xFE :: out,⟨out,by simpa using hout,rfl⟩,?_⟩
  simpa [send] using sendInternal_plain he hout

theorem encode_small {packet : Packet} {payload : Bytes} (h : packet.body.encodePayload tp = some payload)
    (hsize : payload.length < 240) : (packet.encode tp).length < defaultThreshold := by
  have hframe := frame_length_le packet.body.getDef.networkId packet.subClientId payload
  simp only [Packet.encode,h,defaultThreshold]
  omega

variable (tp) in
theorem handleRequestNetworkSettings_supported {version : UInt32} {w : World}
    (hv : isSupportedProtocol version = true) (he : w.session.encryptionEnabled = false)
    (hs : w.session.compressionEnabled = true → w.session.compressor = some CompressionAlgorithm.ZLIB) :
    ∃ d, Wraps tp w.session [{ body := .networkSettings networkSettings }] d ∧
      handleRequestNetworkSettings tp version w = .ok true
        { session := { w.session with compressor := some CompressionAlgorithm.ZLIB, compressionEnabled := true },
          server := { w.server with sent := w.server.sent ++ [(w.session.guid,d)] } } := by
  let w' : World := { w with session := { w.session with compressor := some CompressionAlgorithm.ZLIB } }
  have hpayload : networkSettings.encodePayload.length < 240 := by decide
  have hsmall : (Packet.encode tp { body := .networkSettings networkSettings }).length < defaultThreshold :=
    encode_small rfl hpayload
  obtain ⟨d,⟨out,hout,hd⟩,hsend⟩ := send_small (w:=w') he (by simp [w']) hsmall
  refine ⟨d,⟨out,?_,hd⟩,?_⟩
  · rw [← hout]
    by_cases hmode : w.session.compressionEnabled
    · simp [compressOutgoing,w',hmode,hs hmode]
    · simp [compressOutgoing,w',hmode]
  · have hsession : modifySession (fun s => { s with compressor := some CompressionAlgorithm.ZLIB }) w =
        .ok () w' := rfl
    simp only [handleRequestNetworkSettings,hv,Bool.not_true,Bool.false_eq_true,if_false]
    rw [bind_ok hsession,bind_ok hsend]
    rfl

def refusal (version : UInt32) : Packet :=
  let status := if version < ProtocolInfo.currentProtocol then PlayStatus.LoginFailedClient
    else PlayStatus.LoginFailedServer
  { body := .playStatus { status } }

variable (tp) in
theorem disconnectUserForIncompatibleProtocol_ok (version : UInt32) {w : World}
    (he : w.session.encryptionEnabled = false) (hs : w.session.compressionEnabled = true → w.session.compressor ≠ none) :
    ∃ d, Wraps tp w.session [refusal version] d ∧ disconnectUserForIncompatibleProtocol tp version w =
      .ok true { w with server := { w.server with sent := w.server.sent ++ [(w.session.guid,d)] } } := by
  have hsmall : (Packet.encode tp (refusal version)).length < defaultThreshold := by
    refine encode_small rfl ?_
    simp [PlayStatusPacket.encodePayload,BinaryWriter.writeU32BE]
  obtain ⟨d,hd,hsend⟩ := send_small he hs hsmall
  exact ⟨d,hd,bind_ok hsend⟩

variable (tp) in
theorem handleRequestNetworkSettings_unsupported {version : UInt32} {w : World}
    (hv : isSupportedProtocol version = false) (he : w.session.encryptionEnabled = false)
    (hs : w.session.compressionEnabled = true → w.session.compressor ≠ none) :
    ∃ packet d, packet.body.getDef ≠ .networkSettings ∧ Wraps tp w.session [packet] d ∧
      handleRequestNetworkSettings tp version w = .ok false
        { w with server := { w.server with sent := w.server.sent ++ [(w.session.guid,d)] } } := by
  obtain ⟨d,hd,hrun⟩ := disconnectUserForIncompatibleProtocol_ok tp version he hs
  refine ⟨refusal version,d,?_,hd,?_⟩
  · simp [refusal,PacketBody.getDef]
  · simp only [handleRequestNetworkSettings,hv,Bool.not_false,if_true]
    exact bind_ok hrun

end NetworkSession

structure Keeps (tp : ThirdParty) (w w' : World) : Prop where
  guid : w'.session.guid = w.session.guid
  encryptionEnabled : w'.session.encryptionEnabled = w.session.encryptionEnabled
  marked : w.session.markedForDisconnect = true → w'.session.markedForDisconnect = true
  sent : ∃ datagrams : List Bytes, w'.server.sent = w.server.sent ++ datagrams.map (w.session.guid,·)
  factory : w.server.factory.Touched tp w'.server.factory
  forceResources : w'.server.forceResources = w.server.forceResources

theorem Does.keeps {w w' : World} (h : Does tp w w') : Keeps tp w w' := by
  obtain ⟨datagrams,hsent,-⟩ := h.sent
  exact ⟨h.guid,h.encryptionEnabled,h.marked,⟨datagrams,hsent⟩,h.factory,h.forceResources⟩

theorem Keeps.trans {u v w : World} (h : Keeps tp u v) (k : Keeps tp v w) : Keeps tp u w := by
  obtain ⟨ds,hds⟩ := h.sent
  obtain ⟨es,hes⟩ := k.sent
  exact ⟨k.guid.trans h.guid,k.encryptionEnabled.trans h.encryptionEnabled,fun hm => k.marked (h.marked hm),
    ⟨ds ++ es,by simp [hes,hds,h.guid]⟩,h.factory.trans k.factory,k.forceResources.trans h.forceResources⟩

theorem keepsBound : Bound (Keeps tp) fun _ (_ : Fault) => True :=
  ⟨fun w => (Does.refl w).keeps,fun _ _ _ => Keeps.trans,fun _ _ _ _ _ => trivial⟩

theorem Keeps.mode (w : World) (compressor : Option CompressionAlgorithm) (compressionEnabled : Bool) :
    Keeps tp w { w with session := { w.session with compressor, compressionEnabled } } :=
  ⟨rfl,rfl,id,⟨[],by simp⟩,.refl _,rfl⟩

namespace NetworkSession

def Sends (w w' : World) : Prop :=
  ∃ (cipher : Option AesEncryptor) (datagrams : List Bytes),
    w' = { session := { w.session with cipher },
           server := { w.server with sent := w.server.sent ++ datagrams.map (w.session.guid,·) } }

theorem Sends.refl (w : World) : Sends w w := ⟨w.session.cipher,[],by simp⟩

theorem within_sends (payload : Bytes) : Within Sends (fun _ _ => True) (sendInternal tp payload) := by
  intro w
  cases hout : compressOutgoing tp w.session payload with
  | error e => simpa [WithinAt,sendInternal,bind_apply,hout] using Sends.refl w
  | ok out =>
    by_cases he : w.session.encryptionEnabled
    · cases hc : w.session.cipher with
      | none => simpa [WithinAt,sendInternal,encryptOutgoing,bind_apply,hout,he,hc] using Sends.refl w
      | some cipher =>
        cases hen : cipher.encrypt tp out with
        | mk data cipher' =>
          cases data with
          | none =>
            have hs : Sends w { w with session := { w.session with cipher := some cipher' } } :=
              ⟨some cipher',[],by simp⟩
            simpa [WithinAt,sendInternal,encryptOutgoing,bind_apply,map_apply,hout,he,hc,hen] using hs
          | some data =>
            have hs : Sends w { session := { w.session with cipher := some cipher' },
                                server := { w.server with
                                  sent := w.server.sent ++ [(w.session.guid,0xFE :: data)] } } :=
              ⟨some cipher',[0xFE :: data],rfl⟩
            simpa [WithinAt,sendInternal,encryptOutgoing,bind_apply,map_apply,hout,he,hc,hen] using hs
    · have hs : Sends w { w with server := { w.server with
            sent := w.server.sent ++ [(w.session.guid,0xFE :: out)] } } :=
        ⟨w.session.cipher,[0xFE :: out],rfl⟩
      simpa [WithinAt,sendInternal,bind_apply,hout,he] using hs

theorem keeps_sendInternal (payload : Bytes) :
    Within (Keeps tp) (fun _ _ => True) (sendInternal tp payload) := by
  refine (within_sends payload).mono (fun w w' h => ?_) fun _ _ h => h
  obtain ⟨cipher,datagrams,rfl⟩ := h
  exact ⟨rfl,rfl,id,⟨datagrams,rfl⟩,.refl _,rfl⟩

theorem keeps_handleRequestNetworkSettings (version : UInt32) :
    Within (Keeps tp) (fun _ _ => True) (handleRequestNetworkSettings tp version) := by
  unfold handleRequestNetworkSettings
  split
  · refine Within.bind keepsBound ?_ fun _ => Within.returns keepsBound false
    exact (within_disconnectUserForIncompatibleProtocol version).mono (fun _ _ => Does.keeps) fun _ _ _ => trivial
  · have hzlib : Within (Keeps tp) (fun _ (_ : Fault) => True)
        (modifySession fun s => { s with compressor := some CompressionAlgorithm.ZLIB }) :=
      fun w => Keeps.mode w _ w.session.compressionEnabled
    have hon : Within (Keeps tp) (fun _ (_ : Fault) => True)
        (modifySession fun s => { s with compressionEnabled := true }) :=
      fun w => Keeps.mode w w.session.compressor true
    refine Within.bind keepsBound hzlib fun _ => Within.bind keepsBound (keeps_sendInternal _) fun _ => ?_
    exact Within.bind keepsBound hon fun _ => Within.returns keepsBound true

theorem keeps_handle (body : PacketBody) : Within (Keeps tp) (fun _ _ => True) (handle tp body) := by
  by_cases h : body.getDef = .requestNetworkSettings
  · cases body with
    | requestNetworkSettings pk => exact keeps_handleRequestNetworkSettings pk.protocolVersion
    | _ => simp [PacketBody.getDef] at h
  · exact (within_handle h).mono (fun _ _ => Does.keeps) fun _ _ _ => trivial

theorem tick_session {w w' : World} (h : tick tp w = .ok () w') :
    ∃ cipher sendQueue, w'.session = { w.session with cipher, sendQueue } := by
  by_cases hempty : w.session.sendQueue = []
  · simp only [tick,flush,bind_apply,getSession_apply,hempty,List.isEmpty_nil,if_true,pure_apply,
      EStateM.Result.ok.injEq] at h
    exact ⟨w.session.cipher,w.session.sendQueue,by rw [h.2]⟩
  · simp only [tick,flush,bind_apply,getSession_apply,List.isEmpty_iff,hempty,if_false] at h
    cases hrun : sendInternal tp (w.session.sendQueue.flatMap fun packet => packet.encode tp) w with
    | error e u => simp [hrun] at h
    | ok a u =>
      obtain ⟨cipher,datagrams,rfl⟩ := (within_sends _).ok hrun
      simp only [hrun,modifySession_apply,EStateM.Result.ok.injEq,true_and] at h
      exact ⟨cipher,[],by rw [← h]⟩

end NetworkSession

end CyrexMC
