import CyrexMC.Session.Download
set_option autoImplicit false

namespace CyrexMC
open Stateful

variable {tp : ThirdParty}

namespace ZippedResourcePack

theorem Touched.getPackId_returns {p₀ p : ZippedResourcePack} (hp : p₀.Touched tp p)
    (hid : p₀.id ≠ UUID.nil ∨ (p₀.parsedId tp).isSome) :
    ∃ id q, getPackId tp p = .ok id q ∧ p.Touched tp q ∧ q.fileStream = p.fileStream := by
  have hparse : p.id.isNil = true → ∃ id, p.parsedId tp = some id := by
    intro hnil
    have hnone : p.id = UUID.nil := by simpa [UUID.isNil] using hnil
    rw [hp.parsedId]
    rcases hp.id with hsame | ⟨-,hcached⟩
    · rw [hsame] at hnone
      exact Option.isSome_iff_exists.mp (hid.resolve_left (not_not_intro hnone))
    · exact ⟨p.id,hcached⟩
  have hok : ∃ id q, getPackId tp p = .ok id q ∧ q.fileStream = p.fileStream := by
    rw [getPackId_apply]
    cases hnil : p.id.isNil with
    | false => exact ⟨p.id,p,rfl,rfl⟩
    | true =>
      obtain ⟨id,hid⟩ := hparse hnil
      unfold ZippedResourcePack.parsedId at hid
      cases hstr : headerUuid p.manifest with
      | error e => simp [hstr] at hid
      | ok str =>
        simp only [hstr] at hid
        exact ⟨id,{ p with id },by simp [hid],rfl⟩
  obtain ⟨id,q,hq,hsame⟩ := hok
  exact ⟨id,q,hq,within_getPackId.ok hq,hsame⟩

theorem Touched.getPackVersion_returns {p₀ p : ZippedResourcePack} (hp : p₀.Touched tp p) {packVersion : Bytes}
    (hversion : headerVersion p₀.manifest = .ok packVersion) : getPackVersion p = .ok packVersion p := by
  rw [getPackVersion_apply,hp.manifest,hversion]

def chunkCount (maxChunkSize : ChunkSize) (p : ZippedResourcePack) : Nat :=
  (p.getPackSize+maxChunkSize.val-1)/maxChunkSize.val

/-- The count in floating point comes out right. -/
def Counted (maxChunkSize : ChunkSize) (p : ZippedResourcePack) : Prop :=
  ceilChunkCount p.getPackSize maxChunkSize.val = .ok (p.chunkCount maxChunkSize : Int)

/-- The count in floating point leads to no chunk behind the end of the file. -/
def CountedWithin (maxChunkSize : ChunkSize) (p : ZippedResourcePack) : Prop :=
  ∀ count, ceilChunkCount p.getPackSize maxChunkSize.val = .ok count → count ≤ p.chunkCount maxChunkSize

theorem Counted.within {maxChunkSize : ChunkSize} {p : ZippedResourcePack} (h : p.Counted maxChunkSize) :
    p.CountedWithin maxChunkSize := by
  intro count hcount
  rw [h] at hcount
  cases hcount
  exact le_refl _

/-- The manifest gives an id and a version, and the chunk counts fit an `int`. -/
structure Usable (tp : ThirdParty) (maxChunkSize : ChunkSize) (p : ZippedResourcePack) : Prop where
  id : p.id ≠ UUID.nil ∨ (p.parsedId tp).isSome
  version : ∃ packVersion, headerVersion p.manifest = .ok packVersion
  fits : p.chunkCount maxChunkSize < 2^31
  rounded : ∃ count, ceilChunkCount p.getPackSize maxChunkSize.val = .ok count

/-- Below 2^53 bytes the two ways of counting agree. -/
theorem counted_of_small {maxChunkSize : ChunkSize} {p : ZippedResourcePack} (hsize : p.getPackSize < 2^53)
    (hfits : p.chunkCount maxChunkSize < 2^31) : p.Counted maxChunkSize := by
  have hcount : Binary64.ceilDiv (Binary64.ofNat p.getPackSize) maxChunkSize.val = p.chunkCount maxChunkSize := by
    rw [Binary64.ofNat_exact hsize,Binary64.ceilDiv_exact maxChunkSize.pos hsize]
    rfl
  simp only [Counted,ceilChunkCount,hcount,hfits,if_true]

theorem roundedChunkCount_eq {maxChunkSize : ChunkSize} {p : ZippedResourcePack}
    (hfits : p.chunkCount maxChunkSize < 2^31) :
    roundedChunkCount p.getPackSize maxChunkSize.val = p.chunkCount maxChunkSize :=
  roundedChunkCount_of_fits hfits

end ZippedResourcePack

structure ResourcePackFactory.Ready (tp : ThirdParty) (f : ResourcePackFactory) : Prop where
  indexed : f.Indexed tp
  usable : ∀ p ∈ f.packs, p.Usable tp f.maxChunkSize

structure Serving (tp : ThirdParty) (f₀ : ResourcePackFactory) (server : Server) : Prop where
  touched : f₀.Touched tp server.factory
  streams : ∀ p ∈ server.factory.packs, p.fileStream.failbit = false

/-- A meta whose chunks are all within the file of its pack. -/
def ResourcePackMeta.Of (f₀ : ResourcePackFactory) (m : ResourcePackMeta) : Prop :=
  (m.chunks.length : Int) = m.chunkCount ∧ m.maxChunkSize = f₀.maxChunkSize.val ∧
    ∃ p, f₀.packs[m.pack]? = some p ∧ m.chunkCount ≤ p.chunkCount f₀.maxChunkSize

/-- The session sends plainly, and its metas are those of the packs of `f₀`. -/
structure NetworkSession.Sound (f₀ : ResourcePackFactory) (s : NetworkSession) : Prop where
  plain : s.encryptionEnabled = false
  mode : s.compressionEnabled = true → s.compressor = some CompressionAlgorithm.ZLIB
  metas : ∀ id m, s.loadedPacks id = some m → m.Of f₀

structure Good (tp : ThirdParty) (f₀ : ResourcePackFactory) (w : World) : Prop where
  session : w.session.Sound f₀
  server : Serving tp f₀ w.server

/-- What libdeflate promises of a buffer of the bound. -/
def Deflates (tp : ThirdParty) : Prop :=
  ∀ input, tp.deflateCompress input (tp.deflateCompressBound input.length) ≠ []

theorem NetworkSession.Sound.congr {f₀ : ResourcePackFactory} {s t : NetworkSession} (h : s.Sound f₀)
    (hl : t.loadedPacks = s.loadedPacks) (he : t.encryptionEnabled = s.encryptionEnabled)
    (hm : t.compressionEnabled = true → t.compressor = some CompressionAlgorithm.ZLIB) : t.Sound f₀ :=
  ⟨he.trans h.plain,hm,by rw [hl]; exact h.metas⟩

namespace NetworkSession

section

variable {f₀ : ResourcePackFactory} (hready : f₀.Ready tp) (hdeflates : Deflates tp)

theorem total_modifySession {f : NetworkSession → NetworkSession} (h : ∀ s, s.Sound f₀ → (f s).Sound f₀) :
    Total (Good tp f₀) (fun _ => True) (modifySession f) :=
  Total.update fun _ hw => ⟨h _ hw.session,hw.server⟩

theorem total_getServer :
    Total (Good tp f₀) (fun server => Serving tp f₀ server) getServer :=
  fun w hw => ⟨w.server,w,rfl,hw.server,hw⟩

theorem total_getSession : Total (Good tp f₀) (fun s => s.Sound f₀) getSession :=
  fun w hw => ⟨w.session,w,rfl,hw.session,hw⟩

theorem total_callPack {α : Type} {i : Nat} {p₀ : ZippedResourcePack} {call : ZippedResourcePack.Call α}
    {Q : α → Prop} (hi : f₀.packs[i]? = some p₀)
    (hcall : ∀ p, p₀.Touched tp p → p.fileStream.failbit = false →
      ∃ a q, call p = .ok a q ∧ Q a ∧ p.Touched tp q ∧ q.fileStream.failbit = false) :
    Total (Good tp f₀) Q (callPack i call) := by
  intro w hw
  obtain ⟨p,hp,hpp⟩ := hw.server.touched.packs i p₀ hi
  have hstream := hw.server.streams p (List.mem_of_getElem? hp)
  obtain ⟨a,q,hc,hq,hpq,hstream'⟩ := hcall p hpp hstream
  let factory := { w.server.factory with packs := w.server.factory.packs.set i q }
  have hrun : callPack i call w = .ok a { w with server := { w.server with factory } } := by
    simp only [callPack,hp,hc,factory]
  have hstreams : ∀ r ∈ factory.packs, r.fileStream.failbit = false := by
    intro r hr
    rcases List.mem_or_eq_of_mem_set hr with hr | rfl
    · exact hw.server.streams r hr
    · exact hstream'
  exact ⟨a,_,hrun,hq,hw.session,hw.server.touched.trans (.set hp hpq),hstreams⟩

theorem total_getPackSize {i : Nat} {p₀ : ZippedResourcePack} (hi : f₀.packs[i]? = some p₀) :
    Total (Good tp f₀) (fun n => n = p₀.getPackSize) (getPackSize i) :=
  total_callPack hi fun p hp hstream =>
    ⟨p.getPackSize,p,rfl,hp.getPackSize,.refl p,hstream⟩

include hready in
theorem total_getPackId {i : Nat} {p₀ : ZippedResourcePack} (hi : f₀.packs[i]? = some p₀) :
    Total (Good tp f₀) (fun _ => True) (callPack i (ZippedResourcePack.getPackId tp)) := by
  apply total_callPack hi
  intro p hp hstream
  obtain ⟨a,q,hq,hpq,hsame⟩ := hp.getPackId_returns (hready.usable p₀ (List.mem_of_getElem? hi)).id
  exact ⟨a,q,hq,trivial,hpq,by rw [hsame]; exact hstream⟩

include hready in
theorem total_getPackVersion {i : Nat} {p₀ : ZippedResourcePack} (hi : f₀.packs[i]? = some p₀) :
    Total (Good tp f₀) (fun _ => True) (callPack i ZippedResourcePack.getPackVersion) := by
  apply total_callPack hi
  intro p hp hstream
  obtain ⟨packVersion,hversion⟩ := (hready.usable p₀ (List.mem_of_getElem? hi)).version
  exact ⟨packVersion,p,hp.getPackVersion_returns hversion,trivial,.refl p,hstream⟩

theorem total_getSha256 {i : Nat} {p₀ : ZippedResourcePack} (hi : f₀.packs[i]? = some p₀) :
    Total (Good tp f₀) (fun _ => True) (callPack i (ZippedResourcePack.getSha256 tp)) := by
  apply total_callPack hi
  intro p hp hstream
  have hq := ZippedResourcePack.getSha256_apply tp p
  exact ⟨_,_,hq,trivial,ZippedResourcePack.within_getSha256.ok hq,hstream⟩

include hdeflates in
/-- A session whose compressor is assigned whenever it is used can write every payload. -/
theorem compressOutgoing_ok {s : NetworkSession} (hs : s.compressionEnabled = true → s.compressor ≠ none)
    (payload : Bytes) : ∃ out, compressOutgoing tp s payload = .ok out := by
  have hcompress : ∀ comp : Compressor, ∃ out, comp.compress tp payload = some out := by
    intro comp
    cases comp with
    | zlib => exact ⟨_,by simp [Compressor.compress,ZlibCompressor.compress,hdeflates payload]; rfl⟩
    | snappy => exact ⟨_,rfl⟩
  unfold compressOutgoing
  split
  · rename_i hmode
    split
    · rename_i hnone
      exact absurd hnone (hs hmode)
    · split
      · rename_i comp _
        obtain ⟨out,hout⟩ := hcompress comp
        split
        · exact ⟨_,by simp only [hout]; rfl⟩
        · exact ⟨_,rfl⟩
      · exact ⟨_,rfl⟩
  · exact ⟨_,rfl⟩

include hdeflates in
theorem compressOutgoing_returns {s : NetworkSession} (h : s.Sound f₀) (payload : Bytes) :
    ∃ out, compressOutgoing tp s payload = .ok out :=
  compressOutgoing_ok hdeflates (fun hmode => by simp [h.mode hmode]) payload

include hdeflates in
theorem total_sendInternal (payload : Bytes) : Total (Good tp f₀) (fun _ => True) (sendInternal tp payload) := by
  intro w hw
  obtain ⟨out,hout⟩ := compressOutgoing_returns hdeflates hw.session payload
  exact ⟨(),_,sendInternal_plain hw.session.plain hout,trivial,hw.session,hw.server.touched,hw.server.streams⟩

include hdeflates in
theorem total_send (packet : Packet) (immediately : Bool) :
    Total (Good tp f₀) (fun _ => True) (send tp packet immediately) := by
  cases immediately with
  | true => exact total_sendInternal hdeflates _
  | false =>
    change Total _ _ (modifySession fun s => { s with sendQueue := s.sendQueue ++ [packet] })
    exact total_modifySession fun s hs => hs.congr rfl rfl hs.mode

theorem total_markForDisconnect : Total (Good tp f₀) (fun _ => True) markForDisconnect :=
  total_modifySession fun _ hs => hs.congr rfl rfl hs.mode

include hdeflates in
theorem total_disconnectUserForIncompatibleProtocol (version : UInt32) :
    Total (Good tp f₀) (fun _ => True) (disconnectUserForIncompatibleProtocol tp version) :=
  Total.bind (total_send hdeflates _ true) fun _ _ => Total.returns trivial

include hdeflates in
theorem total_handleRequestNetworkSettings (version : UInt32) :
    Total (Good tp f₀) (fun b => b = isSupportedProtocol version) (handleRequestNetworkSettings tp version) := by
  cases hv : isSupportedProtocol version with
  | false =>
    simp only [handleRequestNetworkSettings,hv,Bool.not_false,if_true]
    exact Total.bind (total_disconnectUserForIncompatibleProtocol hdeflates version) fun _ _ => Total.returns rfl
  | true =>
    intro w hw
    obtain ⟨d,-,hrun⟩ := handleRequestNetworkSettings_supported tp hv hw.session.plain hw.session.mode
    exact ⟨true,_,hrun,rfl,hw.session.congr rfl rfl fun _ => rfl,hw.server.touched,hw.server.streams⟩

include hready in
theorem total_infoEntry {i : Nat} {p₀ : ZippedResourcePack} (hi : f₀.packs[i]? = some p₀) :
    Total (Good tp f₀) (fun _ => True) (infoEntry tp i) := by
  refine Total.bind (total_getPackSize hi) fun packSize hsize => ?_
  refine Total.bind total_getServer fun server hserver => ?_
  obtain ⟨count,hcount⟩ := (hready.usable p₀ (List.mem_of_getElem? hi)).rounded
  rw [← hserver.touched.maxChunkSize,← hsize] at hcount
  refine Total.bind (Total.excepts (Q:=fun _ => True) hcount trivial) fun _ _ => ?_
  refine Total.bind (total_getPackId hready hi) fun _ _ => ?_
  refine Total.bind (total_getPackVersion hready hi) fun _ _ => ?_
  exact Total.bind (total_getPackSize hi) fun _ _ => Total.returns trivial

include hready in
theorem total_infoEntries {defs : List Nat} (h : ∀ d ∈ defs, d < f₀.packs.length) :
    Total (Good tp f₀) (fun _ => True) (infoEntries tp defs) := by
  induction defs with
  | nil => exact Total.returns trivial
  | cons d defs ih =>
    refine Total.bind (total_infoEntry hready (List.getElem?_eq_getElem (h d (by simp)))) fun _ _ => ?_
    exact Total.bind (ih fun e he => h e (by simp [he])) fun _ _ => Total.returns trivial

include hready in
theorem total_stackEntries {defs : List Nat} (h : ∀ d ∈ defs, d < f₀.packs.length) :
    Total (Good tp f₀) (fun _ => True) (stackEntries tp defs) := by
  induction defs with
  | nil => exact Total.returns trivial
  | cons d defs ih =>
    have hd := List.getElem?_eq_getElem (h d (by simp))
    refine Total.bind (total_getPackId hready hd) fun _ _ => ?_
    refine Total.bind (total_getPackVersion hready hd) fun _ _ => ?_
    exact Total.bind (ih fun e he => h e (by simp [he])) fun _ _ => Total.returns trivial

theorem getResourceStack_lt {server : Server} (h : Serving tp f₀ server) :
    ∀ d ∈ server.factory.getResourceStack, d < f₀.packs.length := by
  intro d hd
  rw [← h.touched.length]
  exact List.mem_range.mp hd

include hready hdeflates in
theorem total_doLoginSuccess : Total (Good tp f₀) (fun _ => True) (doLoginSuccess tp) := by
  have hrandom : Total (Good tp f₀) (fun _ => True) randomUUID :=
    fun w hw => ⟨_,_,rfl,trivial,hw.session,hw.server.touched,hw.server.streams⟩
  refine Total.bind (total_send hdeflates _ false) fun _ _ => ?_
  refine Total.bind total_getServer fun server hserver => ?_
  refine Total.bind (total_infoEntries hready (getResourceStack_lt hserver)) fun _ _ => ?_
  exact Total.bind hrandom fun _ _ => total_send hdeflates _ false

include hready hdeflates in
theorem total_handleLogin {version : UInt32} {authInfoJson : Bytes} (clientDataJwt : Bytes)
    (h : isSupportedProtocol version = true → tp.jsonAccepts authInfoJson = true) :
    Total (Good tp f₀) (fun b => b = isSupportedProtocol version)
      (handleLogin tp version authInfoJson clientDataJwt) := by
  unfold handleLogin
  cases hv : isSupportedProtocol version with
  | false =>
    exact Total.bind (total_disconnectUserForIncompatibleProtocol hdeflates version) fun _ _ => Total.returns rfl
  | true =>
    simp only [h hv,Bool.not_true,Bool.false_eq_true,if_false]
    exact Total.bind (total_doLoginSuccess hready hdeflates) fun _ _ => Total.returns rfl

theorem Sound.update {s : NetworkSession} (h : s.Sound f₀) {id : UUID} {m : ResourcePackMeta} (hm : m.Of f₀) :
    (withPack id m s).Sound f₀ := by
  constructor
  · exact h.plain
  · exact h.mode
  · intro x m' hx
    by_cases hid : x = id
    · subst hid
      have heq : m = m' := by simpa [withPack] using hx
      rwa [← heq]
    · exact h.metas x m' (by simpa [withPack,hid] using hx)

theorem total_emplacePack {id : UUID} {m : ResourcePackMeta} (hm : m.Of f₀) :
    Total (Good tp f₀) (fun _ => True) (modifySession (emplacePack id m)) := by
  apply total_modifySession
  intro s hs
  cases hloaded : s.loadedPacks id with
  | some m' => rwa [emplacePack_some hloaded]
  | none =>
    rw [emplacePack_none hloaded]
    exact hs.update hm

theorem total_create {i : Nat} {p₀ : ZippedResourcePack} (hi : f₀.packs[i]? = some p₀) (id : UUID) {count : Int}
    (hnonneg : 0 ≤ count) (hwithin : count ≤ p₀.chunkCount f₀.maxChunkSize) :
    Total (Good tp f₀) (fun m => m.Of f₀)
      (fromExcept (ResourcePackMeta.create id i f₀.maxChunkSize.val count)) := by
  cases hm : ResourcePackMeta.create id i f₀.maxChunkSize.val count with
  | error e =>
    unfold ResourcePackMeta.create at hm
    rw [if_neg (Int.not_lt.mpr hnonneg)] at hm
    cases hm
  | ok m =>
    obtain ⟨-,hmeta⟩ := ResourcePackMeta.create_ok hm
    have hlength := (ResourcePackMeta.create_wellFormed hm).1.length
    exact Total.excepts rfl ⟨hlength,by rw [hmeta],p₀,by rw [hmeta]; exact hi,by rw [hmeta]; exact hwithin⟩

def Announces (f₀ : ResourcePackFactory) (Q : ZippedResourcePack → Prop) :
    List ResourcePackClientResponsePacket.Entry → Prop
  | [] => True
  | entry :: entries =>
    match f₀.getPackById entry.uuid with
    | none => True
    | some i => (∀ p, f₀.packs[i]? = some p → Q p) ∧ Announces f₀ Q entries

theorem announces_of_all {Q : ZippedResourcePack → Prop} (h : ∀ p ∈ f₀.packs, Q p)
    (entries : List ResourcePackClientResponsePacket.Entry) : Announces f₀ Q entries := by
  induction entries with
  | nil => trivial
  | cons entry entries ih =>
    unfold Announces
    split
    · trivial
    · exact ⟨fun p hp => h p (List.mem_of_getElem? hp),ih⟩

theorem Announces.mono {Q Q' : ZippedResourcePack → Prop} (hQ : ∀ p, Q p → Q' p)
    {entries : List ResourcePackClientResponsePacket.Entry} (h : Announces f₀ Q entries) :
    Announces f₀ Q' entries := by
  induction entries with
  | nil => trivial
  | cons entry entries ih =>
    unfold Announces at h ⊢
    split
    · trivial
    · rename_i i hi
      simp only [hi] at h
      exact ⟨fun p hp => hQ p (h.1 p hp),ih h.2⟩

include hready hdeflates in
theorem total_sendPacks {entries : List ResourcePackClientResponsePacket.Entry}
    (h : Announces f₀ (fun p => p.CountedWithin f₀.maxChunkSize) entries) :
    Total (Good tp f₀) (fun _ => True) (sendPacks tp entries) := by
  induction entries with
  | nil => exact Total.returns trivial
  | cons entry entries ih =>
    refine Total.bind total_getServer fun server hserver => ?_
    simp only [hserver.touched.getPackById,hserver.touched.maxChunkSize]
    cases hi : f₀.getPackById entry.uuid with
    | none => exact total_markForDisconnect
    | some i =>
      simp only [Announces,hi] at h
      obtain ⟨p₀,hp₀,-,-⟩ := hready.indexed entry.uuid i hi
      obtain ⟨count,hcount⟩ := (hready.usable p₀ (List.mem_of_getElem? hp₀)).rounded
      have hwithin := h.1 p₀ hp₀ count hcount
      have hnonneg : 0 ≤ count := by
        have hzip := p₀.fileZip
        have hpos := ceilChunkCount_pos (show 0 < p₀.getPackSize by unfold ZippedResourcePack.getPackSize; omega) hcount
        omega
      refine Total.bind (total_getPackSize hp₀) fun packSize hsize => ?_
      subst hsize
      refine Total.bind (Total.excepts (Q:=fun c => c = count) hcount rfl) fun chunkCount hc => ?_
      subst hc
      refine Total.bind (total_getPackId hready hp₀) fun packId _ => ?_
      refine Total.bind (total_create hp₀ packId hnonneg hwithin) fun m hm => ?_
      refine Total.bind (total_modifySession fun s hs => hs.congr rfl rfl hs.mode) fun _ _ => ?_
      refine Total.bind (total_emplacePack hm) fun _ _ => ?_
      refine Total.bind (total_getPackId hready hp₀) fun _ _ => ?_
      refine Total.bind (total_getPackVersion hready hp₀) fun _ _ => ?_
      refine Total.bind (total_getPackSize hp₀) fun _ _ => ?_
      refine Total.bind (total_getSha256 hp₀) fun _ _ => ?_
      exact Total.bind (total_send hdeflates _ true) fun _ _ => ih h.2

include hready hdeflates in
theorem total_handleResourcePackClientResponse (pk : ResourcePackClientResponsePacket)
    (h : Announces f₀ (fun p => p.CountedWithin f₀.maxChunkSize) pk.packEntries) :
    Total (Good tp f₀) (fun b => b = true) (handleResourcePackClientResponse tp pk) := by
  refine Total.bind total_getServer fun server hserver => ?_
  split
  · split
    · exact Total.bind total_markForDisconnect fun _ _ => Total.returns rfl
    · exact Total.returns rfl
  · split
    · exact Total.bind (total_sendPacks hready hdeflates h) fun _ _ => Total.returns rfl
    · split
      · refine Total.bind (total_stackEntries hready (getResourceStack_lt hserver)) fun _ _ => ?_
        exact Total.bind (total_send hdeflates _ true) fun _ _ => Total.returns rfl
      · exact Total.returns rfl

include hready in
theorem total_findPack (id : UUID) : Total (Good tp f₀) (fun _ => True) (findPack tp id) := by
  refine Total.bind total_getSession fun s _ => ?_
  cases s.loadedPacks id with
  | some m => exact Total.returns trivial
  | none =>
    refine Total.bind total_getServer fun server hserver => ?_
    simp only [hserver.touched.getPackById,hserver.touched.maxChunkSize]
    cases hi : f₀.getPackById id with
    | none => exact Total.returns trivial
    | some i =>
      obtain ⟨p₀,hp₀,-,-⟩ := hready.indexed id i hi
      have hcount := ZippedResourcePack.roundedChunkCount_eq
        (hready.usable p₀ (List.mem_of_getElem? hp₀)).fits
      refine Total.bind (total_getPackSize hp₀) fun packSize hsize => ?_
      subst hsize
      simp only [hcount]
      refine Total.bind (total_getPackId hready hp₀) fun packId _ => ?_
      refine Total.bind (total_create hp₀ packId (Int.natCast_nonneg _) (le_refl _)) fun m hm => ?_
      exact Total.bind (total_emplacePack hm) fun _ _ => Total.returns trivial

theorem chunk_within {m : ResourcePackMeta} {p : ZippedResourcePack} {idx : Int}
    (hmax : m.maxChunkSize = f₀.maxChunkSize.val) (hcount : m.chunkCount ≤ p.chunkCount f₀.maxChunkSize)
    (hin : 0 ≤ idx ∧ idx < m.chunkCount) :
    idx.toNat*m.maxChunkSize%2^64 = idx.toNat*m.maxChunkSize ∧ idx.toNat*m.maxChunkSize < p.file.length ∧
    (p.getPackSize+2^64-idx.toNat*m.maxChunkSize)%2^64 = p.file.length-idx.toNat*m.maxChunkSize := by
  have hpos := f₀.maxChunkSize.pos
  have hfits := p.fileFits
  have hlt : idx.toNat < (p.file.length+f₀.maxChunkSize.val-1)/f₀.maxChunkSize.val := by
    have hidx : idx < (p.chunkCount f₀.maxChunkSize : Int) := lt_of_lt_of_le hin.2 hcount
    unfold ZippedResourcePack.chunkCount ZippedResourcePack.getPackSize at hidx
    omega
  have hmul := (Nat.lt_div_iff_mul_lt hpos).mp hlt
  rw [hmax]
  have hbound : idx.toNat*f₀.maxChunkSize.val < p.file.length := by omega
  refine ⟨Nat.mod_eq_of_lt (by omega),hbound,?_⟩
  unfold ZippedResourcePack.getPackSize
  omega

theorem total_getPackChunkString {i : Nat} {p₀ : ZippedResourcePack} (hi : f₀.packs[i]? = some p₀)
    {start length : Nat} (hlength : 0 < length) (hin : start+length ≤ p₀.file.length) :
    Total (Good tp f₀) (fun _ => True) (callPack i (ZippedResourcePack.getPackChunkString start length)) := by
  apply total_callPack hi
  intro p hp hstream
  have hfull : ((p.file.drop start).take length).length = length := by
    rw [hp.file,List.length_take,List.length_drop]
    omega
  have hread : ZippedResourcePack.getPackChunkString start length p =
      .ok ((p.file.drop start).take length)
        { p with fileStream := { position := start+length, eofbit := false, failbit := false } } := by
    rw [ZippedResourcePack.getPackChunkString_apply,if_neg (by omega)]
    simp [IfStream.seekg,IfStream.read,hstream,hfull]
  exact ⟨_,_,hread,trivial,.stream p _,rfl⟩

include hready hdeflates in
theorem total_processOne (packId : UUID) (idx : Int) :
    Total (Good tp f₀) (fun _ => True) (processOne tp packId idx) := by
  refine Total.bind total_getSession fun s hs => ?_
  cases hm : s.loadedPacks packId with
  | none => exact Total.returns trivial
  | some m =>
    obtain ⟨hlength,hmax,p₀,hp₀,hcount⟩ := hs.metas packId m hm
    by_cases hout : idx < 0 ∨ idx ≥ m.chunkCount
    · simp only [hout,if_true]
      exact Total.bind total_markForDisconnect fun _ _ => Total.returns trivial
    · have hin : 0 ≤ idx ∧ idx < m.chunkCount := by omega
      have hlt : idx.toNat < m.chunks.length := by omega
      obtain ⟨hstart,hwithin,hrest⟩ := chunk_within hmax hcount hin
      have hpos := f₀.maxChunkSize.pos
      simp only [hout,if_false,List.getElem?_eq_getElem hlt]
      split
      · exact Total.returns trivial
      · refine Total.bind (total_getPackSize hp₀) fun packSize hsize => ?_
        subst hsize
        rw [hstart,hrest]
        refine Total.bind (total_getPackChunkString hp₀ (by omega) (by omega)) fun chunk _ => ?_
        split
        · exact Total.bind total_markForDisconnect fun _ _ => Total.returns trivial
        · refine Total.bind (total_getPackVersion hready hp₀) fun packVersion _ => ?_
          refine Total.bind (total_send hdeflates _ true) fun _ _ => ?_
          have hof : ((m.setSent idx.toNat).advance).Of f₀ := by
            refine ⟨?_,hmax,p₀,hp₀,hcount⟩
            change ((m.setSent idx.toNat).chunks.length : Int) = m.chunkCount
            rw [ResourcePackMeta.length_setSent]
            exact hlength
          have hput : Total (Good tp f₀) (fun _ => True) (modifySession fun s =>
              { s with loadedPacks := Function.update s.loadedPacks packId (some (m.setSent idx.toNat).advance) }) :=
            total_modifySession fun s hs => hs.update hof
          refine Total.bind hput fun _ _ => ?_
          split
          · refine Total.bind (total_modifySession fun s hs => ?_) fun _ _ => Total.returns trivial
            exact hs.congr rfl rfl hs.mode
          · exact Total.returns trivial

include hready hdeflates in
theorem total_drain (n : Nat) : Total (Good tp f₀) (fun _ => True) (drain tp n) := by
  induction n with
  | zero => exact Total.returns trivial
  | succ n ih =>
    refine Total.bind total_getSession fun s _ => ?_
    split
    · exact Total.returns trivial
    · refine Total.bind (total_modifySession fun s hs => hs.congr rfl rfl hs.mode) fun _ _ => ?_
      refine Total.bind (total_processOne hready hdeflates _ _) fun b _ => ?_
      split
      · exact ih
      · exact Total.returns trivial

include hready hdeflates in
theorem total_processChunkQueue : Total (Good tp f₀) (fun _ => True) (processChunkQueue tp) := by
  have hset : ∀ b, Total (Good tp f₀) (fun _ => True) (setQueueProcessing b) := fun b =>
    total_modifySession fun s hs => hs.congr rfl rfl hs.mode
  refine Total.bind total_getSession fun s _ => ?_
  split
  · exact Total.returns trivial
  · refine Total.bind (hset true) fun _ _ => Total.bind (Q:=fun _ => True) ?_ fun _ _ => hset false
    intro w hw
    obtain ⟨a,w',hr,-,hw'⟩ := total_drain hready hdeflates s.pendingChunks.length w hw
    exact ⟨a,w',by rw [tryCatch_apply,hr],trivial,hw'⟩

include hready hdeflates in
theorem total_handleResourcePackChunkRequest (request : ResourcePackChunkRequestPacket) :
    Total (Good tp f₀) (fun b => b = true) (handleResourcePackChunkRequest tp request) := by
  intro w hw
  obtain ⟨found,w₁,hfind,-,hw₁⟩ := total_findPack hready request.packId w hw
  unfold handleResourcePackChunkRequest
  rw [bind_ok hfind]
  have hindexed := hready.indexed.touched hw.server.touched
  rcases findPack_ok hindexed hfind with ⟨rfl,-⟩ | ⟨m,rfl,-,hs,-⟩
  · have hmark : Total (Good tp f₀) (fun b => b = true) (do
        markForDisconnect
        return true : SessionM Bool) := Total.bind total_markForDisconnect fun _ _ => Total.returns rfl
    exact hmark w₁ hw₁
  · have hget : w₁.session.loadedPacks request.packId = some m := by simp [hs,withPack]
    have hof := hw₁.session.metas request.packId m hget
    have hwant : ∀ s : NetworkSession, s.Sound f₀ → (wantChunk request.packId m request.chunkIndex s).Sound f₀ := by
      intro s hs
      unfold wantChunk
      split
      · have hset : (m.setWant request.chunkIndex.toNat).Of f₀ := by
          refine ⟨?_,hof.2⟩
          rw [ResourcePackMeta.length_setWant]
          exact hof.1
        exact (hs.update hset).congr rfl rfl hs.mode
      · exact hs
    simp only [bind_ok (getSession_apply w₁),hget]
    have hrest : Total (Good tp f₀) (fun b => b = true) (do
        modifySession (wantChunk request.packId m request.chunkIndex)
        modifySession (enqueuePack m.packId)
        processChunkQueue tp
        return true : SessionM Bool) := by
      refine Total.bind (total_modifySession hwant) fun _ _ => ?_
      refine Total.bind (total_modifySession fun s hs => hs.congr rfl rfl hs.mode) fun _ _ => ?_
      exact Total.bind (total_processChunkQueue hready hdeflates) fun _ _ => Total.returns rfl
    exact hrest w₁ hw₁

include hdeflates in
theorem total_tick : Total (Good tp f₀) (fun _ => True) (tick tp) := by
  refine Total.bind total_getSession fun s _ => ?_
  split
  · exact Total.returns trivial
  · refine Total.bind (total_sendInternal hdeflates _) fun _ _ => ?_
    exact total_modifySession fun s hs => hs.congr rfl rfl hs.mode

/-- A login that gets past the version check has JSON that parses. -/
def Acceptable (tp : ThirdParty) : PacketBody → Prop
  | .login pk => isSupportedProtocol pk.protocol = true → tp.jsonAccepts pk.authInfoJson = true
  | _ => True

def goesOn : PacketBody → Bool
  | .requestNetworkSettings pk => isSupportedProtocol pk.protocolVersion
  | .login pk => isSupportedProtocol pk.protocol
  | _ => true

include hready hdeflates in
theorem total_handle (hcounted : ∀ p ∈ f₀.packs, p.CountedWithin f₀.maxChunkSize) {body : PacketBody}
    (h : Acceptable tp body) : Total (Good tp f₀) (fun b => b = goesOn body) (handle tp body) := by
  cases body with
  | requestNetworkSettings pk => exact total_handleRequestNetworkSettings hdeflates pk.protocolVersion
  | login pk => exact total_handleLogin hready hdeflates pk.clientDataJwt h
  | resourcePackChunkRequest pk => exact total_handleResourcePackChunkRequest hready hdeflates pk
  | resourcePackClientResponse pk =>
    exact total_handleResourcePackClientResponse hready hdeflates pk (announces_of_all hcounted _)
  | _ => exact Total.returns rfl

/-- The one throw that is left. -/
theorem handle_unacceptable {body : PacketBody} (h : ¬ Acceptable tp body) (w : World) :
    handle tp body w = .error (.throws .jsonParseError) w := by
  cases body with
  | login pk =>
    simp only [Acceptable,Classical.not_imp,Bool.not_eq_true] at h
    simp [handle,handleLogin,h.1,h.2,bind_apply]
  | _ => exact absurd trivial h

end

end NetworkSession

/-- A server whose packs are usable, before any of them is read. -/
structure Server.Prepared (tp : ThirdParty) (server : Server) : Prop where
  ready : server.factory.Ready tp
  counted : ∀ p ∈ server.factory.packs, p.CountedWithin server.factory.maxChunkSize
  streams : ∀ p ∈ server.factory.packs, p.fileStream.failbit = false

theorem Server.Prepared.serving {server : Server} (h : server.Prepared tp) : Serving tp server.factory server :=
  ⟨.refl _,h.streams⟩

namespace ZippedResourcePack

structure Fresh (tp : ThirdParty) (maxChunkSize : ChunkSize) (p : ZippedResourcePack) : Prop where
  id : p.id = UUID.nil
  stream : p.fileStream.failbit = false
  usable : p.Usable tp maxChunkSize
  counted : p.CountedWithin maxChunkSize

theorem Usable.touched {maxChunkSize : ChunkSize} {p q : ZippedResourcePack} (hid : p.id = UUID.nil)
    (h : p.Usable tp maxChunkSize) (hpq : p.Touched tp q) : q.Usable tp maxChunkSize := by
  have hsize := hpq.getPackSize
  constructor
  · rw [hpq.parsedId]
    exact Or.inr (h.id.resolve_left (not_not_intro hid))
  · rw [hpq.manifest]
    exact h.version
  · simpa [chunkCount,hsize] using h.fits
  · rw [hsize]
    exact h.rounded

theorem CountedWithin.touched {maxChunkSize : ChunkSize} {p q : ZippedResourcePack}
    (h : p.CountedWithin maxChunkSize) (hpq : p.Touched tp q) : q.CountedWithin maxChunkSize := by
  simpa [CountedWithin,chunkCount,hpq.getPackSize] using h

theorem ofId_fresh {id : UUID} {size : Nat} (hsize : 22 ≤ size ∧ size < 2^63) {maxChunkSize : ChunkSize}
    (count : Nat) (hcount : ceilChunkCount size maxChunkSize.val = .ok count)
    (hwithin : count ≤ (size+maxChunkSize.val-1)/maxChunkSize.val)
    (hfits : (size+maxChunkSize.val-1)/maxChunkSize.val < 2^31) :
    (ofId id size hsize).Fresh .rawIds maxChunkSize := by
  have hlength : (ofId id size hsize).getPackSize = size := List.length_replicate
  have hchunks : (ofId id size hsize).chunkCount maxChunkSize = (size+maxChunkSize.val-1)/maxChunkSize.val := by
    unfold chunkCount
    rw [hlength]
  have hversion : headerVersion (ofId id size hsize).manifest = .ok (ascii "1.0.0") := by rfl
  have hparsed : (ofId id size hsize).parsedId .rawIds = some id := by
    have huuid : headerUuid (ofId id size hsize).manifest = .ok id.bytes := by rfl
    simp [parsedId,huuid,ThirdParty.rawIds,id.size_eq]
  constructor
  · rfl
  · rfl
  · exact ⟨Or.inr (by rw [hparsed]; rfl),⟨_,hversion⟩,by rwa [hchunks],count,by rwa [hlength]⟩
  · intro c hc
    rw [hlength,hcount] at hc
    cases hc
    rw [hchunks]
    exact Int.ofNat_le.mpr hwithin

end ZippedResourcePack

theorem Server.loaded_prepared {maxChunkSize : ChunkSize} {packs : List ZippedResourcePack}
    (h : ∀ p ∈ packs, p.Fresh tp maxChunkSize) : (Server.loaded tp maxChunkSize packs).Prepared tp := by
  obtain ⟨hmax,hpacks⟩ := loaded_packs tp maxChunkSize packs
  constructor
  · refine ⟨loaded_indexed fun p hp => (h p hp).id,fun q hq => ?_⟩
    obtain ⟨p,hp,hpq,-⟩ := hpacks q hq
    rw [hmax]
    exact (h p hp).usable.touched (h p hp).id hpq
  · intro q hq
    obtain ⟨p,hp,hpq,-⟩ := hpacks q hq
    rw [hmax]
    exact (h p hp).counted.touched hpq
  · intro q hq
    obtain ⟨p,hp,-,hstream⟩ := hpacks q hq
    rw [hstream]
    exact (h p hp).stream

theorem Server.twoPacks_prepared : twoPacks.Prepared .rawIds := by
  apply loaded_prepared
  intro p hp
  simp only [List.mem_cons,List.not_mem_nil,or_false] at hp
  rcases hp with rfl | rfl
  · exact ZippedResourcePack.ofId_fresh _ 2 (by decide +kernel) (by decide) (by decide)
  · exact ZippedResourcePack.ofId_fresh _ 1 (by decide +kernel) (by decide) (by decide)

theorem deflates_rawIds : Deflates .rawIds := fun input => List.cons_ne_nil 1 input

end CyrexMC
