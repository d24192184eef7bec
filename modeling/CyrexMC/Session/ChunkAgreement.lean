import CyrexMC.Session.PackDelivery
set_option autoImplicit false

namespace CyrexMC
open Stateful

variable {tp : ThirdParty}

theorem flatMap_slices {α : Type} (xs : List α) (size n : Nat) :
    (List.range n).flatMap (fun k => (xs.drop (k*size)).take size) = xs.take (n*size) := by
  induction n with
  | zero => simp
  | succ n ih =>
    rw [List.range_succ,List.flatMap_append,ih,List.flatMap_singleton,Nat.succ_mul,List.take_add]

namespace NetworkSession

/-- `setMaxChunkSize` of the factory that the sessions share. -/
def setMaxChunkSize (size : Int32) : SessionM Unit := do
  let server ← getServer
  let factory ← fromExcept (server.factory.setMaxChunkSize size)
  modify fun w => { w with server := { w.server with factory } }

/-- The packet that answers a request for a chunk; without a version in the manifest there is no answer. -/
def chunkFor (w : World) (request : ResourcePackChunkRequestPacket) : Option Packet := do
  let m ← packFor w request.packId
  let p ← w.server.factory.packs[m.pack]?
  let idx := request.chunkIndex
  let data := cut m idx p.file
  if 0 ≤ idx ∧ idx < m.chunkCount ∧ m.isSent idx.toNat = false ∧ data ≠ [] then
    let packVersion := (ZippedResourcePack.headerVersion p.manifest).toOption.getD []
    some (chunkData request.packId packVersion idx m.maxChunkSize data)
  else none

end NetworkSession

inductive PackCall where
  | download (call : DownloadCall)
  | setMaxChunkSize (size : Int32)

namespace PackCall

def run (tp : ThirdParty) : PackCall → SessionM Unit
  | .download call => do
    let _ ← NetworkSession.handle tp call.body
    return ()
  | .setMaxChunkSize size => NetworkSession.setMaxChunkSize size

def packets (tp : ThirdParty) (w : World) : PackCall → List Packet
  | .download (.sendPacks packEntries) =>
    (NetworkSession.infosFor tp w.server.factory packEntries).map NetworkSession.dataInfo
  | .download (.chunkRequest request) => (NetworkSession.chunkFor w request).toList
  | .setMaxChunkSize _ => []

/-- The pack fits into as many chunks of the size in force as are counted for it, and if the session has
cut it before, then to that size. -/
def Fits (w : World) (id : UUID) : Prop :=
  ∀ i p, w.server.factory.getPackById id = some i → w.server.factory.packs[i]? = some p →
    (∀ count, ceilChunkCount p.getPackSize w.server.factory.maxChunkSize.val = .ok count →
      p.getPackSize ≤ count.toNat*w.server.factory.maxChunkSize.val) ∧
    ∀ m, w.session.loadedPacks id = some m → m.maxChunkSize = w.server.factory.maxChunkSize.val

def Steady (w : World) : PackCall → Prop
  | .download (.sendPacks packEntries) =>
    ∀ entry ∈ packEntries.takeWhile fun entry => (w.server.factory.getPackById entry.uuid).isSome, Fits w entry.uuid
  | _ => True

end PackCall

/-- The calls of a run that return, with what the client has been sent in it. -/
inductive Conversation (tp : ThirdParty) (Q : World → PackCall → Prop) (w₀ : World) : List Packet → World → Prop where
  | start : Conversation tp Q w₀ [] w₀
  | call {log : List Packet} {w w' : World} (h : Conversation tp Q w₀ log w) (c : PackCall) (hc : Q w c)
      (hr : c.run tp w = .ok () w') : Conversation tp Q w₀ (log ++ c.packets tp w) w'

def latestInfo (id : UUID) (log : List Packet) : Option ResourcePackDataInfoPacket :=
  log.foldl (fun latest packet =>
    match packet.body with
    | .resourcePackDataInfo info => if info.packId = id then some info else latest
    | _ => latest) none

namespace ResourcePackDataInfoPacket

/-- Chunk `k` of the file as the packet announces it. -/
def slice (info : ResourcePackDataInfoPacket) (file : Bytes) (k : Nat) : Bytes :=
  (file.drop (k*info.maxChunkSize.toNat)).take info.maxChunkSize.toNat

/-- The chunk is one of those that the packet announces, and as it announces it. -/
structure Cuts (info : ResourcePackDataInfoPacket) (file : Bytes) (chunk : ResourcePackChunkDataPacket) : Prop where
  index : 0 ≤ chunk.chunkIndex ∧ chunk.chunkIndex < info.chunkCount
  progress : (chunk.progress.toNat : Int) = chunk.chunkIndex*info.maxChunkSize
  data : chunk.data = info.slice file chunk.chunkIndex.toNat

def Covers (info : ResourcePackDataInfoPacket) (file : Bytes) : Prop :=
  (List.range info.chunkCount.toNat).flatMap (info.slice file) = file

end ResourcePackDataInfoPacket

/-- Each chunk of a pack that has been announced is cut as it was announced last, and the client that puts
the announced chunks together has the file. -/
def CutAsAnnounced (f : ResourcePackFactory) (log : List Packet) : Prop :=
  ∀ (n : Nat) subClientId chunk info, log[n]? = some { subClientId, body := .resourcePackChunkData chunk } →
    latestInfo chunk.packId (log.take n) = some info →
    ∃ p, f.packOf chunk.packId = some p ∧ info.Cuts p.file chunk ∧ info.Covers p.file

@[simp] theorem latestInfo_nil (id : UUID) : latestInfo id [] = none := rfl

theorem latestInfo_info (id : UUID) (log : List Packet) (info : ResourcePackDataInfoPacket) :
    latestInfo id (log ++ [NetworkSession.dataInfo info]) = if info.packId = id then some info else latestInfo id log := by
  simp only [latestInfo,List.foldl_append,List.foldl_cons,List.foldl_nil,NetworkSession.dataInfo]

theorem latestInfo_chunk (id : UUID) (log : List Packet) (chunk : ResourcePackChunkDataPacket) :
    latestInfo id (log ++ [{ body := .resourcePackChunkData chunk }]) = latestInfo id log := by
  simp only [latestInfo,List.foldl_append,List.foldl_cons,List.foldl_nil]

namespace CutAsAnnounced

variable {f : ResourcePackFactory} {log : List Packet}

theorem nil (f : ResourcePackFactory) : CutAsAnnounced f [] := by
  intro n subClientId chunk info hn
  simp at hn

theorem append (h : CutAsAnnounced f log) {packet : Packet}
    (hlast : ∀ subClientId chunk info, packet = { subClientId, body := .resourcePackChunkData chunk } →
      latestInfo chunk.packId log = some info →
      ∃ p, f.packOf chunk.packId = some p ∧ info.Cuts p.file chunk ∧ info.Covers p.file) :
    CutAsAnnounced f (log ++ [packet]) := by
  intro n subClientId chunk info hn hinfo
  by_cases hlt : n < log.length
  · rw [List.getElem?_append_left hlt] at hn
    rw [List.take_append_of_le_length hlt.le] at hinfo
    exact h n subClientId chunk info hn hinfo
  · rw [List.getElem?_append_right (Nat.not_lt.mp hlt)] at hn
    obtain ⟨hzero,hpacket⟩ := List.getElem?_eq_some_iff.mp hn
    rw [List.length_singleton] at hzero
    have hend : n = log.length := by omega
    subst hend
    simp only [Nat.sub_self,List.getElem_cons_zero] at hpacket
    rw [List.take_left' rfl] at hinfo
    exact hlast subClientId chunk info hpacket hinfo

theorem info (h : CutAsAnnounced f log) (info : ResourcePackDataInfoPacket) :
    CutAsAnnounced f (log ++ [NetworkSession.dataInfo info]) := by
  apply h.append
  intro subClientId chunk info' hpacket
  simp [NetworkSession.dataInfo] at hpacket

end CutAsAnnounced

/-- The meta comes from one of the two handlers, for a chunk size that was in force. -/
structure ResourcePackMeta.Made (f : ResourcePackFactory) (id : UUID) (m : ResourcePackMeta) : Prop where
  pack : f.getPackById id = some m.pack
  counted : ∃ (size : ChunkSize) (p : ZippedResourcePack), f.packs[m.pack]? = some p ∧ m.maxChunkSize = size.val ∧
    (m.chunkCount = roundedChunkCount p.getPackSize size.val ∨ ceilChunkCount p.getPackSize size.val = .ok m.chunkCount)

structure ResourcePackMeta.SameCut (m m' : ResourcePackMeta) : Prop where
  pack : m'.pack = m.pack
  maxChunkSize : m'.maxChunkSize = m.maxChunkSize
  chunkCount : m'.chunkCount = m.chunkCount

theorem ResourcePackMeta.sameCut_kept {m m' : ResourcePackMeta} {i : Nat} (h : m' = m ∨ m' = m.setWant i) :
    m.SameCut m' := by
  rcases h with rfl | rfl
  · exact ⟨rfl,rfl,rfl⟩
  · exact ⟨rfl,rfl,rfl⟩

theorem ResourcePackMeta.sameCut_deliver (m : ResourcePackMeta) (i : Nat) : m.SameCut (m.deliver i) := ⟨rfl,rfl,rfl⟩

theorem ResourcePackMeta.Made.same {f : ResourcePackFactory} {id : UUID} {m m' : ResourcePackMeta} (h : m.Made f id)
    (hs : m.SameCut m') : m'.Made f id := by
  obtain ⟨hpack,hcounted⟩ := h
  rw [← hs.pack] at hpack hcounted
  rw [← hs.maxChunkSize,← hs.chunkCount] at hcounted
  exact ⟨hpack,hcounted⟩

namespace ResourcePackDataInfoPacket

/-- The packet says of the chunks of the meta what they are. -/
structure Describes (info : ResourcePackDataInfoPacket) (m : ResourcePackMeta) (p : ZippedResourcePack) : Prop where
  maxChunkSize : info.maxChunkSize = m.maxChunkSize
  chunkCount : m.chunkCount ≤ info.chunkCount
  size_lt : m.maxChunkSize < 2^31
  count_lt : info.chunkCount < 2^31
  whole : p.file.length ≤ info.chunkCount.toNat*m.maxChunkSize

theorem Describes.same {info : ResourcePackDataInfoPacket} {m m' : ResourcePackMeta} {p : ZippedResourcePack}
    (h : info.Describes m p) (hs : m.SameCut m') : info.Describes m' p := by
  obtain ⟨hmax,hcount,hsize,hlt,hwhole⟩ := h
  rw [← hs.maxChunkSize] at hmax hsize hwhole
  rw [← hs.chunkCount] at hcount
  exact ⟨hmax,hcount,hsize,hlt,hwhole⟩

theorem Describes.cuts {info : ResourcePackDataInfoPacket} {m : ResourcePackMeta} {p : ZippedResourcePack} {idx : Int}
    {id : UUID} {packVersion : Bytes} (h : info.Describes m p) (hin : 0 ≤ idx ∧ idx < m.chunkCount) :
    info.Cuts p.file
      { packId := id, packVersion, chunkIndex := idx, progress := UInt64.ofNat (idx.toNat*m.maxChunkSize%2^64),
        data := NetworkSession.cut m idx p.file } := by
  have hcount := h.chunkCount
  have hlt := h.count_lt
  have hfits := p.fileFits
  have hnat : info.maxChunkSize.toNat = m.maxChunkSize := by
    rw [h.maxChunkSize]
    exact Int.toNat_natCast _
  have hoffset : idx.toNat*m.maxChunkSize < 2^31*2^31 := Nat.mul_lt_mul'' (by omega) h.size_lt
  have hstart : idx.toNat*m.maxChunkSize%2^64 = idx.toNat*m.maxChunkSize := Nat.mod_eq_of_lt (by omega)
  constructor
  · exact ⟨hin.1,lt_of_lt_of_le hin.2 hcount⟩
  · simp only [hstart,UInt64.toNat_ofNat']
    rw [h.maxChunkSize,Int.natCast_mul,Int.toNat_of_nonneg hin.1]
  · simp only [slice,hnat,NetworkSession.cut,hstart]
    by_cases hle : idx.toNat*m.maxChunkSize ≤ p.file.length
    · have hrest : (p.file.length+2^64-idx.toNat*m.maxChunkSize)%2^64 = (p.file.drop (idx.toNat*m.maxChunkSize)).length := by
        rw [List.length_drop]
        omega
      rw [hrest,← List.take_take,List.take_length]
    · rw [List.drop_eq_nil_of_le (by omega)]
      simp

theorem Describes.covers {info : ResourcePackDataInfoPacket} {m : ResourcePackMeta} {p : ZippedResourcePack}
    (h : info.Describes m p) : info.Covers p.file := by
  have hnat : info.maxChunkSize.toNat = m.maxChunkSize := by
    rw [h.maxChunkSize]
    exact Int.toNat_natCast _
  have hslice : info.slice p.file = fun k => (p.file.drop (k*m.maxChunkSize)).take m.maxChunkSize := by
    funext k
    rw [slice,hnat]
  rw [Covers,hslice,flatMap_slices]
  exact List.take_of_length_le h.whole

end ResourcePackDataInfoPacket

namespace NetworkSession

theorem chunkFor_none {w : World} {request : ResourcePackChunkRequestPacket} {m : ResourcePackMeta}
    {q : ZippedResourcePack} (hm : packFor w request.packId = some m) (hq : w.server.factory.packs[m.pack]? = some q)
    (hwhy : ¬ (0 ≤ request.chunkIndex ∧ request.chunkIndex < m.chunkCount) ∨
      m.isSent request.chunkIndex.toNat = true ∨ ReadsChunk w.server.factory m request.chunkIndex []) :
    chunkFor w request = none := by
  simp only [chunkFor,hm,hq,Option.bind_eq_bind,Option.bind_some]
  rw [if_neg]
  rintro ⟨hlow,hhigh,hunsent,hne⟩
  rcases hwhy with hout | hflag | hblank
  · exact hout ⟨hlow,hhigh⟩
  · rw [hflag] at hunsent
    cases hunsent
  · obtain ⟨q',hq',hnil⟩ := hblank
    cases hq.symm.trans hq'
    exact hne hnil.symm

theorem chunkFor_some {w : World} {request : ResourcePackChunkRequestPacket} {m : ResourcePackMeta}
    {q : ZippedResourcePack} {chunk : Bytes} (hm : packFor w request.packId = some m)
    (hq : w.server.factory.packs[m.pack]? = some q)
    (hin : 0 ≤ request.chunkIndex ∧ request.chunkIndex < m.chunkCount)
    (hunsent : m.isSent request.chunkIndex.toNat = false) (hchunk : chunk = cut m request.chunkIndex q.file)
    (hne : chunk ≠ []) :
    ∃ packVersion, chunkFor w request =
      some (chunkData request.packId packVersion request.chunkIndex m.maxChunkSize chunk) := by
  refine ⟨(ZippedResourcePack.headerVersion q.manifest).toOption.getD [],?_⟩
  simp only [chunkFor,hm,hq,Option.bind_eq_bind,Option.bind_some,← hchunk]
  rw [if_pos ⟨hin.1,hin.2,hunsent,hne⟩]

end NetworkSession

/-- Wherever a pack has been announced, the session cuts it as it was announced last. -/
structure Agreeing (tp : ThirdParty) (f₀ : ResourcePackFactory) (s : NetworkSession) (w : World) (log : List Packet) :
    Prop where
  alike : ∃ size : ChunkSize, Alike tp { f₀ with maxChunkSize := size } s w
  download : w.session.Download
  made : ∀ id m, w.session.loadedPacks id = some m → m.Made f₀ id
  latest : ∀ id info, latestInfo id log = some info →
    ∃ m p, w.session.loadedPacks id = some m ∧ f₀.packOf id = some p ∧ info.Describes m p
  cut : CutAsAnnounced f₀ log

namespace Agreeing

variable {f₀ : ResourcePackFactory} {s : NetworkSession} {w w' : World} {log : List Packet}

theorem put (h : Agreeing tp f₀ s w log) (id : UUID) {m : ResourcePackMeta} {log' : List Packet}
    (halike : ∃ size : ChunkSize, Alike tp { f₀ with maxChunkSize := size } s w')
    (hloaded : w'.session.loadedPacks = Function.update w.session.loadedPacks id (some m))
    (hpending : w'.session.pendingChunks = w.session.pendingChunks)
    (hidle : w'.session.queueProcessing = w.session.queueProcessing)
    (hm : m.packId = id ∧ m.WellFormed) (hmade : m.Made f₀ id)
    (hlatest : ∀ info, latestInfo id log' = some info → ∃ p, f₀.packOf id = some p ∧ info.Describes m p)
    (hothers : ∀ x, x ≠ id → latestInfo x log' = latestInfo x log) (hcut : CutAsAnnounced f₀ log') :
    Agreeing tp f₀ s w' log' := by
  constructor
  · exact halike
  · exact h.download.put hloaded hpending hidle hm
  · intro x m' hx
    rcases NetworkSession.loaded_cases hloaded hx with ⟨rfl,rfl⟩ | ⟨-,hx⟩
    · exact hmade
    · exact h.made x m' hx
  · intro x info hx
    rw [hloaded]
    by_cases hid : x = id
    · subst hid
      obtain ⟨p,hp,hdescribes⟩ := hlatest info hx
      exact ⟨m,p,Function.update_self ..,hp,hdescribes⟩
    · rw [hothers x hid] at hx
      rw [Function.update_of_ne hid]
      exact h.latest x info hx
  · exact hcut

theorem keep (h : Agreeing tp f₀ s w log)
    (halike : ∃ size : ChunkSize, Alike tp { f₀ with maxChunkSize := size } s w')
    (hloaded : w'.session.loadedPacks = w.session.loadedPacks)
    (hpending : w'.session.pendingChunks = w.session.pendingChunks)
    (hidle : w'.session.queueProcessing = w.session.queueProcessing) : Agreeing tp f₀ s w' log := by
  constructor
  · exact halike
  · exact ⟨hpending.trans h.download.pending,hidle.trans h.download.idle,by rw [hloaded]; exact h.download.packs⟩
  · rw [hloaded]
    exact h.made
  · rw [hloaded]
    exact h.latest
  · exact h.cut

theorem packFor (h : Agreeing tp f₀ s w log) {id : UUID} {m : ResourcePackMeta}
    (hm : NetworkSession.packFor w id = some m) :
    m.Made f₀ id ∧ ∀ info, latestInfo id log = some info → ∃ p, f₀.packOf id = some p ∧ info.Describes m p := by
  obtain ⟨size,halike⟩ := h.alike
  cases hloaded : w.session.loadedPacks id with
  | some m' =>
    simp only [NetworkSession.packFor,hloaded,Option.some_inj] at hm
    subst hm
    refine ⟨h.made id _ hloaded,fun info hinfo => ?_⟩
    obtain ⟨m',p,hm',hp,hdescribes⟩ := h.latest id info hinfo
    cases hloaded.symm.trans hm'
    exact ⟨p,hp,hdescribes⟩
  | none =>
    simp only [NetworkSession.packFor,hloaded,Option.bind_eq_bind,Option.bind_eq_some_iff] at hm
    obtain ⟨i,hi,q,hq,hm⟩ := hm
    rw [halike.touched.getPackById] at hi
    obtain ⟨p,hp,hpq⟩ := halike.touched.back hq
    rw [halike.touched.maxChunkSize,hpq.getPackSize] at hm
    cases hc : ResourcePackMeta.create id i size.val (roundedChunkCount p.getPackSize size.val) with
    | error e => simp [hc,Except.toOption] at hm
    | ok m' =>
      simp only [hc,Except.toOption,Option.some_inj] at hm
      subst hm
      obtain ⟨-,hmeta⟩ := ResourcePackMeta.create_ok hc
      refine ⟨⟨by rw [hmeta]; exact hi,size,p,by rw [hmeta]; exact hp,by rw [hmeta],Or.inl (by rw [hmeta])⟩,?_⟩
      intro info hinfo
      obtain ⟨m',-,hm',-⟩ := h.latest id info hinfo
      cases hloaded.symm.trans hm'

theorem does (h : Agreeing tp f₀ s w log) (hd : Does tp w w') :
    ∃ size : ChunkSize, Alike tp { f₀ with maxChunkSize := size } s w' := by
  obtain ⟨size,halike⟩ := h.alike
  exact ⟨size,halike.does hd⟩

theorem indexed (h : Agreeing tp f₀ s w log) (hf : f₀.Indexed tp) : w.server.factory.Indexed tp := by
  obtain ⟨size,halike⟩ := h.alike
  have hsized : ResourcePackFactory.Indexed tp { f₀ with maxChunkSize := size } := hf
  exact hsized.touched halike.touched

theorem packOf (h : Agreeing tp f₀ s w log) {id : UUID} {m : ResourcePackMeta} (hmade : m.Made f₀ id) :
    ∃ p q, f₀.packOf id = some p ∧ w.server.factory.packs[m.pack]? = some q ∧ p.Touched tp q := by
  obtain ⟨size,halike⟩ := h.alike
  obtain ⟨-,p,hp,-⟩ := hmade.counted
  obtain ⟨q,hq,hpq⟩ := halike.touched.packs m.pack p hp
  exact ⟨p,q,by simp [ResourcePackFactory.packOf,hmade.pack,hp],hq,hpq⟩

theorem answered {request : ResourcePackChunkRequestPacket} {m : ResourcePackMeta} (h : Agreeing tp f₀ s w log)
    (hd : Does tp w w') (hm : NetworkSession.packFor w request.packId = some m)
    (ha : NetworkSession.Answered tp request.packId request.chunkIndex m w w') :
    Agreeing tp f₀ s w' (log ++ (NetworkSession.chunkFor w request).toList) ∧
      SentPackets tp s w w' (NetworkSession.chunkFor w request).toList := by
  have hmeta := h.download.packFor hm
  obtain ⟨hmade,hlatest⟩ := h.packFor hm
  obtain ⟨p,q,hp,hq,hpq⟩ := h.packOf hmade
  have hdescribed : ∀ info, latestInfo request.packId log = some info → info.Describes m p := by
    intro info hinfo
    obtain ⟨p',hp',hdescribes⟩ := hlatest info hinfo
    cases hp.symm.trans hp'
    exact hdescribes
  cases ha with
  | kept m' marked hkept hwhy hs hsent =>
    have hnone := NetworkSession.chunkFor_none hm hq hwhy
    obtain ⟨hwf',hpackId'⟩ := NetworkSession.wellFormed_kept hkept hmeta.2
    have hsame := ResourcePackMeta.sameCut_kept hkept
    rw [hnone,Option.toList_none,List.append_nil]
    refine ⟨h.put request.packId (h.does hd) (by rw [hs]; rfl) (by rw [hs]; rfl) (by rw [hs]; rfl)
      ⟨hpackId'.trans hmeta.1,hwf'⟩ (hmade.same hsame) ?_ (fun _ _ => rfl) h.cut,.none hsent⟩
    intro info hinfo
    exact ⟨p,hp,(hdescribed info hinfo).same hsame⟩
  | delivered packVersion chunk cipher hin hunsent hread hne hs hsent =>
    obtain ⟨q',hq',hchunk⟩ := hread
    cases hq.symm.trans hq'
    obtain ⟨sentVersion,hsome⟩ := NetworkSession.chunkFor_some hm hq hin hunsent hchunk hne
    have hfields := NetworkSession.delivered_fields hs
    have hlength := hmeta.2.length
    have hi : request.chunkIndex.toNat < m.chunks.length := by omega
    have hsame := m.sameCut_deliver request.chunkIndex.toNat
    have hlog : ∀ x, latestInfo x (log ++
        [NetworkSession.chunkData request.packId sentVersion request.chunkIndex m.maxChunkSize chunk]) =
        latestInfo x log := fun x => latestInfo_chunk x log _
    rw [hsome,Option.toList_some]
    constructor
    · refine h.put request.packId (h.does hd) hfields.1 hfields.2.1 hfields.2.2 ⟨hmeta.1,hmeta.2.deliver hi⟩
        (hmade.same hsame) ?_ (fun x _ => hlog x) (h.cut.append ?_)
      · intro info hinfo
        rw [hlog] at hinfo
        exact ⟨p,hp,(hdescribed info hinfo).same hsame⟩
      · intro subClientId pk info hpacket hinfo
        cases hpacket
        have hdescribes := hdescribed info hinfo
        rw [hchunk,hpq.file]
        exact ⟨p,hp,hdescribes.cuts hin,hdescribes.covers⟩
    · obtain ⟨size,halike⟩ := h.alike
      obtain ⟨-,d,hd',hone⟩ := hsent halike.plain
      rw [halike.guid] at hone
      exact SentPackets.one ((wraps_congr halike.compressionEnabled halike.compressor).mp hd') hone

theorem request {request : ResourcePackChunkRequestPacket} {b : Bool} (h : Agreeing tp f₀ s w log)
    (hf : f₀.Indexed tp) (hr : NetworkSession.handleResourcePackChunkRequest tp request w = .ok b w') :
    Agreeing tp f₀ s w' (log ++ (NetworkSession.chunkFor w request).toList) ∧
      SentPackets tp s w w' (NetworkSession.chunkFor w request).toList := by
  have hd := (NetworkSession.within_handleResourcePackChunkRequest request).ok hr
  obtain ⟨-,⟨hnone,hknown,hw'⟩ | ⟨m,hm,ha⟩⟩ :=
    NetworkSession.handleResourcePackChunkRequest_ok (h.indexed hf) h.download hr
  · have hanswer : NetworkSession.chunkFor w request = none := by
      simp [NetworkSession.chunkFor,NetworkSession.packFor,hnone,hknown]
    rw [hanswer,Option.toList_none,List.append_nil]
    exact ⟨h.keep (h.does hd) (by rw [hw']) (by rw [hw']) (by rw [hw']),.none (by rw [hw'])⟩
  · exact h.answered hd hm ha

theorem describes_kept {id : UUID} {size : ChunkSize} {info : ResourcePackDataInfoPacket} {m : ResourcePackMeta}
    {p : ZippedResourcePack} (hmade : m.Made f₀ id) (hp : f₀.packs[m.pack]? = some p)
    (hsize : m.maxChunkSize = size.val) (hmax : info.maxChunkSize = size.val)
    (hcount : ceilChunkCount p.getPackSize size.val = .ok info.chunkCount)
    (hwhole : p.getPackSize ≤ info.chunkCount.toNat*size.val) : info.Describes m p := by
  obtain ⟨hlow,hhigh⟩ := ceilChunkCount_bounds hcount
  obtain ⟨size',p',hp',hsize',hmadeCount⟩ := hmade.counted
  cases hp.symm.trans hp'
  rw [hsize] at hsize'
  rw [← hsize'] at hmadeCount
  have hpos := size.pos
  constructor
  · rw [hmax,hsize]
  · rcases hmadeCount with hrounded | hceil
    · have hle : p.chunkCount size ≤ info.chunkCount.toNat := by
        have hlt : (p.getPackSize+size.val-1)/size.val < info.chunkCount.toNat+1 := by
          rw [Nat.div_lt_iff_lt_mul hpos,Nat.succ_mul]
          omega
        exact Nat.lt_succ_iff.mp hlt
      rw [hrounded,ZippedResourcePack.roundedChunkCount_eq (by omega)]
      omega
    · rw [hcount,Except.ok.injEq] at hceil
      exact le_of_eq hceil.symm
  · rw [hsize]
    exact size.lt
  · exact hhigh
  · rw [hsize]
    exact hwhole

theorem fits_put {id x : UUID} {m : ResourcePackMeta} (hfits : PackCall.Fits w x)
    (hfactory : w.server.factory.Touched tp w'.server.factory)
    (hloaded : w'.session.loadedPacks = Function.update w.session.loadedPacks id (some m))
    (hsize : m.maxChunkSize = w.server.factory.maxChunkSize.val) : PackCall.Fits w' x := by
  intro i q hi hq
  rw [hfactory.getPackById] at hi
  obtain ⟨p,hp,hpq⟩ := hfactory.back hq
  obtain ⟨hwhole,hmetas⟩ := hfits i p hi hp
  rw [hfactory.maxChunkSize,hpq.getPackSize]
  refine ⟨hwhole,fun m' hm' => ?_⟩
  rcases NetworkSession.loaded_cases hloaded hm' with ⟨-,rfl⟩ | ⟨-,hm'⟩
  · exact hsize
  · exact hmetas m' hm'

theorem announced {id : UUID} {i : Nat} {info : ResourcePackDataInfoPacket} {w₁ : World}
    (h : Agreeing tp f₀ s w log) (hf : f₀.Indexed tp) (hi : w.server.factory.getPackById id = some i)
    (hfits : PackCall.Fits w id) (ha : NetworkSession.announce tp i w = .ok info w₁)
    (hsend : NetworkSession.send tp (NetworkSession.dataInfo info) true w₁ = .ok () w') :
    Agreeing tp f₀ s w' (log ++ [NetworkSession.dataInfo info]) ∧ ∀ x, PackCall.Fits w x → PackCall.Fits w' x := by
  obtain ⟨size,halike⟩ := h.alike
  obtain ⟨m,factory,hinfo,hm,hfactory,rfl⟩ := NetworkSession.announce_ok (h.indexed hf) hi ha
  obtain ⟨cipher,datagrams,rfl,-⟩ := NetworkSession.send_ok hsend
  obtain ⟨i',q,hi',hq,-,hcount,hpackId,hmax,-⟩ := NetworkSession.infoOf_some hinfo
  cases hi.symm.trans hi'
  obtain ⟨p,hp,hpq⟩ := halike.touched.back hq
  obtain ⟨hwhole,hmetas⟩ := hfits i q hi hq
  have hwhole := hwhole info.chunkCount hcount
  have hknown : f₀.getPackById id = some i := (halike.touched.getPackById id).symm.trans hi
  rw [hpq.getPackSize,halike.touched.maxChunkSize] at hwhole hcount
  obtain ⟨-,hcreated⟩ := ResourcePackMeta.create_ok hm
  -- `emplace` keeps the meta that is there, or puts the new one
  obtain ⟨m',hloaded,hm',hmade,hsize⟩ : ∃ m', (NetworkSession.emplacePack id m w.session).loadedPacks =
      Function.update w.session.loadedPacks id (some m') ∧ (m'.packId = id ∧ m'.WellFormed) ∧ m'.Made f₀ id ∧
      m'.maxChunkSize = w.server.factory.maxChunkSize.val := by
    cases hkept : w.session.loadedPacks id with
    | some m₀ =>
      refine ⟨m₀,?_,h.download.packs id m₀ hkept,h.made id m₀ hkept,hmetas m₀ hkept⟩
      rw [← hkept,Function.update_eq_self,NetworkSession.emplacePack_some hkept]
    | none =>
      refine ⟨m,by rw [NetworkSession.emplacePack_none hkept]; rfl,⟨by rw [hcreated],(ResourcePackMeta.create_wellFormed hm).1⟩,
        ⟨by rw [hcreated]; exact hknown,size,p,by rw [hcreated]; exact hp,?_,?_⟩,by rw [hcreated]⟩
      · rw [hcreated,halike.touched.maxChunkSize]
      · rw [hcreated]
        exact Or.inr hcount
  have hplace : f₀.packs[m'.pack]? = some p := by
    rw [Option.some_inj.mp (hmade.pack.symm.trans hknown)]
    exact hp
  rw [halike.touched.maxChunkSize] at hmax
  have hdescribes := describes_kept hmade hplace (by rw [hsize,halike.touched.maxChunkSize]) hmax hcount hwhole
  constructor
  · refine h.put id (m:=m') ⟨size,halike.touched.trans hfactory,halike.plain,halike.guid,halike.compressionEnabled,
      halike.compressor⟩ hloaded rfl rfl hm' hmade ?_ ?_ (h.cut.info info)
    · intro info' hinfo'
      rw [latestInfo_info,if_pos hpackId,Option.some_inj] at hinfo'
      subst hinfo'
      exact ⟨p,by simp [ResourcePackFactory.packOf,hknown,hp],hdescribes⟩
    · intro x hx
      rw [latestInfo_info,if_neg (by rw [hpackId]; exact Ne.symm hx)]
  · intro x hx
    exact fits_put hx hfactory hloaded hsize

theorem sendPacks {entries : List ResourcePackClientResponsePacket.Entry} (h : Agreeing tp f₀ s w log)
    (hf : f₀.Indexed tp)
    (hfits : ∀ entry ∈ entries.takeWhile fun entry => (f₀.getPackById entry.uuid).isSome, PackCall.Fits w entry.uuid)
    (hr : NetworkSession.sendPacks tp entries w = .ok () w') :
    Agreeing tp f₀ s w' (log ++ (NetworkSession.infosFor tp w.server.factory entries).map NetworkSession.dataInfo) := by
  induction entries generalizing w log with
  | nil =>
    cases hr
    simpa [NetworkSession.infosFor] using h
  | cons entry entries ih =>
    obtain ⟨size,halike⟩ := h.alike
    have hsame := halike.touched.getPackById entry.uuid
    rw [NetworkSession.sendPacks_cons] at hr
    cases hi : w.server.factory.getPackById entry.uuid with
    | none =>
      have hnone : NetworkSession.infoOf tp w.server.factory entry.uuid = none := by
        simp [NetworkSession.infoOf,hi]
      simp only [hi] at hr
      cases hr
      simp only [NetworkSession.infosFor,hnone,List.map_nil,List.append_nil]
      exact h.keep ⟨size,halike.touched,halike.plain,halike.guid,halike.compressionEnabled,halike.compressor⟩ rfl rfl rfl
    | some i =>
      have hknown : (f₀.getPackById entry.uuid).isSome := Option.isSome_iff_exists.mpr ⟨i,hsame.symm.trans hi⟩
      simp only [hi] at hr
      obtain ⟨info,w₁,hinfo,hrun⟩ := of_bind_ok hr
      obtain ⟨a,w₂,hsend,hrest⟩ := of_bind_ok hrun
      simp only [List.takeWhile_cons,hknown,if_true,List.forall_mem_cons] at hfits
      obtain ⟨h₂,hkeeps⟩ := h.announced hf hi hfits.1 hinfo hsend
      obtain ⟨m,factory,hsome,-,hfactory,hw₁⟩ := NetworkSession.announce_ok (h.indexed hf) hi hinfo
      obtain ⟨cipher,datagrams,hw₂,-⟩ := NetworkSession.send_ok hsend
      have htouched : w.server.factory.Touched tp w₂.server.factory := by
        rw [hw₂,hw₁]
        exact hfactory
      have hall := ih h₂ (fun entry hmem => hkeeps entry.uuid (hfits.2 entry hmem)) hrest
      rw [NetworkSession.infosFor_touched htouched,List.append_assoc] at hall
      simp only [NetworkSession.infosFor,hsome,List.map_cons]
      exact hall

theorem setMaxChunkSize {size : Int32} (h : Agreeing tp f₀ s w log)
    (hr : NetworkSession.setMaxChunkSize size w = .ok () w') :
    Agreeing tp f₀ s w' log ∧ w'.server.sent = w.server.sent := by
  obtain ⟨size',halike⟩ := h.alike
  simp only [NetworkSession.setMaxChunkSize] at hr
  rw [bind_ok (getServer_apply w)] at hr
  cases hset : w.server.factory.setMaxChunkSize size with
  | error e => simp [hset,bind_apply] at hr
  | ok factory =>
    rw [hset,bind_ok (fromExcept_ok factory w)] at hr
    cases hr
    unfold ResourcePackFactory.setMaxChunkSize at hset
    split at hset
    · cases hset
    · cases hset
      have htouched := halike.touched
      exact ⟨h.keep ⟨_,⟨rfl,htouched.packsById,htouched.length,htouched.packs⟩,halike.plain,halike.guid,
        halike.compressionEnabled,halike.compressor⟩ rfl rfl rfl,rfl⟩

theorem call {c : PackCall} (h : Agreeing tp f₀ s w log) (hf : f₀.Indexed tp) (hc : c.Steady w)
    (hr : c.run tp w = .ok () w') :
    Agreeing tp f₀ s w' (log ++ c.packets tp w) ∧ SentPackets tp s w w' (c.packets tp w) := by
  cases c with
  | setMaxChunkSize size =>
    obtain ⟨hagreeing,hsent⟩ := h.setMaxChunkSize hr
    simp only [PackCall.packets,List.append_nil]
    exact ⟨hagreeing,.none hsent⟩
  | download c =>
    obtain ⟨b,w₁,hrun,hend⟩ := of_bind_ok hr
    cases hend
    cases c with
    | sendPacks entries =>
      obtain ⟨size,halike⟩ := h.alike
      have hsend := NetworkSession.handleResourcePackClientResponse_ok rfl hrun
      have hfits := hc
      simp only [PackCall.Steady,halike.touched.getPackById] at hfits
      have hsized : ResourcePackFactory.Indexed tp { f₀ with maxChunkSize := size } := hf
      have hsent := NetworkSession.sendPacks_sent hsized halike hsend
      rw [← NetworkSession.infosFor_touched halike.touched] at hsent
      exact ⟨h.sendPacks hf hfits hsend,hsent⟩
    | chunkRequest request => exact h.request hf hrun

theorem start (tp : ThirdParty) (guid : Guid) (compressionEnabled : Bool) (server : Server) :
    Agreeing tp server.factory (.begin guid compressionEnabled)
      { session := .begin guid compressionEnabled, server } [] := by
  constructor
  · exact ⟨server.factory.maxChunkSize,.refl _,rfl,rfl,rfl,rfl⟩
  · exact ⟨rfl,rfl,fun id m hm => nomatch hm⟩
  · intro id m hm
    cases hm
  · intro id info hinfo
    cases hinfo
  · exact .nil _

end Agreeing

/-- In every run in which the packs that are announced fit, the chunks are cut as they were announced last. -/
theorem cut_as_announced {guid : Guid} {compressionEnabled : Bool} {server : Server} {log : List Packet} {w : World}
    (hf : server.factory.Indexed tp)
    (hrun : Conversation tp PackCall.Steady { session := .begin guid compressionEnabled, server } log w) :
    SentPackets tp (.begin guid compressionEnabled) { session := .begin guid compressionEnabled, server } w log ∧
      CutAsAnnounced server.factory log := by
  have hboth : Agreeing tp server.factory (.begin guid compressionEnabled) w log ∧
      SentPackets tp (.begin guid compressionEnabled) { session := .begin guid compressionEnabled, server } w log := by
    induction hrun with
    | start => exact ⟨.start tp guid compressionEnabled server,.none rfl⟩
    | call h c hc hr ih =>
      obtain ⟨hagreeing,hsent⟩ := ih
      obtain ⟨hagreeing',hsent'⟩ := hagreeing.call hf hc hr
      exact ⟨hagreeing',hsent.trans hsent'⟩
  exact ⟨hboth.2,hboth.1.cut⟩

/-- A pack that is counted right fits into the chunks that are counted for it. -/
theorem ZippedResourcePack.Counted.whole {size : ChunkSize} {p : ZippedResourcePack} (h : p.Counted size) {count : Int}
    (hcount : ceilChunkCount p.getPackSize size.val = .ok count) : p.getPackSize ≤ count.toNat*size.val := by
  rw [h] at hcount
  cases hcount
  rw [Int.toNat_natCast,chunkCount,Nat.mul_comm]
  have hrest := Nat.div_add_mod (p.getPackSize+size.val-1) size.val
  have hlt := Nat.mod_lt (p.getPackSize+size.val-1) size.pos
  omega

theorem SentPackets.plain {s : NetworkSession} {w w' : World} {packets : List Packet} (hs : s.compressionEnabled = false)
    (h : w'.server.sent = w.server.sent ++ packets.map fun packet => (s.guid,0xFE :: packet.encode tp)) :
    SentPackets tp s w w' packets := by
  refine ⟨packets.map fun packet => 0xFE :: packet.encode tp,by simpa [Function.comp_def] using h,?_⟩
  rw [List.forall₂_map_right_iff,List.forall₂_same]
  intro packet _
  exact ⟨packet.encode tp,by simp [NetworkSession.compressOutgoing,hs],rfl⟩

theorem PackCall.run_after {c : DownloadCall} {w : World} (h : w.returnsTrue tp c.body = true) :
    (PackCall.download c).run tp w = .ok () (w.after tp c.body) := bind_ok (World.handle_after h)

theorem cut_as_announced_twoPacks :
    let w₀ : World := { session := .begin 7 false, server := .twoPacks }
    ∃ log w, Conversation .rawIds PackCall.Steady w₀ log w ∧ log.length = 2 ∧
      SentPackets .rawIds (.begin 7 false) w₀ w log ∧ CutAsAnnounced Server.twoPacks.factory log := by
  intro w₀
  let announce : DownloadCall := .sendPacks [{ uuid := .filled 1 }]
  let ask : DownloadCall := .chunkRequest { packId := .filled 1, chunkIndex := 1 }
  have hsteady : (PackCall.download announce).Steady w₀ := by
    intro entry hmem i p hi hp
    refine ⟨fun count hcount => (Server.twoPacks_counted p (List.mem_of_getElem? hp)).whole hcount,fun m hm => ?_⟩
    cases hm
  have hfirst : Conversation .rawIds PackCall.Steady w₀ _ _ :=
    .call .start (.download announce) hsteady (PackCall.run_after (by decide +kernel))
  have hsecond := hfirst.call (.download ask) trivial (PackCall.run_after (by decide +kernel))
  exact ⟨_,_,hsecond,by decide +kernel,cut_as_announced Server.twoPacks_indexed hsecond⟩

/-- The pack of 44 bytes is announced in two chunks, and again in one after the size has been changed; its
second chunk is still sent. -/
theorem resized_pack_miscut :
    let w₀ : World := { session := .begin 7 false, server := .twoPacks }
    let announced (maxChunkSize chunkCount : Int) := NetworkSession.dataInfo
      { packId := .filled 1, packVersion := ascii "1.0.0", maxChunkSize, chunkCount, compressedPackSize := 44,
        sha256 := List.replicate 32 0 }
    let chunk : ResourcePackChunkDataPacket :=
      { packId := .filled 1, packVersion := ascii "1.0.0", chunkIndex := 1, progress := 22, data := List.replicate 22 0 }
    let log := [announced 22 2,announced 44 1,{ body := .resourcePackChunkData chunk }]
    ∃ w, Conversation .rawIds (fun _ _ => True) w₀ log w ∧ SentPackets .rawIds (.begin 7 false) w₀ w log ∧
      ¬ CutAsAnnounced Server.twoPacks.factory log := by
  intro w₀ announced chunk log
  let announce : DownloadCall := .sendPacks [{ uuid := .filled 1 }]
  let ask : DownloadCall := .chunkRequest { packId := .filled 1, chunkIndex := 1 }
  let w₁ := w₀.after .rawIds announce.body
  let w₂ : World := { w₁ with server := { w₁.server with
    factory := { w₁.server.factory with maxChunkSize := ⟨44,by decide,by decide⟩ } } }
  let w₃ := w₂.after .rawIds announce.body
  let w₄ := w₃.after .rawIds ask.body
  have hfirst : Conversation .rawIds (fun _ _ => True) w₀ _ w₁ :=
    .call .start (.download announce) trivial (PackCall.run_after (by decide +kernel))
  have hresized : Conversation .rawIds (fun _ _ => True) w₀ _ w₂ := hfirst.call (.setMaxChunkSize 44) trivial rfl
  have hsecond : Conversation .rawIds (fun _ _ => True) w₀ _ w₃ :=
    hresized.call (.download announce) trivial (PackCall.run_after (by decide +kernel))
  have hthird : Conversation .rawIds (fun _ _ => True) w₀ _ w₄ :=
    hsecond.call (.download ask) trivial (PackCall.run_after (by decide +kernel))
  have hlog : [] ++ (PackCall.download announce).packets .rawIds w₀ ++ (PackCall.setMaxChunkSize 44).packets .rawIds w₁ ++
      (PackCall.download announce).packets .rawIds w₂ ++ (PackCall.download ask).packets .rawIds w₃ = log := by
    decide +kernel
  rw [hlog] at hthird
  have hsent : SentPackets .rawIds (.begin 7 false) w₀ w₄ log := .plain rfl (by decide +kernel)
  refine ⟨w₄,hthird,hsent,fun h => ?_⟩
  obtain ⟨p,-,hcuts,-⟩ := h 2 0 chunk _ rfl rfl
  exact absurd hcuts.index.2 (by decide)

end CyrexMC
