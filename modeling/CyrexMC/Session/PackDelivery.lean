import CyrexMC.Session.Batch
import CyrexMC.Session.PackQueue
import CyrexMC.Session.Serving
set_option autoImplicit false

namespace CyrexMC
open Stateful

variable {tp : ThirdParty}

inductive DownloadCall where
  | sendPacks (packEntries : List ResourcePackClientResponsePacket.Entry)
  | chunkRequest (request : ResourcePackChunkRequestPacket)

namespace DownloadCall

def body : DownloadCall → PacketBody
  | .sendPacks packEntries =>
    .resourcePackClientResponse { responseStatus := ResourcePackClientResponseStatus.SendPacks, packEntries }
  | .chunkRequest request => .resourcePackChunkRequest request

def run (tp : ThirdParty) : List DownloadCall → SessionM Unit
  | [] => return ()
  | call :: calls => do
    let _ ← NetworkSession.handle tp call.body
    run tp calls

def requests : List DownloadCall → List (UUID × Int)
  | [] => []
  | .sendPacks _ :: calls => requests calls
  | .chunkRequest request :: calls => (request.packId,request.chunkIndex) :: requests calls

end DownloadCall

namespace ResourcePackFactory

def packOf (f : ResourcePackFactory) (id : UUID) : Option ZippedResourcePack :=
  (f.getPackById id).bind fun i => f.packs[i]?

def Has (f : ResourcePackFactory) (r : UUID × Int) : Prop :=
  ∃ p, f.packOf r.1 = some p ∧ 0 ≤ r.2 ∧ r.2 < p.chunkCount f.maxChunkSize

instance (f : ResourcePackFactory) (r : UUID × Int) : Decidable (f.Has r) :=
  match h : f.packOf r.1 with
  | none => isFalse fun ⟨p,hp,_⟩ => by rw [h] at hp; cases hp
  | some p =>
    if hin : 0 ≤ r.2 ∧ r.2 < p.chunkCount f.maxChunkSize then isTrue ⟨p,h,hin⟩
    else isFalse fun ⟨q,hq,hin'⟩ => by
      rw [h] at hq
      cases hq
      exact hin hin'

/-- A chunk as the client should get it: its pack, its index, its progress and its bytes. -/
def chunkAt (f : ResourcePackFactory) (r : UUID × Int) : UUID × Int × Nat × Bytes :=
  let maxChunkSize := f.maxChunkSize.val
  let file := ((f.packOf r.1).map fun p => p.file).getD []
  let first := r.2.toNat*maxChunkSize
  (r.1,r.2,first,(file.drop first).take (min ((r.2.toNat+1)*maxChunkSize) file.length-first))

end ResourcePackFactory

def Packet.chunk? (packet : Packet) : Option (UUID × Int × Nat × Bytes) :=
  match packet.body with
  | .resourcePackChunkData pk => some (pk.packId,pk.chunkIndex,pk.progress.toNat,pk.data)
  | _ => none

/-- Between the two states the client of `s` has been sent the packets, one datagram each. -/
def SentPackets (tp : ThirdParty) (s : NetworkSession) (w w' : World) (packets : List Packet) : Prop :=
  ∃ datagrams, w'.server.sent = w.server.sent ++ datagrams.map (s.guid,·) ∧
    List.Forall₂ (fun packet d => Wraps tp s [packet] d) packets datagrams

theorem SentPackets.none {s : NetworkSession} {w w' : World} (h : w'.server.sent = w.server.sent) :
    SentPackets tp s w w' [] := ⟨[],by simpa using h,.nil⟩

theorem SentPackets.one {s : NetworkSession} {w w' : World} {packet : Packet} {d : Bytes}
    (hd : Wraps tp s [packet] d) (h : w'.server.sent = w.server.sent ++ [(s.guid,d)]) :
    SentPackets tp s w w' [packet] := ⟨[d],by simpa using h,.cons hd .nil⟩

theorem SentPackets.trans {s : NetworkSession} {u v w : World} {packets packets' : List Packet}
    (h : SentPackets tp s u v packets) (k : SentPackets tp s v w packets') :
    SentPackets tp s u w (packets ++ packets') := by
  obtain ⟨ds,hsent,hwraps⟩ := h
  obtain ⟨es,hsent',hwraps'⟩ := k
  exact ⟨ds ++ es,by simp [hsent',hsent],List.rel_append hwraps hwraps'⟩

structure Alike (tp : ThirdParty) (f₀ : ResourcePackFactory) (s : NetworkSession) (w : World) : Prop where
  touched : f₀.Touched tp w.server.factory
  plain : w.session.encryptionEnabled = false
  guid : w.session.guid = s.guid
  compressionEnabled : w.session.compressionEnabled = s.compressionEnabled
  compressor : w.session.compressor = s.compressor

theorem Alike.does {f₀ : ResourcePackFactory} {s : NetworkSession} {w w' : World} (h : Alike tp f₀ s w)
    (hd : Does tp w w') : Alike tp f₀ s w' :=
  ⟨h.touched.trans hd.factory,hd.encryptionEnabled.trans h.plain,hd.guid.trans h.guid,
    hd.compressionEnabled.trans h.compressionEnabled,hd.compressor.trans h.compressor⟩

theorem Alike.touch {f₀ : ResourcePackFactory} {s : NetworkSession} {w : World} {factory : ResourcePackFactory}
    (h : Alike tp f₀ s w) (hf : w.server.factory.Touched tp factory) :
    Alike tp f₀ s { w with server := { w.server with factory } } :=
  ⟨h.touched.trans hf,h.plain,h.guid,h.compressionEnabled,h.compressor⟩

theorem Alike.sent {f₀ : ResourcePackFactory} {s : NetworkSession} {w w' : World} {packet : Packet}
    (h : Alike tp f₀ s w) (hsend : NetworkSession.send tp packet true w = .ok () w') :
    Alike tp f₀ s w' ∧ SentPackets tp s w w' [packet] := by
  obtain ⟨cipher,datagrams,rfl,hplain⟩ := NetworkSession.send_ok hsend
  obtain ⟨-,d,hd,rfl⟩ := hplain h.plain
  refine ⟨⟨h.touched,h.plain,h.guid,h.compressionEnabled,h.compressor⟩,?_⟩
  apply SentPackets.one ((wraps_congr h.compressionEnabled h.compressor).mp hd)
  rw [← h.guid]
  rfl

theorem Alike.announced {f₀ : ResourcePackFactory} {s : NetworkSession} {id : UUID} {i : Nat}
    {info : ResourcePackDataInfoPacket} {w w' : World} (h : Alike tp f₀ s w) (hf : f₀.Indexed tp)
    (hi : f₀.getPackById id = some i) (hr : NetworkSession.announce tp i w = .ok info w') :
    NetworkSession.infoOf tp f₀ id = some info ∧ Alike tp f₀ s w' ∧ SentPackets tp s w w' [] := by
  obtain ⟨m,factory,hinfo,-,hfactory,rfl⟩ := NetworkSession.announce_ok (hf.touched h.touched)
    ((h.touched.getPackById id).trans hi) hr
  rw [NetworkSession.infoOf_touched h.touched] at hinfo
  exact ⟨hinfo,⟨h.touched.trans hfactory,h.plain,h.guid,h.compressionEnabled,h.compressor⟩,.none rfl⟩

/-- A SendPacks response that is served sends the packets for its packs and nothing else. -/
theorem NetworkSession.sendPacks_sent {f₀ : ResourcePackFactory} {s : NetworkSession}
    {entries : List ResourcePackClientResponsePacket.Entry} {w w' : World} (hf : f₀.Indexed tp)
    (h : Alike tp f₀ s w) (hr : sendPacks tp entries w = .ok () w') :
    SentPackets tp s w w' ((infosFor tp f₀ entries).map dataInfo) := by
  induction entries generalizing w with
  | nil =>
    cases hr
    exact .none rfl
  | cons entry entries ih =>
    rw [sendPacks_cons,h.touched.getPackById] at hr
    cases hi : f₀.getPackById entry.uuid with
    | none =>
      have hnone : infoOf tp f₀ entry.uuid = none := by simp [infoOf,hi]
      simp only [hi] at hr
      cases hr
      simp only [infosFor,hnone,List.map_nil]
      exact .none rfl
    | some i =>
      simp only [hi] at hr
      obtain ⟨info,w₁,hinfo,hrun⟩ := of_bind_ok hr
      obtain ⟨a,w₂,hsend,hrest⟩ := of_bind_ok hrun
      obtain ⟨hsome,h₁,hnone⟩ := h.announced hf hi hinfo
      obtain ⟨h₂,hone⟩ := h₁.sent hsend
      have hall := (hnone.trans hone).trans (ih h₂ hrest)
      simp only [infosFor,hsome,List.map_cons]
      exact hall

def ResourcePackMeta.Full (f₀ : ResourcePackFactory) (id : UUID) (m : ResourcePackMeta) : Prop :=
  f₀.getPackById id = some m.pack ∧ m.maxChunkSize = f₀.maxChunkSize.val ∧
    ∃ p, f₀.packs[m.pack]? = some p ∧ m.chunkCount = p.chunkCount f₀.maxChunkSize

/-- The flags of the session are those of the chunks `served` so far. -/
structure Progress (tp : ThirdParty) (f₀ : ResourcePackFactory) (s : NetworkSession) (w : World)
    (served : List (UUID × Int)) : Prop where
  alike : Alike tp f₀ s w
  download : w.session.Download
  metas : ∀ id m, w.session.loadedPacks id = some m → m.Full f₀ id
  flags : ∀ id m, w.session.loadedPacks id = some m →
    ∀ j < m.chunks.length, m.isSent j = true ↔ (id,(j : Int)) ∈ served
  absent : ∀ id j, w.session.loadedPacks id = none → (id,j) ∉ served

theorem eraseDups_concat {α : Type} [BEq α] [LawfulBEq α] (xs : List α) (a : α) :
    (xs ++ [a]).eraseDups = xs.eraseDups ++ if a ∉ xs then [a] else [] := by
  rw [List.eraseDups_append]
  by_cases h : a ∈ xs
  · simp [h,List.cons_removeAll]
  · simp [h,List.cons_removeAll,List.eraseDups_cons]

namespace Progress

variable {f₀ : ResourcePackFactory} {s : NetworkSession} {w w' : World} {served : List (UUID × Int)}

theorem put (h : Progress tp f₀ s w served) (id : UUID) {m : ResourcePackMeta} {served' : List (UUID × Int)}
    (halike : Alike tp f₀ s w')
    (hloaded : w'.session.loadedPacks = Function.update w.session.loadedPacks id (some m))
    (hpending : w'.session.pendingChunks = w.session.pendingChunks)
    (hidle : w'.session.queueProcessing = w.session.queueProcessing)
    (hm : m.packId = id ∧ m.WellFormed) (hfull : m.Full f₀ id)
    (hflags : ∀ j < m.chunks.length, m.isSent j = true ↔ (id,(j : Int)) ∈ served')
    (hserved : ∀ x j, x ≠ id → ((x,j) ∈ served' ↔ (x,j) ∈ served)) : Progress tp f₀ s w' served' := by
  constructor
  · exact halike
  · exact h.download.put hloaded hpending hidle hm
  · intro x m' hx
    rcases NetworkSession.loaded_cases hloaded hx with ⟨rfl,rfl⟩ | ⟨-,hx⟩
    · exact hfull
    · exact h.metas x m' hx
  · intro x m' hx j hj
    rcases NetworkSession.loaded_cases hloaded hx with ⟨rfl,rfl⟩ | ⟨hne,hx⟩
    · exact hflags j hj
    · rw [hserved x j hne]
      exact h.flags x m' hx j hj
  · intro x j hx
    rw [hloaded] at hx
    by_cases hid : x = id
    · rw [hid,Function.update_self] at hx
      cases hx
    · rw [Function.update_of_ne hid] at hx
      rw [hserved x j hid]
      exact h.absent x j hx

theorem keep (h : Progress tp f₀ s w served) (halike : Alike tp f₀ s w')
    (hloaded : w'.session.loadedPacks = w.session.loadedPacks)
    (hpending : w'.session.pendingChunks = w.session.pendingChunks)
    (hidle : w'.session.queueProcessing = w.session.queueProcessing) : Progress tp f₀ s w' served := by
  constructor
  · exact halike
  · exact ⟨hpending.trans h.download.pending,hidle.trans h.download.idle,by rw [hloaded]; exact h.download.packs⟩
  · rw [hloaded]
    exact h.metas
  · rw [hloaded]
    exact h.flags
  · rw [hloaded]
    exact h.absent

theorem packFor (h : Progress tp f₀ s w served) (hready : f₀.Ready tp) {id : UUID} {m : ResourcePackMeta}
    (hm : NetworkSession.packFor w id = some m) :
    (m.packId = id ∧ m.WellFormed) ∧ m.Full f₀ id ∧
    ∀ j < m.chunks.length, m.isSent j = true ↔ (id,(j : Int)) ∈ served := by
  refine ⟨h.download.packFor hm,?_⟩
  cases hloaded : w.session.loadedPacks id with
  | some m' =>
    simp only [NetworkSession.packFor,hloaded,Option.some_inj] at hm
    subst hm
    exact ⟨h.metas id _ hloaded,h.flags id _ hloaded⟩
  | none =>
    simp only [NetworkSession.packFor,hloaded,Option.bind_eq_bind,Option.bind_eq_some_iff] at hm
    obtain ⟨i,hi,q,hq,hm⟩ := hm
    rw [h.alike.touched.getPackById] at hi
    obtain ⟨p,hp,-,-⟩ := hready.indexed id i hi
    obtain ⟨q',hq',hpq⟩ := h.alike.touched.packs i p hp
    rw [hq] at hq'
    cases hq'
    have hsize := hpq.getPackSize
    have hcount := ZippedResourcePack.roundedChunkCount_eq (hready.usable p (List.mem_of_getElem? hp)).fits
    rw [h.alike.touched.maxChunkSize,hsize,hcount] at hm
    cases hc : ResourcePackMeta.create id i f₀.maxChunkSize.val (p.chunkCount f₀.maxChunkSize) with
    | error e => simp [hc,Except.toOption] at hm
    | ok m' =>
      simp only [hc,Except.toOption,Option.some_inj] at hm
      subst hm
      obtain ⟨-,hmeta⟩ := ResourcePackMeta.create_ok hc
      have hunsent := (ResourcePackMeta.create_wellFormed hc).2
      refine ⟨⟨by rw [hmeta]; exact hi,by rw [hmeta],p,by rw [hmeta]; exact hp,by rw [hmeta]⟩,fun j _ => ?_⟩
      rw [hunsent j]
      simp [h.absent id j hloaded]

theorem announced (h : Progress tp f₀ s w served) {id : UUID} {m : ResourcePackMeta}
    (hcounted : ∀ i p, f₀.getPackById id = some i → f₀.packs[i]? = some p → p.Counted f₀.maxChunkSize)
    (ha : NetworkSession.Announced tp id m w w') : Progress tp f₀ s w' served := by
  obtain ⟨i,q,count,hi,hq,hcount,hm⟩ := ha.found
  obtain ⟨cipher,hs⟩ := ha.session
  obtain ⟨hpacks,-,hpending,hidle⟩ := ha.fields
  have halike : Alike tp f₀ s w' := by
    constructor
    · exact h.alike.touched.trans ha.factory
    · rw [hs]
      exact h.alike.plain
    · rw [hs]
      exact h.alike.guid
    · rw [hs]
      exact h.alike.compressionEnabled
    · rw [hs]
      exact h.alike.compressor
  cases hloaded : w.session.loadedPacks id with
  | some m' =>
    rw [NetworkSession.emplacePack_some hloaded] at hpacks
    exact h.keep halike hpacks hpending hidle
  | none =>
    obtain ⟨-,hmeta⟩ := ResourcePackMeta.create_ok hm
    obtain ⟨hwf,hunsent⟩ := ResourcePackMeta.create_wellFormed hm
    rw [h.alike.touched.getPackById] at hi
    rw [h.alike.touched.maxChunkSize] at hcount hmeta
    obtain ⟨p,hp,hpq⟩ := h.alike.touched.back hq
    have hright := hcounted i p hi hp
    rw [hpq.getPackSize,hright] at hcount
    cases hcount
    have hfull : m.Full f₀ id := ⟨by rw [hmeta]; exact hi,by rw [hmeta],_,by rw [hmeta]; exact hp,by rw [hmeta]⟩
    rw [NetworkSession.emplacePack_none hloaded] at hpacks
    refine h.put id (m:=m) halike hpacks hpending hidle ⟨by rw [hmeta],hwf⟩ hfull ?_ fun _ _ _ => Iff.rfl
    intro j _
    rw [hunsent j]
    simp [h.absent id j hloaded]

theorem sendPacks {entries : List ResourcePackClientResponsePacket.Entry} (hready : f₀.Ready tp)
    (h : Progress tp f₀ s w served)
    (hcounted : NetworkSession.Announces f₀ (fun p => p.Counted f₀.maxChunkSize) entries)
    (hr : NetworkSession.sendPacks tp entries w = .ok () w') :
    Progress tp f₀ s w' served ∧
      ∃ packets, SentPackets tp s w w' packets ∧ packets.filterMap Packet.chunk? = [] := by
  induction entries generalizing w with
  | nil =>
    cases hr
    exact ⟨h,[],.none rfl,rfl⟩
  | cons entry entries ih =>
    have hindexed := hready.indexed.touched h.alike.touched
    rcases NetworkSession.sendPacks_ok hindexed hr with ⟨-,rfl⟩ | ⟨m,w₁,ha,hrest⟩
    · have halike : Alike tp f₀ s { w with session := { w.session with markedForDisconnect := true } } :=
        ⟨h.alike.touched,h.alike.plain,h.alike.guid,h.alike.compressionEnabled,h.alike.compressor⟩
      exact ⟨h.keep halike rfl rfl rfl,[],.none rfl,rfl⟩
    · obtain ⟨i,q,count,hi,-⟩ := ha.found
      rw [h.alike.touched.getPackById] at hi
      simp only [NetworkSession.Announces,hi] at hcounted
      have hentry : ∀ j p, f₀.getPackById entry.uuid = some j → f₀.packs[j]? = some p →
          p.Counted f₀.maxChunkSize := by
        intro j p hj hp
        rw [hi] at hj
        cases hj
        exact hcounted.1 p hp
      obtain ⟨hprogress,packets,hsent,hchunks⟩ := ih (h.announced hentry ha) hcounted.2 hrest
      obtain ⟨-,pk,d,hd,hone⟩ := ha.sent h.alike.plain
      rw [h.alike.guid] at hone
      have hd' := (wraps_congr h.alike.compressionEnabled h.alike.compressor).mp hd
      exact ⟨hprogress,_,(SentPackets.one hd' hone).trans hsent,by simpa [Packet.chunk?] using hchunks⟩

theorem cut_eq {id : UUID} {m : ResourcePackMeta} {idx : Int} {p : ZippedResourcePack} (hfull : m.Full f₀ id)
    (hp : f₀.packs[m.pack]? = some p) (hin : 0 ≤ idx ∧ idx < m.chunkCount) :
    f₀.Has (id,idx) ∧ NetworkSession.cut m idx p.file ≠ [] ∧
      (id,idx,(UInt64.ofNat (idx.toNat*m.maxChunkSize%2^64)).toNat,NetworkSession.cut m idx p.file) =
        f₀.chunkAt (id,idx) := by
  obtain ⟨hi,hmax,p',hp',hcount⟩ := hfull
  rw [hp] at hp'
  cases hp'
  have hpack : f₀.packOf id = some p := by simp [ResourcePackFactory.packOf,hi,hp]
  obtain ⟨hstart,hwithin,hrest⟩ := NetworkSession.chunk_within hmax (le_of_eq hcount) hin
  have hpos := f₀.maxChunkSize.pos
  have hfits := p.fileFits
  have hcut : NetworkSession.cut m idx p.file =
      (p.file.drop (idx.toNat*m.maxChunkSize)).take
        (min m.maxChunkSize (p.file.length-idx.toNat*m.maxChunkSize)) := by
    unfold ZippedResourcePack.getPackSize at hrest
    simp only [NetworkSession.cut,hstart,hrest]
  have hnext : (idx.toNat+1)*f₀.maxChunkSize.val = idx.toNat*f₀.maxChunkSize.val+f₀.maxChunkSize.val := by ring
  refine ⟨⟨p,hpack,hin.1,by rw [← hcount]; exact hin.2⟩,?_,?_⟩
  · intro hnil
    have hlength := congrArg List.length hnil
    rw [hcut,List.length_take,List.length_drop,List.length_nil] at hlength
    omega
  · have hmin : min m.maxChunkSize (p.file.length-idx.toNat*m.maxChunkSize) =
        min ((idx.toNat+1)*f₀.maxChunkSize.val) p.file.length-idx.toNat*f₀.maxChunkSize.val := by
      rw [hnext,hmax]
      omega
    rw [hstart,hcut,hmin,hmax]
    simp only [ResourcePackFactory.chunkAt,hpack,Option.map_some,Option.getD_some,Prod.mk.injEq,true_and,
      UInt64.toNat_ofNat',and_true]
    rw [hmax] at hwithin
    exact Nat.mod_eq_of_lt (by omega)

theorem readsChunk_eq {m : ResourcePackMeta} {idx : Int} {chunk : Bytes} {p : ZippedResourcePack}
    (h : Progress tp f₀ s w served) (hp : f₀.packs[m.pack]? = some p)
    (hread : NetworkSession.ReadsChunk w.server.factory m idx chunk) : chunk = NetworkSession.cut m idx p.file := by
  obtain ⟨q,hq,hchunk⟩ := hread.touched h.alike.touched
  rw [hp] at hq
  cases hq
  exact hchunk

theorem has_iff {id : UUID} {m : ResourcePackMeta} {idx : Int} (hfull : m.Full f₀ id) :
    f₀.Has (id,idx) ↔ 0 ≤ idx ∧ idx < m.chunkCount := by
  obtain ⟨p,hp,hcount⟩ := hfull.2.2
  constructor
  · rintro ⟨p',hp',hin⟩
    have hpack : f₀.packOf id = some p := by simp [ResourcePackFactory.packOf,hfull.1,hp]
    rw [show f₀.packOf (id,idx).1 = some p from hpack] at hp'
    cases hp'
    rw [hcount]
    exact hin
  · intro hin
    exact (cut_eq hfull hp hin).1

theorem kept {id : UUID} {idx : Int} {m m' : ResourcePackMeta} {markedForDisconnect : Bool}
    (h : Progress tp f₀ s w served) (halike : Alike tp f₀ s w') (hmeta : m.packId = id ∧ m.WellFormed)
    (hfull : m.Full f₀ id) (hflags : ∀ j < m.chunks.length, m.isSent j = true ↔ (id,(j : Int)) ∈ served)
    (hkept : m' = m ∨ m' = m.setWant idx.toNat)
    (hwhy : ¬ (0 ≤ idx ∧ idx < m.chunkCount) ∨ m.isSent idx.toNat = true ∨
      NetworkSession.ReadsChunk w.server.factory m idx [])
    (hs : w'.session = { NetworkSession.enqueuePack id (NetworkSession.withPack id m' w.session) with
      markedForDisconnect }) :
    (f₀.Has (id,idx) → (id,idx) ∈ served) ∧
      Progress tp f₀ s w' (if f₀.Has (id,idx) then served ++ [(id,idx)] else served) := by
  obtain ⟨hwf',hpackId'⟩ := NetworkSession.wellFormed_kept hkept hmeta.2
  obtain ⟨p,hp,-⟩ := hfull.2.2
  have hlength := hmeta.2.length
  have hfull' : m'.Full f₀ id := by rcases hkept with rfl | rfl <;> exact hfull
  have hlength' : m'.chunks.length = m.chunks.length := by rcases hkept with rfl | rfl <;> simp
  have hsent' : ∀ j, m'.isSent j = m.isSent j := by rcases hkept with rfl | rfl <;> simp
  have hserved : f₀.Has (id,idx) → (id,idx) ∈ served := by
    intro hr
    have hin := (has_iff hfull).mp hr
    rcases hwhy with hout | hflag | hblank
    · exact absurd hin hout
    · have hmem := (hflags idx.toNat (by omega)).mp hflag
      rwa [Int.toNat_of_nonneg hin.1] at hmem
    · exact absurd (h.readsChunk_eq hp hblank).symm (cut_eq hfull hp hin).2.1
  have hsame : ∀ x, x ∈ (if f₀.Has (id,idx) then served ++ [(id,idx)] else served) ↔ x ∈ served := by
    intro x
    split
    · rename_i hr
      rw [List.mem_append,List.mem_singleton]
      constructor
      · rintro (hx | rfl)
        · exact hx
        · exact hserved hr
      · exact Or.inl
    · exact Iff.rfl
  refine ⟨hserved,h.put id (m:=m') halike (by rw [hs]; rfl) (by rw [hs]; rfl) (by rw [hs]; rfl)
    ⟨hpackId'.trans hmeta.1,hwf'⟩ hfull' ?_ fun x j _ => hsame (x,j)⟩
  intro j hj
  rw [hsame,hsent']
  exact hflags j (by omega)

theorem delivered {id : UUID} {idx : Int} {m : ResourcePackMeta} {cipher : Option AesEncryptor}
    (h : Progress tp f₀ s w served) (halike : Alike tp f₀ s w') (hmeta : m.packId = id ∧ m.WellFormed)
    (hfull : m.Full f₀ id) (hflags : ∀ j < m.chunks.length, m.isSent j = true ↔ (id,(j : Int)) ∈ served)
    (hin : 0 ≤ idx ∧ idx < m.chunkCount) (hunsent : m.isSent idx.toNat = false)
    (hs : w'.session =
      let t := { NetworkSession.enqueuePack id (NetworkSession.withPack id (m.deliver idx.toNat) w.session) with cipher }
      if (m.deliver idx.toNat).finished then NetworkSession.nextPack t else t) :
    (id,idx) ∉ served ∧ Progress tp f₀ s w' (served ++ [(id,idx)]) := by
  have hlength := hmeta.2.length
  have hi : idx.toNat < m.chunks.length := by omega
  have hindex : ((idx.toNat : Nat) : Int) = idx := Int.toNat_of_nonneg hin.1
  have hfields := NetworkSession.delivered_fields hs
  have hother : ∀ x j, x ≠ id → ((x,j) ∈ served ++ [(id,idx)] ↔ (x,j) ∈ served) := by
    intro x j hx
    simp [hx]
  constructor
  · intro hmem
    have hflag := (hflags idx.toNat hi).mpr (by rw [hindex]; exact hmem)
    rw [hunsent] at hflag
    cases hflag
  · refine h.put id halike hfields.1 hfields.2.1 hfields.2.2 ⟨hmeta.1,hmeta.2.deliver hi⟩ hfull ?_ hother
    intro j hj
    rw [ResourcePackMeta.length_deliver] at hj
    rw [ResourcePackMeta.isSent_deliver m hi,Bool.or_eq_true,decide_eq_true_eq,hflags j hj,List.mem_append,
      List.mem_singleton,or_comm]
    have heq : j = idx.toNat ↔ (id,(j : Int)) = (id,idx) := by
      simp only [Prod.mk.injEq,true_and]
      omega
    rw [heq]

theorem answered {request : ResourcePackChunkRequestPacket} {m : ResourcePackMeta} (hready : f₀.Ready tp)
    (h : Progress tp f₀ s w served) (halike : Alike tp f₀ s w')
    (hm : NetworkSession.packFor w request.packId = some m)
    (ha : NetworkSession.Answered tp request.packId request.chunkIndex m w w') :
    let r := (request.packId,request.chunkIndex)
    Progress tp f₀ s w' (if f₀.Has r then served ++ [r] else served) ∧
      ∃ packets, SentPackets tp s w w' packets ∧
        packets.filterMap Packet.chunk? = if f₀.Has r ∧ r ∉ served then [f₀.chunkAt r] else [] := by
  intro r
  obtain ⟨hmeta,hfull,hflags⟩ := h.packFor hready hm
  cases ha with
  | kept m' marked hkept hwhy hs hsent =>
    obtain ⟨hserved,hprogress⟩ := h.kept halike hmeta hfull hflags hkept hwhy hs
    refine ⟨hprogress,[],.none hsent,?_⟩
    rw [if_neg fun hnew => hnew.2 (hserved hnew.1)]
    rfl
  | delivered packVersion chunk cipher hin hunsent hread hne hs hsent =>
    obtain ⟨hnew,hprogress⟩ := h.delivered halike hmeta hfull hflags hin hunsent hs
    have hr : f₀.Has r := (has_iff hfull).mpr hin
    rw [if_pos hr,if_pos ⟨hr,hnew⟩]
    obtain ⟨-,d,hd,hone⟩ := hsent h.alike.plain
    rw [h.alike.guid] at hone
    have hd' := (wraps_congr h.alike.compressionEnabled h.alike.compressor).mp hd
    refine ⟨hprogress,_,SentPackets.one hd' hone,?_⟩
    obtain ⟨p,hp,-⟩ := hfull.2.2
    have hchunk := h.readsChunk_eq hp hread
    subst hchunk
    have hcut := (cut_eq hfull hp hin).2.2
    simpa [NetworkSession.chunkData,Packet.chunk?] using hcut

theorem call (hready : f₀.Ready tp) (hdeflates : Deflates tp) (hgood : Good tp f₀ w)
    (h : Progress tp f₀ s w served) {c : DownloadCall}
    (hcounted : ∀ entries, c = .sendPacks entries →
      NetworkSession.Announces f₀ (fun p => p.Counted f₀.maxChunkSize) entries) :
    ∃ b w' packets new, NetworkSession.handle tp c.body w = .ok b w' ∧ Good tp f₀ w' ∧
      Progress tp f₀ s w' (served ++ (DownloadCall.requests [c]).filter f₀.Has) ∧ SentPackets tp s w w' packets ∧
      (served ++ (DownloadCall.requests [c]).filter f₀.Has).eraseDups = served.eraseDups ++ new ∧
      packets.filterMap Packet.chunk? = new.map f₀.chunkAt := by
  cases c with
  | sendPacks entries =>
    have hwithin : NetworkSession.Announces f₀ (fun p => p.CountedWithin f₀.maxChunkSize) entries :=
      (hcounted entries rfl).mono fun p hp => hp.within
    obtain ⟨b,w₁,hr,-,hgood₁⟩ := NetworkSession.total_handleResourcePackClientResponse hready hdeflates
      { responseStatus := ResourcePackClientResponseStatus.SendPacks, packEntries := entries } hwithin w hgood
    have hsend := NetworkSession.handleResourcePackClientResponse_ok rfl hr
    obtain ⟨hprogress,packets,hsent,hchunks⟩ := h.sendPacks hready (hcounted entries rfl) hsend
    have hserved : served ++ (DownloadCall.requests [.sendPacks entries]).filter f₀.Has = served := List.append_nil _
    rw [hserved]
    exact ⟨b,w₁,packets,[],hr,hgood₁,hprogress,hsent,(List.append_nil _).symm,hchunks⟩
  | chunkRequest request =>
    obtain ⟨b,w₁,hr,-,hgood₁⟩ :=
      NetworkSession.total_handleResourcePackChunkRequest hready hdeflates request w hgood
    have hindexed := hready.indexed.touched h.alike.touched
    have halike := h.alike.does ((NetworkSession.within_handleResourcePackChunkRequest request).ok hr)
    let r := (request.packId,request.chunkIndex)
    have hrequests : (DownloadCall.requests [.chunkRequest request]).filter f₀.Has = if f₀.Has r then [r] else [] := by
      by_cases hhas : f₀.Has r
      · simp [DownloadCall.requests,r,show f₀.Has (request.packId,request.chunkIndex) from hhas]
      · simp [DownloadCall.requests,r,show ¬ f₀.Has (request.packId,request.chunkIndex) from hhas]
    rw [hrequests]
    obtain ⟨-,⟨hloaded,hknown,rfl⟩ | ⟨m,hm,ha⟩⟩ :=
      NetworkSession.handleResourcePackChunkRequest_ok hindexed h.download hr
    · have hhas : ¬ f₀.Has r := by
        rintro ⟨p,hp,-⟩
        rw [h.alike.touched.getPackById] at hknown
        simp [ResourcePackFactory.packOf,r,hknown] at hp
      rw [if_neg hhas,List.append_nil]
      exact ⟨b,_,[],[],hr,hgood₁,h.keep halike rfl rfl rfl,.none rfl,(List.append_nil _).symm,rfl⟩
    · obtain ⟨hprogress,packets,hsent,hchunks⟩ := h.answered hready halike hm ha
      refine ⟨b,w₁,packets,if f₀.Has r ∧ r ∉ served then [r] else [],hr,hgood₁,?_,hsent,?_,?_⟩
      · by_cases hhas : f₀.Has r
        · simpa [r,hhas] using hprogress
        · simpa [r,hhas] using hprogress
      · by_cases hhas : f₀.Has r
        · simp only [hhas,if_true,true_and]
          exact eraseDups_concat served r
        · simp [hhas]
      · rw [hchunks]
        by_cases hnew : f₀.Has r ∧ r ∉ served
        · rw [if_pos hnew,if_pos hnew]
          rfl
        · rw [if_neg hnew,if_neg hnew]
          rfl

theorem run {calls : List DownloadCall} (hready : f₀.Ready tp) (hdeflates : Deflates tp) (hgood : Good tp f₀ w)
    (h : Progress tp f₀ s w served)
    (hcounted : ∀ entries, DownloadCall.sendPacks entries ∈ calls →
      NetworkSession.Announces f₀ (fun p => p.Counted f₀.maxChunkSize) entries) :
    ∃ w' packets new, DownloadCall.run tp calls w = .ok () w' ∧ SentPackets tp s w w' packets ∧
      (served ++ (DownloadCall.requests calls).filter f₀.Has).eraseDups = served.eraseDups ++ new ∧
      packets.filterMap Packet.chunk? = new.map f₀.chunkAt := by
  induction calls generalizing w served with
  | nil => exact ⟨w,[],[],rfl,.none rfl,by simp [DownloadCall.requests],rfl⟩
  | cons c calls ih =>
    obtain ⟨b,w₁,packets,new,hr,hgood₁,hprogress,hsent,hnew,hchunks⟩ :=
      h.call (c:=c) hready hdeflates hgood fun entries hc => hcounted entries (List.mem_cons.mpr (Or.inl hc.symm))
    obtain ⟨w₂,packets',new',hr',hsent',hnew',hchunks'⟩ :=
      ih hgood₁ hprogress fun entries hc => hcounted entries (List.mem_cons_of_mem _ hc)
    refine ⟨w₂,packets ++ packets',new ++ new',?_,hsent.trans hsent',?_,?_⟩
    · exact (bind_ok hr).trans hr'
    · have hrequests : DownloadCall.requests (c :: calls) = DownloadCall.requests [c] ++ DownloadCall.requests calls := by
        cases c <;> rfl
      rw [hrequests,List.filter_append,← List.append_assoc,hnew',hnew,List.append_assoc]
    · rw [List.filterMap_append,List.map_append,hchunks,hchunks']

end Progress

/-- The session of a client that has begun no download, in either mode. -/
def NetworkSession.begin (guid : Guid) (compressionEnabled : Bool) : NetworkSession :=
  { guid, compressionEnabled, compressor := if compressionEnabled then some CompressionAlgorithm.ZLIB else none }

theorem good_begin {server : Server} (hstreams : ∀ p ∈ server.factory.packs, p.fileStream.failbit = false)
    (guid : Guid) (compressionEnabled : Bool) :
    Good tp server.factory { session := .begin guid compressionEnabled, server } := by
  refine ⟨⟨rfl,fun hmode => ?_,fun id m hm => nomatch hm⟩,.refl _,hstreams⟩
  have hon : compressionEnabled = true := hmode
  simp [NetworkSession.begin,hon]

theorem progress_begin (tp : ThirdParty) (guid : Guid) (compressionEnabled : Bool) (server : Server) :
    Progress tp server.factory (.begin guid compressionEnabled)
      { session := .begin guid compressionEnabled, server } [] := by
  constructor
  · exact ⟨.refl _,rfl,rfl,rfl,rfl⟩
  · exact ⟨rfl,rfl,fun id m hm => nomatch hm⟩
  · exact fun id m hm => nomatch hm
  · exact fun id m hm => nomatch hm
  · exact fun id j _ => List.not_mem_nil

/-- The chunks that are sent are those that are asked for and exist, each at its first request and
with its part of the file. -/
theorem download_delivers {server : Server} (hready : server.factory.Ready tp)
    (hstreams : ∀ p ∈ server.factory.packs, p.fileStream.failbit = false) (hdeflates : Deflates tp) (guid : Guid)
    (compressionEnabled : Bool) (calls : List DownloadCall)
    (hcounted : ∀ entries, DownloadCall.sendPacks entries ∈ calls →
      NetworkSession.Announces server.factory (fun p => p.Counted server.factory.maxChunkSize) entries) :
    let w : World := { session := .begin guid compressionEnabled, server }
    ∃ w' packets, DownloadCall.run tp calls w = .ok () w' ∧ SentPackets tp w.session w w' packets ∧
      packets.filterMap Packet.chunk? =
        ((DownloadCall.requests calls).filter server.factory.Has).eraseDups.map server.factory.chunkAt := by
  intro w
  have hgood : Good tp server.factory w := good_begin hstreams guid compressionEnabled
  have hstart := progress_begin tp guid compressionEnabled server
  obtain ⟨w',packets,new,hr,hsent,hnew,hchunks⟩ := hstart.run hready hdeflates hgood hcounted
  refine ⟨w',packets,hr,hsent,?_⟩
  rw [hchunks]
  have heq : ((DownloadCall.requests calls).filter server.factory.Has).eraseDups = new := by simpa using hnew
  rw [heq]

theorem Server.twoPacks_counted : ∀ p ∈ twoPacks.factory.packs, p.Counted twoPacks.factory.maxChunkSize := by
  obtain ⟨hmax,hpacks⟩ := loaded_packs .rawIds ⟨22,by decide,by decide⟩
    [.ofId (.filled 1) 44 (by decide),.ofId (.filled 2) 22 (by decide)]
  intro q hq
  obtain ⟨p,hp,hpq,-⟩ := hpacks q hq
  have hsize : q.getPackSize ≤ 44 := by
    rw [hpq.getPackSize]
    simp only [List.mem_cons,List.not_mem_nil,or_false] at hp
    rcases hp with rfl | rfl <;> decide
  have hchunks : q.chunkCount twoPacks.factory.maxChunkSize < 2^31 := by
    have hle := Nat.div_le_self (q.getPackSize+22-1) 22
    rw [show twoPacks.factory.maxChunkSize = ⟨22,by decide,by decide⟩ from hmax]
    simp only [ZippedResourcePack.chunkCount]
    omega
  exact ZippedResourcePack.counted_of_small (by omega) hchunks

theorem download_delivers_twoPacks :
    let calls : List DownloadCall :=
      [.chunkRequest { packId := .filled 2, chunkIndex := 0 },.sendPacks [{ uuid := .filled 1 }],
       .chunkRequest { packId := .filled 1, chunkIndex := 1 },.chunkRequest { packId := .filled 1, chunkIndex := 1 },
       .chunkRequest { packId := .filled 1, chunkIndex := 2 }]
    let w : World := { session := .begin 7 true, server := .twoPacks }
    ∃ w' packets, DownloadCall.run .rawIds calls w = .ok () w' ∧ SentPackets .rawIds w.session w w' packets ∧
      packets.filterMap Packet.chunk? =
        ((DownloadCall.requests calls).filter Server.twoPacks.factory.Has).eraseDups.map
          Server.twoPacks.factory.chunkAt :=
  download_delivers Server.twoPacks_prepared.ready Server.twoPacks_prepared.streams deflates_rawIds 7 true _
    fun entries _ => NetworkSession.announces_of_all Server.twoPacks_counted entries

/-- A server with a pack whose size is the first that a `double` does not hold. -/
def Server.hugePack : Server :=
  .loaded .rawIds ⟨2^23,by decide,by decide⟩ [.ofId (.filled 1) (2^53+1) (by decide)]

theorem Server.hugePack_count : ceilChunkCount (2^53+1) (2^23) = .ok (2^30) := by decide +kernel

theorem Server.hugePack_prepared : hugePack.Prepared .rawIds := by
  apply loaded_prepared
  intro p hp
  rw [List.mem_singleton] at hp
  subst hp
  exact ZippedResourcePack.ofId_fresh _ (2^30) hugePack_count (by decide) (by decide)

theorem Server.hugePack_known : ∃ p, hugePack.factory.getPackById (.filled 1) = some 0 ∧
    hugePack.factory.packs[0]? = some p ∧ p.getPackSize = 2^53+1 ∧
    hugePack.factory.maxChunkSize = ⟨2^23,by decide,by decide⟩ := by
  have hid : hugePack.factory.getPackById (.filled 1) = some 0 := by decide +kernel
  obtain ⟨q,hq,-,-⟩ := hugePack_prepared.ready.indexed _ 0 hid
  obtain ⟨hmax,hpacks⟩ := loaded_packs .rawIds ⟨2^23,by decide,by decide⟩ [.ofId (.filled 1) (2^53+1) (by decide)]
  obtain ⟨p,hp,hpq,-⟩ := hpacks q (List.mem_of_getElem? hq)
  rw [List.mem_singleton] at hp
  subst hp
  have hsize : q.getPackSize = 2^53+1 := by
    rw [hpq.getPackSize]
    exact List.length_replicate
  exact ⟨q,hid,hq,hsize,hmax⟩

theorem chunk?_of_wraps_dataInfo {s : NetworkSession} (hs : s.compressionEnabled = false) {packet : Packet}
    {pk : ResourcePackDataInfoPacket} {d : Bytes} (h : Wraps tp s [packet] d)
    (h' : Wraps tp s [{ body := .resourcePackDataInfo pk }] d) : packet.chunk? = none := by
  obtain ⟨out,hout,rfl⟩ := h
  obtain ⟨out',hout',heq⟩ := h'
  simp only [NetworkSession.compressOutgoing,hs,Bool.false_eq_true,if_false,List.flatMap_singleton] at hout hout'
  cases hout
  cases hout'
  have hencode := (List.cons.inj heq).2
  obtain ⟨subClientId,body⟩ := packet
  cases body with
  | resourcePackChunkData chunk =>
    have hid := frame_id hencode
    exact absurd hid (show ¬ (83 : UInt32) &&& 0x3FF = 82 &&& 0x3FF by decide)
  | _ => rfl

theorem hugePack_announced :
    let w : World := { session := .begin 7 false, server := .hugePack }
    ∃ b w₁ m pk d, NetworkSession.handle .rawIds (DownloadCall.sendPacks [{ uuid := .filled 1 }]).body w = .ok b w₁ ∧
      Good .rawIds Server.hugePack.factory w₁ ∧ NetworkSession.Download w₁.session ∧
      w₁.session.loadedPacks (.filled 1) = some m ∧ m.chunkCount = 2^30 ∧
      Wraps .rawIds w.session [{ body := .resourcePackDataInfo pk }] d ∧ w₁.server.sent = [(7,d)] := by
  intro w
  have hprepared := Server.hugePack_prepared
  obtain ⟨p,hid,hp,hsize,hmax⟩ := Server.hugePack_known
  have hgood : Good .rawIds Server.hugePack.factory w := good_begin hprepared.streams 7 false
  let packEntries : List ResourcePackClientResponsePacket.Entry := [{ uuid := .filled 1 }]
  obtain ⟨b,w₁,hr,-,hgood₁⟩ := NetworkSession.total_handleResourcePackClientResponse hprepared.ready
    deflates_rawIds { responseStatus := ResourcePackClientResponseStatus.SendPacks, packEntries }
    (NetworkSession.announces_of_all hprepared.counted packEntries) w hgood
  have hsend := NetworkSession.handleResourcePackClientResponse_ok rfl hr
  obtain ⟨hnone,-⟩ | ⟨m,w₂,ha,hnil⟩ := NetworkSession.sendPacks_ok hprepared.ready.indexed hsend
  · rw [hid] at hnone
    cases hnone
  cases hnil
  obtain ⟨i,q,count,hi,hq,hcount,hm⟩ := ha.found
  obtain ⟨cipher,hs₁⟩ := ha.session
  obtain ⟨-,pk,d,hd,hsent₁⟩ := ha.sent rfl
  obtain ⟨-,hmeta⟩ := ResourcePackMeta.create_ok hm
  have hlost : m.chunkCount = 2^30 := by
    rw [show w.server.factory = Server.hugePack.factory from rfl] at hi hq hcount
    rw [hid] at hi
    cases hi
    rw [hp] at hq
    cases hq
    rw [hmax,hsize,Server.hugePack_count] at hcount
    cases hcount
    rw [hmeta]
  have hloaded : w₁.session.loadedPacks = Function.update (fun _ => none) (.filled 1) (some m) := by
    simp [hs₁,NetworkSession.emplacePack,w,NetworkSession.begin]
  have hdownload : NetworkSession.Download w₁.session := by
    refine ⟨by rw [hs₁]; rfl,by rw [hs₁]; rfl,fun id m' hm' => ?_⟩
    by_cases heq : id = .filled 1
    · rw [hloaded,heq,Function.update_self] at hm'
      cases hm'
      exact ⟨by rw [hmeta,heq],(ResourcePackMeta.create_wellFormed hm).1⟩
    · rw [hloaded,Function.update_of_ne heq] at hm'
      cases hm'
  exact ⟨b,w₁,m,pk,d,hr,hgood₁,hdownload,by rw [hloaded,Function.update_self],hlost,hd,hsent₁⟩

/-- The last chunk of the huge pack is requested after the pack has been announced, and never sent. -/
theorem last_chunk_lost :
    let last : UUID × Int := (.filled 1,2^30)
    let w : World := { session := .begin 7 false, server := .hugePack }
    let calls : List DownloadCall :=
      [.sendPacks [{ uuid := .filled 1 }],.chunkRequest { packId := .filled 1, chunkIndex := 2^30 }]
    ∃ w', DownloadCall.run .rawIds calls w = .ok () w' ∧
      (DownloadCall.requests calls).filter Server.hugePack.factory.Has = [last] ∧
      ∀ packets, SentPackets .rawIds w.session w w' packets → packets.filterMap Packet.chunk? = [] := by
  intro last w calls
  have hready := Server.hugePack_prepared.ready
  obtain ⟨p,hid,hp,hsize,hmax⟩ := Server.hugePack_known
  obtain ⟨b,w₁,m,pk,d,hr,hgood,hdownload,hloaded,hlost,hd,hsent⟩ := hugePack_announced
  obtain ⟨b₂,w₂,hr₂,-,-⟩ := NetworkSession.total_handleResourcePackChunkRequest hready deflates_rawIds
    { packId := .filled 1, chunkIndex := 2^30 } w₁ hgood
  have hsent₂ : w₂.server.sent = [(7,d)] := by
    obtain ⟨-,⟨hnone,-,-⟩ | ⟨m',hm',hanswered⟩⟩ :=
      NetworkSession.handleResourcePackChunkRequest_ok (hready.indexed.touched hgood.server.touched) hdownload hr₂
    · rw [hloaded] at hnone
      cases hnone
    · have hsame : m' = m := by simpa [NetworkSession.packFor,hloaded] using hm'.symm
      subst hsame
      cases hanswered with
      | kept m'' marked hkept hwhy hs hsent' => exact hsent'.trans hsent
      | delivered packVersion chunk cipher hin hunsent hread hne hs hsent' =>
        rw [hlost] at hin
        exact absurd hin.2 (lt_irrefl _)
  have hhas : Server.hugePack.factory.Has last := by
    refine ⟨p,?_,by decide,?_⟩
    · simp [ResourcePackFactory.packOf,last,hid,hp]
    · simp only [ZippedResourcePack.chunkCount,hsize,hmax,last]
      decide
  refine ⟨w₂,(bind_ok hr).trans (bind_ok hr₂),?_,fun packets hpackets => ?_⟩
  · rw [show DownloadCall.requests calls = [last] from rfl]
    simp [hhas]
  · obtain ⟨datagrams,hall,hwraps⟩ := hpackets
    have hone : datagrams.map (w.session.guid,·) = [(7,d)] := by
      rw [hsent₂] at hall
      exact hall.symm
    obtain ⟨d',rfl,hd'⟩ := List.map_eq_singleton_iff.mp hone
    cases hd'
    obtain ⟨packet,packets,hpacket,hnil,rfl⟩ := List.forall₂_cons_right_iff.mp hwraps
    rw [List.forall₂_nil_right_iff] at hnil
    subst hnil
    have hnone := chunk?_of_wraps_dataInfo rfl hpacket hd
    simp [hnone]

end CyrexMC
