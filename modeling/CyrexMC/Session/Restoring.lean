import CyrexMC.Session.Advertised
import CyrexMC.Session.PackClient
import Mathlib.Data.List.TakeWhile
set_option autoImplicit false

namespace CyrexMC
open Stateful

variable {tp : ThirdParty}

/-- Usable packs that no read has failed on, each with the count of its chunks and the hash of its file, and
chunks that a codec takes. -/
structure Server.Delivers (tp : ThirdParty) (server : Server) : Prop where
  ready : server.factory.Ready tp
  streams : ∀ p ∈ server.factory.packs, p.fileStream.failbit = false
  counted : ∀ p ∈ server.factory.packs, p.Counted server.factory.maxChunkSize
  hashes : ∀ p ∈ server.factory.packs, p.sha256 tp = tp.sha256 p.file
  chunkSize : server.factory.maxChunkSize.val ≤ 2^22

/-- The packs that the calls ask to be announced, in each of them up to the first that is not known. -/
def DownloadCall.announced (f : ResourcePackFactory) : List DownloadCall → List UUID
  | [] => []
  | .sendPacks entries :: calls =>
    (entries.map fun entry => entry.uuid).takeWhile (fun id => (f.getPackById id).isSome) ++ announced f calls
  | .chunkRequest _ :: calls => announced f calls

theorem DownloadCall.isSome_of_mem_announced (f : ResourcePackFactory) (calls : List DownloadCall) :
    ∀ id ∈ announced f calls, (f.getPackById id).isSome := by
  intro id hid
  induction calls with
  | nil => cases hid
  | cons call calls ih =>
    cases call with
    | sendPacks entries =>
      rcases List.mem_append.mp hid with hfirst | hrest
      · exact List.mem_takeWhile_imp (p:=fun id => (f.getPackById id).isSome) hfirst
      · exact ih hrest
    | chunkRequest request => exact ih hid

namespace ResourcePackFactory

def chunkPacket (f : ResourcePackFactory) (packVersion : Bytes) (progress : UInt64) (r : UUID × Int) : Packet :=
  let pk : ResourcePackChunkDataPacket :=
    { packId := r.1, packVersion, chunkIndex := r.2, progress, data := (f.chunkAt r).2.2.2 }
  { body := .resourcePackChunkData pk }

theorem mem_served {f : ResourcePackFactory} {r : UUID × Int} {served : List (UUID × Int)}
    (hnew : ¬ (f.Has r ∧ r ∉ served)) (hhas : f.Has r) (x : UUID × Int) : x ∈ served ++ [r] ↔ x ∈ served := by
  have hserved : r ∈ served := by
    by_contra hno
    exact hnew ⟨hhas,hno⟩
  rw [List.mem_append,List.mem_singleton]
  exact ⟨fun hx => hx.elim id fun heq => heq ▸ hserved,Or.inl⟩

theorem packOf_of_isSome {f : ResourcePackFactory} (hf : f.Indexed tp) {id : UUID} (h : (f.getPackById id).isSome) :
    ∃ p ∈ f.packs, f.packOf id = some p := by
  obtain ⟨i,hi⟩ := Option.isSome_iff_exists.mp h
  obtain ⟨p,hp,-⟩ := hf id i hi
  exact ⟨p,List.mem_of_getElem? hp,by simp [packOf,hi,hp]⟩

theorem chunkAt_data {f : ResourcePackFactory} {id : UUID} {p : ZippedResourcePack} (hp : f.packOf id = some p) (k : Nat) :
    (f.chunkAt (id,(k : Int))).2.2.2 = (p.file.drop (k*f.maxChunkSize.val)).take f.maxChunkSize.val := by
  have hnext : (k+1)*f.maxChunkSize.val = k*f.maxChunkSize.val+f.maxChunkSize.val := Nat.succ_mul _ _
  have hrest : min ((k+1)*f.maxChunkSize.val) p.file.length-k*f.maxChunkSize.val =
      min f.maxChunkSize.val (p.file.drop (k*f.maxChunkSize.val)).length := by
    rw [List.length_drop,hnext]
    omega
  simp only [chunkAt,hp,Option.map_some,Option.getD_some,Int.toNat_natCast,hrest]
  rw [← List.take_take,List.take_length]

end ResourcePackFactory

theorem ZippedResourcePack.length_le_chunks (maxChunkSize : ChunkSize) (p : ZippedResourcePack) :
    p.file.length ≤ p.chunkCount maxChunkSize*maxChunkSize.val := by
  have hpos := maxChunkSize.pos
  have hmod := Nat.mod_lt (p.getPackSize+maxChunkSize.val-1) hpos
  have hdiv := Nat.div_add_mod' (p.getPackSize+maxChunkSize.val-1) maxChunkSize.val
  unfold getPackSize at hmod hdiv
  unfold chunkCount getPackSize
  omega

namespace Server.Delivers

variable {server : Server} (h : server.Delivers tp)
include h

theorem infoOf {id : UUID} {p : ZippedResourcePack} (hp : server.factory.packOf id = some p) :
    p ∈ server.factory.packs ∧ ∃ packVersion, NetworkSession.infoOf tp server.factory id = some
      { packId := id, packVersion, maxChunkSize := server.factory.maxChunkSize.val,
        chunkCount := p.chunkCount server.factory.maxChunkSize, compressedPackSize := UInt64.ofNat p.getPackSize,
        sha256 := tp.sha256 p.file } := by
  obtain ⟨i,hi,hplace⟩ := Option.bind_eq_some_iff.mp hp
  have hmem := List.mem_of_getElem? hplace
  obtain ⟨packVersion,hversion⟩ := (h.ready.usable p hmem).version
  refine ⟨hmem,packVersion,?_⟩
  rw [NetworkSession.infoOf_eq hi hplace hversion (h.counted p hmem),h.hashes p hmem]

theorem infosFor (entries : List ResourcePackClientResponsePacket.Entry) :
    List.Forall₂ (fun id info => NetworkSession.infoOf tp server.factory id = some info)
      ((entries.map fun entry => entry.uuid).takeWhile fun id => (server.factory.getPackById id).isSome)
      (NetworkSession.infosFor tp server.factory entries) := by
  induction entries with
  | nil => exact .nil
  | cons entry entries ih =>
    cases hi : server.factory.getPackById entry.uuid with
    | none =>
      have hnone : NetworkSession.infoOf tp server.factory entry.uuid = none := by simp [NetworkSession.infoOf,hi]
      simp [NetworkSession.infosFor,hnone,hi]
    | some i =>
      have hknown : (server.factory.getPackById entry.uuid).isSome := by rw [hi]; rfl
      obtain ⟨p,-,hp⟩ := ResourcePackFactory.packOf_of_isSome h.ready.indexed hknown
      obtain ⟨-,packVersion,hinfo⟩ := h.infoOf hp
      simp only [NetworkSession.infosFor,hinfo,List.map_cons,List.takeWhile_cons,hknown,if_true]
      exact .cons hinfo ih

end Server.Delivers

theorem Progress.request_sent {f₀ : ResourcePackFactory} {s : NetworkSession} {w w' : World}
    {served : List (UUID × Int)} {request : ResourcePackChunkRequestPacket} {b : Bool} (hready : f₀.Ready tp)
    (h : Progress tp f₀ s w served)
    (hr : NetworkSession.handleResourcePackChunkRequest tp request w = .ok b w') :
    let r := (request.packId,request.chunkIndex)
    ∃ packVersion, SentPackets tp s w w'
      (if f₀.Has r ∧ r ∉ served then [f₀.chunkPacket packVersion (UInt64.ofNat (f₀.chunkAt r).2.2.1) r] else []) := by
  intro r
  have hindexed := hready.indexed.touched h.alike.touched
  obtain ⟨-,⟨hloaded,hknown,rfl⟩ | ⟨m,hm,ha⟩⟩ :=
    NetworkSession.handleResourcePackChunkRequest_ok hindexed h.download hr
  · have hhas : ¬ f₀.Has r := by
      rintro ⟨p,hp,-⟩
      rw [h.alike.touched.getPackById] at hknown
      simp [ResourcePackFactory.packOf,r,hknown] at hp
    refine ⟨[],?_⟩
    rw [if_neg fun hnew => hhas hnew.1]
    exact .none rfl
  · obtain ⟨hmeta,hfull,hflags⟩ := h.packFor hready hm
    have halike := h.alike.does ((NetworkSession.within_handleResourcePackChunkRequest request).ok hr)
    cases ha with
    | kept m' marked hkept hwhy hs hsent =>
      obtain ⟨hserved,-⟩ := h.kept halike hmeta hfull hflags hkept hwhy hs
      refine ⟨[],?_⟩
      rw [if_neg fun hnew => hnew.2 (hserved hnew.1)]
      exact .none hsent
    | delivered packVersion chunk cipher hin hunsent hread hne hs hsent =>
      obtain ⟨hnew,-⟩ := h.delivered halike hmeta hfull hflags hin hunsent hs
      have hhas : f₀.Has r := (has_iff hfull).mpr hin
      obtain ⟨-,d,hd,hone⟩ := hsent h.alike.plain
      rw [h.alike.guid] at hone
      have hd' := (wraps_congr h.alike.compressionEnabled h.alike.compressor).mp hd
      obtain ⟨p,hp,-⟩ := hfull.2.2
      have hchunk := h.readsChunk_eq hp hread
      have hcut := (cut_eq hfull hp hin).2.2
      have hdata : chunk = (f₀.chunkAt r).2.2.2 := by rw [hchunk,← hcut]
      have hprogress : UInt64.ofNat (request.chunkIndex.toNat*m.maxChunkSize%2^64) = UInt64.ofNat (f₀.chunkAt r).2.2.1 := by
        rw [← hcut,UInt64.ofNat_toNat]
      have hpacket : NetworkSession.chunkData request.packId packVersion request.chunkIndex m.maxChunkSize chunk =
          f₀.chunkPacket packVersion (UInt64.ofNat (f₀.chunkAt r).2.2.1) r := by
        rw [ResourcePackFactory.chunkPacket,← hdata,← hprogress]
        rfl
      rw [hpacket] at hd'
      refine ⟨packVersion,?_⟩
      rw [if_pos ⟨hhas,hnew⟩]
      exact .one hd' hone

namespace PackClient

variable {server : Server} {announced : List UUID} {served : List (UUID × Int)} {c : PackClient}

theorem Holds.congr {f : ResourcePackFactory} (h : Holds tp f announced served c) {served' : List (UUID × Int)}
    (hsame : ∀ r, r ∈ served' ↔ r ∈ served) : Holds tp f announced served' c :=
  ⟨h.infos,fun r => by simp only [hsame,h.chunks r]⟩

theorem Holds.announce {f : ResourcePackFactory} {ids : List UUID} {infos : List ResourcePackDataInfoPacket}
    (hinfos : List.Forall₂ (fun id info => NetworkSession.infoOf tp f id = some info) ids infos)
    (h : Holds tp f announced served c) :
    Holds tp f (announced ++ ids) served (((infos.map NetworkSession.dataInfo).filterMap seen).foldl take c) := by
  induction hinfos generalizing announced c with
  | nil => simpa using h
  | @cons id info ids infos hinfo _ ih =>
    have hall := ih (h.info hinfo)
    rw [List.append_assoc] at hall
    exact hall

theorem fits_dataInfo (h : server.Delivers tp) (libs : ClientLibraries tp) {id : UUID} {info : ResourcePackDataInfoPacket}
    (hinfo : NetworkSession.infoOf tp server.factory id = some info) : Fits (NetworkSession.dataInfo info) := by
  obtain ⟨i,p,hi,hp,-,hcount,-,hmax,-⟩ := NetworkSession.infoOf_some hinfo
  have hpack : server.factory.packOf id = some p := by simp [ResourcePackFactory.packOf,hi,hp]
  obtain ⟨-,packVersion,hthis⟩ := h.infoOf hpack
  have hsize := server.factory.maxChunkSize.lt
  obtain ⟨hlow,hhigh⟩ := ceilChunkCount_bounds hcount
  cases hinfo.symm.trans hthis
  exact ⟨⟨by simp,by simp only; omega⟩,⟨by omega,hhigh⟩,libs.hashLength _⟩

theorem fits_chunkPacket (h : server.Delivers tp) {r : UUID × Int} (hr : server.factory.Has r) (packVersion : Bytes)
    (progress : UInt64) : Fits (server.factory.chunkPacket packVersion progress r) := by
  obtain ⟨p,hp,hlow,hhigh⟩ := hr
  obtain ⟨hmem,-⟩ := h.infoOf hp
  have hfits := (h.ready.usable p hmem).fits
  have hsize := h.chunkSize
  refine ⟨⟨hlow,by simp only; omega⟩,?_⟩
  have hindex : ((r.2.toNat : Nat) : Int) = r.2 := Int.toNat_of_nonneg hlow
  have hdata := ResourcePackFactory.chunkAt_data hp r.2.toNat
  rw [hindex] at hdata
  simp only [hdata,List.length_take]
  omega

theorem Holds.call {s : NetworkSession} {w : World} (hserver : server.Delivers tp) (libs : ClientLibraries tp)
    (hs : s.Unencrypted) (hgood : Good tp server.factory w) (hp : Progress tp server.factory s w served)
    (h : Holds tp server.factory announced served c) (d : DownloadCall) :
    ∃ (b : Bool) (w' : World) (ds : List Bytes), NetworkSession.handle tp d.body w = .ok b w' ∧
      w'.server.sent = w.server.sent ++ ds.map (s.guid,·) ∧ Good tp server.factory w' ∧
      Progress tp server.factory s w' (served ++ (DownloadCall.requests [d]).filter server.factory.Has) ∧
      Holds tp server.factory (announced ++ DownloadCall.announced server.factory [d])
        (served ++ (DownloadCall.requests [d]).filter server.factory.Has)
        (ds.foldl (receive tp s.compressionEnabled) c) := by
  obtain ⟨b,w',-,-,hr,hgood',hp',-⟩ := hp.call (c:=d) hserver.ready (fun input => libs.codec.deflate_written input) hgood
    fun entries _ => NetworkSession.announces_of_all hserver.counted entries
  cases d with
  | sendPacks entries =>
    have hsend := NetworkSession.handleResourcePackClientResponse_ok rfl hr
    obtain ⟨datagrams,hsent,hwraps⟩ := NetworkSession.sendPacks_sent hserver.ready.indexed hp.alike hsend
    have hinfos := hserver.infosFor entries
    have hfits : ∀ packet ∈ (NetworkSession.infosFor tp server.factory entries).map NetworkSession.dataInfo,
        packet.subClientId = 0 ∧ Fits packet := by
      intro packet hpacket
      obtain ⟨info,hinfo,rfl⟩ := List.mem_map.mp hpacket
      obtain ⟨id,-,hid⟩ := forall₂_right hinfos hinfo
      exact ⟨rfl,fits_dataInfo hserver libs hid⟩
    have hall := h.announce hinfos
    refine ⟨b,w',datagrams,hr,hsent,hgood',hp',?_⟩
    rw [receive_all libs hs hwraps hfits]
    simpa [DownloadCall.announced,DownloadCall.requests] using hall
  | chunkRequest request =>
    obtain ⟨packVersion,datagrams,hsent,hwraps⟩ := hp.request_sent hserver.ready hr
    refine ⟨b,w',datagrams,hr,hsent,hgood',hp',?_⟩
    let r := (request.packId,request.chunkIndex)
    have hrequests : (DownloadCall.requests [.chunkRequest request]).filter server.factory.Has =
        if server.factory.Has r then [r] else [] := by
      simp only [DownloadCall.requests,List.filter_cons,List.filter_nil,decide_eq_true_eq,r]
    rw [hrequests]
    by_cases hnew : server.factory.Has r ∧ r ∉ served
    · rw [if_pos hnew] at hwraps
      rw [receive_all libs hs hwraps fun packet hpacket => ?_,if_pos hnew.1]
      · have hchunk := h.chunk r (UInt64.ofNat (server.factory.chunkAt r).2.2.1) rfl
        simpa [DownloadCall.announced,ResourcePackFactory.chunkPacket,seen] using hchunk
      · rw [List.mem_singleton] at hpacket
        subst hpacket
        exact ⟨rfl,fits_chunkPacket hserver hnew.1 packVersion _⟩
    · rw [if_neg hnew] at hwraps
      rw [List.forall₂_nil_left_iff] at hwraps
      subst hwraps
      have hsame : ∀ x, x ∈ served ++ (if server.factory.Has r then [r] else []) ↔ x ∈ served := by
        intro x
        by_cases hhas : server.factory.Has r
        · rw [if_pos hhas]
          exact ResourcePackFactory.mem_served hnew hhas x
        · simp [hhas]
      simpa [DownloadCall.announced] using h.congr hsame

theorem Holds.run (calls : List DownloadCall) {s : NetworkSession} {w : World} (hserver : server.Delivers tp)
    (libs : ClientLibraries tp) (hs : s.Unencrypted) (hgood : Good tp server.factory w)
    (hp : Progress tp server.factory s w served) (h : Holds tp server.factory announced served c) :
    ∃ (w' : World) (ds : List Bytes), DownloadCall.run tp calls w = .ok () w' ∧
      w'.server.sent = w.server.sent ++ ds.map (s.guid,·) ∧
      Holds tp server.factory (announced ++ DownloadCall.announced server.factory calls)
        (served ++ (DownloadCall.requests calls).filter server.factory.Has)
        (ds.foldl (receive tp s.compressionEnabled) c) := by
  induction calls generalizing w announced served c with
  | nil => exact ⟨w,[],rfl,by simp,by simpa [DownloadCall.announced,DownloadCall.requests] using h⟩
  | cons d calls ih =>
    obtain ⟨b,w₁,ds,hr,hsent,hgood₁,hp₁,h₁⟩ := h.call hserver libs hs hgood hp d
    obtain ⟨w₂,ds',hr',hsent',h₂⟩ := ih hgood₁ hp₁ h₁
    refine ⟨w₂,ds ++ ds',(bind_ok hr).trans hr',by simp [hsent',hsent],?_⟩
    have hannounced : DownloadCall.announced server.factory (d :: calls) =
        DownloadCall.announced server.factory [d] ++ DownloadCall.announced server.factory calls := by
      cases d <;> simp [DownloadCall.announced]
    have hrequests : DownloadCall.requests (d :: calls) = DownloadCall.requests [d] ++ DownloadCall.requests calls := by
      cases d <;> rfl
    rw [hannounced,hrequests,List.filter_append,← List.append_assoc,← List.append_assoc,List.foldl_append]
    exact h₂

theorem gather_slices {id : UUID} {file : Bytes} {size n : Nat}
    (h : ∀ k < n, c.chunks (id,(k : Int)) = some ((file.drop (k*size)).take size)) :
    c.gather id n = some (file.take (n*size)) := by
  induction n with
  | zero => simp [gather]
  | succ n ih =>
    have hfront := ih fun k hk => h k (by omega)
    have hchunk := h n (by omega)
    simp only [gather,hfront,hchunk,Option.bind_eq_bind,Option.bind_some,Nat.succ_mul,List.take_add]

theorem gather_isSome {id : UUID} {n : Nat} {file : Bytes} (h : c.gather id n = some file) :
    ∀ k < n, (c.chunks (id,(k : Int))).isSome := by
  induction n generalizing file with
  | zero => exact fun k hk => absurd hk (Nat.not_lt_zero k)
  | succ n ih =>
    obtain ⟨front,hfront,hrest⟩ := Option.bind_eq_some_iff.mp h
    obtain ⟨chunk,hchunk,-⟩ := Option.bind_eq_some_iff.mp hrest
    intro k hk
    rcases Nat.lt_succ_iff_lt_or_eq.mp hk with hlt | rfl
    · exact ih hfront k hlt
    · rw [hchunk]
      rfl

/-- The client has a file if and only if it has been told of the pack and has been served all of its chunks, and
then it is that of the pack. -/
theorem Holds.file_iff (hserver : server.Delivers tp) (h : Holds tp server.factory announced served c)
    (hannounced : ∀ id ∈ announced, (server.factory.getPackById id).isSome) (id : UUID) (file : Bytes) :
    c.file tp id = some file ↔ id ∈ announced ∧ ∃ p, server.factory.packOf id = some p ∧ file = p.file ∧
      ∀ k < p.chunkCount server.factory.maxChunkSize, (id,(k : Int)) ∈ served := by
  by_cases hid : id ∈ announced
  · obtain ⟨p,-,hp⟩ := ResourcePackFactory.packOf_of_isSome hserver.ready.indexed (hannounced id hid)
    obtain ⟨-,packVersion,hinfo⟩ := hserver.infoOf hp
    have hthis := h.infos id
    rw [if_pos hid,hinfo] at hthis
    have hfits := p.fileFits
    have hsize : (UInt64.ofNat p.getPackSize).toNat = p.file.length := by
      rw [UInt64.toNat_ofNat',Nat.mod_eq_of_lt (by unfold ZippedResourcePack.getPackSize; omega)]
      rfl
    simp only [PackClient.file,hthis,Option.map_some,Option.bind_eq_bind,Option.bind_some,Int.toNat_natCast,hsize,hid,
      true_and,hp,Option.some_inj,exists_eq_left']
    by_cases hall : ∀ k < p.chunkCount server.factory.maxChunkSize, (id,(k : Int)) ∈ served
    · have hgather := gather_slices (n:=p.chunkCount server.factory.maxChunkSize) fun k hk => by
        rw [h.chunks,if_pos (hall k hk),ResourcePackFactory.chunkAt_data hp]
      rw [List.take_of_length_le (ZippedResourcePack.length_le_chunks server.factory.maxChunkSize p)] at hgather
      simp only [hgather,Option.bind_some,and_self,if_true,Option.some_inj]
      exact ⟨fun heq => ⟨heq.symm,hall⟩,fun hfile => hfile.1.symm⟩
    · constructor
      · intro hfile
        obtain ⟨front,hgather,-⟩ := Option.bind_eq_some_iff.mp hfile
        refine absurd (fun k hk => ?_) hall
        have hsome := gather_isSome hgather k hk
        rw [h.chunks] at hsome
        by_contra hno
        simp [hno] at hsome
      · exact fun hfile => absurd hfile.2 hall
  · have hthis := h.infos id
    rw [if_neg hid] at hthis
    simp [PackClient.file,hthis,hid]

theorem Holds.file_iff_requested {calls : List DownloadCall} (hserver : server.Delivers tp)
    (h : Holds tp server.factory (DownloadCall.announced server.factory calls)
      ((DownloadCall.requests calls).filter server.factory.Has) c) (id : UUID) (file : Bytes) :
    c.file tp id = some file ↔ id ∈ DownloadCall.announced server.factory calls ∧
      ∃ p, server.factory.packOf id = some p ∧ file = p.file ∧
        ∀ k < p.chunkCount server.factory.maxChunkSize, (id,(k : Int)) ∈ DownloadCall.requests calls := by
  have hknown := DownloadCall.isSome_of_mem_announced server.factory calls
  refine (h.file_iff hserver hknown id file).trans (and_congr_right fun _ => exists_congr fun p => ?_)
  refine and_congr_right fun hp => and_congr_right fun _ => forall_congr' fun k => forall_congr' fun hk => ?_
  have hhas : server.factory.Has (id,(k : Int)) := ⟨p,hp,Int.natCast_nonneg k,Int.ofNat_lt.mpr hk⟩
  simp [List.mem_filter,hhas]

theorem holds_begin (hserver : server.Delivers tp) (libs : ClientLibraries tp) (guid : Guid) (compressionEnabled : Bool)
    (calls : List DownloadCall) :
    let w : World := { session := .begin guid compressionEnabled, server }
    ∃ (w' : World) (ds : List Bytes), DownloadCall.run tp calls w = .ok () w' ∧
      w'.server.sent = w.server.sent ++ ds.map (guid,·) ∧
      Holds tp server.factory (DownloadCall.announced server.factory calls)
        ((DownloadCall.requests calls).filter server.factory.Has) (ds.foldl (receive tp compressionEnabled) {}) := by
  intro w
  have hgood : Good tp server.factory w := good_begin hserver.streams guid compressionEnabled
  have hstart := progress_begin tp guid compressionEnabled server
  have hs : (NetworkSession.begin guid compressionEnabled).Unencrypted :=
    ⟨rfl,fun hmode => Or.inl (hgood.session.mode hmode)⟩
  have hnone : Holds tp server.factory [] [] {} := ⟨fun id => rfl,fun r => rfl⟩
  exact hnone.run calls hserver libs hs hgood hstart

end PackClient

/-- What a client makes of the datagrams of a download: it has the packs that were announced and whose chunks were
all asked for, in whatever order and however often, and of the others none. -/
theorem download_restores {server : Server} (hserver : server.Delivers tp) (libs : ClientLibraries tp) (guid : Guid)
    (compressionEnabled : Bool) (calls : List DownloadCall) :
    let w : World := { session := .begin guid compressionEnabled, server }
    ∃ (w' : World) (ds : List Bytes), DownloadCall.run tp calls w = .ok () w' ∧
      w'.server.sent = w.server.sent ++ ds.map (guid,·) ∧
      ∀ id file, (ds.foldl (PackClient.receive tp compressionEnabled) {}).file tp id = some file ↔
        id ∈ DownloadCall.announced server.factory calls ∧ ∃ p, server.factory.packOf id = some p ∧ file = p.file ∧
          ∀ k < p.chunkCount server.factory.maxChunkSize, (id,(k : Int)) ∈ DownloadCall.requests calls := by
  intro w
  obtain ⟨w',ds,hr,hsent,hholds⟩ := PackClient.holds_begin hserver libs guid compressionEnabled calls
  exact ⟨w',ds,hr,hsent,hholds.file_iff_requested hserver⟩

theorem Server.twoPacks_delivers : twoPacks.Delivers .rawIds := by
  obtain ⟨hmax,hpacks⟩ := loaded_packs .rawIds ⟨22,by decide,by decide⟩
    [.ofId (.filled 1) 44 (by decide),.ofId (.filled 2) 22 (by decide)]
  refine ⟨twoPacks_prepared.ready,twoPacks_prepared.streams,twoPacks_counted,fun q hq => ?_,?_⟩
  · obtain ⟨p,hp,hpq,-⟩ := hpacks q hq
    have hfresh : p.sha256Hash = [] := by
      simp only [List.mem_cons,List.not_mem_nil,or_false] at hp
      rcases hp with rfl | rfl <;> rfl
    rw [hpq.sha256,hpq.file,ZippedResourcePack.sha256,hfresh]
    exact ZippedResourcePack.computeSha256FromFile_eq .rawIds p
  · rw [show twoPacks.factory.maxChunkSize = ⟨22,by decide,by decide⟩ from hmax]
    decide

theorem ThirdParty.rawIds_client : ClientLibraries .rawIds := by
  have hstoring := ThirdParty.storing_lossless
  constructor
  · exact ⟨hstoring.deflate_written,hstoring.inflate_deflate,hstoring.snappy_written,hstoring.snappy_valid,
      hstoring.snappy_length,hstoring.snappy_inverts⟩
  · intro id
    have hlength : (ThirdParty.rawIds.uuidToString id).length = 16 := id.size_eq
    omega
  · intro id
    simp [rawIds,storing,failing,id.size_eq]
  · intro input
    rfl

theorem download_restores_twoPacks :
    let calls : List DownloadCall :=
      [.chunkRequest { packId := .filled 1, chunkIndex := 1 },.sendPacks [{ uuid := .filled 2 },{ uuid := .filled 1 }],
       .chunkRequest { packId := .filled 1, chunkIndex := 1 },.chunkRequest { packId := .filled 1, chunkIndex := 0 }]
    let w : World := { session := .begin 7 true, server := .twoPacks }
    ∃ (w' : World) (ds : List Bytes), DownloadCall.run .rawIds calls w = .ok () w' ∧
      w'.server.sent = w.server.sent ++ ds.map (7,·) ∧
      ∀ id file, (ds.foldl (PackClient.receive .rawIds true) {}).file .rawIds id = some file ↔
        id ∈ DownloadCall.announced Server.twoPacks.factory calls ∧
          ∃ p, Server.twoPacks.factory.packOf id = some p ∧ file = p.file ∧
          ∀ k < p.chunkCount Server.twoPacks.factory.maxChunkSize, (id,(k : Int)) ∈ DownloadCall.requests calls :=
  download_restores Server.twoPacks_delivers ThirdParty.rawIds_client 7 true _

end CyrexMC
