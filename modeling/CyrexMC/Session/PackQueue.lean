import CyrexMC.Session.Download
import Mathlib.Data.List.Nodup
set_option autoImplicit false

namespace CyrexMC
open Relation Stateful

variable {tp : ThirdParty}

namespace NetworkSession

def Unfinished (s : NetworkSession) (id : UUID) : Prop := ∃ m, s.loadedPacks id = some m ∧ m.Unfinished

/-- The queue holds the packs that are not finished, and once all of them are there is no current
pack. -/
structure Tracks (s : NetworkSession) : Prop where
  queued : ∀ id, id ∈ s.packQueue ↔ s.Unfinished id
  done : (∀ id, ¬ s.Unfinished id) → s.packQueue = [] ∧ s.currentPack = UUID.nil

structure QueueInv (s : NetworkSession) : Prop extends Download s where
  nodup : s.packQueue.Nodup
  queued : ∀ id, id ∈ s.packQueue ↔ s.Unfinished id
  current : s.currentPack = UUID.nil ∨ s.currentPack ∈ s.packQueue

theorem QueueInv.tracks {s : NetworkSession} (h : QueueInv s) : Tracks s := by
  constructor
  · exact h.queued
  · intro hnone
    have hempty : s.packQueue = [] := by
      apply List.eq_nil_iff_forall_not_mem.mpr
      intro id hid
      exact hnone id ((h.queued id).mp hid)
    have hcurrent := h.current
    rw [hempty] at hcurrent
    exact ⟨hempty,hcurrent.resolve_right (List.not_mem_nil)⟩

theorem queueInv_new (guid : Guid) : QueueInv { guid } := by
  constructor
  · exact ⟨rfl,rfl,fun id m h => by cases h⟩
  · exact List.nodup_nil
  · intro id
    simp [Unfinished]
  · exact Or.inl rfl

/-- The queue after `nextPack` has lost the current pack and nothing else. -/
theorem mem_nextPack {s : NetworkSession} (hnodup : s.packQueue.Nodup) (id : UUID) :
    id ∈ (nextPack s).packQueue ↔ id ∈ s.packQueue ∧ id ≠ s.currentPack := by
  unfold nextPack
  cases hq : s.packQueue with
  | nil => simp
  | cons front rest =>
    rw [hq,List.nodup_cons] at hnodup
    by_cases hfront : front = s.currentPack
    · simp only [hfront,if_true,List.mem_cons]
      constructor
      · intro hid
        have hne : id ≠ s.currentPack := fun h => hnodup.1 (by rw [hfront,← h]; exact hid)
        exact ⟨Or.inr hid,hne⟩
      · rintro ⟨hid,hne⟩
        exact hid.resolve_left hne
    · simp only [hfront,if_false,List.mem_filter,decide_eq_true_eq,ne_eq]

theorem nodup_nextPack {s : NetworkSession} (hnodup : s.packQueue.Nodup) : (nextPack s).packQueue.Nodup := by
  unfold nextPack
  cases hq : s.packQueue with
  | nil => exact List.nodup_nil
  | cons front rest =>
    rw [hq] at hnodup
    by_cases hfront : front = s.currentPack
    · simpa [hfront] using (List.nodup_cons.mp hnodup).2
    · simp only [hfront,if_false]
      exact hnodup.filter _

theorem current_nextPack (s : NetworkSession) :
    (nextPack s).currentPack = UUID.nil ∨ (nextPack s).currentPack ∈ (nextPack s).packQueue := by
  have hhead : (nextPack s).currentPack = (nextPack s).packQueue.headD UUID.nil := rfl
  cases hq : (nextPack s).packQueue with
  | nil => exact Or.inl (by rw [hhead,hq]; rfl)
  | cons front rest => exact Or.inr (by rw [hhead,hq]; simp)

theorem mem_enqueuePack (s : NetworkSession) (id x : UUID) :
    x ∈ (enqueuePack id s).packQueue ↔ x ∈ s.packQueue ∨ x = id := by
  by_cases hid : id ∈ s.packQueue
  · simp only [enqueuePack,hid,if_true]
    constructor
    · exact Or.inl
    · rintro (hx | rfl)
      · exact hx
      · exact hid
  · simp [enqueuePack,hid]

theorem nodup_enqueuePack {s : NetworkSession} (hnodup : s.packQueue.Nodup) (id : UUID) :
    (enqueuePack id s).packQueue.Nodup := by
  by_cases hid : id ∈ s.packQueue
  · simpa [enqueuePack,hid] using hnodup
  · simpa [enqueuePack,hid] using hnodup.concat hid

theorem current_enqueuePack {s : NetworkSession} (hcurrent : s.currentPack = UUID.nil ∨ s.currentPack ∈ s.packQueue)
    (id : UUID) :
    (enqueuePack id s).currentPack ∈ (enqueuePack id s).packQueue := by
  rw [mem_enqueuePack]
  by_cases hnil : s.currentPack = UUID.nil
  · exact Or.inr (by simp [enqueuePack,UUID.isNil,hnil])
  · have hmem := hcurrent.resolve_left hnil
    exact Or.inl (by simpa [enqueuePack,UUID.isNil,hnil] using hmem)

theorem unfinished_withPack (s : NetworkSession) (id : UUID) (m : ResourcePackMeta) (x : UUID) :
    (withPack id m s).Unfinished x ↔ if x = id then m.Unfinished else s.Unfinished x := by
  by_cases hx : x = id
  · subst hx
    simp [Unfinished,withPack]
  · simp [Unfinished,withPack,hx]

end NetworkSession

/-- A call of the session that returns, and what happens to it between its calls. -/
inductive Turn (tp : ThirdParty) : Option PacketBody → World → World → Prop where
  | handle {w w' : World} (body : PacketBody) (b : Bool) (h : NetworkSession.handle tp body w = .ok b w') :
      Turn tp (some body) w w'
  | tick {w w' : World} (h : NetworkSession.tick tp w = .ok () w') : Turn tp none w w'
  | others {w : World} (server : Server) (markedForDisconnect : Bool)
      (h : w.server.factory.Touched tp server.factory) :
      Turn tp none w { session := { w.session with markedForDisconnect }, server }

/-- A SendPacks response names a pack once, and no pack that is loaded. -/
def Listed (s : NetworkSession) (body : Option PacketBody) : Prop :=
  ∀ pk, body = some (.resourcePackClientResponse pk) →
    pk.responseStatus = ResourcePackClientResponseStatus.SendPacks →
    (pk.packEntries.map fun entry => entry.uuid).Nodup ∧
      ∀ entry ∈ pk.packEntries, s.loadedPacks entry.uuid = none

/-- The request delivers the last chunk of `m` that is left. -/
def Completes (f : ResourcePackFactory) (m : ResourcePackMeta) (idx : Int) : Prop :=
  0 ≤ idx ∧ idx < m.chunkCount ∧ (∀ j < m.chunks.length, j ≠ idx.toNat → m.isSent j = true) ∧
    ¬ NetworkSession.ReadsChunk f m idx []

/-- A request is for a pack with a chunk left, and the last chunk is asked for while the pack is
the current one. -/
def Orderly (w : World) (body : Option PacketBody) : Prop :=
  ∀ request, body = some (.resourcePackChunkRequest request) →
    ∀ m, NetworkSession.packFor w request.packId = some m → m.Unfinished ∧
      (Completes w.server.factory m request.chunkIndex →
        w.session.currentPack = UUID.nil ∨ w.session.currentPack = request.packId)

namespace NetworkSession

theorem QueueInv.congr {s t : NetworkSession} (h : QueueInv s) (hloaded : t.loadedPacks = s.loadedPacks)
    (hqueue : t.packQueue = s.packQueue) (hpending : t.pendingChunks = s.pendingChunks)
    (hcurrent : t.currentPack = s.currentPack) (hidle : t.queueProcessing = s.queueProcessing) :
    QueueInv t := by
  constructor
  · exact ⟨hpending.trans h.pending,hidle.trans h.idle,fun id m hm => h.packs id m (by rwa [← hloaded])⟩
  · rw [hqueue]
    exact h.nodup
  · intro id
    rw [hqueue,h.queued,Unfinished,Unfinished,hloaded]
  · rw [hqueue,hcurrent]
    exact h.current

theorem QueueInv.leaves {w w' : World} (h : QueueInv w.session) (hl : LeavesPacks w w') : QueueInv w'.session :=
  h.congr hl.loadedPacks hl.packQueue hl.pendingChunks hl.currentPack hl.queueProcessing

theorem QueueInv.announced {id : UUID} {m : ResourcePackMeta} {w w' : World} (h : QueueInv w.session)
    (hnone : w.session.loadedPacks id = none) (ha : Announced tp id m w w') : QueueInv w'.session := by
  obtain ⟨i,p,count,hi,hp,hcount,hm⟩ := ha.found
  obtain ⟨cipher,hs⟩ := ha.session
  obtain ⟨-,hmeta⟩ := ResourcePackMeta.create_ok hm
  obtain ⟨hwf,hsent⟩ := ResourcePackMeta.create_wellFormed hm
  have hpackId : m.packId = id := by rw [hmeta]
  have hpos : 0 < count := by
    have hzip := p.fileZip
    exact ceilChunkCount_pos (show 0 < p.getPackSize by unfold ZippedResourcePack.getPackSize; omega) hcount
  have hunfinished : m.Unfinished := by
    have hlength := hwf.length
    have hcount' : m.chunkCount = count := by rw [hmeta]
    exact ⟨0,by omega,hsent 0⟩
  have hfresh : id ∉ w.session.packQueue := by
    rw [h.queued]
    rintro ⟨m',hm',-⟩
    rw [hnone] at hm'
    cases hm'
  have hload : emplacePack id m { w.session with packQueue := w.session.packQueue ++ [id] } =
      withPack id m { w.session with packQueue := w.session.packQueue ++ [id] } := emplacePack_none hnone
  have hinv : QueueInv (withPack id m { w.session with packQueue := w.session.packQueue ++ [id] }) := by
    have hdownload : Download { w.session with packQueue := w.session.packQueue ++ [id] } :=
      ⟨h.pending,h.idle,h.packs⟩
    constructor
    · exact hdownload.withPack ⟨hpackId,hwf⟩
    · simpa [withPack] using h.nodup.concat hfresh
    · intro x
      rw [unfinished_withPack]
      by_cases hx : x = id
      · subst hx
        simpa [withPack] using hunfinished
      · have hqueued := h.queued x
        simp only [Unfinished] at hqueued
        simpa [withPack,hx,Unfinished] using hqueued
    · rcases h.current with hnil | hmem
      · exact Or.inl hnil
      · exact Or.inr (List.mem_append_left _ hmem)
  rw [hs,hload]
  exact hinv.congr rfl rfl rfl rfl rfl

theorem QueueInv.sendPacks {entries : List ResourcePackClientResponsePacket.Entry} {w w' : World}
    (h : QueueInv w.session) (hf : w.server.factory.Indexed tp)
    (hnodup : (entries.map fun entry => entry.uuid).Nodup)
    (hnone : ∀ entry ∈ entries, w.session.loadedPacks entry.uuid = none)
    (hr : NetworkSession.sendPacks tp entries w = .ok () w') : QueueInv w'.session := by
  induction entries generalizing w with
  | nil =>
    cases hr
    exact h
  | cons entry entries ih =>
    rcases sendPacks_ok hf hr with ⟨-,rfl⟩ | ⟨m,w₁,ha,hrest⟩
    · exact h.congr rfl rfl rfl rfl rfl
    · rw [List.map_cons,List.nodup_cons] at hnodup
      have hentry := hnone entry (by simp)
      have hloaded : ∀ e ∈ entries, w₁.session.loadedPacks e.uuid = none := by
        intro e he
        have hne : e.uuid ≠ entry.uuid := fun heq =>
          hnodup.1 (by rw [← heq]; exact List.mem_map_of_mem he)
        have hpacks := ha.fields.1
        rw [emplacePack_none hentry] at hpacks
        simpa [hpacks,withPack,hne] using hnone e (by simp [he])
      exact ih (h.announced hentry ha) (hf.touched ha.factory) hnodup.2 hloaded hrest

theorem enqueuePack_unfinished (s : NetworkSession) (id x : UUID) :
    (enqueuePack id s).Unfinished x ↔ s.Unfinished x := Iff.rfl

theorem nextPack_unfinished (s : NetworkSession) (x : UUID) : (nextPack s).Unfinished x ↔ s.Unfinished x := Iff.rfl

theorem QueueInv.enqueue {s : NetworkSession} (h : QueueInv s) {id : UUID} {m : ResourcePackMeta}
    (hm : m.packId = id ∧ m.WellFormed) (hunfinished : m.Unfinished) :
    QueueInv (enqueuePack id (withPack id m s)) := by
  have hdownload := h.toDownload.withPack hm
  constructor
  · exact ⟨hdownload.pending,hdownload.idle,hdownload.packs⟩
  · exact nodup_enqueuePack (s:=withPack id m s) h.nodup id
  · intro x
    rw [enqueuePack_unfinished,unfinished_withPack,mem_enqueuePack]
    by_cases hx : x = id
    · simp [hx,hunfinished]
    · simp only [hx,or_false,if_false]
      exact h.queued x
  · exact Or.inr (current_enqueuePack (s:=withPack id m s) h.current id)

theorem QueueInv.finish {s : NetworkSession} (h : QueueInv s) {id : UUID} {m : ResourcePackMeta}
    (hm : m.packId = id ∧ m.WellFormed) (hfinished : ¬ m.Unfinished)
    (hcurrent : s.currentPack = UUID.nil ∨ s.currentPack = id) :
    QueueInv (nextPack (enqueuePack id (withPack id m s))) := by
  have hdownload := h.toDownload.withPack hm
  have hnodup := nodup_enqueuePack (s:=withPack id m s) h.nodup id
  have hid : (enqueuePack id (withPack id m s)).currentPack = id := by
    by_cases hnil : s.currentPack = UUID.nil
    · simp [enqueuePack,withPack,UUID.isNil,hnil]
    · simpa [enqueuePack,withPack,UUID.isNil,hnil] using hcurrent.resolve_left hnil
  constructor
  · exact ⟨hdownload.pending,hdownload.idle,hdownload.packs⟩
  · exact nodup_nextPack hnodup
  · intro x
    rw [nextPack_unfinished,enqueuePack_unfinished,unfinished_withPack,mem_nextPack hnodup,mem_enqueuePack,hid]
    by_cases hx : x = id
    · simp [hx,hfinished]
    · simp only [hx,or_false,if_false,ne_eq,not_false_eq_true,and_true]
      exact h.queued x
  · exact current_nextPack _

theorem unfinished_kept {m m' : ResourcePackMeta} {i : Nat} (h : m' = m ∨ m' = m.setWant i) :
    m'.Unfinished ↔ m.Unfinished := by
  rcases h with rfl | rfl
  · exact Iff.rfl
  · simp [ResourcePackMeta.Unfinished]

theorem wellFormed_kept {m m' : ResourcePackMeta} {i : Nat} (h : m' = m ∨ m' = m.setWant i)
    (hwf : m.WellFormed) : m'.WellFormed ∧ m'.packId = m.packId := by
  rcases h with rfl | rfl
  · exact ⟨hwf,rfl⟩
  · exact ⟨hwf.setWant i,rfl⟩

theorem finished_deliver_iff {m : ResourcePackMeta} (hwf : m.WellFormed) {i : Nat} (hi : i < m.chunks.length) :
    (m.deliver i).finished = true ↔ ∀ j < m.chunks.length, j ≠ i → m.isSent j = true := by
  rw [(hwf.deliver hi).finished_iff,ResourcePackMeta.length_deliver]
  constructor
  · intro hall j hj hne
    have hj' := hall j hj
    simpa [ResourcePackMeta.isSent_deliver m hi,hne] using hj'
  · intro hall j hj
    rw [ResourcePackMeta.isSent_deliver m hi]
    by_cases hji : j = i
    · simp [hji]
    · simp [hall j hj hji]

theorem Tracks.unfinished {s t : NetworkSession} {id : UUID} {m : ResourcePackMeta} (h : Tracks t)
    (hloaded : t.loadedPacks = (withPack id m s).loadedPacks) (hmem : id ∈ t.packQueue) : m.Unfinished := by
  obtain ⟨m',hm',hunfinished⟩ := (h.queued id).mp hmem
  have heq : m = m' := by simpa [hloaded,withPack] using hm'
  rwa [heq]

section

variable {w : World} {s' : NetworkSession} {id : UUID} {idx : Int} {m : ResourcePackMeta}

theorem QueueInv.kept {m' : ResourcePackMeta} {markedForDisconnect : Bool} (h : QueueInv w.session)
    (hm : m.packId = id ∧ m.WellFormed) (hkept : m' = m ∨ m' = m.setWant idx.toNat)
    (hwhy : ¬ (0 ≤ idx ∧ idx < m.chunkCount) ∨ m.isSent idx.toNat = true ∨ ReadsChunk w.server.factory m idx [])
    (hs : s' = { enqueuePack id (withPack id m' w.session) with markedForDisconnect }) :
    (m.Unfinished → QueueInv s') ∧
    (Tracks s' → m.Unfinished ∧ ¬ Completes w.server.factory m idx) := by
  obtain ⟨hwf',hpackId'⟩ := wellFormed_kept hkept hm.2
  constructor
  · intro hunfinished
    have hinv := h.enqueue ⟨hpackId'.trans hm.1,hwf'⟩ ((unfinished_kept hkept).mpr hunfinished)
    rw [hs]
    exact hinv.congr rfl rfl rfl rfl rfl
  · intro htracks
    have hmem : id ∈ s'.packQueue := by
      rw [hs]
      exact (mem_enqueuePack _ _ _).mpr (Or.inr rfl)
    have hunfinished := (unfinished_kept hkept).mp (htracks.unfinished (s:=w.session) (by rw [hs]; rfl) hmem)
    refine ⟨hunfinished,fun ⟨hlow,hhigh,hothers,hread⟩ => ?_⟩
    -- A chunk that is in range and can be read was kept because it had been sent.
    have hsent : m.isSent idx.toNat = true := by
      rcases hwhy with hout | hsent | hblank
      · exact absurd ⟨hlow,hhigh⟩ hout
      · exact hsent
      · exact absurd hblank hread
    obtain ⟨j,hj,hunsent⟩ := hunfinished
    by_cases hji : j = idx.toNat
    · rw [hji,hsent] at hunsent
      cases hunsent
    · rw [hothers j hj hji] at hunsent
      cases hunsent

theorem QueueInv.deliveredLast {cipher : Option AesEncryptor} (h : QueueInv w.session)
    (hm : m.packId = id ∧ m.WellFormed) (hfinished : ¬ m.Unfinished)
    (hs : s' = nextPack { enqueuePack id (withPack id m w.session) with cipher }) :
    (w.session.currentPack = UUID.nil ∨ w.session.currentPack = id → QueueInv s') ∧
    (Tracks s' → w.session.currentPack = UUID.nil ∨ w.session.currentPack = id) := by
  constructor
  · intro hcurrent
    have hinv := h.finish hm hfinished hcurrent
    rw [hs]
    exact hinv.congr rfl rfl rfl rfl rfl
  · intro htracks
    by_contra hother
    rw [not_or] at hother
    have hnodup := nodup_enqueuePack (s:=withPack id m w.session) h.nodup id
    -- The finished pack stays on the queue, since the current one is taken off.
    have hstays : id ∈ s'.packQueue := by
      rw [hs]
      refine (mem_nextPack hnodup _).mpr ⟨(mem_enqueuePack _ _ _).mpr (Or.inr rfl),?_⟩
      simpa [enqueuePack,withPack,UUID.isNil,hother.1] using Ne.symm hother.2
    exact hfinished (htracks.unfinished (s:=w.session) (by rw [hs]; rfl) hstays)

end

theorem QueueInv.answered {request : ResourcePackChunkRequestPacket} {m : ResourcePackMeta} {w w' : World}
    (h : QueueInv w.session) (hm : packFor w request.packId = some m)
    (ha : Answered tp request.packId request.chunkIndex m w w') :
    (Orderly w (some (.resourcePackChunkRequest request)) → QueueInv w'.session) ∧
    (Tracks w'.session → Orderly w (some (.resourcePackChunkRequest request))) := by
  have hmeta := h.toDownload.packFor hm
  have horderly : Orderly w (some (.resourcePackChunkRequest request)) ↔ m.Unfinished ∧
      (Completes w.server.factory m request.chunkIndex →
        w.session.currentPack = UUID.nil ∨ w.session.currentPack = request.packId) := by
    constructor
    · intro ho
      exact ho request rfl m hm
    · rintro ho r hr m' hm'
      cases hr
      rw [hm] at hm'
      cases hm'
      exact ho
  rw [horderly]
  cases ha with
  | kept m' marked hkept hwhy hs hsent =>
    obtain ⟨hinv,hconverse⟩ := h.kept hmeta hkept hwhy hs
    constructor
    · exact fun ho => hinv ho.1
    · intro htracks
      obtain ⟨hunfinished,hnot⟩ := hconverse htracks
      exact ⟨hunfinished,fun hcompletes => absurd hcompletes hnot⟩
  | delivered packVersion chunk cipher hin hunsent hread hne hs hsent =>
    have hlength := hmeta.2.length
    have hi : request.chunkIndex.toNat < m.chunks.length := by omega
    have hunfinished : m.Unfinished := ⟨_,hi,hunsent⟩
    have hdeliver : (m.deliver request.chunkIndex.toNat).packId = request.packId ∧
        (m.deliver request.chunkIndex.toNat).WellFormed := ⟨hmeta.1,hmeta.2.deliver hi⟩
    cases hfin : (m.deliver request.chunkIndex.toNat).finished with
    | true =>
      simp only [hfin,if_true] at hs
      have hcompletes : Completes w.server.factory m request.chunkIndex := by
        refine ⟨hin.1,hin.2,(finished_deliver_iff hmeta.2 hi).mp hfin,fun hblank => hne ?_⟩
        obtain ⟨p,hp,hchunk⟩ := hread
        obtain ⟨p',hp',hnil⟩ := hblank
        rw [hp] at hp'
        cases hp'
        exact hchunk.trans hnil.symm
      obtain ⟨hinv,hconverse⟩ := h.deliveredLast hdeliver (hdeliver.2.finished_iff_not.mp hfin) hs
      exact ⟨fun ho => hinv (ho.2 hcompletes),fun htracks => ⟨hunfinished,fun _ => hconverse htracks⟩⟩
    | false =>
      simp only [hfin,Bool.false_eq_true,if_false] at hs
      have hmore : (m.deliver request.chunkIndex.toNat).Unfinished := by
        by_contra hn
        rw [hdeliver.2.finished_iff_not.mpr hn] at hfin
        cases hfin
      have hinv := h.enqueue hdeliver hmore
      constructor
      · intro _
        rw [hs]
        exact hinv.congr rfl rfl rfl rfl rfl
      · intro _
        refine ⟨hunfinished,fun ⟨_,_,hothers,_⟩ => ?_⟩
        rw [(finished_deliver_iff hmeta.2 hi).mpr hothers] at hfin
        cases hfin

end NetworkSession

variable (tp) in
theorem leaves_handle {body : PacketBody} (hrequest : ∀ r, body ≠ .resourcePackChunkRequest r)
    (hsend : ∀ pk, body = .resourcePackClientResponse pk →
      pk.responseStatus ≠ ResourcePackClientResponseStatus.SendPacks) :
    NetworkSession.Leaves (NetworkSession.handle tp body) := by
  cases body with
  | requestNetworkSettings pk => exact NetworkSession.leaves_handleRequestNetworkSettings pk.protocolVersion
  | login pk => exact NetworkSession.leaves_handleLogin pk.protocol pk.authInfoJson pk.clientDataJwt
  | resourcePackChunkRequest r => exact absurd rfl (hrequest r)
  | resourcePackClientResponse pk =>
    exact NetworkSession.leaves_handleResourcePackClientResponse (hsend pk rfl)
  | _ => exact NetworkSession.leaves_pure true

theorem Turn.touched {body : Option PacketBody} {w w' : World} (ht : Turn tp body w w') :
    w.server.factory.Touched tp w'.server.factory := by
  cases ht with
  | handle body b h => exact ((NetworkSession.keeps_handle body).ok h).factory
  | tick h => exact (NetworkSession.within_flush.ok h).factory
  | others server marked h => exact h

theorem Turn.indexed {body : Option PacketBody} {w w' : World} (ht : Turn tp body w w')
    (hf : w.server.factory.Indexed tp) : w'.server.factory.Indexed tp := hf.touched ht.touched

theorem NetworkSession.handleResourcePackClientResponse_ok {pk : ResourcePackClientResponsePacket} {w w' : World}
    {b : Bool} (hpk : pk.responseStatus = ResourcePackClientResponseStatus.SendPacks)
    (h : handleResourcePackClientResponse tp pk w = .ok b w') : sendPacks tp pk.packEntries w = .ok () w' := by
  have hrefused : ResourcePackClientResponseStatus.SendPacks ≠ ResourcePackClientResponseStatus.Refused := by decide
  simp only [handleResourcePackClientResponse,bind_apply,getServer_apply,hpk,hrefused,if_false,if_true] at h
  cases hrun : sendPacks tp pk.packEntries w with
  | error e u => simp [hrun] at h
  | ok a u =>
    simp only [hrun,pure_apply,EStateM.Result.ok.injEq] at h
    rw [h.2]

/-- One turn: the queue stays as it should be if and only if the turn is orderly. -/
theorem queueInv_turn {body : Option PacketBody} {w w' : World} (ht : Turn tp body w w')
    (hf : w.server.factory.Indexed tp) (hlisted : Listed w.session body) (h : w.session.QueueInv) :
    (Orderly w body → w'.session.QueueInv) ∧ (w'.session.Tracks → Orderly w body) := by
  cases ht with
  | tick hr =>
    have hl := NetworkSession.leaves_tick.ok hr
    exact ⟨fun _ => h.leaves hl,fun _ r hr => by cases hr⟩
  | others server marked _ => exact ⟨fun _ => h.congr rfl rfl rfl rfl rfl,fun _ r hr => by cases hr⟩
  | handle body b hr =>
    by_cases hrequest : ∃ r, body = .resourcePackChunkRequest r
    · obtain ⟨r,rfl⟩ := hrequest
      obtain ⟨-,⟨hnone,hknown,rfl⟩ | ⟨m,hm,ha⟩⟩ :=
        NetworkSession.handleResourcePackChunkRequest_ok hf h.toDownload hr
      · have horderly : Orderly w (some (.resourcePackChunkRequest r)) := by
          rintro r' hr' m hm
          cases hr'
          simp [NetworkSession.packFor,hnone,hknown] at hm
        exact ⟨fun _ => h.congr rfl rfl rfl rfl rfl,fun _ => horderly⟩
      · exact h.answered hm ha
    · have horderly : Orderly w (some body) := fun r hr => absurd ⟨r,Option.some_inj.mp hr⟩ hrequest
      refine ⟨fun _ => ?_,fun _ => horderly⟩
      by_cases hsend : ∃ pk, body = .resourcePackClientResponse pk ∧
          pk.responseStatus = ResourcePackClientResponseStatus.SendPacks
      · obtain ⟨pk,rfl,hpk⟩ := hsend
        obtain ⟨hnodup,hnone⟩ := hlisted pk rfl hpk
        exact h.sendPacks hf hnodup hnone (NetworkSession.handleResourcePackClientResponse_ok hpk hr)
      · have hl := leaves_handle tp (fun r hr => hrequest ⟨r,hr⟩) fun pk hpk hs => hsend ⟨pk,hpk,hs⟩
        exact h.leaves (hl.ok hr)

def OrderlyTurn (tp : ThirdParty) (w w' : World) : Prop :=
  ∃ body, Turn tp body w w' ∧ Listed w.session body ∧ Orderly w body

theorem queueInv_run {guid : Guid} {server : Server} {w : World} (hf : server.factory.Indexed tp)
    (hrun : ReflTransGen (OrderlyTurn tp) { session := { guid }, server } w) :
    w.session.QueueInv ∧ w.server.factory.Indexed tp := by
  induction hrun with
  | refl => exact ⟨NetworkSession.queueInv_new guid,hf⟩
  | tail _ hturn ih =>
    obtain ⟨body,ht,hlisted,horderly⟩ := hturn
    exact ⟨(queueInv_turn ht ih.2 hlisted ih.1).1 horderly,ht.indexed ih.2⟩

/-- The queue tracks the unfinished packs over every run of orderly turns, a pack leaves it when it
is finished, and the first turn that is not orderly ends this. -/
theorem tracks_iff_orderly {guid : Guid} {server : Server} {w : World} (hf : server.factory.Indexed tp)
    (hrun : ReflTransGen (OrderlyTurn tp) { session := { guid }, server } w) :
    w.session.Tracks ∧ ∀ body w', Turn tp body w w' → Listed w.session body →
      (w'.session.Tracks ↔ Orderly w body) := by
  obtain ⟨hinv,hf'⟩ := queueInv_run hf hrun
  refine ⟨hinv.tracks,fun body w' ht hlisted => ?_⟩
  obtain ⟨hkeeps,hconverse⟩ := queueInv_turn ht hf' hlisted hinv
  exact ⟨hconverse,fun horderly => (hkeeps horderly).tracks⟩

namespace World

def returnsTrue (tp : ThirdParty) (body : PacketBody) (w : World) : Bool :=
  match NetworkSession.handle tp body w with
  | .ok b _ => b
  | .error _ _ => false

def after (tp : ThirdParty) (body : PacketBody) (w : World) : World :=
  match NetworkSession.handle tp body w with
  | .ok _ w' => w'
  | .error _ w' => w'

theorem handle_after {body : PacketBody} {w : World} (h : w.returnsTrue tp body = true) :
    NetworkSession.handle tp body w = .ok true (w.after tp body) := by
  unfold returnsTrue at h
  unfold after
  cases hrun : NetworkSession.handle tp body w with
  | ok b w' => simpa [hrun] using h
  | error e w' => simp [hrun] at h

end World

def sendPacksOf (ids : List UUID) : PacketBody :=
  let packEntries := ids.map fun uuid => { uuid }
  .resourcePackClientResponse { responseStatus := ResourcePackClientResponseStatus.SendPacks, packEntries }

def firstChunkOf (packId : UUID) : PacketBody := .resourcePackChunkRequest { packId, chunkIndex := 0 }

def World.announced : World :=
  World.after .rawIds (sendPacksOf [.filled 1,.filled 2]) { session := { guid := 7 }, server := .twoPacks }

theorem World.announced_turn :
    OrderlyTurn .rawIds { session := { guid := 7 }, server := .twoPacks } World.announced := by
  refine ⟨_,.handle _ true (World.handle_after (by decide +kernel)),?_,fun r hr => by cases hr⟩
  rintro pk hpk -
  cases hpk
  exact ⟨by decide,fun entry _ => rfl⟩

theorem tracks_iff_orderly_announced :
    World.announced.session.Tracks ∧ ∀ body w', Turn .rawIds body World.announced w' →
      Listed World.announced.session body → (w'.session.Tracks ↔ Orderly World.announced body) :=
  tracks_iff_orderly Server.twoPacks_indexed (.single World.announced_turn)

/-- The one chunk of the second pack is delivered in the middle of the first: the first is taken
off the queue. -/
theorem unfinished_pack_leaves_queue :
    ∃ w₁ w₂ w₃, Turn .rawIds (some (sendPacksOf [.filled 1,.filled 2]))
        { session := { guid := 7 }, server := .twoPacks } w₁ ∧
      Turn .rawIds (some (firstChunkOf (.filled 1))) w₁ w₂ ∧
      Turn .rawIds (some (firstChunkOf (.filled 2))) w₂ w₃ ∧
      w₃.session.packQueue = [.filled 2] ∧ w₃.session.Unfinished (.filled 1) ∧ ¬ w₃.session.Tracks := by
  let w₂ := World.announced.after .rawIds (firstChunkOf (.filled 1))
  let w₃ := w₂.after .rawIds (firstChunkOf (.filled 2))
  have hqueue : w₃.session.packQueue = [.filled 2] := by decide +kernel
  have hflags : (w₃.session.loadedPacks (.filled 1)).map (fun m => (m.chunks.length,m.isSent 1)) =
      some (2,false) := by decide +kernel
  have hunfinished : w₃.session.Unfinished (.filled 1) := by
    obtain ⟨m,hm,hflag⟩ := Option.map_eq_some_iff.mp hflags
    obtain ⟨hlength,hsent⟩ := Prod.mk.inj hflag
    exact ⟨m,hm,1,by omega,hsent⟩
  refine ⟨World.announced,w₂,w₃,.handle _ true (World.handle_after (by decide +kernel)),
    .handle _ true (World.handle_after (by decide +kernel)),
    .handle _ true (World.handle_after (by decide +kernel)),hqueue,hunfinished,fun htracks => ?_⟩
  have hmem := (htracks.queued (.filled 1)).mpr hunfinished
  rw [hqueue] at hmem
  exact absurd hmem (by decide)

end CyrexMC
