import CyrexMC.Session.PackQueue
set_option autoImplicit false

namespace CyrexMC
open Relation Stateful

variable {tp : ThirdParty}

/-- The ids that a response puts on the queue: those up to the first pack that is not known. -/
def announcedIds (f : ResourcePackFactory) (entries : List ResourcePackClientResponsePacket.Entry) : List UUID :=
  (entries.map fun entry => entry.uuid).takeWhile fun id => (f.getPackById id).isSome

/-- No pack is on the queue twice, and `nextPack`, which runs when a request has put its pack on the queue, leaves
nothing of the current one there. -/
structure QueueSound (s : NetworkSession) : Prop where
  nodup : s.packQueue.Nodup
  removed : ∀ id m, (NetworkSession.enqueuePack id (NetworkSession.withPack id m s)).currentPack ∉
    (NetworkSession.nextPack (NetworkSession.enqueuePack id (NetworkSession.withPack id m s))).packQueue

def Fresh (w : World) (body : Option PacketBody) : Prop :=
  ∀ pk, body = some (.resourcePackClientResponse pk) →
    pk.responseStatus = ResourcePackClientResponseStatus.SendPacks →
    (announcedIds w.server.factory pk.packEntries).Nodup ∧
      ∀ id ∈ announcedIds w.server.factory pk.packEntries, id ∉ w.session.packQueue

theorem announcedIds_touched {f g : ResourcePackFactory} (h : f.Touched tp g)
    (entries : List ResourcePackClientResponsePacket.Entry) : announcedIds g entries = announcedIds f entries := by
  simp only [announcedIds,h.getPackById]

namespace NetworkSession

theorem queueSound_iff {s : NetworkSession} : QueueSound s ↔ s.packQueue.Nodup := by
  refine ⟨QueueSound.nodup,fun h => ⟨h,fun id m hmem => ?_⟩⟩
  have hnodup := nodup_enqueuePack (s:=withPack id m s) h id
  exact ((mem_nextPack hnodup _).mp hmem).2 rfl

theorem Download.leaves {w w' : World} (h : Download w.session) (hl : LeavesPacks w w') : Download w'.session :=
  ⟨hl.pendingChunks.trans h.pending,hl.queueProcessing.trans h.idle,by rw [hl.loadedPacks]; exact h.packs⟩

theorem Download.announced {id : UUID} {m : ResourcePackMeta} {w w' : World} (h : Download w.session)
    (ha : Announced tp id m w w') : Download w'.session ∧ w'.session.packQueue = w.session.packQueue ++ [id] := by
  obtain ⟨i,p,count,-,-,-,hm⟩ := ha.found
  obtain ⟨hpacks,hqueue,hpending,hidle⟩ := ha.fields
  have hpackId : m.packId = id := by rw [(ResourcePackMeta.create_ok hm).2]
  have hwf := (ResourcePackMeta.create_wellFormed hm).1
  refine ⟨?_,hqueue⟩
  cases hloaded : w.session.loadedPacks id with
  | none =>
    rw [emplacePack_none hloaded] at hpacks
    exact h.put hpacks hpending hidle ⟨hpackId,hwf⟩
  | some m' =>
    rw [emplacePack_some hloaded] at hpacks
    exact ⟨hpending.trans h.pending,hidle.trans h.idle,by rw [hpacks]; exact h.packs⟩

theorem Download.sendPacks {entries : List ResourcePackClientResponsePacket.Entry} {w w' : World}
    (h : Download w.session) (hf : w.server.factory.Indexed tp)
    (hr : NetworkSession.sendPacks tp entries w = .ok () w') :
    Download w'.session ∧
      w'.session.packQueue = w.session.packQueue ++ announcedIds w.server.factory entries := by
  induction entries generalizing w with
  | nil =>
    cases hr
    exact ⟨h,(List.append_nil _).symm⟩
  | cons entry entries ih =>
    rcases sendPacks_ok hf hr with ⟨hnone,rfl⟩ | ⟨m,w₁,ha,hrest⟩
    · exact ⟨⟨h.pending,h.idle,h.packs⟩,by simp [announcedIds,hnone]⟩
    · obtain ⟨i,p,count,hi,-⟩ := ha.found
      obtain ⟨hdownload,hqueue⟩ := h.announced ha
      obtain ⟨hdownload',hqueue'⟩ := ih hdownload (hf.touched ha.factory) hrest
      refine ⟨hdownload',?_⟩
      rw [hqueue',hqueue,announcedIds_touched ha.factory]
      simp [announcedIds,hi]

theorem Download.answered {id : UUID} {idx : Int} {m : ResourcePackMeta} {w w' : World} (h : Download w.session)
    (hm : NetworkSession.packFor w id = some m) (ha : Answered tp id idx m w w') :
    Download w'.session ∧ (w.session.packQueue.Nodup → w'.session.packQueue.Nodup) := by
  obtain ⟨hpackId,hwf⟩ := h.packFor hm
  cases ha with
  | kept m' marked hkept hwhy hs hsent =>
    obtain ⟨hwf',hpackId'⟩ := wellFormed_kept hkept hwf
    refine ⟨h.put (by rw [hs]; rfl) (by rw [hs]; rfl) (by rw [hs]; rfl) ⟨hpackId'.trans hpackId,hwf'⟩,?_⟩
    intro hnodup
    rw [hs]
    exact nodup_enqueuePack (s:=NetworkSession.withPack id m' w.session) hnodup id
  | delivered packVersion chunk cipher hin hunsent hread hne hs hsent =>
    have hlength := hwf.length
    have hi : idx.toNat < m.chunks.length := by omega
    obtain ⟨hloaded,hpending,hidle⟩ := delivered_fields hs
    refine ⟨h.put hloaded hpending hidle ⟨hpackId,hwf.deliver hi⟩,?_⟩
    intro hnodup
    let t := NetworkSession.withPack id (m.deliver idx.toNat) w.session
    have henqueued := nodup_enqueuePack (s:=t) hnodup id
    rw [hs]
    cases (m.deliver idx.toNat).finished with
    | true => exact nodup_nextPack (s:={ enqueuePack id t with cipher }) henqueued
    | false => exact henqueued

end NetworkSession

theorem nodup_turn {body : Option PacketBody} {w w' : World} (ht : Turn tp body w w')
    (hf : w.server.factory.Indexed tp) (hd : NetworkSession.Download w.session) (hnodup : w.session.packQueue.Nodup) :
    NetworkSession.Download w'.session ∧ (w'.session.packQueue.Nodup ↔ Fresh w body) := by
  have hvacuous : (∀ pk, body = some (.resourcePackClientResponse pk) →
      pk.responseStatus ≠ ResourcePackClientResponseStatus.SendPacks) → Fresh w body :=
    fun hnot pk hpk hstatus => absurd hstatus (hnot pk hpk)
  have hquiet : Fresh w none := fun pk hpk => by cases hpk
  cases ht with
  | tick hr =>
    have hl := NetworkSession.leaves_tick.ok hr
    refine ⟨hd.leaves hl,?_⟩
    rw [hl.packQueue]
    exact ⟨fun _ => hquiet,fun _ => hnodup⟩
  | others server marked _ => exact ⟨⟨hd.pending,hd.idle,hd.packs⟩,fun _ => hquiet,fun _ => hnodup⟩
  | handle body b hr =>
    by_cases hrequest : ∃ r, body = .resourcePackChunkRequest r
    · obtain ⟨r,rfl⟩ := hrequest
      have hfresh : Fresh w (some (.resourcePackChunkRequest r)) := hvacuous fun pk hpk => by cases hpk
      obtain ⟨-,⟨hnone,hknown,rfl⟩ | ⟨m,hm,ha⟩⟩ := NetworkSession.handleResourcePackChunkRequest_ok hf hd hr
      · exact ⟨⟨hd.pending,hd.idle,hd.packs⟩,fun _ => hfresh,fun _ => hnodup⟩
      · obtain ⟨hd',hkeeps⟩ := hd.answered hm ha
        exact ⟨hd',fun _ => hfresh,fun _ => hkeeps hnodup⟩
    · by_cases hsend : ∃ pk, body = .resourcePackClientResponse pk ∧
          pk.responseStatus = ResourcePackClientResponseStatus.SendPacks
      · obtain ⟨pk,rfl,hpk⟩ := hsend
        obtain ⟨hd',hqueue⟩ := hd.sendPacks hf (NetworkSession.handleResourcePackClientResponse_ok hpk hr)
        refine ⟨hd',?_⟩
        rw [hqueue,List.nodup_append']
        constructor
        · rintro ⟨-,hids,hapart⟩ pk' hpk' -
          cases hpk'
          exact ⟨hids,fun id hid hmem => hapart hmem hid⟩
        · intro hfresh
          obtain ⟨hids,hapart⟩ := hfresh pk rfl hpk
          exact ⟨hnodup,hids,fun id hmem hid => hapart id hid hmem⟩
      · have hnot : ∀ pk, body = .resourcePackClientResponse pk →
            pk.responseStatus ≠ ResourcePackClientResponseStatus.SendPacks := fun pk hpk hs => hsend ⟨pk,hpk,hs⟩
        have hl := (leaves_handle tp (fun r hr => hrequest ⟨r,hr⟩) hnot).ok hr
        refine ⟨hd.leaves hl,?_⟩
        rw [hl.packQueue]
        exact ⟨fun _ => hvacuous fun pk hpk => hnot pk (Option.some_inj.mp hpk),fun _ => hnodup⟩

def FreshTurn (tp : ThirdParty) (w w' : World) : Prop := ∃ body, Turn tp body w w' ∧ Fresh w body

theorem nodup_run {guid : Guid} {server : Server} {w : World} (hf : server.factory.Indexed tp)
    (hrun : ReflTransGen (FreshTurn tp) { session := { guid }, server } w) :
    NetworkSession.Download w.session ∧ w.session.packQueue.Nodup ∧ w.server.factory.Indexed tp := by
  induction hrun with
  | refl => exact ⟨(NetworkSession.queueInv_new guid).toDownload,List.nodup_nil,hf⟩
  | tail _ hturn ih =>
    obtain ⟨hd,hnodup,hindexed⟩ := ih
    obtain ⟨body,ht,hfresh⟩ := hturn
    obtain ⟨hd',hiff⟩ := nodup_turn ht hindexed hd hnodup
    exact ⟨hd',hiff.mpr hfresh,ht.indexed hindexed⟩

/-- Over every run in which each response announces only packs that are new to the queue, no pack is on it twice and
`nextPack` rids it of the current one; the first response that is different puts a pack there twice. -/
theorem queue_sound_iff_fresh {guid : Guid} {server : Server} {w : World} (hf : server.factory.Indexed tp)
    (hrun : ReflTransGen (FreshTurn tp) { session := { guid }, server } w) :
    QueueSound w.session ∧ ∀ body w', Turn tp body w w' → (QueueSound w'.session ↔ Fresh w body) := by
  obtain ⟨hd,hnodup,hindexed⟩ := nodup_run hf hrun
  refine ⟨NetworkSession.queueSound_iff.mpr hnodup,fun body w' ht => ?_⟩
  rw [NetworkSession.queueSound_iff]
  exact (nodup_turn ht hindexed hd hnodup).2

theorem queue_sound_iff_fresh_announced :
    QueueSound World.announced.session ∧ ∀ body w', Turn .rawIds body World.announced w' →
      (QueueSound w'.session ↔ Fresh World.announced body) := by
  apply queue_sound_iff_fresh Server.twoPacks_indexed
  refine .single ⟨_,.handle _ true (World.handle_after (by decide +kernel)),?_⟩
  rintro pk hpk -
  cases hpk
  exact ⟨by decide +kernel,fun id _ hmem => by cases hmem⟩

/-- A pack of one chunk is asked for twice in one response: when it has been delivered it is still on the queue, and
the current one. -/
theorem pack_announced_twice :
    ∃ w₁ w₂,
      Turn .rawIds (some (sendPacksOf [.filled 2,.filled 2])) { session := { guid := 7 }, server := .twoPacks } w₁ ∧
      Turn .rawIds (some (firstChunkOf (.filled 2))) w₁ w₂ ∧ ¬ QueueSound w₁.session ∧
      w₂.session.packQueue = [.filled 2] ∧ w₂.session.currentPack = .filled 2 := by
  let w₁ := World.after .rawIds (sendPacksOf [.filled 2,.filled 2]) { session := { guid := 7 }, server := .twoPacks }
  let w₂ := w₁.after .rawIds (firstChunkOf (.filled 2))
  have hqueue : w₁.session.packQueue = [.filled 2,.filled 2] := by decide +kernel
  refine ⟨w₁,w₂,.handle _ true (World.handle_after (by decide +kernel)),
    .handle _ true (World.handle_after (by decide +kernel)),?_,by decide +kernel,by decide +kernel⟩
  intro h
  have hnodup := h.nodup
  rw [hqueue] at hnodup
  exact absurd hnodup (by decide)

end CyrexMC
