import CyrexMC.Session.ChunkHistory
import CyrexMC.Session.PackQueue
import Mathlib.Order.Bounds.Defs
set_option autoImplicit false

/-! What the flags and the queue of a download come to over the runs of a session. -/

namespace CyrexMC
open History NetworkSession Stateful

variable {tp : ThirdParty} {f₀ : ResourcePackFactory} {log log' : List ChunkEvent} {s s' : NetworkSession}
  {w w' : World} {exit : Exit} {request : ResourcePackChunkRequestPacket}

structure Silent (w w' : World) : Prop where
  sent : w'.server.sent = w.server.sent
  guid : w'.session.guid = w.session.guid
  encryptionEnabled : w'.session.encryptionEnabled = w.session.encryptionEnabled
  compressionEnabled : w'.session.compressionEnabled = w.session.compressionEnabled
  compressor : w'.session.compressor = w.session.compressor

theorem Silent.refl (w : World) : Silent w w := ⟨rfl,rfl,rfl,rfl,rfl⟩

theorem Silent.trans {u v w : World} (h : Silent u v) (k : Silent v w) : Silent u w :=
  ⟨k.sent.trans h.sent,k.guid.trans h.guid,k.encryptionEnabled.trans h.encryptionEnabled,
    k.compressionEnabled.trans h.compressionEnabled,k.compressor.trans h.compressor⟩

theorem silentBound : Bound Silent fun _ (_ : Fault) => True :=
  ⟨.refl,fun _ _ _ => .trans,fun _ _ _ _ _ => trivial⟩

namespace NetworkSession

abbrev Mute {α : Type} (m : SessionM α) : Prop := Within Silent (fun _ _ => True) m

theorem mute_callPack {α : Type} (i : Nat) (call : ZippedResourcePack.Call α) : Mute (callPack i call) := by
  intro w
  unfold WithinAt callPack
  cases w.server.factory.packs[i]? with
  | none => exact ⟨.refl w,trivial⟩
  | some p =>
    have hput : ∀ factory, Silent w { w with server := { w.server with factory } } := fun _ => ⟨rfl,rfl,rfl,rfl,rfl⟩
    cases hc : call p with
    | ok a q => simpa [hc] using hput _
    | error e q => simpa [hc] using hput _

theorem mute_chunkPacket (m : ResourcePackMeta) (n : Nat) : Mute (chunkPacket m n) := by
  refine Within.bind silentBound (mute_callPack m.pack _) fun packSize =>
    Within.bind silentBound (mute_callPack m.pack _) fun chunk => ?_
  cases chunk.isEmpty with
  | true => exact Within.returns silentBound none
  | false => exact Within.bind silentBound (mute_callPack m.pack _) fun packVersion => Within.returns silentBound _

theorem mute_findPack (packId : UUID) : Mute (findPack tp packId) := by
  refine Within.bind silentBound (fun w => .refl w) fun s => ?_
  cases s.loadedPacks packId with
  | some m => exact Within.returns silentBound _
  | none =>
    refine Within.bind silentBound (fun w => .refl w) fun server => ?_
    cases hi : server.factory.getPackById packId with
    | none =>
      simp only [hi]
      exact Within.returns silentBound _
    | some i =>
      simp only [hi]
      refine Within.bind silentBound (mute_callPack i _) fun packSize =>
        Within.bind silentBound (mute_callPack i _) fun id =>
          Within.bind silentBound (Within.excepts silentBound fun _ _ _ => trivial) fun new =>
            Within.bind silentBound (fun w => ⟨rfl,rfl,rfl,rfl,rfl⟩) fun _ => Within.returns silentBound _

theorem chunkPacket_names {m : ResourcePackMeta} {n : Nat} {pk : ResourcePackChunkDataPacket}
    (h : chunkPacket m n w = .ok (some pk) w') : pk.packId = m.packId ∧ pk.chunkIndex = n ∧ pk.data ≠ [] := by
  obtain ⟨packSize,w₁,-,h⟩ := of_bind_ok h
  obtain ⟨chunk,w₂,-,h⟩ := of_bind_ok h
  cases hempty : chunk.isEmpty with
  | true =>
    simp only [hempty,if_true] at h
    cases h
  | false =>
    simp only [hempty,Bool.false_eq_true,if_false] at h
    obtain ⟨packVersion,w₃,-,h⟩ := of_bind_ok h
    cases h
    exact ⟨rfl,rfl,List.isEmpty_eq_false_iff.mp hempty⟩

theorem Sends.written (h : Sends w w') :
    w'.server.sent = w.server.sent ++ (written w w').map (w.session.guid,·) ∧ w'.session.guid = w.session.guid := by
  obtain ⟨cipher,datagrams,rfl⟩ := h
  simp [CyrexMC.written]

theorem sendChunk_sends (pk : ResourcePackChunkDataPacket) : Within Sends (fun _ _ => True) (sendChunk tp pk) :=
  within_sends _

theorem delivery_carries {m : ResourcePackMeta} {n : Nat} {pk : ResourcePackChunkDataPacket} {w₁ w₂ : World}
    (hplain : w.session.encryptionEnabled = false) (hread : chunkPacket m n w = .ok (some pk) w₁)
    (hsend : sendChunk tp pk w₁ = .ok () w₂) :
    ∃ d, Carries tp w.session m.packId n d ∧ written w₁ w₂ = [d] := by
  have hsilent := (mute_chunkPacket m n).ok hread
  obtain ⟨hpack,hchunk,hdata⟩ := chunkPacket_names hread
  obtain ⟨cipher,datagrams,rfl,hd⟩ := send_ok hsend
  obtain ⟨-,d,hwraps,rfl⟩ := hd (hsilent.encryptionEnabled.trans hplain)
  refine ⟨d,⟨pk,hpack,hchunk,hdata,?_⟩,by simp [CyrexMC.written]⟩
  exact (wraps_congr hsilent.compressionEnabled hsilent.compressor).mp hwraps

theorem handed_writes {w₁ w₂ : World} (hread : Silent w w₁) (hsends : Sends w₁ w₂) :
    w₂.server.sent = w.server.sent ++ (written w₁ w₂).map (w.session.guid,·) ∧ w₂.session.guid = w.session.guid := by
  obtain ⟨hsent,hguid⟩ := hsends.written
  rw [← hread.sent,← hread.guid]
  exact ⟨hsent,hguid⟩

/-- All that the body of the loop writes is in its events. -/
theorem ServesOne.writes {packId : UUID} {idx : Int} {log : List ChunkEvent} (h : ServesOne tp packId idx w log exit w') :
    w'.server.sent = w.server.sent ++ (datagramsOf log).map (w.session.guid,·) ∧ w'.session.guid = w.session.guid := by
  have hnone : ∀ {u : World}, u.server.sent = w.server.sent →
      u.server.sent = w.server.sent ++ (datagramsOf []).map (w.session.guid,·) := by
    intro u hu
    simp [datagramsOf,hu]
  cases h with
  | unknown | badIndex | noFlag | alreadySent => exact ⟨hnone rfl,rfl⟩
  | readThrows hdue hread =>
    have hsilent := ((mute_chunkPacket _ _).error hread).1
    exact ⟨hnone hsilent.sent,hsilent.guid⟩
  | emptyRead hdue hread =>
    have hsilent := (mute_chunkPacket _ _).ok hread
    exact ⟨hnone hsilent.sent,hsilent.guid⟩
  | sendThrows hdue hread hsend =>
    have hwrites := handed_writes ((mute_chunkPacket _ _).ok hread) ((sendChunk_sends _).error hsend).1
    simpa [datagramsOf,ChunkEvent.datagrams] using hwrites
  | delivers hdue hread hsend hmore =>
    obtain ⟨hsent,hguid⟩ := handed_writes ((mute_chunkPacket _ _).ok hread) ((sendChunk_sends _).ok hsend)
    exact ⟨by simpa [datagramsOf,ChunkEvent.datagrams] using hsent,hguid⟩
  | completes hdue hread hsend hlast =>
    obtain ⟨hsent,hguid⟩ := handed_writes ((mute_chunkPacket _ _).ok hread) ((sendChunk_sends _).ok hsend)
    exact ⟨by simpa [datagramsOf,ChunkEvent.datagrams] using hsent,hguid⟩

theorem Requests.writes {log : List ChunkEvent} (h : Requests tp request w log exit w') :
    w'.server.sent = w.server.sent ++ (datagramsOf log).map (w.session.guid,·) ∧ w'.session.guid = w.session.guid := by
  cases h with
  | unknownPack hfind =>
    have hsilent := (mute_findPack _).ok hfind
    exact ⟨by simp [datagramsOf,ChunkEvent.datagrams,hsilent.sent],hsilent.guid⟩
  | loadThrows hfind =>
    have hsilent := ((mute_findPack _).error hfind).1
    exact ⟨by simp [datagramsOf,hsilent.sent],hsilent.guid⟩
  | noChunk hfind hm hidx =>
    have hsilent := (mute_findPack _).ok hfind
    exact ⟨by simp [datagramsOf,hsilent.sent],hsilent.guid⟩
  | @served w₁ w₂ key m n log exit hfind hm hidx hchunk hserved =>
    have hsilent := (mute_findPack _).ok hfind
    obtain ⟨hsent,hguid⟩ := hserved.writes
    have htaken : (takenUp key m n w₁).session.guid = w.session.guid := hsilent.guid
    rw [htaken] at hsent hguid
    refine ⟨?_,hguid⟩
    rw [← hsilent.sent]
    exact hsent

end NetworkSession

structure Resting (s : NetworkSession) : Prop where
  pending : s.pendingChunks = []
  idle : s.queueProcessing = false

namespace NetworkSession

theorem ServesOne.pendingChunks {packId : UUID} {idx : Int} {log : List ChunkEvent}
    (h : ServesOne tp packId idx w log exit w') : w'.session.pendingChunks = w.session.pendingChunks := by
  cases h with
  | unknown | badIndex | noFlag | alreadySent => rfl
  | readThrows hdue hread => exact ((leaves_chunkPacket _ _).error hread).1.pendingChunks
  | emptyRead hdue hread => exact ((leaves_chunkPacket _ _).ok hread).pendingChunks
  | sendThrows hdue hread hsend =>
    exact ((leaves_sendChunk _).error hsend).1.pendingChunks.trans ((leaves_chunkPacket _ _).ok hread).pendingChunks
  | delivers hdue hread hsend | completes hdue hread hsend =>
    exact ((leaves_sendChunk _).ok hsend).pendingChunks.trans ((leaves_chunkPacket _ _).ok hread).pendingChunks

theorem Requests.rests (h : Requests tp request w log' exit w') (hrest : Resting w.session) : Resting w'.session := by
  have hself : w.server.factory.Touched tp w.server.factory := .refl _
  have hfinds := findPack_finds request.packId hself
  cases h with
  | unknownPack hfind | noChunk hfind =>
    rw [hfind] at hfinds
    obtain ⟨hpending,hidle⟩ := hfinds.queue
    exact ⟨hpending.trans hrest.pending,hidle.trans hrest.idle⟩
  | loadThrows hfind =>
    rw [hfind] at hfinds
    exact ⟨hfinds.pendingChunks.trans hrest.pending,hfinds.queueProcessing.trans hrest.idle⟩
  | served hfind hm hidx hchunk hserved => exact ⟨hserved.pendingChunks,rfl⟩

end NetworkSession

def Flagged (s : NetworkSession) (id : UUID) (n : Nat) (b : Bool) : Prop :=
  ∃ m, s.loadedPacks id = some m ∧ n < m.chunks.length ∧ m.isSent n = b

theorem Flagged.congr {id : UUID} {n : Nat} {b : Bool} (h : Flagged s id n b) (hloaded : s'.loadedPacks = s.loadedPacks) :
    Flagged s' id n b := by
  rwa [Flagged,hloaded]

/-- What becomes of a chunk that is due, as its read and its send go from the state `u` on. -/
inductive Tried (tp : ThirdParty) (id : UUID) (m : ResourcePackMeta) (n : Nat) (u : World) : Exit → World → Prop where
  | readThrows {e : Fault} {w₁ w' : World} (hread : chunkPacket m n u = .error e w₁)
      (hflag : Flagged w'.session id n false) : Tried tp id m n u .throws w'
  | nothingRead {w₁ w' : World} (hread : chunkPacket m n u = .ok none w₁)
      (hmarked : w'.session.markedForDisconnect = true) (hflag : Flagged w'.session id n false) :
      Tried tp id m n u .returns w'
  | sendThrows {pk : ResourcePackChunkDataPacket} {e : Fault} {w₁ w₂ w' : World}
      (hread : chunkPacket m n u = .ok (some pk) w₁) (hsend : sendChunk tp pk w₁ = .error e w₂)
      (hflag : Flagged w'.session id n false) : Tried tp id m n u .throws w'
  | delivered {pk : ResourcePackChunkDataPacket} {w₁ w₂ w' : World} (hread : chunkPacket m n u = .ok (some pk) w₁)
      (hsend : sendChunk tp pk w₁ = .ok () w₂) (hserver : w'.server = w₂.server)
      (hflag : Flagged w'.session id n true) : Tried tp id m n u .returns w'

theorem Tried.setWant {id : UUID} {m : ResourcePackMeta} {i n : Nat} {u : World}
    (h : Tried tp id (m.setWant i) n u exit w') : Tried tp id m n u exit w' := by
  have hread : chunkPacket (m.setWant i) n = chunkPacket m n := rfl
  cases h with
  | readThrows h hflag => exact .readThrows (hread ▸ h) hflag
  | nothingRead h hmarked hflag => exact .nothingRead (hread ▸ h) hmarked hflag
  | sendThrows h hsend hflag => exact .sendThrows (hread ▸ h) hsend hflag
  | delivered h hsend hserver hflag => exact .delivered (hread ▸ h) hsend hserver hflag

namespace NetworkSession

theorem ServesOne.recorded {id : UUID} {m : ResourcePackMeta} {n : Nat} (h : Recorded tp f₀ log w.session)
    (hplain : w.session.encryptionEnabled = false) (hm : w.session.loadedPacks id = some m)
    (hwant : m.isWanted n = true) (hs : ServesOne tp id n w log' exit w') :
    Recorded tp f₀ (log ++ log') w'.session ∧ Grows w.session w'.session := by
  have hsame : ∀ {m'}, Due w.session id m' n → m' = m := fun h => Option.some.inj (h.loaded.symm.trans hm)
  have hquiet : ∀ {s' : NetworkSession}, s'.loadedPacks = w.session.loadedPacks → (∀ e ∈ log', e.quiet = true) →
      Recorded tp f₀ (log ++ log') s' ∧ Grows w.session s' :=
    fun hloaded hlog => ⟨h.quiet hloaded hlog,.of_eq hloaded⟩
  have hdelivers : ∀ {pk : ResourcePackChunkDataPacket} {w₁ w₂ : World} {s' : NetworkSession}, Due w.session id m n →
      chunkPacket m n w = .ok (some pk) w₁ → sendChunk tp pk w₁ = .ok () w₂ →
      s'.loadedPacks = Function.update w₂.session.loadedPacks id (some (m.afterSend n)) →
      Recorded tp f₀ (log ++ (.handed id n (written w₁ w₂) :: .sent id n :: lastLog id m n)) s' ∧ Grows w.session s' := by
    intro pk w₁ w₂ s' hdue hread hsend hloaded
    obtain ⟨d,hcarries,hwritten⟩ := delivery_carries hplain hread hsend
    rw [(h.kept id m hm).packId] at hcarries
    have hleaves := leavesPacks_trans ((leaves_chunkPacket _ _).ok hread) ((leaves_sendChunk _).ok hsend)
    rw [hleaves.loadedPacks] at hloaded
    have hall := h.sent hdue hwant hcarries hloaded
    rw [hwritten]
    exact ⟨by simpa using hall,grows_afterSend hdue hloaded⟩
  cases hs with
  | unknown | badIndex | noFlag | alreadySent => exact hquiet rfl (by simp [ChunkEvent.quiet])
  | readThrows hdue hread =>
    have hleaves := ((leaves_chunkPacket _ _).error hread).1
    exact hquiet hleaves.loadedPacks (by simp [ChunkEvent.quiet])
  | emptyRead hdue hread =>
    have hleaves := (leaves_chunkPacket _ _).ok hread
    exact hquiet hleaves.loadedPacks (by simp [ChunkEvent.quiet])
  | sendThrows hdue hread hsend =>
    have hleaves := leavesPacks_trans ((leaves_chunkPacket _ _).ok hread) ((leaves_sendChunk _).error hsend).1
    exact hquiet hleaves.loadedPacks (by simp [ChunkEvent.quiet])
  | delivers hdue hread hsend hmore =>
    cases hsame hdue
    simpa [lastLog,hmore] using hdelivers hdue hread hsend rfl
  | completes hdue hread hsend hlast =>
    cases hsame hdue
    simpa [lastLog,hlast] using hdelivers hdue hread hsend rfl

theorem Finds.recorded {packId : UUID} {found : Option UUID} (h : Recorded tp f₀ log w.session)
    (hf : Finds f₀ packId w found w') : Recorded tp f₀ log w'.session ∧ Grows w.session w'.session := by
  cases hf with
  | loaded | nothing => exact ⟨h,.of_eq rfl⟩
  | loads hnone hcalls hnew =>
    obtain ⟨hrecorded,hgrows⟩ := (h.congr hcalls.loadedPacks).emplaced hnew
    exact ⟨hrecorded,Grows.trans (.of_eq hcalls.loadedPacks) hgrows⟩

end NetworkSession

theorem Recorded.takenUp {key : UUID} {m : ResourcePackMeta} {n : Nat} (h : Recorded tp f₀ log w.session)
    (hm : w.session.loadedPacks key = some m) (hchunk : (n : Int) < m.chunkCount) :
    Recorded tp f₀ log (takenUp key m n w).session ∧ Grows w.session (takenUp key m n w).session ∧
      (takenUp key m n w).session.loadedPacks m.packId = some (m.setWant n) ∧ (m.setWant n).isWanted n = true := by
  have hkept := h.kept key m hm
  have hlength := hkept.wellFormed.length
  have hn : n < m.chunks.length := by omega
  obtain ⟨hrecorded,hgrows⟩ := h.wanted hm hn
  refine ⟨hrecorded.congr rfl,hgrows,?_,by simp [ResourcePackMeta.isWanted_setWant m hn]⟩
  rw [hkept.packId]
  simp [NetworkSession.takenUp,enqueuePack,withPack]

/-- The history fits the flags, and nothing is left to serve. -/
structure Standing (tp : ThirdParty) (f₀ : ResourcePackFactory) (log : List ChunkEvent) (w : World) : Prop where
  recorded : Recorded tp f₀ log w.session
  rests : Resting w.session

theorem Standing.leaves (h : Standing tp f₀ log w) (hleaves : LeavesPacks w w') : Standing tp f₀ log w' :=
  ⟨h.recorded.congr hleaves.loadedPacks,hleaves.pendingChunks.trans h.rests.pending,
    hleaves.queueProcessing.trans h.rests.idle⟩

theorem Standing.announced {new : ResourcePackMeta} (h : Standing tp f₀ log w) (hnew : NewMeta f₀ new) :
    Standing tp f₀ log { w with
      session := emplacePack new.packId new { w.session with packQueue := w.session.packQueue ++ [new.packId] } } := by
  have hqueued : Recorded tp f₀ log { w.session with packQueue := w.session.packQueue ++ [new.packId] } :=
    h.recorded.congr rfl
  exact ⟨(hqueued.emplaced hnew).1,h.rests.pending,h.rests.idle⟩

namespace NetworkSession

theorem Requests.recorded (h : Recorded tp f₀ log w.session) (hplain : w.session.encryptionEnabled = false)
    (hf : f₀.Touched tp w.server.factory) (hr : Requests tp request w log' exit w') :
    Recorded tp f₀ (log ++ log') w'.session ∧ Grows w.session w'.session := by
  have hfinds := findPack_finds request.packId hf
  cases hr with
  | unknownPack hfind =>
    rw [hfind] at hfinds
    obtain ⟨hrecorded,hgrows⟩ := hfinds.recorded h
    exact ⟨hrecorded.quiet rfl (by simp [ChunkEvent.quiet]),hgrows⟩
  | loadThrows hfind =>
    rw [hfind] at hfinds
    exact ⟨h.quiet hfinds.loadedPacks (by simp),.of_eq hfinds.loadedPacks⟩
  | noChunk hfind hm hidx =>
    rw [hfind] at hfinds
    obtain ⟨hrecorded,hgrows⟩ := hfinds.recorded h
    exact ⟨hrecorded.quiet rfl (by simp),hgrows⟩
  | served hfind hm hidx hchunk hserved =>
    have hmute := (mute_findPack _).ok hfind
    rw [hfind] at hfinds
    obtain ⟨hfound,hgrows₁⟩ := hfinds.recorded h
    obtain ⟨htaken,hgrows₂,hm',hwant⟩ := hfound.takenUp hm hchunk
    obtain ⟨hall,hgrows₃⟩ := hserved.recorded htaken (hmute.encryptionEnabled.trans hplain) hm' hwant
    exact ⟨hall.congr rfl,Grows.trans hgrows₁ (Grows.trans hgrows₂ hgrows₃)⟩

theorem sendPacks_standing (entries : List ResourcePackClientResponsePacket.Entry) (h : Standing tp f₀ log w)
    (hf : f₀.Touched tp w.server.factory) :
    Lands (fun _ => Standing tp f₀ log) (Standing tp f₀ log) (sendPacks tp entries w) := by
  induction entries generalizing w with
  | nil => exact h
  | cons entry entries ih =>
    rw [sendPacks,bind_ok (getServer_apply w)]
    cases hi : w.server.factory.getPackById entry.uuid with
    | none => exact ⟨h.recorded.congr rfl,h.rests.pending,h.rests.idle⟩
    | some i =>
      simp only
      refine lands_call (leaves_callPack i _) (.refl _) (fun _ => h.leaves) fun packSize w₁ hsize h₁ => ?_
      obtain ⟨rfl,p,hp,rfl⟩ := getPackSize_ok hsize
      obtain ⟨q,hq,hqp⟩ := hf.size hp
      rw [hf.maxChunkSize,← hqp]
      cases hcount : ceilChunkCount q.getPackSize f₀.maxChunkSize.val with
      | error e =>
        rw [bind_error (fromExcept_error e w₁)]
        exact h
      | ok count =>
        rw [bind_ok (fromExcept_ok count w₁)]
        refine lands_call (leaves_callPack i _) h₁ (fun _ => h.leaves) fun id w₂ hid h₂ => ?_
        cases hnew : ResourcePackMeta.create id i f₀.maxChunkSize.val count with
        | error e =>
          rw [bind_error (fromExcept_error e w₂)]
          exact h.leaves h₂
        | ok new =>
          rw [bind_ok (fromExcept_ok new w₂),bind_ok (modifySession_apply _ w₂),bind_ok (modifySession_apply _ _)]
          have hput := (h.leaves h₂).announced (.counted hq (Or.inl hcount) hnew)
          refine lands_call (leaves_callPack i _) (.refl _) (fun _ => hput.leaves) fun id' w₃ hid' h₃ => ?_
          refine lands_call (leaves_callPack i _) h₃ (fun _ => hput.leaves) fun packVersion w₄ hversion h₄ => ?_
          refine lands_call (leaves_callPack i _) h₄ (fun _ => hput.leaves) fun size w₅ hsize' h₅ => ?_
          refine lands_call (leaves_callPack i _) h₅ (fun _ => hput.leaves) fun sha256 w₆ hsha h₆ => ?_
          refine lands_call (leaves_send _ true) h₆ (fun _ => hput.leaves) fun _ w₇ hsend h₇ => ?_
          have hkeeps : w₁.server.factory.Touched tp w₇.server.factory := by
            obtain ⟨f₂,hf₂,rfl⟩ := callPack_browses tp ZippedResourcePack.within_getPackId hid
            obtain ⟨f₃,hf₃,rfl⟩ := callPack_browses tp ZippedResourcePack.within_getPackId hid'
            obtain ⟨f₄,hf₄,rfl⟩ := callPack_browses tp ZippedResourcePack.within_getPackVersion hversion
            obtain ⟨rfl,-⟩ := getPackSize_ok hsize'
            obtain ⟨f₆,hf₆,rfl⟩ := callPack_browses tp ZippedResourcePack.within_getSha256 hsha
            obtain ⟨cipher,datagrams,rfl,-⟩ := send_ok hsend
            exact ((hf₂.trans hf₃).trans hf₄).trans hf₆
          exact ih (hput.leaves h₇) (hf.trans hkeeps)

/-- A packet that is no chunk request. -/
theorem handle_standing (h : Standing tp f₀ log w) (hf : f₀.Touched tp w.server.factory) {body : PacketBody}
    (hrequest : ¬ ∃ r, body = .resourcePackChunkRequest r) :
    Lands (fun _ => Standing tp f₀ log) (Standing tp f₀ log) (handle tp body w) := by
  by_cases hsend : ∃ pk, body = .resourcePackClientResponse pk ∧
      pk.responseStatus = ResourcePackClientResponseStatus.SendPacks
  · obtain ⟨pk,rfl,hpk⟩ := hsend
    have hrefused : ResourcePackClientResponseStatus.SendPacks ≠ ResourcePackClientResponseStatus.Refused := by decide
    simp only [handle,handleResourcePackClientResponse]
    rw [bind_ok (getServer_apply w)]
    simp only [hpk,hrefused,if_false,if_true]
    exact Lands.bind (sendPacks_standing pk.packEntries h hf) (fun _ => id) fun _ _ _ => id
  · have hleaves := leaves_handle tp (fun r hr => hrequest ⟨r,hr⟩) fun pk hpk hs => hsend ⟨pk,hpk,hs⟩
    exact Lands.mono (.of_within hleaves w) (fun _ _ => h.leaves) fun _ => h.leaves

end NetworkSession

/-- The worlds that come about from `w₀`, with what has happened to chunks: calls of a session that
return or throw, and what the others do between them. -/
inductive Plays (tp : ThirdParty) (w₀ : World) : List ChunkEvent → World → Prop where
  | start : Plays tp w₀ [] w₀
  | handled {log : List ChunkEvent} {w w' : World} {b : Bool} (h : Plays tp w₀ log w) (body : PacketBody)
      (hr : handle tp body w = .ok b w') : Plays tp w₀ (log ++ callLog tp body w) w'
  | handleThrew {log : List ChunkEvent} {w w' : World} {e : Fault} (h : Plays tp w₀ log w) (body : PacketBody)
      (hr : handle tp body w = .error e w') : Plays tp w₀ (log ++ callLog tp body w) w'
  | ticked {log : List ChunkEvent} {w w' : World} (h : Plays tp w₀ log w) (hr : tick tp w = .ok () w') : Plays tp w₀ log w'
  | tickThrew {log : List ChunkEvent} {w w' : World} {e : Fault} (h : Plays tp w₀ log w) (hr : tick tp w = .error e w') :
      Plays tp w₀ log w'
  | others {log : List ChunkEvent} {w : World} (h : Plays tp w₀ log w) (server : Server) (markedForDisconnect : Bool)
      (hfactory : w.server.factory.Touched tp server.factory) (hsent : w.server.sent <+: server.sent) :
      Plays tp w₀ log { session := { w.session with markedForDisconnect }, server }

structure Played (tp : ThirdParty) (f₀ : ResourcePackFactory) (log : List ChunkEvent) (w : World) : Prop
    extends Standing tp f₀ log w where
  plain : w.session.encryptionEnabled = false
  factory : f₀.Touched tp w.server.factory
  posted : ((datagramsOf log).map (w.session.guid,·)).Sublist w.server.sent

theorem Played.keeps (h : Played tp f₀ log w) (hstanding : Standing tp f₀ log w') (hkeeps : Keeps tp w w') :
    Played tp f₀ log w' := by
  obtain ⟨datagrams,hsent⟩ := hkeeps.sent
  refine ⟨hstanding,hkeeps.encryptionEnabled.trans h.plain,h.factory.trans hkeeps.factory,?_⟩
  rw [hkeeps.guid,hsent]
  exact h.posted.trans (List.sublist_append_left _ _)

theorem Played.requests (h : Played tp f₀ log w) (hr : Requests tp request w log' exit w') (hkeeps : Keeps tp w w') :
    Played tp f₀ (log ++ log') w' := by
  obtain ⟨hrecorded,-⟩ := hr.recorded h.recorded h.plain h.factory
  obtain ⟨hsent,hguid⟩ := hr.writes
  refine ⟨⟨hrecorded,hr.rests h.rests⟩,hkeeps.encryptionEnabled.trans h.plain,h.factory.trans hkeeps.factory,?_⟩
  rw [datagramsOf_append,List.map_append,hguid,hsent]
  exact h.posted.append_right _

theorem Played.handle (h : Played tp f₀ log w) (body : PacketBody) :
    Lands (fun _ => Played tp f₀ (log ++ callLog tp body w)) (Played tp f₀ (log ++ callLog tp body w))
      (handle tp body w) := by
  have hkeeps : Lands (fun _ => Keeps tp w) (Keeps tp w) (NetworkSession.handle tp body w) :=
    .of_within (keeps_handle body) w
  by_cases hrequest : ∃ r, body = .resourcePackChunkRequest r
  · obtain ⟨r,rfl⟩ := hrequest
    have hr := @handleResourcePackChunkRequest_requests tp r w h.rests.idle h.rests.pending
    simp only [NetworkSession.handle,callLog] at hkeeps ⊢
    cases hrun : handleResourcePackChunkRequest tp r w with
    | ok b w' | error e w' =>
      rw [hrun] at hr hkeeps
      exact h.requests hr hkeeps
  · have hlog : callLog tp body w = [] := by
      cases body with
      | resourcePackChunkRequest r => exact absurd ⟨r,rfl⟩ hrequest
      | _ => rfl
    have hstanding := handle_standing h.toStanding h.factory hrequest
    rw [hlog,List.append_nil]
    cases hrun : NetworkSession.handle tp body w with
    | ok b w' | error e w' =>
      rw [hrun] at hstanding hkeeps
      exact h.keeps hstanding hkeeps

theorem Plays.played {guid : Guid} {server : Server} (h : Plays tp { session := { guid }, server } log w) :
    Played tp server.factory log w := by
  induction h with
  | start => exact ⟨⟨recorded_new guid,⟨rfl,rfl⟩⟩,rfl,.refl _,by simp [datagramsOf]⟩
  | handled h body hr ih =>
    have hall := ih.handle body
    rwa [hr] at hall
  | handleThrew h body hr ih =>
    have hall := ih.handle body
    rwa [hr] at hall
  | ticked h hr ih => exact ih.keeps (ih.leaves (leaves_tick.ok hr)) (within_flush.ok hr).keeps
  | tickThrew h hr ih => exact ih.keeps (ih.leaves (leaves_tick.error hr).1) (within_flush.error hr).1.keeps
  | others h server marked hfactory hsent ih =>
    exact ⟨⟨ih.recorded.congr rfl,⟨ih.rests.pending,ih.rests.idle⟩⟩,ih.plain,ih.factory.trans hfactory,
      ih.posted.trans hsent.sublist⟩

/-- The number of chunks of every pack fits an `int`. -/
def ResourcePackFactory.Countable (f : ResourcePackFactory) : Prop :=
  ∀ p ∈ f.packs, (p.getPackSize+f.maxChunkSize.val-1)/f.maxChunkSize.val < 2^31

theorem ResourcePackMeta.Kept.count_pos {id : UUID} {m : ResourcePackMeta} (h : m.Kept f₀ id) (hcount : f₀.Countable) :
    0 < m.chunkCount := by
  obtain ⟨p,hp,hceil | hrounded⟩ := h.count
  · have hpos : 0 < p.getPackSize := Nat.lt_of_lt_of_le (by decide) p.fileZip
    exact ceilChunkCount_pos hpos hceil
  · have hpos : 0 < p.getPackSize := Nat.lt_of_lt_of_le (by decide) p.fileZip
    rw [hrounded]
    exact roundedChunkCount_pos hpos (hcount p hp)

theorem ResourcePackMeta.WellFormed.isLeast {m : ResourcePackMeta} (h : m.WellFormed) :
    IsLeast {j | j < m.chunks.length → m.isSent j = false} m.nextToSend := by
  refine ⟨h.stuck,fun j hj => ?_⟩
  by_contra hlt
  have hbefore : j < m.nextToSend := Nat.not_le.mp hlt
  have hbound := h.bound
  have hunsent : m.isSent j = false := hj (by omega)
  rw [h.passed j hbefore] at hunsent
  cases hunsent

/-- How far the packs of a session have come, and what has happened for it. -/
structure Accounted (tp : ThirdParty) (log : List ChunkEvent) (w : World) : Prop where
  length : ∀ id m, w.session.loadedPacks id = some m → (m.chunks.length : Int) = m.chunkCount
  next : ∀ id m, w.session.loadedPacks id = some m →
    IsLeast {j | j < m.chunks.length → m.isSent j = false} m.nextToSend
  wanted : ∀ id m j, w.session.loadedPacks id = some m → m.isSent j = true → m.isWanted j = true
  finished : ∀ id m, w.session.loadedPacks id = some m → (m.finished = true ↔ ∀ j < m.chunks.length, m.isSent j = true)
  flags : ∀ id j, .sent id j ∈ log ↔ ∃ m, w.session.loadedPacks id = some m ∧ m.isSent j = true
  /-- A flag is set once, right behind the hand-over of its packet, which made one datagram. -/
  handed : ∀ pre id j post, log = pre ++ .sent id j :: post → .sent id j ∉ pre ∧
    ∃ front d, pre = front ++ [.handed id j [d]] ∧ ∃ mode, Carries tp mode id j d
  /-- What the history says was written is on the transport, in this order. -/
  posted : ((datagramsOf log).map (w.session.guid,·)).Sublist w.server.sent
  once : ∀ id m, w.session.loadedPacks id = some m → log.count (.nextPack id) = if m.finished then 1 else 0
  behind : ∀ pre id post, log = pre ++ .nextPack id :: post → ∃ front j d m,
    pre = front ++ [.handed id j [d],.sent id j] ∧ .sent id j ∉ front ∧ w.session.loadedPacks id = some m ∧
      ∀ i < m.chunks.length, .sent id i ∈ pre

theorem Played.accounted (h : Played tp f₀ log w) (hcount : f₀.Countable) : Accounted tp log w := by
  have hkept := h.recorded.kept
  constructor
  · exact fun id m hm => (hkept id m hm).wellFormed.length
  · exact fun id m hm => (hkept id m hm).wellFormed.isLeast
  · exact fun id m j hm => (hkept id m hm).wanted j
  · exact fun id m hm => (hkept id m hm).wellFormed.finished_iff
  · exact h.recorded.flags
  · exact fun pre id j post heq => h.recorded.explained pre _ post heq
  · exact h.posted
  · exact fun id m hm => h.recorded.once id m hm ((hkept id m hm).count_pos hcount)
  · exact fun pre id post heq => h.recorded.explained pre _ post heq

/-- In every state that a session comes to between its calls, whatever is asked for and in whatever
order. -/
theorem transfer_progress {guid : Guid} {server : Server} (hcount : server.factory.Countable)
    (h : Plays tp { session := { guid }, server } log w) :
    Accounted tp log w ∧ ∀ request,
      Lands (fun _ => Requests tp request w (requestLog tp request w) .returns)
        (Requests tp request w (requestLog tp request w) .throws) (handleResourcePackChunkRequest tp request w) :=
  ⟨h.played.accounted hcount,
    fun request => handleResourcePackChunkRequest_requests request h.played.rests.idle h.played.rests.pending⟩

def firstPackChunk (i : Int) : PacketBody := .resourcePackChunkRequest { packId := .filled 1, chunkIndex := i }

def firstPackDatagram (i : Int) : Bytes :=
  0xFE :: (chunkData (.filled 1) (ascii "1.0.0") i 22 (List.replicate 22 0)).encode .rawIds

/-- The two chunks of a pack are asked for from behind, and the last one twice. -/
def firstPackLog : List ChunkEvent :=
  [.handed (.filled 1) 1 [firstPackDatagram 1],.sent (.filled 1) 1,
   .handed (.filled 1) 0 [firstPackDatagram 0],.sent (.filled 1) 0,.nextPack (.filled 1)]

theorem transfer_progress_firstPack :
    ∃ w, Plays .rawIds { session := { guid := 7 }, server := .twoPacks } firstPackLog w ∧
      Accounted .rawIds firstPackLog w := by
  have hcount : Server.twoPacks.factory.Countable := by
    rintro p hp
    have hall : ∀ n ∈ Server.twoPacks.factory.packs.map ZippedResourcePack.getPackSize,
        (n+Server.twoPacks.factory.maxChunkSize.val-1)/Server.twoPacks.factory.maxChunkSize.val < 2^31 := by decide +kernel
    exact hall _ (List.mem_map_of_mem hp)
  let w₀ : World := { session := { guid := 7 }, server := .twoPacks }
  let w₁ := w₀.after .rawIds (firstPackChunk 1)
  let w₂ := w₁.after .rawIds (firstPackChunk 1)
  let w₃ := w₂.after .rawIds (firstPackChunk 0)
  have hlog : (([] ++ callLog .rawIds (firstPackChunk 1) w₀) ++ callLog .rawIds (firstPackChunk 1) w₁) ++
      callLog .rawIds (firstPackChunk 0) w₂ = firstPackLog := by decide +kernel
  have hplays : Plays .rawIds w₀ _ w₃ := .handled (.handled (.handled .start _ (World.handle_after (by decide +kernel))) _
    (World.handle_after (by decide +kernel))) _ (World.handle_after (by decide +kernel))
  rw [hlog] at hplays
  exact ⟨w₃,hplays,(transfer_progress hcount hplays).1⟩

end CyrexMC
