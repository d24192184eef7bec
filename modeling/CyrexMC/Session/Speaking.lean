import CyrexMC.Session.Containment
import CyrexMC.Session.Dialogue
import CyrexMC.Session.SameView
set_option autoImplicit false

namespace CyrexMC
open Stateful

variable {tp : ThirdParty}

theorem eq_map_of_range {α β : Type} {g : α → β} {xs : List α} {ys : List β}
    (h : List.Forall₂ (fun i y => ∃ x, xs[i]? = some x ∧ y = g x) (List.range xs.length) ys) : ys = xs.map g := by
  have hlength := h.length_eq
  rw [List.length_range] at hlength
  apply List.ext_getElem
  · rw [List.length_map,hlength]
  · intro i hi hi'
    obtain ⟨x,hx,hy⟩ := h.get (i:=i) (by simpa [hlength] using hi) hi
    simp only [List.get_eq_getElem,List.getElem_range] at hx hy
    obtain ⟨hlt,rfl⟩ := List.getElem?_eq_some_iff.mp hx
    rw [hy,List.getElem_map]

theorem ZippedResourcePack.version_eq {p : ZippedResourcePack} {packVersion : Bytes}
    (h : headerVersion p.manifest = .ok packVersion) : p.version = packVersion := by
  simp [version,h,Except.toOption]

namespace NetworkSession

section

variable {f : ResourcePackFactory} (hcat : f.Catalogued tp)
include hcat

theorem packId_ok {i : Nat} {id : UUID} {w w' : World} (hf : f.Touched tp w.server.factory)
    (h : callPack i (ZippedResourcePack.getPackId tp) w = .ok id w') : ∃ p, f.packs[i]? = some p ∧ id = p.id := by
  obtain ⟨q,q',hq,hgive,-⟩ := callPack_ok h
  obtain ⟨p,hp,hpq⟩ := hf.back hq
  have hreturned := hpq.getPackId_ok hgive
  rw [hcat.ids i p hp,ite_self,Option.some_inj] at hreturned
  exact ⟨p,hp,hreturned.symm⟩

theorem infoEntry_eq {i : Nat} {entry : ResourcePackInfoEntry} {w w' : World} (hf : f.Touched tp w.server.factory)
    (h : infoEntry tp i w = .ok entry w') : ∃ p, f.packs[i]? = some p ∧ entry = p.infoEntry tp := by
  obtain ⟨⟨p,count,hp,hid,hversion,hsize,-⟩,-⟩ := infoEntry_ok hcat hf h
  refine ⟨p,hp,?_⟩
  simp only [infoEntry] at h
  obtain ⟨size,w₁,hfirst,h⟩ := of_bind_ok h
  rw [bind_ok (getServer_apply w₁)] at h
  obtain ⟨count,w₂,hcount,h⟩ := of_bind_ok h
  obtain ⟨packId,w₃,hpackId,h⟩ := of_bind_ok h
  obtain ⟨packVersion,w₄,hpackVersion,h⟩ := of_bind_ok h
  obtain ⟨packSize,w₅,hpackSize,h⟩ := of_bind_ok h
  cases h
  simp only at hid hversion hsize
  simp only [ZippedResourcePack.infoEntry,hid,ZippedResourcePack.version_eq hversion,hsize]

theorem infoEntries_eq {defs : List Nat} {entries : List ResourcePackInfoEntry} {w w' : World}
    (hf : f.Touched tp w.server.factory) (h : infoEntries tp defs w = .ok entries w') :
    List.Forall₂ (fun i entry => ∃ p, f.packs[i]? = some p ∧ entry = p.infoEntry tp) defs entries := by
  induction defs generalizing w entries with
  | nil =>
    cases h
    exact .nil
  | cons i defs ih =>
    obtain ⟨entry,w₁,hentry,h⟩ := of_bind_ok h
    obtain ⟨rest,w₂,hrest,h⟩ := of_bind_ok h
    cases h
    obtain ⟨-,hbrowse⟩ := infoEntry_ok hcat hf hentry
    exact .cons (infoEntry_eq hcat hf hentry) (ih (hbrowse.factory hf) hrest)

theorem stackEntries_eq {defs : List Nat} {entries : List ResourcePackStackEntry} {w w' : World}
    (hf : f.Touched tp w.server.factory) (h : stackEntries tp defs w = .ok entries w') :
    List.Forall₂ (fun i entry => ∃ p, f.packs[i]? = some p ∧ entry = p.stackEntry tp) defs entries ∧ Browses tp w w' := by
  induction defs generalizing w entries with
  | nil =>
    cases h
    exact ⟨.nil,_,.refl _,rfl⟩
  | cons i defs ih =>
    obtain ⟨packId,w₁,hid,h⟩ := of_bind_ok h
    obtain ⟨packVersion,w₂,hversion,h⟩ := of_bind_ok h
    obtain ⟨rest,w₃,hrest,h⟩ := of_bind_ok h
    cases h
    have hbrowse₁ := callPack_browses tp ZippedResourcePack.within_getPackId hid
    have hbrowse₂ := callPack_browses tp ZippedResourcePack.within_getPackVersion hversion
    have hf₁ := hbrowse₁.factory hf
    obtain ⟨hall,hbrowse₃⟩ := ih (hbrowse₂.factory hf₁) hrest
    obtain ⟨p,hp,rfl⟩ := packId_ok hcat hf hid
    obtain ⟨q,q',hq,hread,-⟩ := callPack_ok hversion
    obtain ⟨p',hp',hpq⟩ := hf₁.back hq
    cases hp.symm.trans hp'
    have hheader := ZippedResourcePack.getPackVersion_ok hread
    rw [hpq.manifest] at hheader
    refine ⟨.cons ⟨p,hp,?_⟩ hall,(hbrowse₁.trans hbrowse₂).trans hbrowse₃⟩
    rw [ZippedResourcePack.stackEntry,ZippedResourcePack.version_eq hheader]

theorem doLoginSuccess_eq {server : Server} (hserver : server.factory = f) {w w' : World}
    (hf : f.Touched tp w.server.factory) (hforce : w.server.forceResources = server.forceResources)
    (h : doLoginSuccess tp w = .ok () w') :
    ∃ worldTemplateId factory random, w.server.factory.Touched tp factory ∧
      let pk := { server.packsInfo tp with worldTemplateId }
      w' = { session := { w.session with
               sendQueue := w.session.sendQueue ++ [loginSuccess,{ body := .resourcePacksInfo pk }] },
             server := { w.server with factory, random } } := by
  simp only [doLoginSuccess,send,Bool.false_eq_true,if_false] at h
  rw [bind_ok (modifySession_apply _ _),bind_ok (getServer_apply _)] at h
  obtain ⟨entries,w₁,hentries,h⟩ := of_bind_ok h
  have hall := infoEntries_eq hcat (by exact hf) hentries
  obtain ⟨-,factory,hfactory,rfl⟩ := infoEntries_ok hcat (by exact hf) hentries
  obtain ⟨worldTemplateId,w₂,hrandom,h⟩ := of_bind_ok h
  cases hrandom
  cases h
  have hstack : w.server.factory.getResourceStack = List.range f.packs.length := by
    simp only [ResourcePackFactory.getResourceStack,hf.length]
  simp only [hstack] at hall
  have hmap := eq_map_of_range hall
  refine ⟨w.server.random 0,factory,fun n => w.server.random (n+1),hfactory,?_⟩
  subst hserver
  simp [Server.packsInfo,loginSuccess,hmap,hforce]

end

theorem sendPacks_rest {f : ResourcePackFactory} {entries : List ResourcePackClientResponsePacket.Entry} {w w' : World}
    (hf : f.Indexed tp) (htouched : f.Touched tp w.server.factory) (h : sendPacks tp entries w = .ok () w') :
    w'.session.sendQueue = w.session.sendQueue ∧ w'.session.markedForDisconnect =
      (w.session.markedForDisconnect || entries.any fun entry => (f.getPackById entry.uuid).isNone) := by
  induction entries generalizing w with
  | nil =>
    cases h
    exact ⟨rfl,by simp⟩
  | cons entry entries ih =>
    rcases sendPacks_ok (hf.touched htouched) h with ⟨hunknown,rfl⟩ | ⟨m,w₁,ha,hrest⟩
    · rw [htouched.getPackById] at hunknown
      exact ⟨rfl,by simp [hunknown]⟩
    · obtain ⟨i,p,count,hi,-⟩ := ha.found
      rw [htouched.getPackById] at hi
      obtain ⟨hqueue,hmarked⟩ := ih (htouched.trans ha.factory) hrest
      obtain ⟨cipher,hs⟩ := ha.session
      have hkept : w₁.session.sendQueue = w.session.sendQueue ∧
          w₁.session.markedForDisconnect = w.session.markedForDisconnect := by
        rw [hs]
        exact ⟨rfl,rfl⟩
      rw [hqueue,hmarked,hkept.1,hkept.2,List.any_cons,hi]
      exact ⟨rfl,by simp⟩

theorem processOne_marked {id : UUID} {idx : Int} {m : ResourcePackMeta} {w w' : World} {b : Bool}
    (hm : w.session.loadedPacks id = some m) (hpackId : m.packId = id) (hlength : (m.chunks.length : Int) = m.chunkCount)
    (hin : 0 ≤ idx ∧ idx < m.chunkCount) (h : processOne tp id idx w = .ok b w')
    (hread : ¬ ReadsChunk w.server.factory m idx []) :
    w'.session.markedForDisconnect = w.session.markedForDisconnect := by
  have hlt : idx.toNat < m.chunks.length := by omega
  have hout : ¬ (idx < 0 ∨ idx ≥ m.chunkCount) := by omega
  have hget : m.isSent idx.toNat = m.chunks[idx.toNat].sent := by simp [ResourcePackMeta.isSent,hlt]
  cases hsent : m.isSent idx.toNat with
  | true =>
    simp only [processOne] at h
    rw [bind_ok (getSession_apply w)] at h
    simp only [hm,hout,if_false,List.getElem?_eq_getElem hlt,← hget,hsent,if_true] at h
    cases h
    rfl
  | false =>
    rcases processOne_ok hm hpackId hlength hin h with ⟨marked,hwhy,-⟩ | ⟨packVersion,chunk,cipher,-,-,-,hs,-⟩
    · rw [hsent] at hwhy
      exact absurd (hwhy.resolve_left Bool.false_ne_true) hread
    · rw [hs]
      cases (m.setSent idx.toNat).advance.finished <;> rfl

theorem handleResourcePackChunkRequest_marked {request : ResourcePackChunkRequestPacket} {m : ResourcePackMeta}
    {w w' : World} {b : Bool} (hf : w.server.factory.Indexed tp) (hs : Download w.session)
    (hm : packFor w request.packId = some m)
    (hread : 0 ≤ request.chunkIndex ∧ request.chunkIndex < m.chunkCount →
      ¬ ReadsChunk w.server.factory m request.chunkIndex [])
    (h : handleResourcePackChunkRequest tp request w = .ok b w') :
    w'.session.markedForDisconnect = w.session.markedForDisconnect := by
  obtain ⟨found,w₁,hfind,hrest⟩ := of_bind_ok h
  rcases findPack_ok hf hfind with ⟨-,hloaded,hknown,-⟩ | ⟨m',rfl,hm',hw₁,htouched,-⟩
  · simp [packFor,hloaded,hknown] at hm
  · rw [hm,Option.some_inj] at hm'
    subst hm'
    obtain ⟨hpackId,hwf⟩ := hs.packFor hm
    have hget : w₁.session.loadedPacks request.packId = some m := by simp [hw₁,withPack]
    have hmarked : w₁.session.markedForDisconnect = w.session.markedForDisconnect := by
      rw [hw₁]
      rfl
    have hpending : w₁.session.pendingChunks = [] := by
      rw [hw₁]
      exact hs.pending
    have hidle : w₁.session.queueProcessing = false := by
      rw [hw₁]
      exact hs.idle
    simp only [bind_apply,getSession_apply,hget,modifySession_apply,hpackId] at hrest
    cases hqueue : processChunkQueue tp
        { session := enqueuePack request.packId (wantChunk request.packId m request.chunkIndex w₁.session),
          server := w₁.server } with
    | error e w₂ => simp [hqueue] at hrest
    | ok a w₂ =>
      simp only [hqueue,pure_apply,EStateM.Result.ok.injEq] at hrest
      obtain ⟨-,rfl⟩ := hrest
      by_cases hin : request.chunkIndex ≥ 0 ∧ request.chunkIndex < m.chunkCount
      · obtain ⟨c,w₃,hone,rfl⟩ := processChunkQueue_one request.packId request.chunkIndex
          (by simp [wantChunk,enqueuePack,hin,hidle]) (by simp [wantChunk,enqueuePack,hin,hpending,hpackId]) hqueue
        have hlength := hwf.length
        have hthis := processOne_marked (m:=m.setWant request.chunkIndex.toNat) (by simp [wantChunk,enqueuePack,hin])
          hpackId (by rw [ResourcePackMeta.length_setWant]; exact hlength) hin hone
          fun hblank => hread hin (ReadsChunk.touched htouched hblank)
        refine hthis.trans ?_
        simpa only [wantChunk,if_pos hin,enqueuePack] using hmarked
      · rw [wantChunk,if_neg hin] at hqueue
        rw [processChunkQueue_none (by exact hidle) (by exact hpending) hqueue]
        exact hmarked

theorem Answered.sendQueue {id : UUID} {idx : Int} {m : ResourcePackMeta} {w w' : World}
    (h : Answered tp id idx m w w') : w'.session.sendQueue = w.session.sendQueue := by
  cases h with
  | kept m' marked _ _ hs _ =>
    rw [hs]
    rfl
  | delivered packVersion chunk cipher _ _ _ _ hs _ =>
    rw [hs]
    cases (m.deliver idx.toNat).finished <;> rfl

end NetworkSession

theorem Progress.congr {f : ResourcePackFactory} {s : NetworkSession} {w : World} {served served' : List (UUID × Int)}
    (h : Progress tp f s w served) (hsame : ∀ r, r ∈ served' ↔ r ∈ served) : Progress tp f s w served' := by
  refine ⟨h.alike,h.download,h.metas,fun id m hm j hj => ?_,fun id j hnone => ?_⟩
  · rw [hsame]
    exact h.flags id m hm j hj
  · rw [hsame]
    exact h.absent id j hnone

theorem Progress.besides {f : ResourcePackFactory} {s : NetworkSession} {w : World} {served : List (UUID × Int)}
    (h : Progress tp f s w served) {sendQueue : List Packet} {markedForDisconnect : Bool} {cipher : Option AesEncryptor}
    {server : Server} (hfactory : w.server.factory.Touched tp server.factory) :
    Progress tp f s { session := { w.session with sendQueue, markedForDisconnect, cipher }, server } served := by
  have halike := h.alike
  exact h.keep ⟨halike.touched.trans hfactory,halike.plain,halike.guid,halike.compressionEnabled,halike.compressor⟩ rfl rfl rfl

def Packet.untemplated (packet : Packet) : Packet :=
  match packet.body with
  | .resourcePacksInfo pk => { packet with body := .resourcePacksInfo { pk with worldTemplateId := UUID.nil } }
  | _ => packet

/-- The datagram says the line to the client, whatever world template was drawn. -/
def Says (tp : ThirdParty) (g : Guid) (line : Line) (datagram : Bytes) : Prop :=
  ∃ packets, packets.map Packet.untemplated = line.packets ∧ Wraps tp (.begin g line.compressed) packets datagram

theorem Server.sentTo_own {server server' : Server} {g : Guid} {ds : List Bytes}
    (h : server'.sent = server.sent ++ ds.map (g,·)) : server'.sentTo g = server.sentTo g ++ ds := by
  have hown : (ds.map fun d => (g,d)).filter (fun d => d.1 = g) = ds.map fun d => (g,d) := by
    simp [List.filter_eq_self]
  simp only [sentTo,h,List.filter_append,hown,List.map_append,List.map_map,Function.comp_def,List.map_id']

theorem said_each {g : Guid} {compressed : Bool} {packets : List Packet} {ds : List Bytes}
    (h : List.Forall₂ (fun packet d => Wraps tp (.begin g compressed) [packet] d) packets ds)
    (hplain : ∀ packet ∈ packets, packet.untemplated = packet) :
    List.Forall₂ (Says tp g) (packets.map fun packet => ⟨compressed,[packet]⟩) ds := by
  induction h with
  | nil => exact .nil
  | @cons packet d packets ds hd _ ih =>
    have hthis : Says tp g ⟨compressed,[packet]⟩ d :=
      ⟨[packet],by simp [hplain packet (by simp)],hd⟩
    exact .cons hthis (ih fun p hp => hplain p (by simp [hp]))

/-- The session is at this place of the dialogue, and the client has been told all of it. -/
structure Speaks (tp : ThirdParty) (server : Server) (g : Guid) (past : List Line) (d : Dialogue) (w : World) : Prop where
  good : Good tp server.factory w
  progress : Progress tp server.factory (.begin g d.compressed) w d.served
  waiting : w.session.sendQueue.map Packet.untemplated = d.waiting
  leaving : w.session.markedForDisconnect = d.leaving
  forceResources : w.server.forceResources = server.forceResources
  lines : List.Forall₂ (Says tp g) (past ++ d.lines) (w.server.sentTo g)

namespace Speaks

variable {server : Server} {g : Guid} {past : List Line} {d d' : Dialogue} {w w' : World}

theorem more (h : Speaks tp server g past d w) {lines : List Line} {ds : List Bytes}
    (hsent : w'.server.sent = w.server.sent ++ ds.map (g,·)) (hsaid : List.Forall₂ (Says tp g) lines ds) :
    List.Forall₂ (Says tp g) (past ++ (d.lines ++ lines)) (w'.server.sentTo g) := by
  rw [Server.sentTo_own hsent,← List.append_assoc]
  exact List.rel_append h.lines hsaid

theorem utter (h : Speaks tp server g past d w) {packets : List Packet} {datagram : Bytes}
    (hwraps : Wraps tp w.session packets datagram) :
    Speaks tp server g past (d.say (packets.map Packet.untemplated))
      { w with server := { w.server with sent := w.server.sent ++ [(w.session.guid,datagram)] } } := by
  have halike := h.progress.alike
  have hthis : Says tp g ⟨d.compressed,packets.map Packet.untemplated⟩ datagram :=
    ⟨packets,rfl,(wraps_congr halike.compressionEnabled halike.compressor).mp hwraps⟩
  constructor
  · exact ⟨h.good.session,h.good.server.touched,h.good.server.streams⟩
  · exact h.progress.besides (.refl _)
  · exact h.waiting
  · exact h.leaving
  · exact h.forceResources
  · have hguid : w.session.guid = g := halike.guid
    exact h.more (by simp [hguid]) (.cons hthis .nil)

theorem others (h : Speaks tp server g past d w) {server' : Server} (htouched : w.server.factory.Touched tp server'.factory)
    (hstreams : ∀ p ∈ server'.factory.packs, p.fileStream.failbit = false)
    (hforce : server'.forceResources = w.server.forceResources) (hsent : server'.sentTo g = w.server.sentTo g) :
    Speaks tp server g past d { w with server := server' } := by
  constructor
  · exact ⟨h.good.session,h.good.server.touched.trans htouched,hstreams⟩
  · exact h.progress.besides htouched
  · exact h.waiting
  · exact h.leaving
  · exact hforce.trans h.forceResources
  · rw [hsent]
    exact h.lines

section

variable (hready : server.factory.Ready tp)
  (hcounted : ∀ p ∈ server.factory.packs, p.Counted server.factory.maxChunkSize)
  (hcat : server.factory.Catalogued tp) (hdeflates : Deflates tp)

include hready hcounted hdeflates in
theorem goesOn (h : Speaks tp server g past d w) {body : PacketBody} {b : Bool}
    (hr : NetworkSession.handle tp body w = .ok b w') :
    b = NetworkSession.goesOn body ∧ Good tp server.factory w' := by
  by_cases hacceptable : NetworkSession.Acceptable tp body
  · obtain ⟨b',w₁,hrun,hb,hgood⟩ :=
      NetworkSession.total_handle hready hdeflates (fun p hp => (hcounted p hp).within) hacceptable w h.good
    cases hr.symm.trans hrun
    exact ⟨hb,hgood⟩
  · rw [NetworkSession.handle_unacceptable hacceptable] at hr
    cases hr

theorem refuse (h : Speaks tp server g past d w) (version : UInt32) :
    ∃ w', NetworkSession.disconnectUserForIncompatibleProtocol tp version w = .ok true w' ∧
      Speaks tp server g past (d.say [NetworkSession.refusal version]) w' := by
  obtain ⟨datagram,hwraps,hrun⟩ := NetworkSession.disconnectUserForIncompatibleProtocol_ok tp version h.good.session.plain
    fun hmode => by simp [h.good.session.mode hmode]
  exact ⟨_,hrun,h.utter hwraps⟩

theorem requestNetworkSettings (h : Speaks tp server g past d w) {pk : RequestNetworkSettingsPacket} {b : Bool}
    (hgood : Good tp server.factory w')
    (hr : NetworkSession.handleRequestNetworkSettings tp pk.protocolVersion w = .ok b w') :
    Speaks tp server g past (d.hear tp server (.requestNetworkSettings pk)) w' := by
  cases hv : isSupportedProtocol pk.protocolVersion with
  | false =>
    obtain ⟨w₁,hrun,hnext⟩ := h.refuse pk.protocolVersion
    simp only [NetworkSession.handleRequestNetworkSettings,hv,Bool.not_false,if_true] at hr
    rw [bind_ok hrun] at hr
    cases hr
    simpa only [Dialogue.hear,hv,Bool.false_eq_true,if_false] using hnext
  | true =>
    obtain ⟨datagram,hwraps,hrun⟩ :=
      NetworkSession.handleRequestNetworkSettings_supported tp hv h.good.session.plain h.good.session.mode
    cases hr.symm.trans hrun
    have hsaid := h.utter hwraps
    have halike := hsaid.progress.alike
    simp only [Dialogue.hear,hv,if_true]
    constructor
    · exact hgood
    · refine ⟨⟨halike.touched,halike.plain,halike.guid,rfl,rfl⟩,?_,h.progress.metas,h.progress.flags,h.progress.absent⟩
      exact ⟨h.progress.download.pending,h.progress.download.idle,h.progress.download.packs⟩
    · exact h.waiting
    · exact h.leaving
    · exact h.forceResources
    · exact hsaid.lines

include hcat in
theorem login (h : Speaks tp server g past d w) {pk : LoginPacket} {b : Bool} (hgood : Good tp server.factory w')
    (hr : NetworkSession.handleLogin tp pk.protocol pk.authInfoJson pk.clientDataJwt w = .ok b w') :
    Speaks tp server g past (d.hear tp server (.login pk)) w' := by
  cases hv : isSupportedProtocol pk.protocol with
  | false =>
    obtain ⟨w₁,hrun,hnext⟩ := h.refuse pk.protocol
    simp only [NetworkSession.handleLogin,hv,Bool.not_false,if_true] at hr
    rw [bind_ok hrun] at hr
    cases hr
    simpa only [Dialogue.hear,hv,Bool.false_eq_true,if_false] using hnext
  | true =>
    have halike := h.progress.alike
    simp only [NetworkSession.handleLogin,hv,Bool.not_true,Bool.false_eq_true,if_false] at hr
    split at hr
    · cases hr
    · obtain ⟨a,w₁,hlogin,hend⟩ := of_bind_ok hr
      cases hend
      obtain ⟨worldTemplateId,factory,random,hfactory,rfl⟩ :=
        NetworkSession.doLoginSuccess_eq hcat rfl halike.touched h.forceResources hlogin
      simp only [Dialogue.hear,hv,if_true]
      constructor
      · exact hgood
      · exact h.progress.besides hfactory
      · simp only [List.map_append,h.waiting]
        rfl
      · exact h.leaving
      · exact h.forceResources
      · exact h.lines

theorem mark (h : Speaks tp server g past d w) (markedForDisconnect : Bool) :
    Speaks tp server g past { d with leaving := markedForDisconnect }
      { w with session := { w.session with markedForDisconnect } } := by
  constructor
  · exact ⟨h.good.session.congr rfl rfl h.good.session.mode,h.good.server⟩
  · exact h.progress.besides (.refl _)
  · exact h.waiting
  · rfl
  · exact h.forceResources
  · exact h.lines

theorem answer (h : Speaks tp server g past d w) {packet : Packet} {factory : ResourcePackFactory}
    (hgood : Good tp server.factory w') (hplain : packet.untemplated = packet)
    (hfactory : w.server.factory.Touched tp factory)
    (hr : NetworkSession.send tp packet true { w with server := { w.server with factory } } = .ok () w') :
    Speaks tp server g past (d.say [packet]) w' := by
  have halike := h.progress.alike
  obtain ⟨cipher,datagrams,rfl,hsend⟩ := NetworkSession.send_ok hr
  obtain ⟨-,datagram,hwraps,rfl⟩ := hsend halike.plain
  have hthis : Says tp g ⟨d.compressed,[packet]⟩ datagram :=
    ⟨[packet],by simp [hplain],(wraps_congr halike.compressionEnabled halike.compressor).mp hwraps⟩
  constructor
  · exact hgood
  · exact h.progress.besides hfactory
  · exact h.waiting
  · exact h.leaving
  · exact h.forceResources
  · have hguid : w.session.guid = g := halike.guid
    exact h.more (by simp [hguid]) (.cons hthis .nil)

include hready hcounted in
theorem sendPacks (h : Speaks tp server g past d w) {entries : List ResourcePackClientResponsePacket.Entry}
    (hgood : Good tp server.factory w') (hforce : w'.server.forceResources = w.server.forceResources)
    (hr : NetworkSession.sendPacks tp entries w = .ok () w') :
    let packets := (NetworkSession.infosFor tp server.factory entries).map NetworkSession.dataInfo
    let unknown := entries.any fun entry => (server.factory.getPackById entry.uuid).isNone
    Speaks tp server g past { d.sayEach packets with leaving := d.leaving || unknown } w' := by
  intro packets unknown
  obtain ⟨hprogress,-⟩ := h.progress.sendPacks hready (NetworkSession.announces_of_all hcounted entries) hr
  obtain ⟨datagrams,hsent,hwraps⟩ := NetworkSession.sendPacks_sent hready.indexed h.progress.alike hr
  obtain ⟨hqueue,hmarked⟩ := NetworkSession.sendPacks_rest hready.indexed h.progress.alike.touched hr
  have hplain : ∀ packet ∈ packets, packet.untemplated = packet := by
    intro packet hpacket
    obtain ⟨info,-,rfl⟩ := List.mem_map.mp hpacket
    rfl
  constructor
  · exact hgood
  · exact hprogress
  · rw [hqueue]
    exact h.waiting
  · rw [hmarked,h.leaving]
  · exact hforce.trans h.forceResources
  · exact h.more hsent (said_each hwraps hplain)

include hready hcounted hcat in
theorem respond (h : Speaks tp server g past d w) {pk : ResourcePackClientResponsePacket} {b : Bool}
    (hgood : Good tp server.factory w') (hforce : w'.server.forceResources = w.server.forceResources)
    (hr : NetworkSession.handleResourcePackClientResponse tp pk w = .ok b w') :
    Speaks tp server g past (d.respond tp server pk) w' := by
  unfold Dialogue.respond
  split
  · rename_i hstatus
    simp only [NetworkSession.handleResourcePackClientResponse,bind_apply,getServer_apply,hstatus,if_true] at hr
    rw [h.forceResources] at hr
    cases hforced : server.forceResources with
    | true =>
      simp only [hforced,if_true] at hr
      cases hr
      simpa using h.mark true
    | false =>
      simp only [hforced,Bool.false_eq_true,if_false] at hr
      cases hr
      simpa using h
  · split
    · rename_i hstatus
      exact h.sendPacks hready hcounted hgood hforce (NetworkSession.handleResourcePackClientResponse_ok hstatus hr)
    · rename_i hrefused hsend
      simp only [NetworkSession.handleResourcePackClientResponse,hrefused,hsend,if_false] at hr
      rw [bind_ok (getServer_apply w)] at hr
      split
      · rename_i hstatus
        simp only [hstatus,if_true] at hr
        obtain ⟨entries,w₁,hentries,hr⟩ := of_bind_ok hr
        obtain ⟨a,w₂,hsent,hr⟩ := of_bind_ok hr
        cases hr
        have halike := h.progress.alike
        obtain ⟨hall,factory,hfactory,rfl⟩ := NetworkSession.stackEntries_eq hcat halike.touched hentries
        simp only [ResourcePackFactory.getResourceStack,halike.touched.length] at hall
        have hmap := eq_map_of_range hall
        rw [hmap,h.forceResources] at hsent
        exact h.answer hgood rfl hfactory hsent
      · rename_i hstatus
        simp only [hstatus,if_false] at hr
        cases hr
        exact h

include hready in
theorem chunkRequest (h : Speaks tp server g past d w) {request : ResourcePackChunkRequestPacket} {b : Bool}
    (hgood : Good tp server.factory w') (hforce : w'.server.forceResources = w.server.forceResources)
    (hr : NetworkSession.handleResourcePackChunkRequest tp request w = .ok b w') :
    Speaks tp server g past (d.serve server (request.packId,request.chunkIndex)) w' := by
  have halike := h.progress.alike
  have hindexed := hready.indexed.touched halike.touched
  let r := (request.packId,request.chunkIndex)
  obtain ⟨packVersion,datagrams,hsent,hwraps⟩ := h.progress.request_sent hready hr
  obtain ⟨-,⟨hloaded,hknown,rfl⟩ | ⟨m,hm,ha⟩⟩ :=
    NetworkSession.handleResourcePackChunkRequest_ok hindexed h.progress.download hr
  · rw [halike.touched.getPackById] at hknown
    simpa [Dialogue.serve,hknown] using h.mark true
  · obtain ⟨-,hfull,-⟩ := h.progress.packFor hready hm
    have hknown : (server.factory.getPackById request.packId).isNone = false := by simp [hfull.1]
    obtain ⟨p,hp,-⟩ := hfull.2.2
    have hmarked := NetworkSession.handleResourcePackChunkRequest_marked hindexed h.progress.download hm
      (fun hin hblank => (Progress.cut_eq hfull hp hin).2.1 (h.progress.readsChunk_eq hp hblank).symm) hr
    have hafter := halike.does ((NetworkSession.within_handleResourcePackChunkRequest request).ok hr)
    obtain ⟨hprogress,-⟩ := h.progress.answered hready hafter hm ha
    have hwaiting : w'.session.sendQueue.map Packet.untemplated = d.waiting := by
      rw [ha.sendQueue]
      exact h.waiting
    simp only [Dialogue.serve,hknown,Bool.false_eq_true,if_false]
    by_cases hnew : server.factory.Has r ∧ r ∉ d.served
    · rw [if_pos hnew] at hwraps
      rw [if_pos hnew.1] at hprogress
      simp only [r] at hnew
      have hchunk : List.Forall₂ (Says tp g) [⟨d.compressed,[server.factory.chunkOf r]⟩] datagrams := by
        obtain ⟨datagram,rest,hd,hnil,rfl⟩ := List.forall₂_cons_left_iff.mp hwraps
        -- The version of the pack is not on the wire.
        have hthis : Wraps tp (.begin g d.compressed) [server.factory.chunkOf r] datagram := hd
        have hboth : List.Forall₂ (fun packet d => Wraps tp _ [packet] d) [server.factory.chunkOf r] (datagram :: rest) :=
          .cons hthis hnil
        refine said_each hboth fun packet hpacket => ?_
        rw [List.mem_singleton.mp hpacket]
        rfl
      rw [if_pos hnew]
      exact ⟨hgood,hprogress,hwaiting,hmarked.trans h.leaving,hforce.trans h.forceResources,h.more hsent hchunk⟩
    · rw [if_neg hnew] at hwraps
      rw [List.forall₂_nil_left_iff] at hwraps
      subst hwraps
      have hsame : ∀ x, x ∈ d.served ↔ x ∈ if server.factory.Has r then d.served ++ [r] else d.served := by
        intro x
        by_cases hhas : server.factory.Has r
        · rw [if_pos hhas]
          exact (ResourcePackFactory.mem_served hnew hhas x).symm
        · simp [hhas]
      have hlines := h.more hsent .nil
      rw [List.append_nil] at hlines
      simp only [r] at hnew
      rw [if_neg hnew]
      exact ⟨hgood,hprogress.congr hsame,hwaiting,hmarked.trans h.leaving,hforce.trans h.forceResources,hlines⟩

include hready hcounted hcat hdeflates in
/-- A packet that is handled leads the session and the dialogue to the same place. -/
theorem hear (h : Speaks tp server g past d w) {body : PacketBody} {b : Bool}
    (hr : NetworkSession.handle tp body w = .ok b w') :
    b = NetworkSession.goesOn body ∧ Speaks tp server g past (d.hear tp server body) w' := by
  obtain ⟨hb,hgood⟩ := h.goesOn hready hcounted hdeflates hr
  have hforce := ((NetworkSession.keeps_handle body).ok hr).forceResources
  refine ⟨hb,?_⟩
  cases body with
  | requestNetworkSettings pk => exact h.requestNetworkSettings hgood hr
  | login pk => exact h.login hcat hgood hr
  | resourcePackChunkRequest pk => exact h.chunkRequest hready hgood hforce hr
  | resourcePackClientResponse pk => exact h.respond hready hcounted hcat hgood hforce hr
  | _ =>
    cases hr
    exact h

include hready hcounted hcat hdeflates in
theorem hearAll (h : Speaks tp server g past d w) {packets : List Packet} {ending : Option Fault}
    (hr : CyrexMC.serve tp packets ending w = .ok () w') : Speaks tp server g past (d.hearAll tp server packets) w' := by
  induction packets generalizing w d with
  | nil =>
    cases ending with
    | none =>
      cases hr
      exact h
    | some f => cases hr
  | cons packet packets ih =>
    obtain ⟨b,w₁,hhandle,hrest⟩ := of_bind_ok hr
    obtain ⟨rfl,hnext⟩ := h.hear hready hcounted hcat hdeflates hhandle
    simp only [Dialogue.hearAll]
    split
    · rename_i hon
      rw [if_pos hon] at hrest
      exact ih hnext hrest
    · rename_i hend
      rw [if_neg hend] at hrest
      cases hrest
      exact hnext

include hready hcounted hcat hdeflates in
theorem receive (h : Speaks tp server g past d w) {data : Bytes}
    (hr : McbePacketRouter.routeSession tp data w = .ok () w') : Speaks tp server g past (d.receive tp server data) w' := by
  have hmode : w.session.compressionEnabled = d.compressed := h.progress.alike.compressionEnabled
  unfold Dialogue.receive
  split
  · rename_i hshort
    rw [McbePacketRouter.routeSession,bind_ok (getSession_apply w),if_pos hshort] at hr
    cases hr
    exact h
  · rename_i hlong
    cases hbatch : McbePacketRouter.decompressIncoming tp d.compressed data with
    | error e =>
      simp [McbePacketRouter.routeSession,bind_apply,hlong,h.good.session.plain,hmode,hbatch] at hr
    | ok batch =>
      rw [← hmode] at hbatch
      rw [McbePacketRouter.routeSession_unencrypted h.good.session.plain (by omega) hbatch,onRaw_serve] at hr
      exact h.hearAll hready hcounted hcat hdeflates hr

include hdeflates in
theorem tick (h : Speaks tp server g past d w) (hr : NetworkSession.tick tp w = .ok () w') :
    Speaks tp server g past d.tick w' := by
  have hempty : w.session.sendQueue.isEmpty = d.waiting.isEmpty := by
    rw [← h.waiting,List.isEmpty_map]
  rw [NetworkSession.tick,NetworkSession.flush,bind_ok (getSession_apply w),hempty] at hr
  unfold Dialogue.tick
  split
  · rename_i hnone
    rw [if_pos hnone] at hr
    cases hr
    exact h
  · rename_i hsome
    obtain ⟨out,hout⟩ := NetworkSession.compressOutgoing_returns hdeflates h.good.session
      (w.session.sendQueue.flatMap fun packet => packet.encode tp)
    simp only [hsome,Bool.false_eq_true,if_false] at hr
    have hsend := NetworkSession.sendInternal_plain h.good.session.plain hout
    obtain ⟨a,w₁,hrun,hend⟩ := of_bind_ok hr
    cases hsend.symm.trans hrun
    cases hend
    have hwraps : Wraps tp w.session w.session.sendQueue (0xFE :: out) := ⟨out,hout,rfl⟩
    have hsaid := h.utter hwraps
    rw [h.waiting] at hsaid
    constructor
    · exact ⟨hsaid.good.session.congr rfl rfl hsaid.good.session.mode,hsaid.good.server⟩
    · exact hsaid.progress.besides (.refl _)
    · rfl
    · exact h.leaving
    · exact h.forceResources
    · exact hsaid.lines

end

end Speaks

end CyrexMC
