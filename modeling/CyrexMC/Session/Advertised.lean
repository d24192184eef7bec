import CyrexMC.Session.PackDelivery
import CyrexMC.Session.VersionGate
set_option autoImplicit false

namespace CyrexMC
open Stateful

variable {tp : ThirdParty}

namespace ResourcePackFactory

/-- Each pack has the id of its manifest, and the index knows that id. -/
structure Catalogued (tp : ThirdParty) (f : ResourcePackFactory) : Prop where
  ids : ∀ (i : Nat) p, f.packs[i]? = some p → p.parsedId tp = some p.id
  known : ∀ (i : Nat) p, f.packs[i]? = some p →
    ∃ j q, f.getPackById p.id = some j ∧ f.packs[j]? = some q ∧ q.id = p.id

theorem Catalogued.getPackById {f : ResourcePackFactory} (h : f.Catalogued tp) (hf : f.Indexed tp) {id : UUID}
    {i : Nat} (hi : f.getPackById id = some i) : ∃ p, f.packs[i]? = some p ∧ p.id = id := by
  obtain ⟨p,hp,hparsed,-⟩ := hf id i hi
  rw [h.ids i p hp,Option.some_inj] at hparsed
  exact ⟨p,hp,hparsed⟩

theorem addPack_catalogued {f g : ResourcePackFactory} {pack : ZippedResourcePack} (hf : f.Catalogued tp)
    (hid : pack.id = UUID.nil) (h : addPack tp f pack = .ok g) : g.Catalogued tp := by
  obtain ⟨q,-,hparsed,rfl⟩ := addPack_ok hid h
  have hsplit : ∀ (i : Nat) p, (f.packs ++ [q])[i]? = some p → f.packs[i]? = some p ∨ p = q := by
    intro i p hp
    rcases List.mem_append.mp (List.mem_of_getElem? hp) with hmem | hmem
    · by_cases hlt : i < f.packs.length
      · rw [List.getElem?_append_left hlt] at hp
        exact Or.inl hp
      · rw [List.getElem?_append_right (Nat.not_lt.mp hlt)] at hp
        exact Or.inr (List.mem_singleton.mp (List.mem_of_getElem? hp))
    · exact Or.inr (List.mem_singleton.mp hmem)
  constructor
  · intro i p hp
    rcases hsplit i p hp with hp | rfl
    · exact hf.ids i p hp
    · exact hparsed
  · intro i p hp
    by_cases hlast : p.id = q.id
    · exact ⟨f.packs.length,q,by simp [ResourcePackFactory.getPackById,hlast],by simp,hlast.symm⟩
    · have hb : (p.id == q.id) = false := by simpa using hlast
      rcases hsplit i p hp with hp | rfl
      · obtain ⟨j,r,hj,hr,hid⟩ := hf.known i p hp
        have hlt := (List.getElem?_eq_some_iff.mp hr).1
        refine ⟨j,r,?_,?_,hid⟩
        · simpa [ResourcePackFactory.getPackById,List.lookup_cons,hb] using hj
        · simpa [List.getElem?_append_left hlt] using hr
      · exact absurd rfl hlast

theorem reloadPacks_catalogued {f g : ResourcePackFactory} {loaded : List ZippedResourcePack}
    (hid : ∀ p ∈ loaded, p.id = UUID.nil) (h : reloadPacks tp f loaded = .ok g) : g.Catalogued tp := by
  apply reloadPacks_rule (P:=fun g => g.Catalogued tp) _ _ h
  · constructor
    · intro i p hp
      simp at hp
    · intro i p hp
      simp at hp
  · intro f' p g' hp hf' hadd
    exact addPack_catalogued hf' (hid p hp) hadd

theorem reloadPacks_rel {f g : ResourcePackFactory} {loaded : List ZippedResourcePack}
    (h : reloadPacks tp f loaded = .ok g) : List.Forall₂ (ZippedResourcePack.Touched tp) loaded g.packs := by
  have hrun : ∀ (rest : List ZippedResourcePack) (f' : ResourcePackFactory), rest.foldlM (addPack tp) f' = .ok g →
      ∃ packs, g.packs = f'.packs ++ packs ∧ List.Forall₂ (ZippedResourcePack.Touched tp) rest packs := by
    intro rest
    induction rest with
    | nil =>
      intro f' h
      cases h
      exact ⟨[],(List.append_nil _).symm,.nil⟩
    | cons p rest ih =>
      intro f' h
      rw [List.foldlM_cons] at h
      cases hp : addPack tp f' p with
      | error e => simp [hp,bind,Except.bind] at h
      | ok f'' =>
        obtain ⟨-,q,hq,htouched,-⟩ := addPack_packs hp
        obtain ⟨packs,hpacks,hrel⟩ := ih f'' (by simpa [hp,bind,Except.bind] using h)
        exact ⟨q :: packs,by simp [hpacks,hq],.cons htouched hrel⟩
  obtain ⟨packs,hpacks,hrel⟩ := hrun loaded _ h
  rw [hpacks]
  simpa using hrel

/-- The pack is the one that `getPackById` returns for its id. -/
def Returns (tp : ThirdParty) (f : ResourcePackFactory) (i : Nat) : Prop :=
  ∃ p id q, f.packs[i]? = some p ∧ ZippedResourcePack.getPackId tp p = .ok id q ∧ f.getPackById id = some i

theorem Catalogued.returns_iff {f : ResourcePackFactory} (h : f.Catalogued tp) {i : Nat} {p : ZippedResourcePack}
    (hp : f.packs[i]? = some p) : f.Returns tp i ↔ f.getPackById p.id = some i := by
  have hparsed := h.ids i p hp
  have hself : p.Touched tp p := .refl p
  obtain ⟨id,q,hq,-⟩ := hself.getPackId_returns (Or.inr (by simp [hparsed]))
  have hid : id = p.id := by
    have hreturned := hself.getPackId_ok hq
    rw [hparsed,ite_self,Option.some_inj] at hreturned
    exact hreturned.symm
  subst hid
  constructor
  · rintro ⟨p',id,q',hp',hq',hi⟩
    cases hp.symm.trans hp'
    cases hq.symm.trans hq'
    exact hi
  · intro hi
    exact ⟨p,p.id,q,hp,hq,hi⟩

/-- Every pack is returned for its id exactly when no two of them share one. -/
theorem returns_iff_nodup {f : ResourcePackFactory} (h : f.Catalogued tp) :
    (∀ i ∈ f.getResourceStack, f.Returns tp i) ↔ (f.packs.map fun p => p.parsedId tp).Nodup := by
  have hids : ∀ (i : Nat) (hi : i < f.packs.length), (f.packs[i]).parsedId tp = some (f.packs[i]).id :=
    fun i hi => h.ids i _ (List.getElem?_eq_getElem hi)
  rw [List.nodup_iff_injective_getElem]
  constructor
  · rintro hreturns ⟨i,hi⟩ ⟨j,hj⟩ hsame
    rw [List.length_map] at hi hj
    simp only [List.getElem_map,hids i hi,hids j hj,Option.some_inj] at hsame
    have hleft := (h.returns_iff (List.getElem?_eq_getElem hi)).mp (hreturns i (List.mem_range.mpr hi))
    have hright := (h.returns_iff (List.getElem?_eq_getElem hj)).mp (hreturns j (List.mem_range.mpr hj))
    rw [hsame,hright,Option.some_inj] at hleft
    exact Fin.ext hleft.symm
  · intro hinj i hi
    have hlt := List.mem_range.mp hi
    have hp := List.getElem?_eq_getElem hlt
    obtain ⟨j,q,hj,hq,hid⟩ := h.known i _ hp
    obtain ⟨hjlt,rfl⟩ := List.getElem?_eq_some_iff.mp hq
    have heq := @hinj ⟨j,by simpa using hjlt⟩ ⟨i,by simpa using hlt⟩ (by
      simp only [List.getElem_map,hids j hjlt,hids i hlt,hid])
    rw [h.returns_iff hp,hj]
    exact congrArg (fun k => some k.val) heq

/-- The entry that `doLoginSuccess` makes of the pack. -/
structure Advertises (f : ResourcePackFactory) (i : Nat) (entry : ResourcePackInfoEntry) : Prop where
  found : ∃ p count, f.packs[i]? = some p ∧ entry.packId = p.id ∧
    ZippedResourcePack.headerVersion p.manifest = .ok entry.packVersion ∧
    entry.packSize = UInt64.ofNat p.getPackSize ∧
    ceilChunkCount p.getPackSize f.maxChunkSize.val = .ok count

end ResourcePackFactory

namespace NetworkSession

theorem Browses.factory {w w' : World} {f : ResourcePackFactory} (h : Browses tp w w')
    (hf : f.Touched tp w.server.factory) : f.Touched tp w'.server.factory := by
  obtain ⟨g,hg,rfl⟩ := h
  exact hf.trans hg

theorem infoEntry_ok {f : ResourcePackFactory} {i : Nat} {entry : ResourcePackInfoEntry} {w w' : World}
    (hcat : f.Catalogued tp) (hf : f.Touched tp w.server.factory) (h : infoEntry tp i w = .ok entry w') :
    f.Advertises i entry ∧ Browses tp w w' := by
  simp only [infoEntry] at h
  obtain ⟨packSize,w₁,hsize,h⟩ := of_bind_ok h
  obtain ⟨rfl,p,hp,rfl⟩ := getPackSize_ok hsize
  rw [bind_ok (getServer_apply w₁)] at h
  cases hcount : ceilChunkCount p.getPackSize w₁.server.factory.maxChunkSize.val with
  | error e => simp [hcount,bind_apply] at h
  | ok count =>
    rw [hcount,bind_ok (fromExcept_ok count w₁)] at h
    obtain ⟨packId,w₂,hid,h⟩ := of_bind_ok h
    obtain ⟨packVersion,w₃,hversion,h⟩ := of_bind_ok h
    obtain ⟨packSize,w₄,hsize,h⟩ := of_bind_ok h
    cases h
    obtain ⟨rfl,r,hr,rfl⟩ := getPackSize_ok hsize
    have hbrowse₂ := callPack_browses tp ZippedResourcePack.within_getPackId hid
    have hbrowse₃ := callPack_browses tp ZippedResourcePack.within_getPackVersion hversion
    have hf₂ := hbrowse₂.factory hf
    obtain ⟨p₀,hp₀,hpp⟩ := hf.back hp
    obtain ⟨r',hr',hpr⟩ := (hbrowse₃.factory hf₂).packs i _ hp₀
    obtain ⟨q',hq',hpq⟩ := hf₂.packs i _ hp₀
    obtain ⟨p₁,p₂,hp₁,hgive,-⟩ := callPack_ok hid
    obtain ⟨q,q₂,hq,hread,-⟩ := callPack_ok hversion
    cases hp.symm.trans hp₁
    cases hq.symm.trans hq'
    cases hr.symm.trans hr'
    refine ⟨⟨p₀,count,hp₀,?_,?_,?_,?_⟩,hbrowse₂.trans hbrowse₃⟩
    · have hreturned := hpp.getPackId_ok hgive
      rw [hcat.ids i _ hp₀,ite_self,Option.some_inj] at hreturned
      exact hreturned.symm
    · rw [← hpq.manifest]
      exact ZippedResourcePack.getPackVersion_ok hread
    · rw [hpr.getPackSize]
    · rw [← hcount,hpp.getPackSize,hf.maxChunkSize]

theorem infoEntries_ok {f : ResourcePackFactory} {defs : List Nat} {entries : List ResourcePackInfoEntry} {w w' : World}
    (hcat : f.Catalogued tp) (hf : f.Touched tp w.server.factory) (h : infoEntries tp defs w = .ok entries w') :
    List.Forall₂ f.Advertises defs entries ∧ Browses tp w w' := by
  induction defs generalizing w entries with
  | nil =>
    cases h
    exact ⟨.nil,_,.refl _,rfl⟩
  | cons i defs ih =>
    obtain ⟨entry,w₁,hentry,h⟩ := of_bind_ok h
    obtain ⟨rest,w₂,hrest,h⟩ := of_bind_ok h
    cases h
    obtain ⟨hadvertises,hbrowse⟩ := infoEntry_ok hcat hf hentry
    obtain ⟨hall,hbrowse'⟩ := ih (hbrowse.factory hf) hrest
    exact ⟨.cons hadvertises hall,hbrowse.trans hbrowse'⟩

def loginSuccess : Packet := { body := .playStatus { status := PlayStatus.LoginSuccess } }

theorem doLoginSuccess_ok {f : ResourcePackFactory} {w w' : World} (hcat : f.Catalogued tp)
    (hf : f.Touched tp w.server.factory) (h : doLoginSuccess tp w = .ok () w') :
    ∃ pk : ResourcePacksInfoPacket, List.Forall₂ f.Advertises f.getResourceStack pk.resourcePackEntries ∧
      f.Touched tp w'.server.factory ∧
      w'.session = { w.session with
        sendQueue := w.session.sendQueue ++ [loginSuccess,{ body := .resourcePacksInfo pk }] } := by
  simp only [doLoginSuccess,send,Bool.false_eq_true,if_false] at h
  rw [bind_ok (modifySession_apply _ _),bind_ok (getServer_apply _)] at h
  obtain ⟨entries,w₁,hentries,h⟩ := of_bind_ok h
  obtain ⟨hall,hbrowse⟩ := infoEntries_ok hcat (by exact hf) hentries
  obtain ⟨worldTemplateId,w₂,hrandom,h⟩ := of_bind_ok h
  have hw₂ : w₂.session = w₁.session ∧ w₂.server.factory = w₁.server.factory := by
    cases hrandom
    exact ⟨rfl,rfl⟩
  cases h
  obtain ⟨g,hg,rfl⟩ := hbrowse
  have hstack : w.server.factory.getResourceStack = f.getResourceStack := by
    simp only [ResourcePackFactory.getResourceStack,hf.length]
  rw [hstack] at hall
  let pk : ResourcePacksInfoPacket :=
    { mustAccept := w.server.forceResources, disableVibrantVisuals := false, worldTemplateId,
      worldTemplateVersion := [], resourcePackEntries := entries }
  refine ⟨pk,hall,?_,?_⟩
  · rw [hw₂.2]
    exact hf.trans hg
  · simp only [hw₂.1,loginSuccess,pk,List.append_assoc,List.cons_append,List.nil_append]

end NetworkSession

def ResourcePackFactory.Announceable (f : ResourcePackFactory) : Prop :=
  ∀ (i : Nat) p, f.packs[i]? = some p →
    (∃ packVersion, ZippedResourcePack.headerVersion p.manifest = .ok packVersion) ∧
      ∃ count, ceilChunkCount p.getPackSize f.maxChunkSize.val = .ok count

structure Shelves (tp : ThirdParty) (f : ResourcePackFactory) (P : World → Prop) : Prop where
  touched : ∀ {w : World}, P w → f.Touched tp w.server.factory
  touch : ∀ {w : World} {factory : ResourcePackFactory}, P w → w.server.factory.Touched tp factory →
    P { w with server := { w.server with factory } }

namespace Shelves

open NetworkSession

variable {f : ResourcePackFactory} {P : World → Prop} (hP : Shelves tp f P)
include hP

theorem total_getServer : Total P (fun server => f.Touched tp server.factory) getServer :=
  fun w hw => ⟨w.server,w,rfl,hP.touched hw,hw⟩

theorem total_callPack {α : Type} {i : Nat} {p₀ : ZippedResourcePack} {call : ZippedResourcePack.Call α}
    (hi : f.packs[i]? = some p₀) (hcall : ∀ p, p₀.Touched tp p → ∃ a q, call p = .ok a q ∧ p.Touched tp q) :
    Total P (fun _ => True) (callPack i call) := by
  intro w hw
  obtain ⟨p,hp,hpp⟩ := (hP.touched hw).packs i p₀ hi
  obtain ⟨a,q,hc,hpq⟩ := hcall p hpp
  exact ⟨a,_,by simp only [callPack,hp,hc],trivial,hP.touch hw (.set hp hpq)⟩

theorem total_getPackSize {i : Nat} {p₀ : ZippedResourcePack} (hi : f.packs[i]? = some p₀) :
    Total P (fun size => size = p₀.getPackSize) (getPackSize i) := by
  intro w hw
  obtain ⟨p,hp,hpp⟩ := (hP.touched hw).packs i p₀ hi
  exact ⟨p.getPackSize,_,by simp only [getPackSize,callPack,hp]; rfl,hpp.getPackSize,hP.touch hw (.set hp (.refl p))⟩

theorem total_getPackId {i : Nat} {p₀ : ZippedResourcePack} (hi : f.packs[i]? = some p₀)
    (hid : (p₀.parsedId tp).isSome) :
    Total P (fun _ => True) (callPack i (ZippedResourcePack.getPackId tp)) := by
  apply hP.total_callPack hi
  intro p hp
  obtain ⟨id,q,hq,hpq,-⟩ := hp.getPackId_returns (Or.inr hid)
  exact ⟨id,q,hq,hpq⟩

theorem total_getPackVersion {i : Nat} {p₀ : ZippedResourcePack} {packVersion : Bytes}
    (hi : f.packs[i]? = some p₀) (hversion : ZippedResourcePack.headerVersion p₀.manifest = .ok packVersion) :
    Total P (fun _ => True) (callPack i ZippedResourcePack.getPackVersion) := by
  apply hP.total_callPack hi
  intro p hp
  exact ⟨packVersion,p,hp.getPackVersion_returns hversion,.refl p⟩

theorem total_getSha256 {i : Nat} {p₀ : ZippedResourcePack} (hi : f.packs[i]? = some p₀) :
    Total P (fun _ => True) (callPack i (ZippedResourcePack.getSha256 tp)) := by
  apply hP.total_callPack hi
  intro p hp
  have hq := ZippedResourcePack.getSha256_apply tp p
  exact ⟨_,_,hq,ZippedResourcePack.within_getSha256.ok hq⟩

end Shelves

namespace Alike

open NetworkSession

variable {f : ResourcePackFactory} {s : NetworkSession} (hdeflates : Deflates tp)
  (hmode : s.compressionEnabled = true → s.compressor ≠ none)

theorem shelves : Shelves tp f (Alike tp f s) := ⟨Alike.touched,Alike.touch⟩

theorem total_modifySession {g : NetworkSession → NetworkSession}
    (hplain : ∀ t, (g t).encryptionEnabled = t.encryptionEnabled) (hguid : ∀ t, (g t).guid = t.guid)
    (hmode : ∀ t, (g t).compressionEnabled = t.compressionEnabled)
    (hcompressor : ∀ t, (g t).compressor = t.compressor) :
    Total (Alike tp f s) (fun _ => True) (modifySession g) := by
  apply Total.update
  intro w hw
  exact ⟨hw.touched,(hplain _).trans hw.plain,(hguid _).trans hw.guid,(hmode _).trans hw.compressionEnabled,
    (hcompressor _).trans hw.compressor⟩

theorem total_announce {i : Nat} {p₀ : ZippedResourcePack} {packVersion : Bytes} {count : Int}
    (hi : f.packs[i]? = some p₀) (hid : (p₀.parsedId tp).isSome)
    (hversion : ZippedResourcePack.headerVersion p₀.manifest = .ok packVersion)
    (hcount : ceilChunkCount p₀.getPackSize f.maxChunkSize.val = .ok count) :
    Total (Alike tp f s) (fun _ => True) (announce tp i) := by
  have hpos : 0 < count := by
    have hzip := p₀.fileZip
    exact ceilChunkCount_pos (show 0 < p₀.file.length by omega) hcount
  have hcreate : ∀ packId, ∃ m, ResourcePackMeta.create packId i f.maxChunkSize.val count = .ok m :=
    fun packId => ⟨_,by rw [ResourcePackMeta.create,if_neg (by omega)]⟩
  refine Total.bind shelves.total_getServer fun server hserver => ?_
  refine Total.bind (shelves.total_getPackSize hi) fun packSize hsize => ?_
  rw [hsize,hserver.maxChunkSize]
  refine Total.bind (Total.excepts (Q:=fun c => c = count) hcount rfl) fun chunkCount hc => ?_
  subst hc
  refine Total.bind (shelves.total_getPackId hi hid) fun packId _ => ?_
  obtain ⟨m,hm⟩ := hcreate packId
  refine Total.bind (Total.excepts (Q:=fun _ => True) hm trivial) fun data _ => ?_
  refine Total.bind (total_modifySession (fun _ => rfl) (fun _ => rfl) (fun _ => rfl) fun _ => rfl) fun _ _ => ?_
  refine Total.bind (total_modifySession (fun _ => rfl) (fun _ => rfl) (fun _ => rfl) fun _ => rfl) fun _ _ => ?_
  refine Total.bind (shelves.total_getPackId hi hid) fun _ _ => ?_
  refine Total.bind (shelves.total_getPackVersion hi hversion) fun _ _ => ?_
  refine Total.bind (shelves.total_getPackSize hi) fun _ _ => ?_
  exact Total.bind (shelves.total_getSha256 hi) fun _ _ => Total.returns trivial

include hdeflates hmode in
theorem total_send (packet : Packet) :
    Total (Alike tp f s) (fun _ => True) (NetworkSession.send tp packet true) := by
  intro w h
  have hassigned : w.session.compressionEnabled = true → w.session.compressor ≠ none := by
    rw [h.compressionEnabled,h.compressor]
    exact hmode
  obtain ⟨out,hout⟩ := compressOutgoing_ok hdeflates hassigned (packet.encode tp)
  have hrun := sendInternal_plain h.plain hout
  exact ⟨(),_,hrun,trivial,(h.sent hrun).1⟩

include hdeflates hmode in
theorem total_sendPacks (hf : f.Indexed tp) (hall : f.Announceable)
    (entries : List ResourcePackClientResponsePacket.Entry) :
    Total (Alike tp f s) (fun _ => True) (sendPacks tp entries) := by
  induction entries with
  | nil => exact Total.returns trivial
  | cons entry entries ih =>
    intro w h
    rw [sendPacks_cons,h.touched.getPackById]
    cases hi : f.getPackById entry.uuid with
    | none =>
      have hmark : Total (Alike tp f s) (fun _ => True) markForDisconnect :=
        total_modifySession (fun _ => rfl) (fun _ => rfl) (fun _ => rfl) fun _ => rfl
      exact hmark w h
    | some i =>
      obtain ⟨p,hp,hparsed,-⟩ := hf entry.uuid i hi
      obtain ⟨⟨packVersion,hversion⟩,count,hcount⟩ := hall i p hp
      have hid : (p.parsedId tp).isSome := by simp [hparsed]
      have hsend := fun info => total_send (f:=f) hdeflates hmode (dataInfo info)
      exact Total.bind (total_announce hp hid hversion hcount) (fun info _ => Total.bind (hsend info) fun _ _ => ih) w h

end Alike

namespace NetworkSession

theorem infosFor_rel {f : ResourcePackFactory} (hf : f.Indexed tp) (hall : f.Announceable)
    (entries : List ResourcePackClientResponsePacket.Entry) :
    List.Forall₂ (fun entry info => infoOf tp f entry.uuid = some info)
      (entries.takeWhile fun entry => (f.getPackById entry.uuid).isSome) (infosFor tp f entries) := by
  induction entries with
  | nil => exact .nil
  | cons entry entries ih =>
    cases hi : f.getPackById entry.uuid with
    | none =>
      have hnone : infoOf tp f entry.uuid = none := by simp [infoOf,hi]
      simp [infosFor,hnone,hi]
    | some i =>
      obtain ⟨p,hp,-⟩ := hf entry.uuid i hi
      obtain ⟨⟨packVersion,hversion⟩,count,hcount⟩ := hall i p hp
      have hinfo : infoOf tp f entry.uuid = some _ := infoOf_eq hi hp hversion hcount
      simp only [infosFor,hinfo,List.takeWhile_cons,hi,Option.isSome_some,if_true]
      exact .cons hinfo ih

theorem handleResourcePackClientResponse_sendPacks {pk : ResourcePackClientResponsePacket} {w w' : World}
    (hpk : pk.responseStatus = ResourcePackClientResponseStatus.SendPacks)
    (h : sendPacks tp pk.packEntries w = .ok () w') : handleResourcePackClientResponse tp pk w = .ok true w' := by
  have hrefused : ResourcePackClientResponseStatus.SendPacks ≠ ResourcePackClientResponseStatus.Refused := by decide
  simp only [handleResourcePackClientResponse,bind_apply,getServer_apply,hpk,hrefused,if_false,if_true,h,pure_apply]

end NetworkSession

/-- The entries of a response up to the first pack that was not advertised. -/
def ResourcePacksInfoPacket.asked (pk : ResourcePacksInfoPacket)
    (entries : List ResourcePackClientResponsePacket.Entry) : List ResourcePackClientResponsePacket.Entry :=
  entries.takeWhile fun entry => pk.resourcePackEntries.any fun advertised => advertised.packId == entry.uuid

structure FetchedAs (advertised : ResourcePackInfoEntry) (info : ResourcePackDataInfoPacket) : Prop where
  packId : info.packId = advertised.packId
  packVersion : info.packVersion = advertised.packVersion
  compressedPackSize : info.compressedPackSize = advertised.packSize

/-- Every SendPacks response is answered with the packs as they were advertised. -/
def Honours (tp : ThirdParty) (pk : ResourcePacksInfoPacket) (w : World) : Prop :=
  ∀ response : ResourcePackClientResponsePacket,
    response.responseStatus = ResourcePackClientResponseStatus.SendPacks →
    let infos := NetworkSession.infosFor tp w.server.factory response.packEntries
    ∃ w', NetworkSession.handle tp (.resourcePackClientResponse response) w = .ok true w' ∧
      SentPackets tp w.session w w' (infos.map NetworkSession.dataInfo) ∧
      List.Forall₂ (fun entry info => ∀ advertised ∈ pk.resourcePackEntries, advertised.packId = entry.uuid →
        FetchedAs advertised info) (pk.asked response.packEntries) infos

def Consistent (tp : ThirdParty) (packs : List ZippedResourcePack) : Prop :=
  ∀ p ∈ packs, ∀ q ∈ packs, p.parsedId tp = q.parsedId tp →
    ZippedResourcePack.headerVersion p.manifest = ZippedResourcePack.headerVersion q.manifest ∧
      p.getPackSize = q.getPackSize

theorem forall₂_left {α β : Type} {R : α → β → Prop} {xs : List α} {ys : List β} (h : List.Forall₂ R xs ys)
    {x : α} (hx : x ∈ xs) : ∃ y ∈ ys, R x y := by
  induction h with
  | nil => cases hx
  | cons hxy _ ih =>
    rcases List.mem_cons.mp hx with rfl | hx
    · exact ⟨_,List.mem_cons_self,hxy⟩
    · obtain ⟨y,hy,hr⟩ := ih hx
      exact ⟨y,List.mem_cons_of_mem _ hy,hr⟩

theorem forall₂_right {α β : Type} {R : α → β → Prop} {xs : List α} {ys : List β} (h : List.Forall₂ R xs ys)
    {y : β} (hy : y ∈ ys) : ∃ x ∈ xs, R x y := forall₂_left h.flip hy

theorem consistent_congr {loaded packs : List ZippedResourcePack}
    (h : List.Forall₂ (ZippedResourcePack.Touched tp) loaded packs) : Consistent tp loaded ↔ Consistent tp packs := by
  constructor
  · intro hc p hp q hq hid
    obtain ⟨p₀,hp₀,hpp⟩ := forall₂_right h hp
    obtain ⟨q₀,hq₀,hqq⟩ := forall₂_right h hq
    have hsame := hc p₀ hp₀ q₀ hq₀ (hpp.parsedId.symm.trans (hid.trans hqq.parsedId))
    simpa only [hpp.manifest,hqq.manifest,hpp.getPackSize,hqq.getPackSize] using hsame
  · intro hc p₀ hp₀ q₀ hq₀ hid
    obtain ⟨p,hp,hpp⟩ := forall₂_left h hp₀
    obtain ⟨q,hq,hqq⟩ := forall₂_left h hq₀
    have hsame := hc p hp q hq (hpp.parsedId.trans (hid.trans hqq.parsedId.symm))
    simpa only [hpp.manifest,hqq.manifest,hpp.getPackSize,hqq.getPackSize] using hsame

section

variable {f : ResourcePackFactory} {pk : ResourcePacksInfoPacket}
  (hcat : f.Catalogued tp) (hf : f.Indexed tp)
  (hall : List.Forall₂ f.Advertises f.getResourceStack pk.resourcePackEntries)

include hall in
theorem advertises_of_mem {advertised : ResourcePackInfoEntry} (h : advertised ∈ pk.resourcePackEntries) :
    ∃ i, f.Advertises i advertised := by
  obtain ⟨i,-,hi⟩ := forall₂_right hall h
  exact ⟨i,hi⟩

include hall in
theorem advertised_of_pack {i : Nat} {p : ZippedResourcePack} (hp : f.packs[i]? = some p) :
    ∃ advertised ∈ pk.resourcePackEntries, f.Advertises i advertised :=
  forall₂_left hall (List.mem_range.mpr (List.getElem?_eq_some_iff.mp hp).1)

include hall in
theorem announceable_of_advertised : f.Announceable := by
  intro i p hp
  obtain ⟨advertised,-,⟨q,count,hq,-,hversion,-,hcount⟩⟩ := advertised_of_pack hall hp
  cases hp.symm.trans hq
  exact ⟨⟨_,hversion⟩,count,hcount⟩

include hcat hf hall in
theorem asked_eq (entries : List ResourcePackClientResponsePacket.Entry) :
    pk.asked entries = entries.takeWhile fun entry => (f.getPackById entry.uuid).isSome := by
  have hsame : ∀ id, (pk.resourcePackEntries.any fun advertised => advertised.packId == id) = (f.getPackById id).isSome := by
    intro id
    rw [Bool.eq_iff_iff,List.any_eq_true,Option.isSome_iff_exists]
    constructor
    · rintro ⟨advertised,hmem,hid⟩
      obtain ⟨i,⟨p,count,hp,hpackId,-⟩⟩ := advertises_of_mem hall hmem
      obtain ⟨j,q,hj,-⟩ := hcat.known i p hp
      rw [← hpackId,beq_iff_eq.mp hid] at hj
      exact ⟨j,hj⟩
    · rintro ⟨i,hi⟩
      obtain ⟨p,hp,hid⟩ := hcat.getPackById hf hi
      obtain ⟨advertised,hmem,⟨q,count,hq,hpackId,-⟩⟩ := advertised_of_pack hall hp
      cases hp.symm.trans hq
      exact ⟨advertised,hmem,by rw [hpackId,hid,beq_self_eq_true]⟩
  simp only [ResourcePacksInfoPacket.asked,hsame]

include hcat hf hall in
theorem honours_iff {w : World} (hdeflates : Deflates tp) (hw : w.session.Moded)
    (htouched : f.Touched tp w.server.factory) : Honours tp pk w ↔ Consistent tp f.packs := by
  constructor
  · intro h p hp q hq hid
    obtain ⟨i,hi⟩ := List.mem_iff_getElem?.mp hp
    obtain ⟨j,hj⟩ := List.mem_iff_getElem?.mp hq
    rw [hcat.ids i p hi,hcat.ids j q hj,Option.some_inj] at hid
    obtain ⟨left,hleft,⟨p',_,hp',hleftId,hleftVersion,hleftSize,-⟩⟩ := advertised_of_pack hall hi
    obtain ⟨right,hright,⟨q',_,hq',hrightId,hrightVersion,hrightSize,-⟩⟩ := advertised_of_pack hall hj
    cases hi.symm.trans hp'
    cases hj.symm.trans hq'
    -- both entries are held against the one answer to a response that names their id
    let response : ResourcePackClientResponsePacket :=
      { responseStatus := ResourcePackClientResponseStatus.SendPacks, packEntries := [{ uuid := p.id }] }
    obtain ⟨w',-,-,hrel⟩ := h response rfl
    have hasked : pk.asked response.packEntries = response.packEntries := by
      obtain ⟨k,r,hk,-⟩ := hcat.known i p hi
      simp [asked_eq hcat hf hall,response,hk]
    rw [hasked] at hrel
    obtain ⟨info,-,hinfo⟩ := forall₂_left hrel (List.mem_singleton.mpr rfl)
    have hl := hinfo left hleft hleftId
    have hr := hinfo right hright (hrightId.trans hid.symm)
    rw [← hl.packVersion] at hleftVersion
    rw [← hr.packVersion] at hrightVersion
    rw [← hl.compressedPackSize] at hleftSize
    rw [← hr.compressedPackSize] at hrightSize
    refine ⟨hleftVersion.trans hrightVersion.symm,?_⟩
    have hsize : p.getPackSize%2^64 = q.getPackSize%2^64 := by
      simpa using congrArg UInt64.toNat (hleftSize.symm.trans hrightSize)
    have hpfits := p.fileFits
    have hqfits := q.fileFits
    unfold ZippedResourcePack.getPackSize at hsize ⊢
    omega
  · intro h response hstatus
    have halike : Alike tp f w.session w := ⟨htouched,hw.plain,rfl,rfl,rfl⟩
    have hannounceable := announceable_of_advertised hall
    have hown : NetworkSession.infosFor tp w.server.factory response.packEntries =
        NetworkSession.infosFor tp f response.packEntries := NetworkSession.infosFor_touched htouched _
    obtain ⟨_,w',hrun,-,-⟩ := Alike.total_sendPacks hdeflates hw.assigned hf hannounceable response.packEntries w halike
    have hsent := NetworkSession.sendPacks_sent hf halike hrun
    rw [hown,asked_eq hcat hf hall]
    refine ⟨w',NetworkSession.handleResourcePackClientResponse_sendPacks hstatus hrun,hsent,?_⟩
    refine (NetworkSession.infosFor_rel hf hannounceable _).imp fun entry info hinfo advertised hmem hid => ?_
    obtain ⟨i,p,hi,hp,hversion,-,hpackId₀,-,hsize⟩ := NetworkSession.infoOf_some hinfo
    obtain ⟨j,⟨q,_,hq,hpackId,hversion',hsize',-⟩⟩ := advertises_of_mem hall hmem
    obtain ⟨p',hp',hpid⟩ := hcat.getPackById hf hi
    cases hp.symm.trans hp'
    have hparsed : p.parsedId tp = q.parsedId tp := by
      rw [hcat.ids i p hp,hcat.ids j q hq,hpid,← hid,hpackId]
    obtain ⟨hsameVersion,hsameSize⟩ := h p (List.mem_of_getElem? hp) q (List.mem_of_getElem? hq) hparsed
    rw [hsameVersion,hversion',Except.ok.injEq] at hversion
    exact ⟨hpackId₀.trans hid.symm,hversion.symm,by rw [hsize,hsize',hsameSize]⟩

end

theorem nodup_congr {loaded packs : List ZippedResourcePack}
    (h : List.Forall₂ (ZippedResourcePack.Touched tp) loaded packs) :
    packs.map (fun p => p.parsedId tp) = loaded.map fun p => p.parsedId tp := by
  induction h with
  | nil => rfl
  | cons hpq _ ih => simp only [List.map_cons,ih,hpq.parsedId]

/-- After a login, whatever the sessions do then, the packs are fetched as they were advertised if and
only if those of one id have one version and one size; and each of them is the one that is returned for
its id if and only if no two have the same. -/
theorem advertised_iff {f₀ f : ResourcePackFactory} {loaded : List ZippedResourcePack}
    (hid : ∀ p ∈ loaded, p.id = UUID.nil) (hload : ResourcePackFactory.reloadPacks tp f₀ loaded = .ok f)
    (hdeflates : Deflates tp) {guid : Guid} {server : Server} {log log' : List (World × PacketBody)}
    {w w₁ w₂ : World} (hserver : server.factory = f) (hrun : Visits tp { session := { guid }, server } log w)
    (hlogin : NetworkSession.doLoginSuccess tp w = .ok () w₁) (hrun' : Visits tp w₁ log' w₂) :
    (∃ pk, w₁.session.sendQueue = w.session.sendQueue ++
        [NetworkSession.loginSuccess,{ body := .resourcePacksInfo pk }] ∧
      (Honours tp pk w₂ ↔ Consistent tp loaded)) ∧
    ((∀ i ∈ f.getResourceStack, f.Returns tp i) ↔ (loaded.map fun p => p.parsedId tp).Nodup) := by
  have hcat := ResourcePackFactory.reloadPacks_catalogued hid hload
  have hindexed := ResourcePackFactory.reloadPacks_indexed hid hload
  have hrel := ResourcePackFactory.reloadPacks_rel hload
  have htouched : f.Touched tp w.server.factory := by
    rw [← hserver]
    exact hrun.touched
  obtain ⟨hmoded,-⟩ := moded_visits hrun ⟨rfl,fun hmode => by cases hmode⟩
  obtain ⟨pk,hall,htouched₁,hsession⟩ := NetworkSession.doLoginSuccess_ok hcat htouched hlogin
  have hmoded₁ : w₁.session.Moded := by
    rw [hsession]
    exact ⟨hmoded.plain,hmoded.zlib⟩
  obtain ⟨hmoded₂,-⟩ := moded_visits hrun' hmoded₁
  constructor
  · refine ⟨pk,by rw [hsession],?_⟩
    rw [honours_iff hcat hindexed hall hdeflates hmoded₂ (htouched₁.trans hrun'.touched),consistent_congr hrel]
  · rw [ResourcePackFactory.returns_iff_nodup hcat,nodup_congr hrel]

theorem advertised_iff_twoPacks :
    let loaded : List ZippedResourcePack := [.ofId (.filled 1) 44 (by decide),.ofId (.filled 2) 22 (by decide)]
    ∃ w₁, NetworkSession.doLoginSuccess .rawIds { session := { guid := 7 }, server := .twoPacks } = .ok () w₁ ∧
      (∃ pk, w₁.session.sendQueue = [] ++ [NetworkSession.loginSuccess,{ body := .resourcePacksInfo pk }] ∧
        (Honours .rawIds pk w₁ ↔ Consistent .rawIds loaded)) ∧
      ((∀ i ∈ Server.twoPacks.factory.getResourceStack, Server.twoPacks.factory.Returns .rawIds i) ↔
        (loaded.map fun p => p.parsedId .rawIds).Nodup) := by
  intro loaded
  obtain ⟨_,w₁,hlogin,-⟩ := NetworkSession.total_doLoginSuccess Server.twoPacks_prepared.ready deflates_rawIds _
    (good_begin Server.twoPacks_prepared.streams 7 false)
  have hid : ∀ p ∈ loaded, p.id = UUID.nil := by
    intro p hp
    simp only [loaded,List.mem_cons,List.not_mem_nil,or_false] at hp
    rcases hp with rfl | rfl <;> rfl
  have hload : ResourcePackFactory.reloadPacks .rawIds { maxChunkSize := ⟨22,by decide,by decide⟩ } loaded =
      .ok Server.twoPacks.factory := rfl
  exact ⟨w₁,hlogin,advertised_iff hid hload deflates_rawIds rfl .start hlogin .start⟩

def Server.twins : Server :=
  .loaded .rawIds ⟨30,by decide,by decide⟩ [.ofId (.filled 1) 60 (by decide),.ofId (.filled 1) 30 (by decide)]

theorem Server.twins_prepared : twins.Prepared .rawIds := by
  apply loaded_prepared
  intro p hp
  simp only [List.mem_cons,List.not_mem_nil,or_false] at hp
  rcases hp with rfl | rfl
  · exact ZippedResourcePack.ofId_fresh _ 2 (by decide +kernel) (by decide) (by decide)
  · exact ZippedResourcePack.ofId_fresh _ 1 (by decide +kernel) (by decide) (by decide)

theorem Server.twins_catalogued : twins.factory.Catalogued .rawIds := by
  have hload : ResourcePackFactory.reloadPacks .rawIds { maxChunkSize := ⟨30,by decide,by decide⟩ }
      [.ofId (.filled 1) 60 (by decide),.ofId (.filled 1) 30 (by decide)] = .ok twins.factory := rfl
  apply ResourcePackFactory.reloadPacks_catalogued _ hload
  intro p hp
  simp only [List.mem_cons,List.not_mem_nil,or_false] at hp
  rcases hp with rfl | rfl <;> rfl

/-- The first of the two packs is advertised with 60 bytes and fetched with 30. -/
theorem twin_hides_pack :
    ∃ w₁ w₂ pk info, NetworkSession.doLoginSuccess .rawIds { session := { guid := 7 }, server := .twins } = .ok () w₁ ∧
      w₁.session.sendQueue = [NetworkSession.loginSuccess,{ body := .resourcePacksInfo pk }] ∧
      (∃ advertised ∈ pk.resourcePackEntries, advertised.packId = .filled 1 ∧ advertised.packSize = 60) ∧
      NetworkSession.handle .rawIds (sendPacksOf [.filled 1]) w₁ = .ok true w₂ ∧
      SentPackets .rawIds w₁.session w₁ w₂ [NetworkSession.dataInfo info] ∧
      info.packId = .filled 1 ∧ info.compressedPackSize = 30 ∧
      ¬ Honours .rawIds pk w₁ ∧ ¬ Server.twins.factory.Returns .rawIds 0 := by
  let f := Server.twins.factory
  have hcat : f.Catalogued .rawIds := Server.twins_catalogued
  have hf : f.Indexed .rawIds := Server.twins_prepared.ready.indexed
  obtain ⟨_,w₁,hlogin,-,hgood⟩ := NetworkSession.total_doLoginSuccess Server.twins_prepared.ready deflates_rawIds _
    (good_begin Server.twins_prepared.streams 7 false)
  obtain ⟨pk,hall,htouched,hsession⟩ := NetworkSession.doLoginSuccess_ok hcat (.refl _) hlogin
  have hmoded : w₁.session.Moded := ⟨hgood.session.plain,hgood.session.mode⟩
  have hsizes : f.packs.map (fun p => (p.id,p.getPackSize)) = [(.filled 1,60),(.filled 1,30)] := by decide +kernel
  have hlast : f.getPackById (.filled 1) = some 1 := by decide +kernel
  obtain ⟨first,second,hpacks⟩ := List.length_eq_two.mp (show f.packs.length = 2 by decide +kernel)
  simp only [hpacks,List.map_cons,List.map_nil,List.cons.injEq,Prod.mk.injEq,and_true] at hsizes
  obtain ⟨⟨hid₁,hsize₁⟩,hid₂,hsize₂⟩ := hsizes
  have hp₁ : f.packs[0]? = some first := by rw [hpacks]; rfl
  have hp₂ : f.packs[1]? = some second := by rw [hpacks]; rfl
  obtain ⟨advertised,hmem,⟨p,_,hp,hpackId,-,hpackSize,-⟩⟩ := advertised_of_pack hall hp₁
  cases hp₁.symm.trans hp
  have halike : Alike .rawIds f w₁.session w₁ := ⟨htouched,hmoded.plain,rfl,rfl,rfl⟩
  have hannounceable := announceable_of_advertised hall
  obtain ⟨_,w₂,hrun,-,-⟩ := Alike.total_sendPacks deflates_rawIds hmoded.assigned hf hannounceable
    [{ uuid := .filled 1 }] w₁ halike
  have hsent := NetworkSession.sendPacks_sent hf halike hrun
  obtain ⟨⟨packVersion,hversion⟩,count,hcount⟩ := hannounceable 1 second hp₂
  have hinfo : NetworkSession.infoOf .rawIds f (.filled 1) = some _ :=
    NetworkSession.infoOf_eq hlast hp₂ hversion hcount
  simp only [NetworkSession.infosFor,hinfo] at hsent
  refine ⟨w₁,w₂,pk,_,hlogin,by rw [hsession]; rfl,⟨advertised,hmem,hpackId.trans hid₁,?_⟩,
    NetworkSession.handleResourcePackClientResponse_sendPacks rfl hrun,hsent,rfl,?_,?_,?_⟩
  · rw [hpackSize,hsize₁]
    rfl
  · rw [hsize₂]
    rfl
  · rw [honours_iff hcat hf hall deflates_rawIds hmoded htouched]
    intro hconsistent
    have hsame := hconsistent first (List.mem_of_getElem? hp₁) second (List.mem_of_getElem? hp₂)
      (by rw [hcat.ids 0 first hp₁,hcat.ids 1 second hp₂,hid₁,hid₂])
    omega
  · rw [hcat.returns_iff hp₁,hid₁,hlast]
    decide

end CyrexMC
