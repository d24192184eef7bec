import CyrexMC.ResourcePacks.Manifest
import CyrexMC.Session.Advertised
set_option autoImplicit false

namespace CyrexMC
open Stateful ZippedResourcePack

variable {tp : ThirdParty}

structure ResourcePackFactory.Presentable (tp : ThirdParty) (f : ResourcePackFactory) : Prop where
  announceable : f.Announceable
  ids : ∀ p ∈ f.packs, (p.parsedId tp).isSome

namespace Shelves

open NetworkSession

variable {f : ResourcePackFactory}

theorem always : Shelves tp f (fun w => f.Touched tp w.server.factory) := ⟨id,fun h k => h.trans k⟩

theorem total_infoEntry {P : World → Prop} (hP : Shelves tp f P) (hf : f.Presentable tp) {i : Nat}
    {p : ZippedResourcePack} (hi : f.packs[i]? = some p) : Total P (fun _ => True) (infoEntry tp i) := by
  obtain ⟨⟨packVersion,hversion⟩,count,hcount⟩ := hf.announceable i p hi
  have hid := hf.ids p (List.mem_of_getElem? hi)
  refine Total.bind (hP.total_getPackSize hi) fun packSize hsize => ?_
  refine Total.bind hP.total_getServer fun server hserver => ?_
  rw [hsize,hserver.maxChunkSize]
  refine Total.bind (Total.excepts (Q:=fun _ => True) hcount trivial) fun _ _ => ?_
  refine Total.bind (hP.total_getPackId hi hid) fun _ _ => ?_
  refine Total.bind (hP.total_getPackVersion hi hversion) fun _ _ => ?_
  exact Total.bind (hP.total_getPackSize hi) fun _ _ => Total.returns trivial

theorem total_infoEntries {P : World → Prop} (hP : Shelves tp f P) (hf : f.Presentable tp) {defs : List Nat}
    (h : ∀ d ∈ defs, d < f.packs.length) : Total P (fun _ => True) (infoEntries tp defs) := by
  induction defs with
  | nil => exact Total.returns trivial
  | cons d defs ih =>
    refine Total.bind (hP.total_infoEntry hf (List.getElem?_eq_getElem (h d (by simp)))) fun _ _ => ?_
    exact Total.bind (ih fun e he => h e (by simp [he])) fun _ _ => Total.returns trivial

theorem total_doLoginSuccess (hf : f.Presentable tp) :
    Total (fun w => f.Touched tp w.server.factory) (fun _ => True) (doLoginSuccess tp) := by
  have hsend : ∀ packet, Total (fun w : World => f.Touched tp w.server.factory) (fun _ => True)
      (send tp packet false) := fun packet w hw => ⟨(),_,rfl,trivial,hw⟩
  have hrandom : Total (fun w : World => f.Touched tp w.server.factory) (fun _ => True) randomUUID :=
    fun w hw => ⟨_,_,rfl,trivial,hw⟩
  refine Total.bind (hsend _) fun _ _ => ?_
  refine Total.bind always.total_getServer fun server hserver => ?_
  have hstack : ∀ d ∈ server.factory.getResourceStack, d < f.packs.length := by
    intro d hd
    rw [← hserver.length]
    exact List.mem_range.mp hd
  refine Total.bind (always.total_infoEntries hf hstack) fun _ _ => ?_
  exact Total.bind hrandom fun _ _ => hsend _

end Shelves

namespace ResourcePackFactory

theorem foldlM_returns {α β : Type} {step : β → α → Except Fault β} {xs : List α}
    (h : ∀ b, ∀ x ∈ xs, ∃ c, step b x = .ok c) (b : β) : ∃ c, xs.foldlM step b = .ok c := by
  induction xs generalizing b with
  | nil => exact ⟨b,rfl⟩
  | cons x xs ih =>
    obtain ⟨c,hc⟩ := h b x (by simp)
    obtain ⟨d,hd⟩ := ih (fun b y hy => h b y (by simp [hy])) c
    exact ⟨d,by simpa [List.foldlM_cons,hc,bind,Except.bind] using hd⟩

theorem reloadPacks_returns (f : ResourcePackFactory) {loaded : List ZippedResourcePack}
    (h : ∀ p ∈ loaded, (p.parsedId tp).isSome) : ∃ g, reloadPacks tp f loaded = .ok g := by
  apply foldlM_returns
  intro f' p hp
  have hself : p.Touched tp p := .refl p
  obtain ⟨id,q,hq,-⟩ := hself.getPackId_returns (Or.inr (h p hp))
  exact ⟨{ f' with packs := f'.packs ++ [q], packsById := (id,f'.packs.length) :: f'.packsById },by simp [addPack,hq]⟩

end ResourcePackFactory

structure PacksUsable (tp : ThirdParty) (f : ResourcePackFactory) (archives : List PackArchive) : Prop where
  accessors : ∀ p ∈ loadPacks archives, (∃ name q, getPackName p = .ok name q) ∧
    (∃ id q, getPackId tp p = .ok id q) ∧ ∃ version q, getPackVersion p = .ok version q
  reloads : ∃ g, ResourcePackFactory.reloadPacks tp f (loadPacks archives) = .ok g ∧
    g.packs.length = (loadPacks archives).length ∧ g.Catalogued tp ∧
    ∀ w : World, g.Touched tp w.server.factory → ∃ w', NetworkSession.doLoginSuccess tp w = .ok () w'

/-- The accepted packs are usable if and only if each accepted manifest has a name, an id that parses and three
numbers for the version, and the chunks of each pack can be counted. -/
theorem accepted_usable_iff (f : ResourcePackFactory) (archives : List PackArchive) :
    PacksUsable tp f archives ↔ ∀ archive ∈ archives, verifyManifest archive.manifest = true →
      UsableManifest tp archive.manifest ∧
        ∃ count, ceilChunkCount archive.file.length f.maxChunkSize.val = .ok count := by
  have hfresh : ∀ p ∈ loadPacks archives, p.id = UUID.nil := by
    intro p hp
    obtain ⟨archive,-,-,rfl⟩ := mem_loadPacks.mp hp
    rfl
  constructor
  · intro h archive harchive hverify
    let p : ZippedResourcePack := { file := archive.file, manifest := archive.manifest,
                                    fileFits := archive.fileFits, fileZip := archive.fileZip }
    have hp : p ∈ loadPacks archives := mem_loadPacks.mpr ⟨archive,harchive,hverify,rfl⟩
    refine ⟨(accessors_return_iff rfl).mp (h.accessors p hp),?_⟩
    obtain ⟨g,hg,-,hcat,hlogin⟩ := h.reloads
    obtain ⟨w',hw'⟩ := hlogin { session := { guid := 7 }, server := { Server.bare with factory := g } } (.refl g)
    obtain ⟨pk,hall,-,-⟩ := NetworkSession.doLoginSuccess_ok hcat (.refl g) hw'
    -- The entry for the pack had its chunks counted.
    obtain ⟨q,hq,hpq⟩ := forall₂_left (ResourcePackFactory.reloadPacks_rel hg) hp
    obtain ⟨i,hi⟩ := List.mem_iff_getElem?.mp hq
    have hmem : i ∈ g.getResourceStack := List.mem_range.mpr (List.getElem?_eq_some_iff.mp hi).1
    obtain ⟨entry,-,hentry⟩ := forall₂_left hall hmem
    obtain ⟨q',count,hq',-,-,-,hcount⟩ := hentry.found
    cases hi.symm.trans hq'
    rw [hpq.getPackSize,(ResourcePackFactory.reloadPacks_packs hg).1] at hcount
    exact ⟨count,hcount⟩
  · intro h
    have husable : ∀ p ∈ loadPacks archives, UsableManifest tp p.manifest ∧
        ∃ count, ceilChunkCount p.getPackSize f.maxChunkSize.val = .ok count := by
      intro p hp
      obtain ⟨archive,harchive,hverify,rfl⟩ := mem_loadPacks.mp hp
      exact h archive harchive hverify
    have hids : ∀ p ∈ loadPacks archives, (p.parsedId tp).isSome := by
      intro p hp
      obtain ⟨uuid,huuid,hparse⟩ := (husable p hp).1.uuid
      simpa [parsedId,headerUuid_ok.mpr huuid] using hparse
    obtain ⟨g,hg⟩ := f.reloadPacks_returns hids
    obtain ⟨hmax,hpacks⟩ := ResourcePackFactory.reloadPacks_packs hg
    have hpresentable : g.Presentable tp := by
      constructor
      · intro i q hi
        obtain ⟨p,hp,hpq,-⟩ := hpacks q (List.mem_of_getElem? hi)
        obtain ⟨hmanifest,hcount⟩ := husable p hp
        rw [hpq.manifest,hpq.getPackSize,hmax]
        exact ⟨headerVersion_ok.mpr hmanifest.version,hcount⟩
      · intro q hq
        obtain ⟨p,hp,hpq,-⟩ := hpacks q hq
        rw [hpq.parsedId]
        exact hids p hp
    refine ⟨fun p hp => (accessors_return_iff (hfresh p hp)).mpr (husable p hp).1,g,hg,?_,
      ResourcePackFactory.reloadPacks_catalogued hfresh hg,?_⟩
    · exact (ResourcePackFactory.reloadPacks_rel hg).length_eq.symm
    · intro w hw
      obtain ⟨_,w',hrun,-⟩ := Shelves.total_doLoginSuccess hpresentable w hw
      exact ⟨w',hrun⟩

def PackArchive.headless : PackArchive :=
  { file := List.replicate 22 0,
    manifest := .object [(ascii "format_version",.integer 2),(ascii "header",.object []),(ascii "modules",.array [])],
    fileFits := by decide, fileZip := by decide }

/-- The pack is accepted, where the base class would not have, and then it has no id. -/
theorem headless_accepted :
    ¬ PacksUsable .rawIds {} [.headless] ∧ ResourcePack.verifyManifest PackArchive.headless.manifest = .ok false := by
  refine ⟨fun h => ?_,rfl⟩
  obtain ⟨g,hg,-⟩ := h.reloads
  cases hg

end CyrexMC
