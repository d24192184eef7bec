import CyrexMC.Lib.Tiling
import CyrexMC.ResourcePacks.PackArchives
import CyrexMC.Session.AcceptedPacks
import CyrexMC.Session.Restoring
import CyrexMC.ThirdParty
set_option autoImplicit false

namespace CyrexMC
open Stateful NetworkSession ZipFormat

variable {tp : ThirdParty}

theorem rel_trans {α β γ : Type} {R : α → β → Prop} {S : β → γ → Prop} {T : α → γ → Prop}
    (h : ∀ a b c, R a b → S b c → T a c) {x : Option α} {y : Option β} {z : Option γ} (hxy : Option.Rel R x y)
    (hyz : Option.Rel S y z) : Option.Rel T x z := by
  cases hxy with
  | none =>
    cases hyz
    exact .none
  | some hr =>
    cases hyz with
    | some hs => exact .some (h _ _ _ hr hs)

theorem isSome_congr {α β : Type} {R : α → β → Prop} {x : Option α} {y : Option β} (h : Option.Rel R x y) :
    y.isSome = x.isSome := by
  cases h <;> rfl

namespace ResourcePackFactory

theorem packOf_isSome {f : ResourcePackFactory} (hf : f.Indexed tp) {id : UUID} :
    (f.packOf id).isSome = (f.getPackById id).isSome := by
  cases hi : f.getPackById id with
  | none => simp [packOf,hi]
  | some i =>
    obtain ⟨p,-,hp⟩ := packOf_of_isSome hf (show (f.getPackById id).isSome by rw [hi]; rfl)
    rw [hp]
    rfl

theorem reloadPacks_packOf {f g : ResourcePackFactory} {loaded : List ZippedResourcePack}
    (hid : ∀ p ∈ loaded, p.id = UUID.nil) (h : reloadPacks tp f loaded = .ok g) (id : UUID) :
    Option.Rel (ZippedResourcePack.Touched tp) (loaded.reverse.find? fun p => decide (p.parsedId tp = some id))
      (g.packOf id) := by
  induction loaded using List.reverseRecOn generalizing g with
  | nil =>
    cases h
    exact .none
  | append_singleton loaded p ih =>
    simp only [List.mem_append,List.mem_singleton] at hid
    rw [reloadPacks,List.foldlM_append] at h
    change (reloadPacks tp f loaded >>= _) = _ at h
    cases hrest : reloadPacks tp f loaded with
    | error e =>
      rw [hrest] at h
      cases h
    | ok g' =>
      have hrel := ih (fun p hp => hid p (Or.inl hp)) hrest
      have hindexed := reloadPacks_indexed (fun p hp => hid p (Or.inl hp)) hrest
      have hadd : addPack tp g' p = .ok g := by
        rw [hrest] at h
        change (addPack tp g' p >>= pure) = _ at h
        rwa [bind_pure] at h
      obtain ⟨q,htouched,hparsed,rfl⟩ := addPack_ok (hid p (Or.inr rfl)) hadd
      have hsame : p.parsedId tp = some q.id := htouched.parsedId ▸ hparsed
      rw [List.reverse_append,List.reverse_singleton,List.singleton_append,List.find?_cons]
      by_cases hlast : q.id = id
      · subst hlast
        rw [hsame,decide_eq_true rfl]
        simpa [packOf,getPackById,List.lookup_cons] using Option.Rel.some htouched
      · have hother : (id == q.id) = false := by simpa using Ne.symm hlast
        have hpackOf : packOf { g' with packs := g'.packs ++ [q], packsById := (q.id,g'.packs.length) :: g'.packsById } id =
            g'.packOf id := by
          simp only [packOf,getPackById,List.lookup_cons,hother]
          cases hlookup : g'.packsById.lookup id with
          | none => rfl
          | some i =>
            obtain ⟨r,hr,-⟩ := hindexed id i hlookup
            exact List.getElem?_append_left (List.getElem?_eq_some_iff.mp hr).1
        rw [hsame,decide_eq_false (fun heq => hlast (Option.some_inj.mp heq)),hpackOf]
        exact hrel

end ResourcePackFactory

/-- The part of the constructor that loads the packs. -/
def Server.construct (tp : ThirdParty) (jsonParse : Bytes → Option Json) (forceResources : Bool) (random : Nat → UUID)
    (resourcePacks : Folder) : Except LoaderFault Server :=
  match ZippedResourcePackLoader.loadPacks tp jsonParse (ascii "resource_packs") resourcePacks {} with
  | .error e _ => .error e
  | .ok _ run =>
    let reloaded := (ResourcePackFactory.reloadPacks tp bare.factory run.loadedPacks).mapError .pack
    reloaded.map fun factory => { factory, forceResources, random }

section

variable (tp) (jsonParse : Bytes → Option Json)

def PackZip.id? (zip : PackZip) : Option UUID := (zip.pack? tp jsonParse).bind fun p => p.parsedId tp

def FolderItem.zip? : FolderItem → Option PackZip
  | .pack _ _ zip => some zip
  | .other _ _ => none

/-- The last archive in a folder that is a pack of the id. -/
def FolderItem.lastOf (items : List FolderItem) (id : UUID) : Option PackZip :=
  (items.filterMap zip?).reverse.find? fun zip => decide (zip.id? tp jsonParse = some id)

theorem PackZip.pack?_some {zip : PackZip} {p : ZippedResourcePack} (h : zip.pack? tp jsonParse = some p) :
    p.file = zip.archive.bytes ∧ p.id = UUID.nil ∧ p.fileStream = {} ∧ p.sha256Hash = [] := by
  obtain ⟨manifest,-,hp⟩ := Option.bind_eq_some_iff.mp h
  split at hp
  · cases hp
    exact ⟨rfl,rfl,rfl,rfl⟩
  · cases hp

theorem PackZip.exists_parse {zip : PackZip} {p : ZippedResourcePack} (h : zip.pack? tp jsonParse = some p) :
    ∃ text, jsonParse text = some p.manifest := by
  obtain ⟨manifest,hmanifest,hp⟩ := Option.bind_eq_some_iff.mp h
  obtain ⟨m,-,hrest⟩ := Option.bind_eq_some_iff.mp hmanifest
  obtain ⟨text,-,hparse⟩ := Option.bind_eq_some_iff.mp hrest
  split at hp
  · cases hp
    exact ⟨text,hparse⟩
  · cases hp

theorem FolderItem.lastOf_rel (items : List FolderItem) (id : UUID) :
    Option.Rel (fun zip p => p.file = zip.archive.bytes) (lastOf tp jsonParse items id)
      ((items.filterMap (pack? tp jsonParse)).reverse.find? fun p => decide (p.parsedId tp = some id)) := by
  have hzips : items.filterMap (pack? tp jsonParse) = (items.filterMap zip?).filterMap (PackZip.pack? tp jsonParse) := by
    rw [List.filterMap_filterMap]
    refine List.filterMap_congr fun item _ => ?_
    cases item <;> rfl
  have hid : ∀ zip : PackZip, decide (zip.id? tp jsonParse = some id) =
      (zip.pack? tp jsonParse).any fun p => decide (p.parsedId tp = some id) := by
    intro zip
    cases h : zip.pack? tp jsonParse <;> simp [PackZip.id?,h]
  rw [hzips,← List.filterMap_reverse,List.find?_filterMap,lastOf]
  simp only [hid]
  cases hfind : (items.filterMap zip?).reverse.find? fun zip =>
      (zip.pack? tp jsonParse).any fun p => decide (p.parsedId tp = some id) with
  | none => exact .none
  | some zip =>
    have hthis := List.find?_some hfind
    cases hpack : zip.pack? tp jsonParse with
    | none => simp [hpack] at hthis
    | some p =>
      rw [Option.bind_some,hpack]
      exact .some (PackZip.pack?_some tp jsonParse hpack).1

def FolderItem.Served (items : List FolderItem) : Prop :=
  ∀ item ∈ items, ∀ p, item.pack? tp jsonParse = some p → ZippedResourcePack.UsableManifest tp p.manifest

theorem ZippedResourcePack.UsableManifest.usable {p : ZippedResourcePack} (h : UsableManifest tp p.manifest)
    (hsmall : p.file.length < 2^32) :
    let maxChunkSize := ({} : ResourcePackFactory).maxChunkSize
    p.Usable tp maxChunkSize ∧ p.Counted maxChunkSize ∧ (p.parsedId tp).isSome := by
  intro maxChunkSize
  obtain ⟨uuid,huuid,hparse⟩ := h.uuid
  have hid : (p.parsedId tp).isSome := by
    simpa [ZippedResourcePack.parsedId,ZippedResourcePack.headerUuid_ok.mpr huuid] using hparse
  have hfits : p.chunkCount maxChunkSize < 2^31 := by
    have hmax : maxChunkSize.val = 262144 := rfl
    rw [ZippedResourcePack.chunkCount,hmax,ZippedResourcePack.getPackSize]
    omega
  have hcounted : p.Counted maxChunkSize :=
    ZippedResourcePack.counted_of_small (by rw [ZippedResourcePack.getPackSize]; omega) hfits
  exact ⟨⟨Or.inr hid,ZippedResourcePack.headerVersion_ok.mpr h.version,hfits,_,hcounted⟩,hcounted,hid⟩

theorem Server.construct_delivers {items : List FolderItem} (h : FolderItem.Served tp jsonParse items)
    (forceResources : Bool) (random : Nat → UUID) :
    ∃ server, Server.construct tp jsonParse forceResources random (.directory (items.map FolderItem.entry)) = .ok server ∧
      server.Delivers tp ∧ server.sent = [] ∧ server.factory.maxChunkSize.val = 1024*256 ∧
      ∀ id, Option.Rel (fun zip p => p.file = zip.archive.bytes) (FolderItem.lastOf tp jsonParse items id)
        (server.factory.packOf id) := by
  obtain ⟨run,hrun,hloaded⟩ := ZippedResourcePackLoader.loadPacks_archives tp jsonParse (ascii "resource_packs") items
  have hpacks : ∀ p ∈ run.loadedPacks, ZippedResourcePack.UsableManifest tp p.manifest ∧ p.file.length < 2^32 ∧
      p.id = UUID.nil ∧ p.fileStream = {} ∧ p.sha256Hash = [] := by
    rw [hloaded]
    intro p hp
    obtain ⟨item,hitem,hpack⟩ := List.mem_filterMap.mp hp
    have husable := h item hitem p hpack
    cases item with
    | pack filename named zip =>
      obtain ⟨hfile,hrest⟩ := PackZip.pack?_some tp jsonParse hpack
      exact ⟨husable,hfile ▸ zip.archive.length_lt,hrest⟩
    | other entry ignored => cases hpack
  have hids : ∀ p ∈ run.loadedPacks, p.id = UUID.nil := fun p hp => (hpacks p hp).2.2.1
  obtain ⟨factory,hfactory⟩ := ResourcePackFactory.reloadPacks_returns {} fun p hp =>
    ((hpacks p hp).1.usable tp (hpacks p hp).2.1).2.2
  obtain ⟨hmax,hall⟩ := ResourcePackFactory.reloadPacks_packs hfactory
  refine ⟨{ factory, forceResources, random },
    by simp [Server.construct,Server.bare,hrun,hfactory,Except.mapError,Except.map],?_,rfl,by rw [hmax],?_⟩
  · constructor
    · refine ⟨ResourcePackFactory.reloadPacks_indexed hids hfactory,fun q hq => ?_⟩
      obtain ⟨p,hp,htouched,-⟩ := hall q hq
      rw [hmax]
      exact (((hpacks p hp).1.usable tp (hpacks p hp).2.1).1).touched (hids p hp) htouched
    · intro q hq
      obtain ⟨p,hp,-,hstream⟩ := hall q hq
      rw [hstream,(hpacks p hp).2.2.2.1]
    · intro q hq
      obtain ⟨p,hp,htouched,-⟩ := hall q hq
      have hcounted := ((hpacks p hp).1.usable tp (hpacks p hp).2.1).2.1
      rw [hmax]
      rwa [ZippedResourcePack.Counted,ZippedResourcePack.chunkCount,htouched.getPackSize]
    · intro q hq
      obtain ⟨p,hp,htouched,-⟩ := hall q hq
      rw [htouched.sha256,htouched.file,ZippedResourcePack.sha256,(hpacks p hp).2.2.2.2]
      exact ZippedResourcePack.computeSha256FromFile_eq tp p
    · rw [hmax]
      decide
  · intro id
    have hlast := FolderItem.lastOf_rel tp jsonParse items id
    have hpackOf := ResourcePackFactory.reloadPacks_packOf hids hfactory id
    rw [hloaded] at hpackOf
    exact rel_trans (fun zip p q hfile htouched => htouched.file.trans hfile) hlast hpackOf

/-- What was announced of a folder, and was asked for in all of its chunks, is what a client has of it: the last archive
that is a pack of the id, byte for byte, and nothing else. -/
theorem folder_restored {items : List FolderItem} (h : FolderItem.Served tp jsonParse items) (libs : ClientLibraries tp)
    (forceResources : Bool) (random : Nat → UUID) (guid : Guid) (compressionEnabled : Bool) (calls : List DownloadCall) :
    ∃ (server : Server) (w' : World) (ds : List Bytes),
      Server.construct tp jsonParse forceResources random (.directory (items.map FolderItem.entry)) = .ok server ∧
      (∀ id, (server.factory.getPackById id).isSome = (FolderItem.lastOf tp jsonParse items id).isSome) ∧
      DownloadCall.run tp calls { session := .begin guid compressionEnabled, server } = .ok () w' ∧
      w'.server.sent = ds.map (guid,·) ∧
      ∀ id file, (ds.foldl (PackClient.receive tp compressionEnabled) {}).file tp id = some file ↔
        id ∈ DownloadCall.announced server.factory calls ∧ ∃ zip, FolderItem.lastOf tp jsonParse items id = some zip ∧
          file = zip.archive.bytes ∧ ∀ k, k*(1024*256) < file.length → (id,(k : Int)) ∈ DownloadCall.requests calls := by
  obtain ⟨server,hstart,hserver,hnone,hmax,hlast⟩ := Server.construct_delivers tp jsonParse h forceResources random
  obtain ⟨w',ds,hr,hsent,hholds⟩ := PackClient.holds_begin hserver libs guid compressionEnabled calls
  refine ⟨server,w',ds,hstart,fun id => ?_,hr,by simpa [hnone] using hsent,fun id file => ?_⟩
  · rw [← ResourcePackFactory.packOf_isSome hserver.ready.indexed,isSome_congr (hlast id)]
  · rw [hholds.file_iff_requested hserver]
    refine and_congr_right fun _ => ?_
    have hthis := hlast id
    generalize FolderItem.lastOf tp jsonParse items id = last, server.factory.packOf id = found at hthis ⊢
    cases hthis with
    | none => simp
    | @some zip p hfile =>
      have hpos : 0 < p.file.length := Nat.lt_of_lt_of_le (by decide) p.fileZip
      have hchunks : ∀ k : Nat, k < p.chunkCount server.factory.maxChunkSize ↔ k*(1024*256) < p.file.length := by
        intro k
        rw [ZippedResourcePack.chunkCount,hmax]
        exact lt_blocks_iff hpos (by decide)
      simp only [Option.some.injEq,exists_eq_left',hchunks,← hfile]
      exact and_congr_right fun heq => by rw [heq]

end

def manifestText : Bytes :=
  ascii "\x7b\"format_version\":2,\"header\":\x7b\"name\":\"a\",\"uuid\":\"01010101-0101-0101-0101-010101010101\"," ++
    ascii "\"version\":[1,0,0]\x7d,\"modules\":[]\x7d"

def parseManifest (text : Bytes) : Option Json :=
  if text = manifestText then
    some (.object [(ascii "format_version",.integer 2),
      (ascii "header",.object [(ascii "name",.string (ascii "a")),
        (ascii "uuid",.string (ascii "01010101-0101-0101-0101-010101010101")),
        (ascii "version",.array [.integer 1,.integer 0,.integer 0])]),
      (ascii "modules",.array [])])
  else none

def manifestMember : Member where
  central :=
    { header := [0x50,0x4b,0x01,0x02,20,0,20,0,0,0,0,0,0,0,0,0,0xe5,0x38,0xa7,0xe1,119,0,0,0,119,0,0,0,13,0,0,0,0,0,0,0,0,0,
        0,0,0,0,0,0,0,0],
      name := manifestName, extra := [], comment := [], header_length := rfl, signature := rfl, name_length := rfl,
      extra_length := rfl, comment_length := rfl }
  localHeader :=
    { header := [0x50,0x4b,0x03,0x04,20,0,0,0,0,0,0,0,0,0,0xe5,0x38,0xa7,0xe1,119,0,0,0,119,0,0,0,13,0,0,0],
      name := manifestName, extra := [], header_length := rfl, signature := rfl, name_length := rfl, extra_length := rfl }
  data := manifestText
  data_length := by decide +kernel

def manifestArchive : Archive where
  front := manifestMember.localHeader.bytes ++ manifestMember.data
  members := [manifestMember]
  ending :=
    { header := [0x50,0x4b,0x05,0x06,0,0,0,0,1,0,1,0,59,0,0,0,162,0,0,0,0,0]
      comment := []
      header_length := rfl, signature := rfl, comment_length := rfl }
  directory_size := rfl
  directory_offset := by decide +kernel
  stored := by
    intro m hm
    cases List.mem_singleton.mp hm
    exact ⟨[],[],rfl,(List.append_nil _).symm⟩
  length_lt := by decide +kernel

def manifestZip : PackZip where
  archive := manifestArchive
  own :=
    { signature := by decide +kernel
      inside := by decide +kernel
      last := by
        intro j hj hinside
        have hlength : manifestArchive.bytes.length = manifestArchive.endsAt+22 := by decide +kernel
        omega }

def manifestItem : FolderItem :=
  .pack (ascii "a.ZIP") ⟨ascii "a",ascii ".ZIP",by decide,rfl,Or.inl (by decide)⟩ manifestZip

example : (manifestItem.pack? .textIds parseManifest).isSome = true := by decide +kernel

theorem ThirdParty.textIds_client : ClientLibraries .textIds := by
  have hstoring := ThirdParty.storing_lossless
  have htext := ThirdParty.textIds_uuidText
  constructor
  · exact ⟨hstoring.deflate_written,hstoring.inflate_deflate,hstoring.snappy_written,hstoring.snappy_valid,
      hstoring.snappy_length,hstoring.snappy_inverts⟩
  · exact fun id => Nat.le_of_eq (htext.length id)
  · exact htext.inverts
  · intro input
    rfl

theorem manifestItem_served : FolderItem.Served .textIds parseManifest [manifestItem] := by
  intro item hitem p hp
  cases List.mem_singleton.mp hitem
  have hpack : manifestZip.pack? .textIds parseManifest = some p := hp
  obtain ⟨text,hparse⟩ := PackZip.exists_parse .textIds parseManifest hpack
  unfold parseManifest at hparse
  split at hparse
  · rw [← Option.some_inj.mp hparse]
    refine ⟨⟨_,rfl⟩,⟨_,rfl,by decide⟩,⟨_,rfl,?_⟩⟩
    intro i hi
    have hcases : i = 0 ∨ i = 1 ∨ i = 2 := by omega
    rcases hcases with rfl | rfl | rfl <;> exact ⟨_,rfl,trivial⟩
  · cases hparse

theorem folder_restored_manifest :
    let calls : List DownloadCall :=
      [.sendPacks [{ uuid := .filled 1 }],.chunkRequest { packId := .filled 1, chunkIndex := 0 }]
    ∃ (server : Server) (w' : World) (ds : List Bytes),
      Server.construct .textIds parseManifest false (fun _ => UUID.nil) (.directory ([manifestItem].map FolderItem.entry)) =
        .ok server ∧
      (∀ id, (server.factory.getPackById id).isSome = (FolderItem.lastOf .textIds parseManifest [manifestItem] id).isSome) ∧
      DownloadCall.run .textIds calls { session := .begin 7 true, server } = .ok () w' ∧
      w'.server.sent = ds.map (7,·) ∧
      ∀ id file, (ds.foldl (PackClient.receive .textIds true) {}).file .textIds id = some file ↔
        id ∈ DownloadCall.announced server.factory calls ∧ ∃ zip,
          FolderItem.lastOf .textIds parseManifest [manifestItem] id = some zip ∧ file = zip.archive.bytes ∧
          ∀ k, k*(1024*256) < file.length → (id,(k : Int)) ∈ DownloadCall.requests calls :=
  folder_restored .textIds parseManifest manifestItem_served ThirdParty.textIds_client false (fun _ => UUID.nil) 7 true _

end CyrexMC
