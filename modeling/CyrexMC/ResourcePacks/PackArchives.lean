import CyrexMC.ResourcePacks.Loader
set_option autoImplicit false

namespace CyrexMC
open FixedWidth Stateful ZipFormat

/-- An archive with no signature of an end record behind that of its own. -/
structure PackZip where
  archive : Archive
  own : LastEnd archive.bytes archive.endsAt

namespace PackZip

variable (tp : ThirdParty) (jsonParse : Bytes → Option Json) (zip : PackZip)

def content : FileContent :=
  ⟨zip.archive.bytes,zip.archive.length_lt.trans (by decide)⟩

theorem content_large : 22 ≤ zip.content.val.length := by
  have hlength := zip.archive.length_eq
  change 22 ≤ zip.archive.bytes.length
  omega

/-- What the first member with the name of the manifest unpacks to. -/
def manifest? : Option Json := do
  let m ← zip.archive.find manifestName
  let out ← (unpack tp (UInt16.ofNat (field m.central.header 10 2)) (UInt32.ofNat (field m.central.header 24 4))
    m.data).toOption
  jsonParse out

def pack? : Option ZippedResourcePack :=
  (zip.manifest? tp jsonParse).bind fun manifest =>
    if ZippedResourcePack.verifyManifest manifest then
      some { file := zip.content.val, manifest, fileFits := zip.content.property, fileZip := zip.content_large }
    else none

theorem directory?_eq : directory? zip.content.val = some (directory zip.archive.members) := by
  have hsize := ending_field (a:=zip.archive) (show 12+4 ≤ 22 by decide)
  have hoffset := ending_field (a:=zip.archive) (show 16+4 ≤ 22 by decide)
  rw [zip.archive.directory_size] at hsize
  rw [zip.archive.directory_offset] at hoffset
  have hlength := zip.archive.length_eq
  have hsmall := zip.archive.length_lt
  change zip.archive.bytes.length < _ at hsmall
  rw [Archive.endsAt] at hlength
  have hoffsetNat : (UInt32.ofNat zip.archive.front.length).toNat = zip.archive.front.length :=
    UInt32.toNat_ofNat_of_lt' (by change _ < 2^32; omega)
  have hsizeNat : (UInt32.ofNat (directory zip.archive.members).length).toNat = (directory zip.archive.members).length :=
    UInt32.toNat_ofNat_of_lt' (by change _ < 2^32; omega)
  have hfits := directoryFits_iff (UInt32.ofNat zip.archive.front.length)
    (UInt32.ofNat (directory zip.archive.members).length) zip.archive.bytes.length
  rw [hoffsetNat,hsizeNat] at hfits
  change directory? zip.archive.bytes = _
  simp only [directory?,endRecord_eq zip.own (lastEnd_near zip.own),hsize,hoffset,hoffsetNat,hsizeNat]
  rw [if_pos ⟨hfits.mpr (by omega),(slice_full_iff _ _ _).mpr (Or.inr (by omega))⟩]
  exact congrArg some zip.archive.directory_eq

theorem findEntry_eq (filename : Bytes) :
    findEntry (directory zip.archive.members) filename =
      .ok ((zip.archive.find filename).map fun m => .ofHeader m.central.header m.central.name) := by
  have hrecords := findEntry_records (zip.archive.members.map fun m => m.central) filename
  rw [List.flatMap_map] at hrecords
  rw [directory,hrecords,List.find?_map,Option.map_map]
  rfl

theorem find_data {filename : Bytes} {m : Member} (hm : zip.archive.find filename = some m) :
    let entry := ZipEntry.ofHeader m.central.header m.central.name
    HasLocalHeader zip.content.val entry ∧ dataEnd zip.content.val entry ≤ zip.content.val.length ∧
      slice zip.content.val (dataStart zip.content.val entry) entry.csize.toNat = m.data :=
  member_data (List.mem_of_find?_eq_some hm) m.central.name

theorem stays_inside : ¬ LeavesDirectory zip.content.val := by
  rintro ⟨central,hcentral,hwalk⟩
  cases zip.directory?_eq.symm.trans hcentral
  rw [zip.findEntry_eq] at hwalk
  cases hwalk

theorem hasManifest_iff {manifest : Json} :
    HasManifest tp jsonParse zip.content.val manifest ↔ zip.manifest? tp jsonParse = some manifest := by
  have htoOption : ∀ (x : Except LoaderFault Bytes) (out : Bytes), x.toOption = some out ↔ x = .ok out := by
    intro x out
    cases x <;> simp [Except.toOption]
  simp only [manifest?,Option.bind_eq_bind,Option.bind_eq_some_iff,htoOption]
  constructor
  · rintro ⟨central,entry,out,hcentral,hwalk,-,-,hunpack,hparse⟩
    cases zip.directory?_eq.symm.trans hcentral
    simp only [zip.findEntry_eq,Except.ok.injEq,Option.map_eq_some_iff] at hwalk
    obtain ⟨m,hm,rfl⟩ := hwalk
    obtain ⟨-,-,hdata⟩ := zip.find_data hm
    rw [hdata] at hunpack
    exact ⟨m,hm,out,hunpack,hparse⟩
  · rintro ⟨m,hm,out,hunpack,hparse⟩
    obtain ⟨hheader,hend,hdata⟩ := zip.find_data hm
    refine ⟨_,_,out,zip.directory?_eq,by rw [zip.findEntry_eq,hm]; rfl,hheader,hend,?_,hparse⟩
    rw [hdata]
    exact hunpack

theorem isLoaded_iff {pack : ZippedResourcePack} :
    IsLoaded tp jsonParse zip.content pack ↔ zip.pack? tp jsonParse = some pack := by
  rw [IsLoaded,zip.hasManifest_iff,pack?,Option.bind_eq_some_iff]
  constructor
  · rintro ⟨hmanifest,hverify,hfile,hpack⟩
    exact ⟨_,hmanifest,by rw [if_pos hverify,← hpack]⟩
  · rintro ⟨manifest,hmanifest,hpack⟩
    split at hpack
    · rename_i hverify
      cases hpack
      exact ⟨hmanifest,hverify,_,rfl⟩
    · cases hpack

def entry (filename : Bytes) : FolderEntry :=
  { filename, regularFile := true, present := true, content := some zip.content }

end PackZip

theorem extension_of_append {stem t : Bytes} (hstem : stem ≠ []) (ht : t ≠ []) (hdot : ∀ b ∈ t, b ≠ 0x2E) :
    extension (stem ++ 0x2E :: t) = 0x2E :: t := by
  have hstop : (stem ++ 0x2E :: t).reverse.takeWhile (· != 0x2E) = t.reverse := by
    rw [List.reverse_append,List.reverse_cons,List.append_assoc,List.takeWhile_append_of_pos]
    · simp
    · simpa using hdot
  have hlength := List.length_pos_iff.mpr hstem
  have hlength' := List.length_pos_iff.mpr ht
  have hdots : stem ++ 0x2E :: t ≠ ascii ".." := by
    intro h
    have h2 := congrArg List.length h
    rw [List.length_append,List.length_cons,show (ascii "..").length = 2 from rfl] at h2
    omega
  simp only [extension,hstop,List.reverse_reverse]
  rw [if_pos ⟨by simp; omega,hdots⟩]

theorem extension_split {filename t : Bytes} (h : extension filename = 0x2E :: t) :
    ∃ stem, stem ≠ [] ∧ filename = stem ++ 0x2E :: t := by
  unfold extension at h
  simp only at h
  split at h
  · rename_i hlong
    have ht := (List.cons_eq_cons.mp h).2
    have hsplit := List.takeWhile_append_dropWhile (p:=(· != (0x2E : UInt8))) (l:=filename.reverse)
    have hhead := List.head?_dropWhile_not (· != (0x2E : UInt8)) filename.reverse
    rw [ht] at hlong
    cases hdrop : filename.reverse.dropWhile (· != (0x2E : UInt8)) with
    | nil =>
      rw [hdrop,List.append_nil] at hsplit
      rw [hsplit,List.reverse_reverse] at ht
      rw [ht] at hlong
      omega
    | cons b rest =>
      rw [hdrop] at hsplit hhead
      simp at hhead
      subst hhead
      have hfilename : filename = rest.reverse ++ 0x2E :: t := by
        rw [← List.reverse_reverse filename,← hsplit,List.reverse_append,ht]
        simp
      refine ⟨rest.reverse,?_,hfilename⟩
      rintro hnil
      rw [hnil] at hfilename
      rw [hfilename] at hlong
      simp at hlong
  · cases h

theorem tolower_dot {c : UInt8} (h : tolower c = 0x2E) : c = 0x2E := by
  unfold tolower at h
  split at h
  · rename_i hletter
    have hlow := UInt8.le_iff_toNat_le.mp hletter.1
    have hhigh := UInt8.le_iff_toNat_le.mp hletter.2
    have hsum := congrArg UInt8.toNat h
    rw [UInt8.toNat_add] at hsum
    simp at hlow hhigh hsum
    omega
  · exact h

theorem ext_eq_iff {filename letters : Bytes} (hletters : letters ≠ []) (hdot : (0x2E : UInt8) ∉ letters) :
    (extension filename).map tolower = 0x2E :: letters ↔
      ∃ stem suffix, stem ≠ [] ∧ filename = stem ++ suffix ∧ suffix.map tolower = 0x2E :: letters := by
  constructor
  · intro h
    obtain ⟨c,t,hext,hc,-⟩ := List.map_eq_cons_iff.mp h
    cases tolower_dot hc
    obtain ⟨stem,hstem,hfilename⟩ := extension_split hext
    exact ⟨stem,_,hstem,hfilename,by rwa [← hext]⟩
  · rintro ⟨stem,suffix,hstem,rfl,hsuffix⟩
    obtain ⟨c,t,rfl,hc,ht⟩ := List.map_eq_cons_iff.mp hsuffix
    cases tolower_dot hc
    rw [extension_of_append hstem,hsuffix]
    · rintro rfl
      exact hletters ht.symm
    · rintro b hb rfl
      exact hdot (ht ▸ List.mem_map_of_mem hb)

/-- A name in front of an extension that the loader takes, in any case of its letters. -/
def HasPackName (filename : Bytes) : Prop :=
  ∃ stem suffix, stem ≠ [] ∧ filename = stem ++ suffix ∧
    (suffix.map tolower = ascii ".zip" ∨ suffix.map tolower = ascii ".mcpack")

theorem offered_iff (entry : FolderEntry) :
    entry.offered = true ↔ entry.regularFile = true ∧ HasPackName entry.filename := by
  have hzip := @ext_eq_iff entry.filename (ascii "zip") (by decide) (by decide)
  have hmcpack := @ext_eq_iff entry.filename (ascii "mcpack") (by decide) (by decide)
  rw [FolderEntry.offered,Bool.and_eq_true,decide_eq_true_iff,FolderEntry.ext,HasPackName]
  change _ ∧ (_ = 0x2E :: ascii "zip" ∨ _ = 0x2E :: ascii "mcpack") ↔ _
  rw [hzip,hmcpack]
  refine and_congr_right fun _ => ?_
  constructor
  · rintro (⟨stem,suffix,hstem,hfilename,hsuffix⟩ | ⟨stem,suffix,hstem,hfilename,hsuffix⟩)
    · exact ⟨stem,suffix,hstem,hfilename,Or.inl hsuffix⟩
    · exact ⟨stem,suffix,hstem,hfilename,Or.inr hsuffix⟩
  · rintro ⟨stem,suffix,hstem,hfilename,hsuffix | hsuffix⟩
    · exact Or.inl ⟨stem,suffix,hstem,hfilename,hsuffix⟩
    · exact Or.inr ⟨stem,suffix,hstem,hfilename,hsuffix⟩

/-- A folder in which what has the name of a pack is an archive. -/
inductive FolderItem where
  | pack (filename : Bytes) (named : HasPackName filename) (zip : PackZip)
  | other (entry : FolderEntry) (ignored : ¬ (entry.regularFile = true ∧ HasPackName entry.filename))

namespace FolderItem

variable (tp : ThirdParty) (jsonParse : Bytes → Option Json)

def entry : FolderItem → FolderEntry
  | .pack filename _ zip => zip.entry filename
  | .other entry _ => entry

def pack? : FolderItem → Option ZippedResourcePack
  | .pack _ _ zip => zip.pack? tp jsonParse
  | .other _ _ => none

theorem holds_iff (item : FolderItem) {pack : ZippedResourcePack} :
    item.entry.Holds tp jsonParse pack ↔ item.pack? tp jsonParse = some pack := by
  cases item with
  | pack filename named zip =>
    have hoffered : (zip.entry filename).offered = true := (offered_iff _).mpr ⟨rfl,named⟩
    have hcontent : (zip.entry filename).content = some zip.content := rfl
    simp only [entry,pack?,FolderEntry.Holds,hoffered,hcontent,true_and,Option.some.injEq,exists_eq_left']
    rw [and_iff_right (show (zip.entry filename).present = true from rfl),zip.isLoaded_iff]
  | other entry ignored =>
    simp only [FolderItem.entry,pack?,FolderEntry.Holds,offered_iff]
    constructor
    · rintro ⟨hoffered,-⟩
      exact absurd hoffered ignored
    · intro h
      cases h

theorem stays_inside (item : FolderItem) : ¬ item.entry.LeadsOut := by
  cases item with
  | pack filename named zip =>
    rintro ⟨-,-,file,hfile,hleaves⟩
    cases hfile
    exact zip.stays_inside hleaves
  | other entry ignored =>
    rintro ⟨hoffered,-⟩
    exact ignored ((offered_iff entry).mp hoffered)

end FolderItem

/-- Where what has the name of a pack is an archive, all of the folder is loaded, and the packs are the archives whose
member for the manifest unpacks to a manifest, with all of their bytes, in the order of the folder. -/
theorem ZippedResourcePackLoader.loadPacks_archives (tp : ThirdParty) (jsonParse : Bytes → Option Json) (folderPath : Bytes)
    (items : List FolderItem) :
    ∃ run, loadPacks tp jsonParse folderPath (.directory (items.map FolderItem.entry)) {} = .ok () run ∧
      run.loadedPacks = items.filterMap (FolderItem.pack? tp jsonParse) := by
  have hpack : ∀ item : FolderItem, item.entry.pack? tp jsonParse folderPath = item.pack? tp jsonParse := fun item =>
    Option.ext fun pack =>
      (item.entry.pack?_eq_some_iff tp jsonParse folderPath).trans (item.holds_iff tp jsonParse)
  refine ⟨_,(loadPacks_ok_iff tp jsonParse folderPath).mpr ⟨?_,rfl⟩,?_⟩
  · rintro _ hentry
    obtain ⟨item,-,rfl⟩ := List.mem_map.mp hentry
    exact (item.entry.fatal?_eq_none_iff tp jsonParse folderPath).mpr item.stays_inside
  · rw [List.filterMap_map]
    exact List.filterMap_congr fun item _ => hpack item

end CyrexMC
