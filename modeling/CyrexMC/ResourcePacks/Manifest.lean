import CyrexMC.ResourcePacks.ZippedResourcePack
set_option autoImplicit false

namespace CyrexMC
open Stateful

namespace Json

def size : Json → Nat
  | .null => 0
  | .array elements => elements.length
  | .object members => members.length
  | _ => 1

def member (key : Bytes) : Json → Option Json
  | .object members => (members.find? fun m => m.1 == key).map Prod.snd
  | _ => none

def IntLike : Json → Prop
  | .integer _ => True
  | .boolean _ => True
  | .float i => -2^31 ≤ i ∧ i < 2^31
  | _ => False

theorem atKey_ok {key : Bytes} {j v : Json} : j.atKey key = .ok v ↔ j.member key = some v := by
  cases j with
  | object members =>
    simp only [atKey,member]
    cases members.find? fun m => m.1 == key <;> simp
  | _ => simp [atKey,member]

theorem getString_ok {j : Json} {s : Bytes} : j.getString = .ok s ↔ j = .string s := by
  cases j <;> simp [getString]

theorem getInt_ok {j : Json} : (∃ n, j.getInt = .ok n) ↔ j.IntLike := by
  cases j with
  | float i =>
    simp only [getInt,IntLike]
    split <;> simp_all
  | _ => simp [getInt,IntLike]

theorem atIndex_getInt_ok {i : Nat} {j : Json} :
    (∃ e n, j.atIndex i = .ok e ∧ e.getInt = .ok n) ↔
      ∃ elements e, j = .array elements ∧ elements[i]? = some e ∧ e.IntLike := by
  constructor
  · rintro ⟨e,n,he,hn⟩
    have hint := getInt_ok.mp ⟨n,hn⟩
    cases j with
    | array elements =>
      cases he
      refine ⟨elements,_,rfl,?_,hint⟩
      rw [List.getD_eq_getElem?_getD] at hint ⊢
      cases h : elements[i]? with
      | none => simp [h,IntLike] at hint
      | some e => rfl
    | null =>
      cases he
      exact hint.elim
    | _ => cases he
  · rintro ⟨elements,e,rfl,he,hint⟩
    obtain ⟨n,hn⟩ := getInt_ok.mpr hint
    exact ⟨e,n,by simp [atIndex,List.getD_eq_getElem?_getD,he],hn⟩

def headerField (manifest : Json) (key : Bytes) : Option Json :=
  (manifest.member (ascii "header")).bind fun header => header.member key

end Json

/-- The check of the base class, which `ZippedResourcePack` does not use. -/
def ResourcePack.verifyManifest (manifest : Json) : Except Fault Bool := do
  if !manifest.contains (ascii "format_version") || !manifest.contains (ascii "header") ||
      !manifest.contains (ascii "modules") then return false
  let header ← manifest.atKey (ascii "header")
  if !header.contains (ascii "description") || !header.contains (ascii "name") || !header.contains (ascii "uuid") ||
      !header.contains (ascii "version") then return false
  let version ← header.atKey (ascii "version")
  return version.size = 3

structure PackArchive where
  file : Bytes
  manifest : Json
  fileFits : file.length < 2^63
  fileZip : 22 ≤ file.length

namespace ZippedResourcePack

def headerName (manifest : Json) : Except Fault Bytes := do
  let header ← manifest.atKey (ascii "header")
  let name ← header.atKey (ascii "name")
  name.getString

def getPackName : Call Bytes := do
  let p ← get
  fromExcept (headerName p.manifest)

def verifyManifest (manifest : Json) : Bool :=
  manifest.contains (ascii "format_version") && manifest.contains (ascii "header") && manifest.contains (ascii "modules")

/-- The constructor, from `verifyManifest` on. -/
def create (archive : PackArchive) : Except Fault ZippedResourcePack :=
  if !verifyManifest archive.manifest then .error (.throws .invalidManifest)
  else .ok { file := archive.file, manifest := archive.manifest,
             fileFits := archive.fileFits, fileZip := archive.fileZip }

/-- The loop of `ZippedResourcePackLoader::loadPacks`; it logs what the constructor throws. -/
def loadPacks (archives : List PackArchive) : List ZippedResourcePack :=
  archives.filterMap fun archive =>
    match create archive with
    | .ok p => some p
    | .error _ => none

structure UsableManifest (tp : ThirdParty) (manifest : Json) : Prop where
  name : ∃ name, manifest.headerField (ascii "name") = some (.string name)
  uuid : ∃ uuid, manifest.headerField (ascii "uuid") = some (.string uuid) ∧ (tp.uuidFromString uuid).isSome
  version : ∃ elements, manifest.headerField (ascii "version") = some (.array elements) ∧
    ∀ i < 3, ∃ e, elements[i]? = some e ∧ e.IntLike

theorem headerField_ok {manifest v : Json} {key : Bytes} :
    (∃ header, manifest.atKey (ascii "header") = .ok header ∧ header.atKey key = .ok v) ↔
      manifest.headerField key = some v := by
  simp only [Json.atKey_ok,Json.headerField,Option.bind_eq_some_iff]

theorem headerName_ok {manifest : Json} {name : Bytes} :
    headerName manifest = .ok name ↔ manifest.headerField (ascii "name") = some (.string name) := by
  simp only [headerName,except_bind_ok,Json.getString_ok,exists_eq_right,headerField_ok]

theorem headerUuid_ok {manifest : Json} {uuid : Bytes} :
    headerUuid manifest = .ok uuid ↔ manifest.headerField (ascii "uuid") = some (.string uuid) := by
  simp only [headerUuid,except_bind_ok,Json.getString_ok,exists_eq_right,headerField_ok]

theorem headerVersion_ok {manifest : Json} :
    (∃ version, headerVersion manifest = .ok version) ↔
      ∃ elements, manifest.headerField (ascii "version") = some (.array elements) ∧
        ∀ i < 3, ∃ e, elements[i]? = some e ∧ e.IntLike := by
  constructor
  · rintro ⟨_,h⟩
    simp only [headerVersion,except_bind_ok] at h
    obtain ⟨header,hheader,version,hversion,a,ha,major,hmajor,b,hb,minor,hminor,c,hc,patch,hpatch,-⟩ := h
    have hfield := headerField_ok.mp ⟨header,hheader,hversion⟩
    obtain ⟨elements,e,rfl,he,hint⟩ := Json.atIndex_getInt_ok.mp ⟨a,major,ha,hmajor⟩
    obtain ⟨_,e₁,heq₁,he₁,hint₁⟩ := Json.atIndex_getInt_ok.mp ⟨b,minor,hb,hminor⟩
    obtain ⟨_,e₂,heq₂,he₂,hint₂⟩ := Json.atIndex_getInt_ok.mp ⟨c,patch,hc,hpatch⟩
    cases heq₁
    cases heq₂
    refine ⟨elements,hfield,fun i hi => ?_⟩
    match i,hi with
    | 0,_ => exact ⟨e,he,hint⟩
    | 1,_ => exact ⟨e₁,he₁,hint₁⟩
    | 2,_ => exact ⟨e₂,he₂,hint₂⟩
  · rintro ⟨elements,hfield,hints⟩
    obtain ⟨header,hheader,hversion⟩ := headerField_ok.mpr hfield
    have hint : ∀ i < 3, ∃ e n, (Json.array elements).atIndex i = .ok e ∧ e.getInt = .ok n := by
      intro i hi
      obtain ⟨e,he,hlike⟩ := hints i hi
      exact Json.atIndex_getInt_ok.mpr ⟨elements,e,rfl,he,hlike⟩
    obtain ⟨a,major,ha,hmajor⟩ := hint 0 (by omega)
    obtain ⟨b,minor,hb,hminor⟩ := hint 1 (by omega)
    obtain ⟨c,patch,hc,hpatch⟩ := hint 2 (by omega)
    refine ⟨toDecimal major ++ ascii "." ++ toDecimal minor ++ ascii "." ++ toDecimal patch,?_⟩
    simp only [headerVersion,except_bind_ok]
    exact ⟨header,hheader,_,hversion,a,ha,major,hmajor,b,hb,minor,hminor,c,hc,patch,hpatch,rfl⟩

/-- A pack that has just been loaded has a name, an id and a version if and only if its manifest has them. -/
theorem accessors_return_iff {tp : ThirdParty} {p : ZippedResourcePack} (hid : p.id = UUID.nil) :
    ((∃ name q, getPackName p = .ok name q) ∧ (∃ id q, getPackId tp p = .ok id q) ∧
      ∃ version q, getPackVersion p = .ok version q) ↔ UsableManifest tp p.manifest := by
  have hname : (∃ name q, getPackName p = .ok name q) ↔ ∃ name, headerName p.manifest = .ok name := by
    cases h : headerName p.manifest <;> simp [getPackName,bind_apply,h]
  have hnil : p.id.isNil = true := by simp [hid,UUID.isNil]
  have huuid : (∃ id q, getPackId tp p = .ok id q) ↔
      ∃ uuid, headerUuid p.manifest = .ok uuid ∧ (tp.uuidFromString uuid).isSome := by
    rw [getPackId_apply,if_pos hnil]
    cases h : headerUuid p.manifest with
    | error e => simp
    | ok uuid => cases hparse : tp.uuidFromString uuid <;> simp [hparse]
  have hversion : (∃ version q, getPackVersion p = .ok version q) ↔
      ∃ version, headerVersion p.manifest = .ok version := by
    rw [getPackVersion_apply]
    cases h : headerVersion p.manifest <;> simp
  rw [hname,huuid,hversion,headerVersion_ok]
  simp only [headerName_ok,headerUuid_ok]
  constructor
  · rintro ⟨hname,huuid,hversion⟩
    exact ⟨hname,huuid,hversion⟩
  · intro h
    exact ⟨h.name,h.uuid,h.version⟩

theorem mem_loadPacks {archives : List PackArchive} {p : ZippedResourcePack} :
    p ∈ loadPacks archives ↔ ∃ archive ∈ archives, verifyManifest archive.manifest = true ∧
      p = { file := archive.file, manifest := archive.manifest,
            fileFits := archive.fileFits, fileZip := archive.fileZip } := by
  simp only [loadPacks,List.mem_filterMap]
  constructor
  · rintro ⟨archive,harchive,h⟩
    refine ⟨archive,harchive,?_⟩
    cases hverify : verifyManifest archive.manifest with
    | false => simp [create,hverify] at h
    | true => exact ⟨rfl,by simpa [create,hverify] using h.symm⟩
  · rintro ⟨archive,harchive,hverify,rfl⟩
    exact ⟨archive,harchive,by simp [create,hverify]⟩

end ZippedResourcePack

end CyrexMC
