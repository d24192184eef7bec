import CyrexMC.ResourcePacks.Manifest
import CyrexMC.Util.ZipArchive
set_option autoImplicit false

/-! `zipped_resource_pack_loader.cpp`, and the constructor of a pack. -/

namespace CyrexMC
open Stateful ZipFormat

inductive LoaderFault where
  | invalidFolder : Bytes → LoaderFault
  | fileNotFound : Bytes → LoaderFault
  | decompression
  | compressionMethod
  | streamNotOpened
  | pack : Fault → LoaderFault
  deriving DecidableEq

/-- `e.what()`; the texts of a library are left out. -/
def LoaderFault.what : LoaderFault → Option String
  | .invalidFolder folderPath => some ("Invalid resource pack path: " ++ folderPath.toText)
  | .fileNotFound path => some ("File not found: " ++ path.toText)
  | .decompression => some "libdeflate decompression failed"
  | .compressionMethod => some "Unsupported compression method in zip"
  | .streamNotOpened => some "Failed to open file stream for chunk reading"
  | .pack (.throws e) => e.what
  | .pack _ => none

/-- `catch (const std::exception&)` takes it. -/
def LoaderFault.caught : LoaderFault → Bool
  | .pack (.throws _) => true
  | .pack _ => false
  | _ => true

abbrev FileContent := { file : Bytes // file.length < 2^63 }

section

variable (tp : ThirdParty) (jsonParse : Bytes → Option Json)

def manifestName : Bytes := ascii "manifest.json"

def unpack (compMethod : UInt16) (usize : UInt32) (compressed : Bytes) : Except LoaderFault Bytes :=
  if compMethod = 0 then .ok compressed
  else if compMethod = 8 then
    match tp.deflateDecompress compressed usize.toNat with
    | some out => .ok out.val
    | none => .error .decompression
  else .error .compressionMethod

/-- `jsonParse` is `nlohmann::json::parse`, which returns or throws. -/
def loadZip (path : Bytes) (content : Option Bytes) : Except LoaderFault Json :=
  match extractFile path manifestName content {} with
  | .error e _ => .error (.pack e)
  | .ok (compressed,entry) _ => do
    let out ← unpack tp entry.compMethod entry.usize compressed
    match jsonParse out with
    | some manifest => .ok manifest
    | none => .error (.pack (.throws .jsonParseError))

def ZippedResourcePack.construct (path : Bytes) (present : Bool) (content : Option FileContent) :
    Except LoaderFault ZippedResourcePack := do
  if !present then throw (.fileNotFound path)
  let manifest ← loadZip tp jsonParse path (content.map Subtype.val)
  match content with
  | some file =>
    if fileZip : 22 ≤ file.val.length then
      (create { file := file.val, manifest, fileFits := file.property, fileZip }).mapError .pack
    else throw (.pack (.throws (.zip .tooSmall)))
  | none =>
    if !verifyManifest manifest then throw (.pack (.throws .invalidManifest))
    throw .streamNotOpened

/-- What the folder has under a name, and what is left of it when the constructor looks. -/
structure FolderEntry where
  filename : Bytes
  regularFile : Bool
  present : Bool
  content : Option FileContent

inductive Folder where
  | missing
  | other
  | directory (entries : List FolderEntry)

inductive LoaderLine where
  | folderCreated : Bytes → LoaderLine
  | noneYet
  | skipped : Bytes → LoaderLine
  | loaded : Bytes → LoaderLine
  | failed : Bytes → Option String → LoaderLine
  | noneFound : Bytes → LoaderLine
  deriving DecidableEq

/-- `path::extension`: from the last dot on, unless it is the first character or the name is `..`. -/
def extension (filename : Bytes) : Bytes :=
  let suffix := (filename.reverse.takeWhile (· != 0x2E)).reverse
  if suffix.length+1 < filename.length ∧ filename ≠ ascii ".." then 0x2E :: suffix else []

def tolower (c : UInt8) : UInt8 := if 0x41 ≤ c ∧ c ≤ 0x5A then c+0x20 else c

namespace FolderEntry

def path (folderPath : Bytes) (entry : FolderEntry) : Bytes := folderPath ++ ascii "/" ++ entry.filename

def ext (entry : FolderEntry) : Bytes := (extension entry.filename).map tolower

end FolderEntry

structure LoaderRun where
  loadedPacks : List ZippedResourcePack := []
  anyPackFound : Bool := false
  lines : List LoaderLine := []

abbrev LoaderM (α : Type) := EStateM LoaderFault LoaderRun α

namespace ZippedResourcePackLoader

def log (line : LoaderLine) : LoaderM Unit := modify fun run => { run with lines := run.lines ++ [line] }

def loadEntry (folderPath : Bytes) (entry : FolderEntry) : LoaderM Unit := do
  if !entry.regularFile then return ()
  if entry.ext = ascii ".key" then return ()
  try
    if entry.ext = ascii ".zip" ∨ entry.ext = ascii ".mcpack" then
      let path := entry.path folderPath
      let pack ← fromExcept (ZippedResourcePack.construct tp jsonParse path entry.present entry.content)
      modify fun run => { run with loadedPacks := run.loadedPacks ++ [pack], anyPackFound := true }
      log (.loaded entry.filename)
    else log (.skipped entry.filename)
  catch e =>
    if e.caught then log (.failed entry.filename e.what) else throw e

def loadPacks (folderPath : Bytes) : Folder → LoaderM Unit
  | .missing => do
    log (.folderCreated folderPath)
    log .noneYet
  | .other => throw (.invalidFolder folderPath)
  | .directory entries => do
    entries.forM (loadEntry tp jsonParse folderPath)
    let run ← get
    if !run.anyPackFound then log (.noneFound folderPath)

end ZippedResourcePackLoader

namespace FolderEntry

def offered (entry : FolderEntry) : Bool :=
  entry.regularFile && decide (entry.ext = ascii ".zip" ∨ entry.ext = ascii ".mcpack")

variable (folderPath : Bytes) (entry : FolderEntry)

def result : Except LoaderFault ZippedResourcePack :=
  ZippedResourcePack.construct tp jsonParse (entry.path folderPath) entry.present entry.content

def pack? : Option ZippedResourcePack := if entry.offered then (entry.result tp jsonParse folderPath).toOption else none

def fatal? : Option LoaderFault :=
  if entry.offered then
    match entry.result tp jsonParse folderPath with
    | .ok _ => none
    | .error e => if e.caught then none else some e
  else none

def line? : Option LoaderLine :=
  if entry.offered then
    match entry.result tp jsonParse folderPath with
    | .ok _ => some (.loaded entry.filename)
    | .error e => some (.failed entry.filename e.what)
  else if entry.regularFile && entry.ext != ascii ".key" then some (.skipped entry.filename)
  else none

end FolderEntry

namespace ZippedResourcePackLoader

variable (folderPath : Bytes)

def LoaderRun.add (run : LoaderRun) (entry : FolderEntry) : LoaderRun :=
  { loadedPacks := run.loadedPacks ++ (entry.pack? tp jsonParse folderPath).toList,
    anyPackFound := run.anyPackFound || (entry.pack? tp jsonParse folderPath).isSome,
    lines := run.lines ++ (entry.line? tp jsonParse folderPath).toList }

theorem loadEntry_apply (entry : FolderEntry) (run : LoaderRun) :
    loadEntry tp jsonParse folderPath entry run =
      match entry.fatal? tp jsonParse folderPath with
      | some e => .error e run
      | none => .ok () (LoaderRun.add tp jsonParse folderPath run entry) := by
  by_cases hfile : entry.regularFile = true
  · by_cases hkey : entry.ext = ascii ".key"
    · have hoffered : entry.offered = false := by
        simp only [FolderEntry.offered,hkey,hfile]
        decide
      simp [loadEntry,hfile,hkey,hoffered,FolderEntry.fatal?,LoaderRun.add,FolderEntry.pack?,FolderEntry.line?]
    · by_cases hext : entry.ext = ascii ".zip" ∨ entry.ext = ascii ".mcpack"
      · have hoffered : entry.offered = true := by simp [FolderEntry.offered,hfile,hext]
        cases hresult : ZippedResourcePack.construct tp jsonParse (entry.path folderPath) entry.present entry.content with
        | ok pack =>
          simp [loadEntry,hfile,hkey,hext,hoffered,FolderEntry.fatal?,LoaderRun.add,FolderEntry.pack?,FolderEntry.line?,
            FolderEntry.result,hresult,tryCatch_apply,bind_apply,log,Except.toOption]
        | error e =>
          cases hcaught : e.caught <;>
            simp [loadEntry,hfile,hkey,hext,hoffered,FolderEntry.fatal?,LoaderRun.add,FolderEntry.pack?,FolderEntry.line?,
              FolderEntry.result,hresult,hcaught,tryCatch_apply,bind_apply,log,Except.toOption]
      · have hoffered : entry.offered = false := by simp [FolderEntry.offered,hfile,hext]
        simp [loadEntry,hfile,hkey,hext,hoffered,FolderEntry.fatal?,LoaderRun.add,FolderEntry.pack?,FolderEntry.line?,
          tryCatch_apply,log]
  · have hoffered : entry.offered = false := by simp [FolderEntry.offered,hfile]
    simp [loadEntry,hfile,hoffered,FolderEntry.fatal?,LoaderRun.add,FolderEntry.pack?,FolderEntry.line?]

theorem loadEntries_ok_iff {entries : List FolderEntry} {run run' : LoaderRun} :
    entries.forM (loadEntry tp jsonParse folderPath) run = .ok () run' ↔
      (∀ entry ∈ entries, entry.fatal? tp jsonParse folderPath = none) ∧
        run' = entries.foldl (LoaderRun.add tp jsonParse folderPath) run := by
  induction entries generalizing run with
  | nil => simp [eq_comm]
  | cons entry entries ih =>
    change (loadEntry tp jsonParse folderPath entry >>= fun _ =>
      entries.forM (loadEntry tp jsonParse folderPath)) run = _ ↔ _
    rw [bind_apply,loadEntry_apply]
    cases hfatal : entry.fatal? tp jsonParse folderPath with
    | some e => simp [hfatal]
    | none =>
      rw [List.forall_mem_cons,and_iff_right hfatal,List.foldl_cons]
      exact ih

theorem foldl_add (entries : List FolderEntry) (run : LoaderRun) :
    entries.foldl (LoaderRun.add tp jsonParse folderPath) run =
      { loadedPacks := run.loadedPacks ++ entries.filterMap (FolderEntry.pack? tp jsonParse folderPath),
        anyPackFound := run.anyPackFound || !(entries.filterMap (FolderEntry.pack? tp jsonParse folderPath)).isEmpty,
        lines := run.lines ++ entries.filterMap (FolderEntry.line? tp jsonParse folderPath) } := by
  induction entries generalizing run with
  | nil => simp
  | cons entry entries ih =>
    rw [List.foldl_cons,ih]
    cases hpack : entry.pack? tp jsonParse folderPath <;> cases hline : entry.line? tp jsonParse folderPath <;>
      simp [LoaderRun.add,hpack,hline]

theorem loadPacks_ok_iff {entries : List FolderEntry} {run : LoaderRun} :
    loadPacks tp jsonParse folderPath (.directory entries) {} = .ok () run ↔
      (∀ entry ∈ entries, entry.fatal? tp jsonParse folderPath = none) ∧
      let packs := entries.filterMap (FolderEntry.pack? tp jsonParse folderPath)
      run = { loadedPacks := packs, anyPackFound := !packs.isEmpty,
              lines := entries.filterMap (FolderEntry.line? tp jsonParse folderPath) ++
                if packs.isEmpty then [.noneFound folderPath] else [] } := by
  have hloop := @loadEntries_ok_iff tp jsonParse folderPath entries {}
  simp only [foldl_add,List.nil_append,Bool.false_or] at hloop
  simp only [loadPacks]
  cases hrun : entries.forM (loadEntry tp jsonParse folderPath) {} with
  | error e run' =>
    have hnot : ¬ ∀ entry ∈ entries, entry.fatal? tp jsonParse folderPath = none := by
      intro hall
      have hok := hloop.mpr ⟨hall,rfl⟩
      rw [hrun] at hok
      cases hok
    rw [bind_error hrun]
    simp [hnot]
  | ok u run' =>
    obtain ⟨hall,rfl⟩ := hloop.mp hrun
    rw [bind_ok hrun,bind_ok (get_apply _),and_iff_right hall]
    cases (entries.filterMap (FolderEntry.pack? tp jsonParse folderPath)).isEmpty <;> simp [log,eq_comm]

end ZippedResourcePackLoader

def HasManifest (file : Bytes) (manifest : Json) : Prop :=
  ∃ central entry out, directory? file = some central ∧ findEntry central manifestName = .ok (some entry) ∧
    HasLocalHeader file entry ∧ dataEnd file entry ≤ file.length ∧
    unpack tp entry.compMethod entry.usize (slice file (dataStart file entry) entry.csize.toNat) = .ok out ∧
    jsonParse out = some manifest

def LeavesDirectory (file : Bytes) : Prop :=
  ∃ central, directory? file = some central ∧ findEntry central manifestName = .error (.undefined .outOfBounds)

theorem HasManifest.large {file : Bytes} {manifest : Json} (h : HasManifest tp jsonParse file manifest) :
    22 ≤ file.length := by
  obtain ⟨central,-,-,hcentral,-⟩ := h
  obtain ⟨offset,size,hend,-⟩ := directory?_some hcentral
  exact length_of_endRecord hend

theorem loadZip_ok_iff {path file : Bytes} {manifest : Json} :
    loadZip tp jsonParse path (some file) = .ok manifest ↔ HasManifest tp jsonParse file manifest := by
  have hiff := fun data entry => extractFile_ok_iff path manifestName file data entry
  unfold loadZip
  cases hrun : extractFile path manifestName (some file) {} with
  | error e z =>
    constructor
    · intro h
      cases h
    · rintro ⟨central,entry,out,hcentral,hwalk,hheader,hend,-⟩
      obtain ⟨z',hok⟩ := (hiff _ entry).mpr ⟨central,hcentral,hwalk,hheader,hend,rfl⟩
      rw [hrun] at hok
      cases hok
  | ok found z =>
    obtain ⟨data,entry⟩ := found
    obtain ⟨central,hcentral,hwalk,hheader,hend,rfl⟩ := (hiff data entry).mp ⟨z,hrun⟩
    simp only [except_bind_ok]
    constructor
    · rintro ⟨out,hunpack,hparse⟩
      refine ⟨central,entry,out,hcentral,hwalk,hheader,hend,hunpack,?_⟩
      cases hjson : jsonParse out with
      | none => simp [hjson] at hparse
      | some manifest' =>
        simp only [hjson,Except.ok.injEq] at hparse
        rw [hparse]
    · rintro ⟨central',entry',out,hcentral',hwalk',-,-,hunpack,hparse⟩
      cases hcentral.symm.trans hcentral'
      cases hwalk.symm.trans hwalk'
      exact ⟨out,hunpack,by rw [hparse]⟩

theorem unpack_caught {compMethod : UInt16} {usize : UInt32} {compressed : Bytes} {e : LoaderFault}
    (h : unpack tp compMethod usize compressed = .error e) : e.caught = true := by
  unfold unpack at h
  split at h
  · cases h
  · split at h
    · split at h <;> cases h
      rfl
    · cases h
      rfl

/-- All that escapes the handler is a search that leaves the directory. -/
theorem loadZip_caught_iff (path : Bytes) {file : Bytes} :
    (∃ e, loadZip tp jsonParse path (some file) = .error e ∧ e.caught = false) ↔ LeavesDirectory file := by
  have hspec := extractFile_spec path manifestName file
  constructor
  · rintro ⟨e,he,hcaught⟩
    unfold loadZip at he
    cases hrun : extractFile path manifestName (some file) {} with
    | error fault z =>
      rw [hrun] at he hspec
      cases he
      cases hspec with
      | outOfBounds hcentral hwalk => exact ⟨_,hcentral,hwalk⟩
      | _ => cases hcaught
    | ok found z =>
      obtain ⟨compressed,entry⟩ := found
      simp only [hrun] at he
      cases hunpack : unpack tp entry.compMethod entry.usize compressed with
      | error fault =>
        rw [hunpack] at he
        cases he
        rw [unpack_caught tp hunpack] at hcaught
        cases hcaught
      | ok out =>
        cases hjson : jsonParse out <;> simp [hunpack,hjson,bind,Except.bind] at he
        subst he
        cases hcaught
  · rintro ⟨central,hcentral,hwalk⟩
    obtain ⟨z,-,-,hrun⟩ := extractFile_directory path manifestName hcentral
    refine ⟨.pack (.undefined .outOfBounds),?_,rfl⟩
    rw [loadZip,hrun,extractEntry,hwalk,bind_error (fromExcept_error _ _)]

def IsLoaded (file : FileContent) (pack : ZippedResourcePack) : Prop :=
  HasManifest tp jsonParse file.val pack.manifest ∧ ZippedResourcePack.verifyManifest pack.manifest = true ∧
    ∃ fileZip, pack = { file := file.val, manifest := pack.manifest, fileFits := file.property, fileZip }

theorem construct_ok_iff {path : Bytes} {present : Bool} {content : Option FileContent} {pack : ZippedResourcePack} :
    ZippedResourcePack.construct tp jsonParse path present content = .ok pack ↔
      present = true ∧ ∃ file, content = some file ∧ IsLoaded tp jsonParse file pack := by
  unfold ZippedResourcePack.construct
  cases present with
  | false =>
    constructor
    · intro h
      cases h
    · rintro ⟨hpresent,-⟩
      cases hpresent
  | true =>
    rw [and_iff_right rfl]
    change (loadZip tp jsonParse path (content.map Subtype.val) >>= _) = _ ↔ _
    rw [except_bind_ok]
    cases content with
    | none =>
      constructor
      · rintro ⟨manifest,hload,-⟩
        cases hload
      · rintro ⟨file,hfile,-⟩
        cases hfile
    | some file =>
      simp only [Option.map_some,loadZip_ok_iff,Option.some.injEq,exists_eq_left',IsLoaded]
      constructor
      · rintro ⟨manifest,hmanifest,hpack⟩
        rw [dif_pos hmanifest.large] at hpack
        by_cases hverify : ZippedResourcePack.verifyManifest manifest = true
        · simp only [ZippedResourcePack.create,hverify,Bool.not_true,Bool.false_eq_true,if_false,Except.mapError,
            Except.ok.injEq] at hpack
          subst hpack
          exact ⟨hmanifest,hverify,_,rfl⟩
        · simp [ZippedResourcePack.create,hverify,Except.mapError] at hpack
      · rintro ⟨hmanifest,hverify,fileZip,hpack⟩
        refine ⟨pack.manifest,hmanifest,?_⟩
        rw [dif_pos fileZip]
        simp only [ZippedResourcePack.create,hverify,Bool.not_true,Bool.false_eq_true,if_false,Except.mapError]
        rw [← hpack]

theorem construct_caught_iff {path : Bytes} {present : Bool} {content : Option FileContent} :
    (∃ e, ZippedResourcePack.construct tp jsonParse path present content = .error e ∧ e.caught = false) ↔
      present = true ∧ ∃ file, content = some file ∧ LeavesDirectory file.val := by
  unfold ZippedResourcePack.construct
  cases present with
  | false =>
    constructor
    · rintro ⟨e,he,hcaught⟩
      cases he
      cases hcaught
    · rintro ⟨hpresent,-⟩
      cases hpresent
  | true =>
    rw [and_iff_right rfl]
    cases content with
    | none =>
      constructor
      · rintro ⟨e,he,hcaught⟩
        cases he
        cases hcaught
      · rintro ⟨file,hfile,-⟩
        cases hfile
    | some file =>
      simp only [Option.some.injEq,exists_eq_left',← loadZip_caught_iff tp jsonParse path]
      change (∃ e, (loadZip tp jsonParse path (some file.val) >>= _) = _ ∧ _) ↔ _
      cases hload : loadZip tp jsonParse path (some file.val) with
      | error e => simp [bind,Except.bind]
      | ok manifest =>
        have hlarge := ((loadZip_ok_iff tp jsonParse).mp hload).large
        constructor
        · rintro ⟨e,he,hcaught⟩
          by_cases hverify : ZippedResourcePack.verifyManifest manifest = true
          · simp [ZippedResourcePack.create,hverify,hlarge,Except.mapError,bind,Except.bind] at he
          · simp [ZippedResourcePack.create,hverify,hlarge,Except.mapError,bind,Except.bind] at he
            subst he
            cases hcaught
        · rintro ⟨e,he,-⟩
          cases he

namespace FolderEntry

variable (folderPath : Bytes) (entry : FolderEntry)

def Holds (pack : ZippedResourcePack) : Prop :=
  entry.offered = true ∧ entry.present = true ∧ ∃ file, entry.content = some file ∧ IsLoaded tp jsonParse file pack

def LeadsOut : Prop :=
  entry.offered = true ∧ entry.present = true ∧ ∃ file, entry.content = some file ∧ LeavesDirectory file.val

theorem pack?_eq_some_iff {pack : ZippedResourcePack} :
    entry.pack? tp jsonParse folderPath = some pack ↔ entry.Holds tp jsonParse pack := by
  have hresult : (entry.result tp jsonParse folderPath).toOption = some pack ↔
      entry.result tp jsonParse folderPath = .ok pack := by
    cases entry.result tp jsonParse folderPath <;> simp [Except.toOption]
  cases hoffered : entry.offered <;> simp only [pack?,Holds,hoffered]
  · simp
  · rw [if_pos trivial,true_and,hresult]
    exact construct_ok_iff tp jsonParse

theorem fatal?_eq_none_iff : entry.fatal? tp jsonParse folderPath = none ↔ ¬ entry.LeadsOut := by
  have hcaught := @construct_caught_iff tp jsonParse (entry.path folderPath) entry.present entry.content
  cases hoffered : entry.offered <;> simp only [fatal?,LeadsOut,hoffered]
  · simp
  · rw [if_pos trivial,true_and,← hcaught]
    change _ ↔ ¬ ∃ e, entry.result tp jsonParse folderPath = _ ∧ _
    cases entry.result tp jsonParse folderPath with
    | ok pack => simp
    | error e => cases he : e.caught <;> simp [he]

theorem line?_loaded_iff {filename : Bytes} :
    entry.line? tp jsonParse folderPath = some (.loaded filename) ↔
      entry.filename = filename ∧ ∃ pack, entry.Holds tp jsonParse pack := by
  simp only [← pack?_eq_some_iff tp jsonParse folderPath]
  cases hoffered : entry.offered
  · simp [line?,pack?,hoffered]
  · cases hresult : entry.result tp jsonParse folderPath <;> simp [line?,pack?,hoffered,hresult,Except.toOption]

theorem line?_ne_noneFound : entry.line? tp jsonParse folderPath ≠ some (.noneFound folderPath) := by
  unfold line?
  split
  · split <;> simp
  · split <;> simp

end FolderEntry

namespace ZippedResourcePackLoader

variable (folderPath : Bytes)

/-- A folder is loaded to its end unless the directory of a pack file in it runs out of bounds. The packs are
then those that the files hold, in their order, whatever else is in the folder and whatever is wrong with other
files; the log names their files, and says that there are none when there are none. -/
theorem loadPacks_exact (entries : List FolderEntry) :
    ((∃ run, loadPacks tp jsonParse folderPath (.directory entries) {} = .ok () run) ↔
      ∀ entry ∈ entries, ¬ entry.LeadsOut) ∧
    ∀ run, loadPacks tp jsonParse folderPath (.directory entries) {} = .ok () run →
      (∃ held : FolderEntry → Option ZippedResourcePack,
        (∀ entry pack, held entry = some pack ↔ entry.Holds tp jsonParse pack) ∧
          run.loadedPacks = entries.filterMap held) ∧
      (∀ filename, .loaded filename ∈ run.lines ↔
        ∃ entry ∈ entries, entry.filename = filename ∧ ∃ pack, entry.Holds tp jsonParse pack) ∧
      (.noneFound folderPath ∈ run.lines ↔ run.loadedPacks = []) := by
  have hok := @loadPacks_ok_iff tp jsonParse folderPath entries
  simp only [FolderEntry.fatal?_eq_none_iff] at hok
  constructor
  · constructor
    · rintro ⟨run,hrun⟩
      exact (hok.mp hrun).1
    · intro hall
      exact ⟨_,hok.mpr ⟨hall,rfl⟩⟩
  · intro run hrun
    obtain ⟨-,rfl⟩ := hok.mp hrun
    refine ⟨⟨FolderEntry.pack? tp jsonParse folderPath,fun entry pack => entry.pack?_eq_some_iff tp jsonParse folderPath,
      rfl⟩,?_,?_⟩
    · intro filename
      have htail : ∀ packs : List ZippedResourcePack,
          LoaderLine.loaded filename ∉ if packs.isEmpty then [LoaderLine.noneFound folderPath] else [] := by
        intro packs
        split <;> simp
      rw [List.mem_append,or_iff_left (htail _),List.mem_filterMap]
      simp only [FolderEntry.line?_loaded_iff]
    · have hlines : LoaderLine.noneFound folderPath ∉ entries.filterMap (FolderEntry.line? tp jsonParse folderPath) := by
        simp [List.mem_filterMap,FolderEntry.line?_ne_noneFound]
      rw [List.mem_append,or_iff_right hlines,← List.isEmpty_iff]
      split <;> simp_all

end ZippedResourcePackLoader

end

end CyrexMC
