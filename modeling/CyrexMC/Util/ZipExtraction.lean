import CyrexMC.Util.ZipDirectory
set_option autoImplicit false

namespace CyrexMC
open FixedWidth Stateful ZipFormat

def slice (file : Bytes) (position n : Nat) : Bytes := (file.drop position).take n

theorem read_apply (file : Bytes) (position n : Nat) :
    IfStream.read file { position } n =
      if (slice file position n).length = n then (slice file position n,{ position := position+n })
      else (slice file position n,
        { position := position+(slice file position n).length, eofbit := true, failbit := true }) := by
  have hle : (slice file position n).length ≤ n := List.length_take_le _ _
  have hgot : (file.drop position).take n = slice file position n := rfl
  simp only [IfStream.read,Bool.or_self,Bool.false_eq_true,if_false,hgot]
  by_cases hall : (slice file position n).length = n
  · rw [if_pos hall,if_neg (by omega),hall]
  · rw [if_neg hall,if_pos (by omega)]

theorem readAt_apply (file : Bytes) (position n : Nat) (short : ZipError) {z : ZipRun} (hz : z.ifs.failbit = false) :
    readAt file position n short z =
      if (slice file position n).length = n then
        .ok (slice file position n) { ifs := { position := position+n }, allocated := z.allocated ++ [n] }
      else
        .error (.throws (.zip short))
          { ifs := { position := position+(slice file position n).length, eofbit := true, failbit := true },
            allocated := z.allocated ++ [n] } := by
  have hseek : z.ifs.seekg position = { position } := by simp [IfStream.seekg,hz]
  by_cases hall : (slice file position n).length = n
  · simp [readAt,bind_apply,hseek,read_apply,hall]
  · simp [readAt,bind_apply,map_apply,hseek,read_apply,hall]

theorem slice_full_iff (file : Bytes) (position n : Nat) :
    (slice file position n).length = n ↔ n = 0 ∨ position+n ≤ file.length := by
  simp only [slice,List.length_take,List.length_drop]
  omega

/-- The part of the file that is searched for the end record. -/
def searched (file : Bytes) : Bytes := file.drop (file.length-min file.length 65557)

def endRecord (file : Bytes) : Option (UInt32 × UInt32) :=
  if file.length < 22 then none
  else (findEnd (searched file) ((searched file).length-22)).map fun eocd =>
    (UInt32.ofNat (field (searched file) (eocd+16) 4),UInt32.ofNat (field (searched file) (eocd+12) 4))

theorem searched_length (file : Bytes) : (searched file).length = min file.length 65557 := by
  rw [searched,List.length_drop]
  omega

theorem findEnd_le {tail : Bytes} {i eocd : Nat} (h : findEnd tail i = some eocd) : eocd ≤ i := by
  induction i with
  | zero =>
    simp only [findEnd] at h
    split at h
    · cases h
      exact Nat.le_refl 0
    · cases h
  | succ i ih =>
    simp only [findEnd] at h
    split at h
    · cases h
      exact Nat.le_refl _
    · exact Nat.le_succ_of_le (ih h)

def searchedRun (file : Bytes) : ZipRun :=
  { ifs := { position := file.length }, allocated := [(searched file).length] }

def extractFrom (file filename : Bytes) (offset size : UInt32) : ZipM (Bytes × ZipEntry) := do
  if !directoryFits offset size file.length then throw (.throws (.zip .directoryBounds))
  let central ← readAt file offset.toNat size.toNat .directoryRead
  extractEntry file central filename

theorem extractFile_small (zipPath filename : Bytes) {file : Bytes} (h : file.length < 22) :
    ∃ z, extractFile zipPath filename (some file) {} = .error (.throws (.zip .tooSmall)) z ∧ z.allocated = [] := by
  refine ⟨{ ifs := IfStream.seekg {} file.length },?_,rfl⟩
  simp [extractFile,bind_apply,h]

theorem extractFile_apply (zipPath filename : Bytes) {file : Bytes} (h : 22 ≤ file.length) :
    extractFile zipPath filename (some file) {} =
      match endRecord file with
      | none => .error (.throws (.zip .endNotFound)) (searchedRun file)
      | some (offset,size) => extractFrom file filename offset size (searchedRun file) := by
  have hlarge : ¬ file.length < 22 := by omega
  have hlen := searched_length file
  have hslice : slice file (file.length-min file.length 65557) (min file.length 65557) = searched file := by
    rw [slice,← searched,← hlen,List.take_length]
  let start : ZipRun := { ifs := IfStream.seekg {} file.length }
  have hread := readAt_apply file (file.length-min file.length 65557) (min file.length 65557) .tailRead
    (show start.ifs.failbit = false from rfl)
  rw [hslice,if_pos hlen] at hread
  have hrun : readAt file (file.length-min file.length 65557) (min file.length 65557) .tailRead start =
      .ok (searched file) (searchedRun file) := by
    rw [hread,searchedRun,hlen,show file.length-min file.length 65557+min file.length 65557 = file.length by omega]
    rfl
  have hmodify : (modify (fun z => { z with ifs := z.ifs.seekg file.length }) : ZipM PUnit) {} = .ok ⟨⟩ start := rfl
  simp only [extractFile]
  rw [bind_ok hmodify]
  simp only [hlarge,if_false]
  rw [bind_ok hrun,endRecord,if_neg hlarge,← hlen]
  cases hend : findEnd (searched file) ((searched file).length-22) with
  | none => rfl
  | some eocd =>
    have hle := findEnd_le hend
    have hsize := le32_ok (show eocd+12+4 ≤ (searched file).length by omega)
    have hoffset := le32_ok (show eocd+16+4 ≤ (searched file).length by omega)
    simp only [Option.map_some]
    rw [hsize,hoffset,bind_ok (fromExcept_ok _ _),bind_ok (fromExcept_ok _ _)]
    rfl

theorem directoryFits_iff (offset size : UInt32) (n : Nat) :
    directoryFits offset size n = true ↔ (offset.toNat+size.toNat)%2^32 ≤ n%2^32 := by
  rw [directoryFits,decide_eq_true_iff,UInt32.le_iff_toNat_le,UInt32.toNat_add,UInt32.toNat_ofNat']

/-- The central directory that the loop is given, if the checks let it come to that. -/
def directory? (file : Bytes) : Option Bytes :=
  match endRecord file with
  | none => none
  | some (offset,size) =>
    let central := slice file offset.toNat size.toNat
    if directoryFits offset size file.length ∧ central.length = size.toNat then some central else none

theorem extractFrom_apply (file filename : Bytes) (offset size : UInt32) :
    extractFrom file filename offset size (searchedRun file) =
      if directoryFits offset size file.length then
        let central := slice file offset.toNat size.toNat
        let allocated := [(searched file).length,size.toNat]
        if central.length = size.toNat then
          extractEntry file central filename { ifs := { position := offset.toNat+size.toNat }, allocated }
        else .error (.throws (.zip .directoryRead))
          { ifs := { position := offset.toNat+central.length, eofbit := true, failbit := true }, allocated }
      else .error (.throws (.zip .directoryBounds)) (searchedRun file) := by
  by_cases hfits : directoryFits offset size file.length = true
  · have hread := readAt_apply file offset.toNat size.toNat .directoryRead
      (show (searchedRun file).ifs.failbit = false from rfl)
    simp only [extractFrom,hfits,Bool.not_true,Bool.false_eq_true,if_false,if_true,bind_apply,hread]
    by_cases hall : (slice file offset.toNat size.toNat).length = size.toNat
    · simp only [hall,if_true]
      rfl
    · simp only [hall,if_false]
      rfl
  · simp [extractFrom,hfits,bind_apply]

def dataStart (file : Bytes) (entry : ZipEntry) : Nat :=
  let localHeader := slice file entry.localHeaderOffset.toNat 30
  entry.localHeaderOffset.toNat+30+field localHeader 26 2+field localHeader 28 2

def dataEnd (file : Bytes) (entry : ZipEntry) : Nat := dataStart file entry+entry.csize.toNat

def HasLocalHeader (file : Bytes) (entry : ZipEntry) : Prop :=
  entry.localHeaderOffset.toNat+30 ≤ file.length ∧
    (slice file entry.localHeaderOffset.toNat 30).take 4 = localSignature

instance (file : Bytes) (entry : ZipEntry) : Decidable (HasLocalHeader file entry) := inferInstanceAs (Decidable (_ ∧ _))

inductive Compressed (file : Bytes) (entry : ZipEntry) (z : ZipRun) : EStateM.Result Fault ZipRun Bytes → Prop where
  | refused {e : ZipError} {z' : ZipRun} (he : e = .localHeaderRead ∨ e = .localHeaderSignature)
      (hheader : ¬ HasLocalHeader file entry) (hz : z'.allocated = z.allocated ++ [30]) :
      Compressed file entry z (.error (.throws (.zip e)) z')
  | outside {z' : ZipRun} (hheader : HasLocalHeader file entry) (hend : file.length < dataEnd file entry)
      (hz : z'.allocated = z.allocated ++ [30]) :
      Compressed file entry z (.error (.throws (.zip .dataBounds)) z')
  | read {z' : ZipRun} (hheader : HasLocalHeader file entry) (hend : dataEnd file entry ≤ file.length)
      (hz : z'.allocated = z.allocated ++ [30] ++ [entry.csize.toNat]) :
      Compressed file entry z (.ok (slice file (dataStart file entry) entry.csize.toNat) z')

theorem readCompressed_header {file : Bytes} {entry : ZipEntry} {z z' : ZipRun} (hheader : HasLocalHeader file entry)
    (hread : readAt file entry.localHeaderOffset.toNat 30 .localHeaderRead z =
      .ok (slice file entry.localHeaderOffset.toNat 30) z') :
    readCompressed file entry z =
      if file.length < dataEnd file entry then .error (.throws (.zip .dataBounds)) z'
      else readAt file (dataStart file entry) entry.csize.toNat .dataRead z' := by
  obtain ⟨hinside,hstart⟩ := hheader
  have hall : (slice file entry.localHeaderOffset.toNat 30).length = 30 :=
    (slice_full_iff _ _ _).mpr (Or.inr hinside)
  have hsig := le32_ok (show 0+4 ≤ (slice file entry.localHeaderOffset.toNat 30).length by omega)
  have hname := le16_ok (show 26+2 ≤ (slice file entry.localHeaderOffset.toNat 30).length by omega)
  have hextra := le16_ok (show 28+2 ≤ (slice file entry.localHeaderOffset.toNat 30).length by omega)
  have hsize : ∀ i, (UInt16.ofNat (field (slice file entry.localHeaderOffset.toNat 30) i 2)).toNat =
      field (slice file entry.localHeaderOffset.toNat 30) i 2 := fun i => UInt16.toNat_ofNat_of_lt' (field_lt _ i 2)
  have hiff := localSignature_iff (show 4 ≤ (slice file entry.localHeaderOffset.toNat 30).length by omega)
  rw [readCompressed,bind_ok hread,hsig,bind_ok (fromExcept_ok _ _),hiff.mpr hstart,hname,hextra]
  simp only [bind_apply,fromExcept_ok,hsize,gt_iff_lt,ne_eq,not_true_eq_false,if_false,dataEnd,dataStart]
  by_cases hend : file.length < entry.localHeaderOffset.toNat+30+field (slice file entry.localHeaderOffset.toNat 30) 26 2+
      field (slice file entry.localHeaderOffset.toNat 30) 28 2+entry.csize.toNat
  · simp only [hend,if_true,bind_apply,throw_apply]
  · simp only [hend,if_false]

theorem readCompressed_spec (file : Bytes) (entry : ZipEntry) {z : ZipRun} (hz : z.ifs.failbit = false) :
    Compressed file entry z (readCompressed file entry z) := by
  have hread := readAt_apply file entry.localHeaderOffset.toNat 30 .localHeaderRead hz
  by_cases hall : (slice file entry.localHeaderOffset.toNat 30).length = 30
  · have hinside : entry.localHeaderOffset.toNat+30 ≤ file.length := by
      rcases (slice_full_iff _ _ _).mp hall with h | h
      · omega
      · exact h
    rw [if_pos hall] at hread
    by_cases hstart : (slice file entry.localHeaderOffset.toNat 30).take 4 = localSignature
    · have hheader : HasLocalHeader file entry := ⟨hinside,hstart⟩
      rw [readCompressed_header hheader hread]
      by_cases hend : file.length < dataEnd file entry
      · rw [if_pos hend]
        exact .outside hheader hend rfl
      · have hdata : (slice file (dataStart file entry) entry.csize.toNat).length = entry.csize.toNat :=
          (slice_full_iff _ _ _).mpr (Or.inr (Nat.not_lt.mp hend))
        rw [if_neg hend,readAt_apply _ _ _ _ rfl,if_pos hdata]
        exact .read hheader (Nat.not_lt.mp hend) rfl
    · have hsig := le32_ok (show 0+4 ≤ (slice file entry.localHeaderOffset.toNat 30).length by omega)
      have hiff := localSignature_iff (show 4 ≤ (slice file entry.localHeaderOffset.toNat 30).length by omega)
      have hne : UInt32.ofNat (field (slice file entry.localHeaderOffset.toNat 30) 0 4) ≠ 0x04034b50 := fun heq =>
        hstart (hiff.mp heq)
      rw [readCompressed,bind_ok hread,hsig,bind_ok (fromExcept_ok _ _)]
      simp only [ne_eq,hne,not_false_eq_true,if_true,bind_apply,throw_apply]
      exact .refused (Or.inr rfl) (fun h => hstart h.2) rfl
  · have hshort : ¬ entry.localHeaderOffset.toNat+30 ≤ file.length := fun h =>
      hall ((slice_full_iff _ _ _).mpr (Or.inr h))
    rw [if_neg hall] at hread
    rw [readCompressed,bind_error hread]
    exact .refused (Or.inl rfl) (fun h => hshort h.1) rfl

inductive Extracted (file filename : Bytes) : EStateM.Result Fault ZipRun (Bytes × ZipEntry) → Prop where
  | tooSmall {z : ZipRun} (hsmall : file.length < 22) (hz : z.allocated = []) :
      Extracted file filename (.error (.throws (.zip .tooSmall)) z)
  | endNotFound {z : ZipRun} (hend : endRecord file = none) (hz : z.allocated = [(searched file).length]) :
      Extracted file filename (.error (.throws (.zip .endNotFound)) z)
  | directoryBounds {offset size : UInt32} {z : ZipRun} (hend : endRecord file = some (offset,size))
      (hfits : directoryFits offset size file.length = false) (hz : z.allocated = [(searched file).length]) :
      Extracted file filename (.error (.throws (.zip .directoryBounds)) z)
  | directoryRead {offset size : UInt32} {z : ZipRun} (hend : endRecord file = some (offset,size))
      (hfits : directoryFits offset size file.length = true)
      (hshort : (slice file offset.toNat size.toNat).length ≠ size.toNat)
      (hz : z.allocated = [(searched file).length,size.toNat]) :
      Extracted file filename (.error (.throws (.zip .directoryRead)) z)
  | outOfBounds {central : Bytes} {z : ZipRun} (hcentral : directory? file = some central)
      (hwalk : findEntry central filename = .error (.undefined .outOfBounds))
      (hz : z.allocated = [(searched file).length,central.length]) :
      Extracted file filename (.error (.undefined .outOfBounds) z)
  | nameNotFound {central : Bytes} {z : ZipRun} (hcentral : directory? file = some central)
      (hwalk : findEntry central filename = .ok none) (hz : z.allocated = [(searched file).length,central.length]) :
      Extracted file filename (.error (.throws (.zip (.nameNotFound filename))) z)
  | localHeader {central : Bytes} {entry : ZipEntry} {e : ZipError} {z : ZipRun}
      (hcentral : directory? file = some central) (hwalk : findEntry central filename = .ok (some entry))
      (he : e = .localHeaderRead ∨ e = .localHeaderSignature) (hheader : ¬ HasLocalHeader file entry)
      (hz : z.allocated = [(searched file).length,central.length,30]) :
      Extracted file filename (.error (.throws (.zip e)) z)
  | dataBounds {central : Bytes} {entry : ZipEntry} {z : ZipRun} (hcentral : directory? file = some central)
      (hwalk : findEntry central filename = .ok (some entry)) (hheader : HasLocalHeader file entry)
      (hend : file.length < dataEnd file entry) (hz : z.allocated = [(searched file).length,central.length,30]) :
      Extracted file filename (.error (.throws (.zip .dataBounds)) z)
  | read {central : Bytes} {entry : ZipEntry} {z : ZipRun} (hcentral : directory? file = some central)
      (hwalk : findEntry central filename = .ok (some entry)) (hheader : HasLocalHeader file entry)
      (hend : dataEnd file entry ≤ file.length)
      (hz : z.allocated = [(searched file).length,central.length,30,entry.csize.toNat]) :
      Extracted file filename (.ok (slice file (dataStart file entry) entry.csize.toNat,entry) z)

theorem extractEntry_spec {file central : Bytes} (filename : Bytes) {z : ZipRun}
    (hcentral : directory? file = some central) (hz : z.ifs.failbit = false)
    (hallocated : z.allocated = [(searched file).length,central.length]) :
    Extracted file filename (extractEntry file central filename z) := by
  rcases findEntry_cases central filename with hwalk | ⟨found,hwalk⟩
  · rw [extractEntry,hwalk,bind_error (fromExcept_error _ _)]
    exact .outOfBounds hcentral hwalk hallocated
  · rw [extractEntry,hwalk,bind_ok (fromExcept_ok _ _)]
    cases found with
    | none => exact .nameNotFound hcentral hwalk hallocated
    | some entry =>
      have hspec := readCompressed_spec file entry hz
      simp only [bind_apply]
      cases hrun : readCompressed file entry z with
      | ok data z' =>
        rw [hrun] at hspec
        cases hspec with
        | read hheader hend hz' =>
          rw [hallocated] at hz'
          exact .read hcentral hwalk hheader hend hz'
      | error e z' =>
        rw [hrun] at hspec
        cases hspec with
        | refused he hheader hz' =>
          rw [hallocated] at hz'
          exact .localHeader hcentral hwalk he hheader hz'
        | outside hheader hend hz' =>
          rw [hallocated] at hz'
          exact .dataBounds hcentral hwalk hheader hend hz'

theorem directory?_some {file central : Bytes} (h : directory? file = some central) :
    ∃ offset size, endRecord file = some (offset,size) ∧ directoryFits offset size file.length = true ∧
      central = slice file offset.toNat size.toNat ∧ central.length = size.toNat := by
  unfold directory? at h
  cases hend : endRecord file with
  | none => simp [hend] at h
  | some found =>
    obtain ⟨offset,size⟩ := found
    simp only [hend] at h
    split at h
    · rename_i hboth
      cases h
      exact ⟨offset,size,rfl,hboth.1,rfl,hboth.2⟩
    · cases h

theorem length_of_endRecord {file : Bytes} {found : UInt32 × UInt32} (h : endRecord file = some found) :
    22 ≤ file.length := by
  by_contra hsmall
  rw [endRecord,if_pos (Nat.not_le.mp hsmall)] at h
  cases h

theorem extractFile_directory (zipPath filename : Bytes) {file central : Bytes} (h : directory? file = some central) :
    ∃ z, z.ifs.failbit = false ∧ z.allocated = [(searched file).length,central.length] ∧
      extractFile zipPath filename (some file) {} = extractEntry file central filename z := by
  obtain ⟨offset,size,hend,hfits,rfl,hall⟩ := directory?_some h
  refine ⟨{ ifs := { position := offset.toNat+size.toNat }, allocated := [(searched file).length,size.toNat] },
    rfl,by rw [hall],?_⟩
  rw [extractFile_apply zipPath filename (length_of_endRecord hend),hend]
  simp only [extractFrom_apply,if_pos hfits,if_pos hall]

theorem extractFile_spec (zipPath filename file : Bytes) :
    Extracted file filename (extractFile zipPath filename (some file) {}) := by
  by_cases hlarge : 22 ≤ file.length
  · rw [extractFile_apply zipPath filename hlarge]
    cases hend : endRecord file with
    | none => exact .endNotFound hend rfl
    | some found =>
      obtain ⟨offset,size⟩ := found
      simp only [extractFrom_apply]
      by_cases hfits : directoryFits offset size file.length = true
      · rw [if_pos hfits]
        by_cases hall : (slice file offset.toNat size.toNat).length = size.toNat
        · have hcentral : directory? file = some (slice file offset.toNat size.toNat) := by
            simp only [directory?,hend,hfits,hall,and_self,if_true]
          simp only [hall,if_true]
          exact extractEntry_spec filename hcentral rfl (by rw [hall])
        · simp only [hall,if_false]
          exact .directoryRead hend hfits hall rfl
      · rw [if_neg hfits]
        exact .directoryBounds hend (Bool.eq_false_iff.mpr hfits) rfl
  · obtain ⟨z,hrun,hz⟩ := extractFile_small zipPath filename (Nat.not_le.mp hlarge)
    rw [hrun]
    exact .tooSmall (Nat.not_le.mp hlarge) hz

end CyrexMC
