import CyrexMC.Util.ZipExtraction
set_option autoImplicit false

namespace CyrexMC
open FixedWidth Stateful ZipFormat

section

variable (zipPath filename file : Bytes)

theorem extractFile_outOfBounds_iff :
    (∃ z, extractFile zipPath filename (some file) {} = .error (.undefined .outOfBounds) z) ↔
      ∃ central records rest, directory? file = some central ∧ Passed filename central records rest ∧ Truncated rest := by
  constructor
  · rintro ⟨z,hrun⟩
    have hspec := extractFile_spec zipPath filename file
    rw [hrun] at hspec
    cases hspec with
    | @outOfBounds central _ hcentral hwalk hz =>
      obtain ⟨records,rest,hpassed,ht⟩ := (findEntry_outOfBounds_iff central filename).mp hwalk
      exact ⟨central,records,rest,hcentral,hpassed,ht⟩
  · rintro ⟨central,records,rest,hcentral,hpassed,ht⟩
    have hwalk := (findEntry_outOfBounds_iff central filename).mpr ⟨records,rest,hpassed,ht⟩
    obtain ⟨z,-,-,hrun⟩ := extractFile_directory zipPath filename hcentral
    refine ⟨z,?_⟩
    rw [hrun,extractEntry,hwalk,bind_error (fromExcept_error _ _)]

def CutShort (rest : Bytes) : Prop := rest.take 4 = centralSignature ∧ rest.length < 46+field rest 28 2

variable {zipPath filename file} in
theorem findEntry_cutShort {central rest : Bytes} {records : List CentralRecord}
    (hpassed : Passed filename central records rest) (hcut : CutShort rest) (hwhole : ¬ Truncated rest) :
    findEntry central filename = .ok none := by
  have hnot : ∀ (r : RecordHead) (behind : Bytes), rest ≠ r.bytes ++ behind := by
    rintro r behind rfl
    have hlength := hcut.2
    rw [head_field r behind (by decide),List.length_append,r.bytes_length,r.name_length] at hlength
    omega
  have hstop : Stops filename rest := fun r behind heq =>
    absurd (heq.trans (by rw [r.bytes_eq,List.append_assoc])) (hnot r.toRecordHead _)
  rcases findEntry_split hpassed hstop with ⟨ht,-⟩ | ⟨entry,⟨r,behind,heq,-⟩,-⟩ | ⟨-,-,h⟩
  · exact absurd ht hwhole
  · exact absurd heq (hnot r behind)
  · exact h

/-- The walk over the directory stays in its buffer, and a record that is cut short is an error. -/
structure WalksInside : Prop where
  inside : ∀ z, extractFile zipPath filename (some file) {} ≠ .error (.undefined .outOfBounds) z
  truncated : ∀ central records rest, directory? file = some central → Passed filename central records rest →
    CutShort rest → ∃ e z, extractFile zipPath filename (some file) {} = .error (.throws e) z

/-- The walk stays inside if and only if no place that it comes to has a signature with less than
a header behind it. -/
theorem walksInside_iff : WalksInside zipPath filename file ↔
    ∀ central records rest, directory? file = some central → Passed filename central records rest → ¬ Truncated rest := by
  constructor
  · intro h central records rest hcentral hpassed ht
    obtain ⟨z,hrun⟩ := (extractFile_outOfBounds_iff zipPath filename file).mpr ⟨central,records,rest,hcentral,hpassed,ht⟩
    exact h.inside z hrun
  · intro h
    refine ⟨?_,?_⟩
    · intro z hrun
      obtain ⟨central,records,rest,hcentral,hpassed,ht⟩ := (extractFile_outOfBounds_iff zipPath filename file).mp ⟨z,hrun⟩
      exact h central records rest hcentral hpassed ht
    · intro central records rest hcentral hpassed hcut
      have hwalk := findEntry_cutShort hpassed hcut (h central records rest hcentral hpassed)
      obtain ⟨z,-,-,hrun⟩ := extractFile_directory zipPath filename hcentral
      refine ⟨.zip (.nameNotFound filename),z,?_⟩
      rw [hrun,extractEntry,hwalk,bind_ok (fromExcept_ok _ _)]
      rfl

end

def signatureOnly : Bytes :=
  [0x50,0x4b,0x01,0x02] ++ [0x50,0x4b,0x05,0x06,0,0,0,0,0,0,0,0,4,0,0,0,0,0,0,0,0,0]

theorem signatureOnly_outOfBounds : ¬ WalksInside [] [] signatureOnly := fun h => h.inside _ rfl

def allocations {α : Type} : EStateM.Result Fault ZipRun α → List Nat
  | .ok _ z => z.allocated
  | .error _ z => z.allocated

/-- The bounds of the directory say the same in 32 bits as over the integers. -/
def Unwrapped (offset size : UInt32) (fileSize : Nat) : Prop :=
  if fileSize < 2^32 then offset.toNat+size.toNat < 2^32 ∨ fileSize+2^32 < offset.toNat+size.toNat
  else fileSize < offset.toNat+size.toNat ∨ (offset.toNat+size.toNat)%2^32 ≤ fileSize%2^32

theorem unwrapped_iff (offset size : UInt32) (fileSize : Nat) : Unwrapped offset size fileSize ↔
    (directoryFits offset size fileSize = true ↔ offset.toNat+size.toNat ≤ fileSize) := by
  have hoffset := offset.toNat_lt
  have hsize := size.toNat_lt
  rw [directoryFits_iff,Unwrapped]
  by_cases hsmall : fileSize < 2^32
  · rw [if_pos hsmall]
    omega
  · rw [if_neg hsmall]
    omega

/-- The checks of bounds decide over the integers, and no buffer is larger than the file. -/
structure BoundsExact (zipPath filename file : Bytes) : Prop where
  directory : ∀ offset size, endRecord file = some (offset,size) →
    (1 < (allocations (extractFile zipPath filename (some file) {})).length ↔ offset.toNat+size.toNat ≤ file.length)
  data : ∀ central entry, directory? file = some central → findEntry central filename = .ok (some entry) →
    3 < (allocations (extractFile zipPath filename (some file) {})).length → dataEnd file entry ≤ file.length
  buffers : ∀ n ∈ allocations (extractFile zipPath filename (some file) {}), n ≤ file.length

section

variable {zipPath filename file : Bytes}

theorem directory_allocated_iff {offset size : UInt32} (hend : endRecord file = some (offset,size)) :
    1 < (allocations (extractFile zipPath filename (some file) {})).length ↔
      directoryFits offset size file.length = true := by
  have hspec := extractFile_spec zipPath filename file
  have hread : ∀ central, directory? file = some central → directoryFits offset size file.length = true := by
    intro central hcentral
    obtain ⟨offset',size',hend',hfits,-⟩ := directory?_some hcentral
    rw [hend] at hend'
    cases hend'
    exact hfits
  generalize extractFile zipPath filename (some file) {} = result at hspec
  cases hspec with
  | tooSmall hsmall hz =>
    have hlarge := length_of_endRecord hend
    omega
  | endNotFound hnone hz =>
    rw [hend] at hnone
    cases hnone
  | directoryBounds hend' hfits hz =>
    rw [hend] at hend'
    cases hend'
    simp [allocations,hz,hfits]
  | directoryRead hend' hfits hshort hz =>
    rw [hend] at hend'
    cases hend'
    simp [allocations,hz,hfits]
  | outOfBounds hcentral hwalk hz => simp [allocations,hz,hread _ hcentral]
  | nameNotFound hcentral hwalk hz => simp [allocations,hz,hread _ hcentral]
  | localHeader hcentral hwalk he hheader hz => simp [allocations,hz,hread _ hcentral]
  | dataBounds hcentral hwalk hheader hend' hz => simp [allocations,hz,hread _ hcentral]
  | read hcentral hwalk hheader hend' hz => simp [allocations,hz,hread _ hcentral]

theorem data_inside {central : Bytes} {entry : ZipEntry} (hcentral : directory? file = some central)
    (hwalk : findEntry central filename = .ok (some entry))
    (hallocated : 3 < (allocations (extractFile zipPath filename (some file) {})).length) :
    dataEnd file entry ≤ file.length := by
  have hspec := extractFile_spec zipPath filename file
  generalize extractFile zipPath filename (some file) {} = result at hspec hallocated
  cases hspec with
  | read hcentral' hwalk' hheader hend hz =>
    rw [hcentral] at hcentral'
    cases hcentral'
    rw [hwalk] at hwalk'
    cases hwalk'
    exact hend
  | _ => simp_all [allocations]

theorem allocations_le
    (hdirectory : ∀ offset size, endRecord file = some (offset,size) → directoryFits offset size file.length = true →
      offset.toNat+size.toNat ≤ file.length) :
    ∀ n ∈ allocations (extractFile zipPath filename (some file) {}), n ≤ file.length := by
  have hsearched : (searched file).length ≤ file.length := by
    rw [searched_length]
    omega
  have hread : ∀ central, directory? file = some central → central.length ≤ file.length := by
    intro central hcentral
    obtain ⟨offset,size,hend,hfits,-,hsize⟩ := directory?_some hcentral
    have hle := hdirectory offset size hend hfits
    omega
  have hspec := extractFile_spec zipPath filename file
  generalize extractFile zipPath filename (some file) {} = result at hspec
  intro n hn
  cases hspec with
  | tooSmall hsmall hz => simp [allocations,hz] at hn
  | endNotFound hnone hz =>
    simp only [allocations,hz,List.mem_singleton] at hn
    omega
  | directoryBounds hend hfits hz =>
    simp only [allocations,hz,List.mem_singleton] at hn
    omega
  | directoryRead hend hfits hshort hz =>
    have hle := hdirectory _ _ hend hfits
    simp only [allocations,hz,List.mem_cons,List.not_mem_nil,or_false] at hn
    omega
  | outOfBounds hcentral hwalk hz =>
    have hle := hread _ hcentral
    simp only [allocations,hz,List.mem_cons,List.not_mem_nil,or_false] at hn
    omega
  | nameNotFound hcentral hwalk hz =>
    have hle := hread _ hcentral
    simp only [allocations,hz,List.mem_cons,List.not_mem_nil,or_false] at hn
    omega
  | localHeader hcentral hwalk he hheader hz =>
    have hle := hread _ hcentral
    have hrecord := length_of_findEntry hwalk
    simp only [allocations,hz,List.mem_cons,List.not_mem_nil,or_false] at hn
    omega
  | dataBounds hcentral hwalk hheader hend hz =>
    have hle := hread _ hcentral
    have hrecord := length_of_findEntry hwalk
    simp only [allocations,hz,List.mem_cons,List.not_mem_nil,or_false] at hn
    omega
  | read hcentral hwalk hheader hend hz =>
    have hle := hread _ hcentral
    have hrecord := length_of_findEntry hwalk
    simp only [allocations,hz,List.mem_cons,List.not_mem_nil,or_false] at hn
    rw [dataEnd] at hend
    omega

end

theorem boundsExact_iff (zipPath filename file : Bytes) : BoundsExact zipPath filename file ↔
    ∀ offset size, endRecord file = some (offset,size) → Unwrapped offset size file.length := by
  constructor
  · intro h offset size hend
    rw [unwrapped_iff,← directory_allocated_iff hend]
    exact h.directory offset size hend
  · intro h
    have hfits : ∀ offset size, endRecord file = some (offset,size) →
        (directoryFits offset size file.length = true ↔ offset.toNat+size.toNat ≤ file.length) :=
      fun offset size hend => (unwrapped_iff offset size file.length).mp (h offset size hend)
    refine ⟨?_,?_,?_⟩
    · intro offset size hend
      rw [directory_allocated_iff hend]
      exact hfits offset size hend
    · intro central entry hcentral hwalk
      exact data_inside hcentral hwalk
    · exact allocations_le fun offset size hend => (hfits offset size hend).mp

def hugeDirectory : Bytes := [0x50,0x4b,0x05,0x06,0,0,0,0,0,0,0,0,0xff,0xff,0xff,0xff,1,0,0,0,0,0]

theorem hugeDirectory_allocated : ¬ BoundsExact [] [] hugeDirectory := by
  intro h
  have hallocated : allocations (extractFile [] [] (some hugeDirectory) {}) = [22,4294967295] := rfl
  have hle := h.buffers 4294967295 (by rw [hallocated]; decide)
  exact absurd hle (by decide)

end CyrexMC
