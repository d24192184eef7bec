import CyrexMC.Util.ZipExtraction
set_option autoImplicit false

namespace CyrexMC
open FixedWidth Stateful ZipFormat

theorem endAt_iff (tail : Bytes) (i : Nat) : endAt tail i = true ↔ (tail.drop i).take 4 = endSignature := by
  have hbyte : ∀ k, (tail.drop i)[k]? = tail[i+k]? := fun k => List.getElem?_drop
  have h0 := hbyte 0
  have h1 := hbyte 1
  have h2 := hbyte 2
  have h3 := hbyte 3
  rw [Nat.add_zero] at h0
  rw [endAt,← h0,← h1,← h2,← h3,endSignature]
  rcases tail.drop i with _ | ⟨b0,_ | ⟨b1,_ | ⟨b2,_ | ⟨b3,rest⟩⟩⟩⟩
  all_goals simp [and_assoc]

theorem findEnd_eq {tail : Bytes} {i eocd : Nat} (hle : eocd ≤ i) (hend : endAt tail eocd = true)
    (hlast : ∀ j, eocd < j → j ≤ i → endAt tail j = false) : findEnd tail i = some eocd := by
  induction i with
  | zero =>
    have hzero : eocd = 0 := by omega
    subst hzero
    rw [findEnd,if_pos hend]
  | succ i ih =>
    rw [findEnd]
    by_cases heq : eocd = i+1
    · subst heq
      rw [if_pos hend]
    · have hnext := hlast (i+1) (by omega) (Nat.le_refl _)
      rw [hnext,if_neg Bool.false_ne_true]
      exact ih (by omega) fun j hj hji => hlast j hj (by omega)

structure LastEnd (file : Bytes) (i : Nat) : Prop where
  signature : (file.drop i).take 4 = endSignature
  inside : i+22 ≤ file.length
  last : ∀ j, i < j → j+22 ≤ file.length → (file.drop j).take 4 ≠ endSignature

theorem exists_lastEnd {file : Bytes} {i : Nat} (hsignature : (file.drop i).take 4 = endSignature)
    (hinside : i+22 ≤ file.length) : ∃ j, i ≤ j ∧ LastEnd file j := by
  induction hn : file.length-i using Nat.strong_induction_on generalizing i with
  | _ n ih =>
    by_cases hlast : ∀ j, i < j → j+22 ≤ file.length → (file.drop j).take 4 ≠ endSignature
    · exact ⟨i,Nat.le_refl i,hsignature,hinside,hlast⟩
    · simp only [not_forall,not_not] at hlast
      obtain ⟨j,hij,hj,hend⟩ := hlast
      obtain ⟨k,hjk,hk⟩ := ih (file.length-j) (by omega) hend hj rfl
      exact ⟨k,by omega,hk⟩

theorem endRecord_eq {file : Bytes} {i : Nat} (h : LastEnd file i) (hnear : file.length ≤ i+65557) :
    endRecord file = some (UInt32.ofNat (field file (i+16) 4),UInt32.ofNat (field file (i+12) 4)) := by
  have hinside := h.inside
  have hlen := searched_length file
  let start := file.length-min file.length 65557
  have hsearched : searched file = file.drop start := rfl
  have hfield : ∀ k n, field (searched file) (i-start+k) n = field file (i+k) n := fun k n => by
    rw [hsearched,field_drop,show start+(i-start+k) = i+k by omega]
  have hend : endAt (searched file) (i-start) = true := by
    rw [endAt_iff,hsearched,List.drop_drop,show start+(i-start) = i by omega]
    exact h.signature
  have hlast : ∀ j, i-start < j → j ≤ (searched file).length-22 → endAt (searched file) j = false := by
    intro j hj hle
    rw [Bool.eq_false_iff,ne_eq,endAt_iff,hsearched,List.drop_drop]
    exact h.last (start+j) (by omega) (by omega)
  have hfound := findEnd_eq (show i-start ≤ (searched file).length-22 by omega) hend hlast
  rw [endRecord,if_neg (by omega),hfound,Option.map_some,hfield,hfield]

/-- An extraction succeeds if and only if the directory leads to an entry with a local header and with
its data in the file. -/
theorem extractFile_ok_iff (zipPath filename file data : Bytes) (entry : ZipEntry) :
    (∃ z, extractFile zipPath filename (some file) {} = .ok (data,entry) z) ↔
      ∃ central, directory? file = some central ∧ findEntry central filename = .ok (some entry) ∧
        HasLocalHeader file entry ∧ dataEnd file entry ≤ file.length ∧
        slice file (dataStart file entry) entry.csize.toNat = data := by
  constructor
  · rintro ⟨z,hrun⟩
    have hspec := extractFile_spec zipPath filename file
    rw [hrun] at hspec
    cases hspec with
    | read hcentral hwalk hheader hend hz => exact ⟨_,hcentral,hwalk,hheader,hend,rfl⟩
  · rintro ⟨central,hcentral,hwalk,hheader,hend,rfl⟩
    obtain ⟨z,hz,-,hrun⟩ := extractFile_directory zipPath filename hcentral
    have hspec := readCompressed_spec file entry hz
    rw [hrun,extractEntry,hwalk,bind_ok (fromExcept_ok _ _)]
    simp only [bind_apply]
    cases hread : readCompressed file entry z with
    | ok data z' =>
      rw [hread] at hspec
      cases hspec with
      | read => exact ⟨z',rfl⟩
    | error e z' =>
      rw [hread] at hspec
      cases hspec with
      | refused he hnot => exact absurd hheader hnot
      | outside hheader' hout => exact absurd hend (Nat.not_le.mpr hout)

theorem directory?_eq_some_iff {file : Bytes} {i : Nat} (h : LastEnd file i) (hnear : file.length ≤ i+65557)
    (hsmall : file.length < 2^32) {central : Bytes} (hne : central ≠ []) :
    directory? file = some central ↔
      field file (i+16) 4+field file (i+12) 4 ≤ file.length ∧
      central = slice file (field file (i+16) 4) (field file (i+12) 4) := by
  have hoffset : (UInt32.ofNat (field file (i+16) 4)).toNat = field file (i+16) 4 :=
    UInt32.toNat_ofNat_of_lt' (field_lt file (i+16) 4)
  have hsize : (UInt32.ofNat (field file (i+12) 4)).toNat = field file (i+12) 4 :=
    UInt32.toNat_ofNat_of_lt' (field_lt file (i+12) 4)
  have hfits := directoryFits_iff (UInt32.ofNat (field file (i+16) 4)) (UInt32.ofNat (field file (i+12) 4)) file.length
  rw [hoffset,hsize] at hfits
  simp only [directory?,endRecord_eq h hnear,hoffset,hsize,slice_full_iff,hfits]
  constructor
  · intro heq
    split at heq
    · rename_i hboth
      cases heq
      rcases hboth.2 with hzero | hinside
      · exact absurd (by rw [slice,hzero,List.take_zero]) hne
      · exact ⟨hinside,rfl⟩
    · cases heq
  · rintro ⟨hinside,rfl⟩
    rw [if_pos]
    exact ⟨by omega,Or.inr hinside⟩

structure Describes (entry : ZipEntry) (m : Member) : Prop where
  csize : entry.csize.toNat = field m.central.header 20 4
  usize : entry.usize.toNat = field m.central.header 24 4
  compMethod : entry.compMethod.toNat = field m.central.header 10 2
  gpFlags : entry.gpFlags.toNat = field m.central.header 8 2

theorem describes_ofHeader (m : Member) (name : Bytes) : Describes (.ofHeader m.central.header name) m where
  csize := UInt32.toNat_ofNat_of_lt' (field_lt m.central.header 20 4)
  usize := UInt32.toNat_ofNat_of_lt' (field_lt m.central.header 24 4)
  compMethod := UInt16.toNat_ofNat_of_lt' (field_lt m.central.header 10 2)
  gpFlags := UInt16.toNat_ofNat_of_lt' (field_lt m.central.header 8 2)

/-- Every name in the directory of the archive is extracted as its first member. -/
def Extracts (zipPath : Bytes) (a : Archive) : Prop :=
  ∀ filename m, a.find filename = some m →
    ∃ entry z, extractFile zipPath filename (some a.bytes) {} = .ok (m.data,entry) z ∧ Describes entry m

def LeadsTo (file : Bytes) (i : Nat) (filename : Bytes) (m : Member) : Prop :=
  field file (i+16) 4+field file (i+12) 4 ≤ file.length ∧
    ∃ records rest entry, Passed filename (slice file (field file (i+16) 4) (field file (i+12) 4)) records rest ∧
      Names filename rest entry ∧ Describes entry m ∧ HasLocalHeader file entry ∧ dataEnd file entry ≤ file.length ∧
      slice file (dataStart file entry) entry.csize.toNat = m.data

theorem extracted_iff_leadsTo (zipPath : Bytes) {file : Bytes} {i : Nat} (h : LastEnd file i)
    (hnear : file.length ≤ i+65557) (hsmall : file.length < 2^32) (filename : Bytes) (m : Member) :
    (∃ entry z, extractFile zipPath filename (some file) {} = .ok (m.data,entry) z ∧ Describes entry m) ↔
      LeadsTo file i filename m := by
  constructor
  · rintro ⟨entry,z,hrun,hdescribes⟩
    obtain ⟨central,hcentral,hwalk,hheader,hend,hdata⟩ :=
      (extractFile_ok_iff zipPath filename file m.data entry).mp ⟨z,hrun⟩
    have hne : central ≠ [] := by
      rintro rfl
      have hlength := length_of_findEntry hwalk
      simp at hlength
    obtain ⟨hinside,rfl⟩ := (directory?_eq_some_iff h hnear hsmall hne).mp hcentral
    obtain ⟨records,rest,hpassed,hnames⟩ := (findEntry_some_iff _ filename entry).mp hwalk
    exact ⟨hinside,records,rest,entry,hpassed,hnames,hdescribes,hheader,hend,hdata⟩
  · rintro ⟨hinside,records,rest,entry,hpassed,hnames,hdescribes,hheader,hend,hdata⟩
    have hwalk := (findEntry_some_iff _ filename entry).mpr ⟨records,rest,hpassed,hnames⟩
    have hne : slice file (field file (i+16) 4) (field file (i+12) 4) ≠ [] := by
      intro hnil
      have hlength := length_of_findEntry hwalk
      rw [hnil] at hlength
      simp at hlength
    have hcentral := (directory?_eq_some_iff h hnear hsmall hne).mpr ⟨hinside,rfl⟩
    obtain ⟨z,hrun⟩ := (extractFile_ok_iff zipPath filename file m.data entry).mpr
      ⟨_,hcentral,hwalk,hheader,hend,hdata⟩
    exact ⟨entry,z,hrun,hdescribes⟩

section

variable {a : Archive}

theorem ending_field {i n : Nat} (hi : i+n ≤ 22) : field a.bytes (a.endsAt+i) n = field a.ending.header i n := by
  rw [← field_drop,a.drop_endsAt,EndRecord.bytes,field_append (by rw [a.ending.header_length]; exact hi)]

theorem member_data {m : Member} (hm : m ∈ a.members) (name : Bytes) :
    let entry := ZipEntry.ofHeader m.central.header name
    HasLocalHeader a.bytes entry ∧ dataEnd a.bytes entry ≤ a.bytes.length ∧
      slice a.bytes (dataStart a.bytes entry) entry.csize.toNat = m.data := by
  intro entry
  obtain ⟨after,hdrop⟩ := a.drop_member hm
  have hoffset : entry.localHeaderOffset.toNat = field m.central.header 42 4 :=
    UInt32.toNat_ofNat_of_lt' (field_lt m.central.header 42 4)
  have hcsize : entry.csize.toNat = m.data.length := (describes_ofHeader m name).csize.trans m.data_length
  have hlength := congrArg List.length hdrop
  have hbytes : m.localHeader.bytes.length = 30+m.localHeader.name.length+m.localHeader.extra.length := by
    simp [LocalHeader.bytes,m.localHeader.header_length,Nat.add_assoc]
  rw [List.length_drop,List.length_append,List.length_append,hbytes] at hlength
  have hheader : slice a.bytes entry.localHeaderOffset.toNat 30 = m.localHeader.header := by
    rw [slice,hoffset,hdrop,LocalHeader.bytes,List.append_assoc,List.append_assoc,
      List.take_left' m.localHeader.header_length]
  have hstart : dataStart a.bytes entry = field m.central.header 42 4+m.localHeader.bytes.length := by
    rw [dataStart,hheader,hoffset,m.localHeader.name_length,m.localHeader.extra_length,hbytes]
    omega
  refine ⟨⟨?_,?_⟩,?_,?_⟩
  · omega
  · rw [hheader]
    exact m.localHeader.signature
  · rw [dataEnd,hstart,hcsize]
    omega
  · rw [slice,hstart,hcsize,← List.drop_drop,hdrop,List.drop_left,List.take_left]

theorem leadsTo_of_find {filename : Bytes} {m : Member} (h : a.find filename = some m) :
    LeadsTo a.bytes a.endsAt filename m := by
  obtain ⟨hname,before,after,hmembers,hbefore⟩ := a.find_split h
  have hsize := ending_field (a:=a) (show 12+4 ≤ 22 by decide)
  have hoffset := ending_field (a:=a) (show 16+4 ≤ 22 by decide)
  rw [a.directory_size] at hsize
  rw [a.directory_offset] at hoffset
  have hlength := a.length_eq
  have hdirectory : directory a.members =
      (before.map fun r => r.central).flatMap CentralRecord.bytes ++ (m.central.bytes ++ directory after) := by
    rw [hmembers,directory,directory,List.flatMap_append,List.flatMap_cons,List.flatMap_map]
  obtain ⟨hheader,hend,hdata⟩ := member_data (a:=a) (m:=m) (by rw [hmembers]; simp) m.central.name
  rw [LeadsTo,hsize,hoffset,slice,a.directory_eq]
  refine ⟨by rw [hlength,Archive.endsAt]; omega,_,_,_,⟨hdirectory,?_⟩,?_,describes_ofHeader m m.central.name,
    hheader,hend,hdata⟩
  · intro r hr
    obtain ⟨r',hr',rfl⟩ := List.mem_map.mp hr
    exact hbefore r' hr'
  · refine ⟨m.central.toRecordHead,m.central.extra ++ m.central.comment ++ directory after,?_,hname,rfl⟩
    rw [m.central.bytes_eq,List.append_assoc]

theorem own_signature : (a.bytes.drop a.endsAt).take 4 = endSignature := by
  rw [a.drop_endsAt,EndRecord.bytes,List.take_append_of_le_length (by rw [a.ending.header_length]; decide),
    a.ending.signature]

theorem lastEnd_near {i : Nat} (h : LastEnd a.bytes i) : a.bytes.length ≤ i+65557 := by
  have hcomment : a.ending.comment.length < 65536 := by
    rw [← a.ending.comment_length]
    exact field_lt a.ending.header 20 2
  have hlength := a.length_eq
  by_contra hfar
  exact h.last a.endsAt (by omega) (by omega) own_signature

end

/-- Extraction is right on an archive if and only if the last signature of an end record is that of
its own, or else leads, by what happens to stand there, to the same data. -/
theorem extracts_iff (zipPath : Bytes) (a : Archive) : Extracts zipPath a ↔
    ∀ i, LastEnd a.bytes i → i = a.endsAt ∨ ∀ filename m, a.find filename = some m → LeadsTo a.bytes i filename m := by
  have hiff : ∀ i, LastEnd a.bytes i → ∀ filename m, _ ↔ LeadsTo a.bytes i filename m := fun i h =>
    extracted_iff_leadsTo zipPath h (lastEnd_near h) a.length_lt
  constructor
  · intro h i hlast
    exact Or.inr fun filename m hfind => (hiff i hlast filename m).mp (h filename m hfind)
  · intro h filename m hfind
    obtain ⟨i,-,hlast⟩ := exists_lastEnd own_signature (by rw [a.length_eq]; omega)
    refine (hiff i hlast filename m).mpr ?_
    rcases h i hlast with rfl | hleads
    · exact leadsTo_of_find hfind
    · exact hleads filename m hfind

def storedMember : Member where
  central :=
    { header := [0x50,0x4b,0x01,0x02,20,0,20,0,0,0,0,0,0,0,0,0,0x83,0x16,0xdc,0x8c,1,0,0,0,1,0,0,0,1,0,0,0,0,0,0,0,0,0,
        0,0,0,0,0,0,0,0],
      name := [0x61], extra := [], comment := [], header_length := rfl, signature := rfl, name_length := rfl,
      extra_length := rfl, comment_length := rfl }
  localHeader :=
    { header := [0x50,0x4b,0x03,0x04,20,0,0,0,0,0,0,0,0,0,0x83,0x16,0xdc,0x8c,1,0,0,0,1,0,0,0,1,0,0,0],
      name := [0x61], extra := [], header_length := rfl, signature := rfl, name_length := rfl, extra_length := rfl }
  data := [0x78]
  data_length := rfl

/-- An archive of one member whose comment is the end record of an archive of none. -/
def commentedArchive : Archive where
  front := storedMember.localHeader.bytes ++ storedMember.data
  members := [storedMember]
  ending :=
    { header := [0x50,0x4b,0x05,0x06,0,0,0,0,1,0,1,0,47,0,0,0,32,0,0,0,22,0]
      comment := [0x50,0x4b,0x05,0x06,0,0,0,0,0,0,0,0,0,0,0,0,0,0,0,0,0,0]
      header_length := rfl, signature := rfl, comment_length := rfl }
  directory_size := rfl
  directory_offset := rfl
  stored := by
    intro m hm
    cases List.mem_singleton.mp hm
    exact ⟨[],[],rfl,rfl⟩
  length_lt := by decide

set_option maxRecDepth 2000 in
theorem commentedArchive_not_found : ¬ Extracts [] commentedArchive := by
  intro h
  obtain ⟨entry,z,hrun,-⟩ := h [0x61] storedMember rfl
  have hmissing : ∃ z', extractFile [] [0x61] (some commentedArchive.bytes) {} =
      .error (.throws (.zip (.nameNotFound [0x61]))) z' := ⟨_,rfl⟩
  obtain ⟨z',hmissing⟩ := hmissing
  rw [hmissing] at hrun
  cases hrun

end CyrexMC
