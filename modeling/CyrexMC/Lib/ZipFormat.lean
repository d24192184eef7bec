import CyrexMC.Lib.Integers
set_option autoImplicit false

/-!
The layout of zip archives: a central directory of records, an end record that says where the
directory is, and a local header with the data of each member somewhere in front of it.
-/

namespace ZipFormat
open FixedWidth

def field (bytes : List UInt8) (i n : Nat) : Nat := ofLE ((bytes.drop i).take n)

theorem field_lt (bytes : List UInt8) (i n : Nat) : field bytes i n < 256^n :=
  Nat.lt_of_lt_of_le (ofLE_lt _) (Nat.pow_le_pow_right (by decide) (List.length_take_le _ _))

theorem field_append {bytes : List UInt8} {i n : Nat} (h : i+n ≤ bytes.length) (rest : List UInt8) :
    field (bytes ++ rest) i n = field bytes i n := by
  have hi : i ≤ bytes.length := by omega
  have hn : n ≤ (bytes.drop i).length := by
    rw [List.length_drop]
    omega
  rw [field,List.drop_append_of_le_length hi,List.take_append_of_le_length hn,field]

theorem field_drop (bytes : List UInt8) (k i n : Nat) : field (bytes.drop k) i n = field bytes (k+i) n := by
  rw [field,List.drop_drop,field]

def centralSignature : List UInt8 := [0x50,0x4b,0x01,0x02]
def localSignature : List UInt8 := [0x50,0x4b,0x03,0x04]
def endSignature : List UInt8 := [0x50,0x4b,0x05,0x06]

/-- The fixed header of a directory record and the name. -/
structure RecordHead where
  header : List UInt8
  name : List UInt8
  header_length : header.length = 46
  signature : header.take 4 = centralSignature
  name_length : field header 28 2 = name.length

structure CentralRecord extends RecordHead where
  extra : List UInt8
  comment : List UInt8
  extra_length : field header 30 2 = extra.length
  comment_length : field header 32 2 = comment.length

def RecordHead.bytes (r : RecordHead) : List UInt8 := r.header ++ r.name

def CentralRecord.bytes (r : CentralRecord) : List UInt8 := r.header ++ r.name ++ r.extra ++ r.comment

structure LocalHeader where
  header : List UInt8
  name : List UInt8
  extra : List UInt8
  header_length : header.length = 30
  signature : header.take 4 = localSignature
  name_length : field header 26 2 = name.length
  extra_length : field header 28 2 = extra.length

def LocalHeader.bytes (h : LocalHeader) : List UInt8 := h.header ++ h.name ++ h.extra

/-- The record at the end of an archive, with the comment of the archive behind it. -/
structure EndRecord where
  header : List UInt8
  comment : List UInt8
  header_length : header.length = 22
  signature : header.take 4 = endSignature
  comment_length : field header 20 2 = comment.length

def EndRecord.bytes (e : EndRecord) : List UInt8 := e.header ++ e.comment

structure Member where
  central : CentralRecord
  localHeader : LocalHeader
  data : List UInt8
  data_length : field central.header 20 4 = data.length

def directory (members : List Member) : List UInt8 := members.flatMap fun m => m.central.bytes

/-- The local headers and the data are in `front`, in any order and with any gaps. -/
structure Archive where
  front : List UInt8
  members : List Member
  ending : EndRecord
  directory_size : field ending.header 12 4 = (directory members).length
  directory_offset : field ending.header 16 4 = front.length
  stored : ∀ m ∈ members, ∃ before after, before.length = field m.central.header 42 4 ∧
    front = before ++ (m.localHeader.bytes ++ m.data) ++ after
  length_lt : (front ++ directory members ++ ending.bytes).length < 2^32

def Archive.bytes (a : Archive) : List UInt8 := a.front ++ directory a.members ++ a.ending.bytes

def Archive.find (a : Archive) (name : List UInt8) : Option Member :=
  a.members.find? fun m => m.central.name = name

theorem RecordHead.bytes_length (r : RecordHead) : r.bytes.length = 46+r.name.length := by
  simp [RecordHead.bytes,r.header_length]

theorem CentralRecord.bytes_eq (r : CentralRecord) : r.bytes = r.toRecordHead.bytes ++ (r.extra ++ r.comment) := by
  simp [CentralRecord.bytes,RecordHead.bytes]

theorem CentralRecord.bytes_length (r : CentralRecord) :
    r.bytes.length = 46+field r.header 28 2+field r.header 30 2+field r.header 32 2 := by
  simp [bytes,r.header_length,r.name_length,r.extra_length,r.comment_length,Nat.add_assoc]

theorem RecordHead.unique {r r' : RecordHead} {rest rest' : List UInt8} (h : r.bytes ++ rest = r'.bytes ++ rest') :
    r.header = r'.header ∧ r.name = r'.name := by
  simp only [bytes,List.append_assoc] at h
  obtain ⟨hheader,hnames⟩ := List.append_inj h (r.header_length.trans r'.header_length.symm)
  have hlength : r.name.length = r'.name.length := by rw [← r.name_length,← r'.name_length,hheader]
  exact ⟨hheader,(List.append_inj hnames hlength).1⟩

theorem take_field {bytes : List UInt8} {k : Nat} (hk : k ≤ bytes.length) {i n : Nat} (hi : i+n ≤ k) :
    field (bytes.take k) i n = field bytes i n := by
  have hlen : (bytes.take k).length = k := by
    rw [List.length_take]
    omega
  conv_rhs => rw [← List.take_append_drop k bytes,field_append (by rw [hlen]; exact hi)]

theorem exists_head {rest : List UInt8} (hstart : rest.take 4 = centralSignature)
    (hlength : 46+field rest 28 2 ≤ rest.length) :
    ∃ (r : RecordHead) (behind : List UInt8), rest = r.bytes ++ behind ∧ r.name.length = field rest 28 2 := by
  let n := field rest 28 2
  have hheader : (rest.take 46).length = 46 := by
    rw [List.length_take]
    omega
  have hname : ((rest.drop 46).take n).length = n := by
    rw [List.length_take,List.length_drop]
    omega
  let r : RecordHead :=
    { header := rest.take 46, name := (rest.drop 46).take n, header_length := hheader,
      signature := by rw [List.take_take]; exact hstart,
      name_length := by rw [hname,take_field (by omega) (by decide)] }
  refine ⟨r,rest.drop (46+n),?_,hname⟩
  conv_lhs => rw [← List.take_append_drop 46 rest,← List.take_append_drop n (rest.drop 46),List.drop_drop]
  exact (List.append_assoc _ _ _).symm

theorem RecordHead.exists_record (r : RecordHead) {behind : List UInt8}
    (hlength : field r.header 30 2+field r.header 32 2 ≤ behind.length) :
    ∃ (whole : CentralRecord) (after : List UInt8), whole.toRecordHead = r ∧ r.bytes ++ behind = whole.bytes ++ after := by
  let e := field r.header 30 2
  let c := field r.header 32 2
  have hextra : (behind.take e).length = e := by
    rw [List.length_take]
    omega
  have hcomment : ((behind.drop e).take c).length = c := by
    rw [List.length_take,List.length_drop]
    omega
  let whole : CentralRecord :=
    { r with extra := behind.take e, comment := (behind.drop e).take c, extra_length := hextra.symm,
             comment_length := hcomment.symm }
  refine ⟨whole,behind.drop (e+c),rfl,?_⟩
  have hsplit : behind = behind.take e ++ ((behind.drop e).take c ++ behind.drop (e+c)) := by
    conv_lhs => rw [← List.take_append_drop e behind,← List.take_append_drop c (behind.drop e),List.drop_drop]
  conv_lhs => rw [hsplit]
  simp [whole,CentralRecord.bytes,RecordHead.bytes]

def Stops (name rest : List UInt8) : Prop :=
  ∀ (r : CentralRecord) (behind : List UInt8), rest = r.bytes ++ behind → r.name = name

theorem exists_split (name region : List UInt8) : ∃ (records : List CentralRecord) (rest : List UInt8),
    region = records.flatMap CentralRecord.bytes ++ rest ∧ (∀ r ∈ records, r.name ≠ name) ∧ Stops name rest := by
  induction hn : region.length using Nat.strong_induction_on generalizing region with
  | _ n ih =>
    by_cases hstop : Stops name region
    · exact ⟨[],region,rfl,fun r hr => (by cases hr),hstop⟩
    · simp only [Stops,not_forall] at hstop
      obtain ⟨r,behind,rfl,hname⟩ := hstop
      have hlength := r.bytes_length
      obtain ⟨records,rest,hregion,hnames,hrest⟩ := ih behind.length
        (by rw [← hn,List.length_append]; omega) behind rfl
      refine ⟨r :: records,rest,by simp [hregion],fun r' hr' => ?_,hrest⟩
      rcases List.mem_cons.mp hr' with rfl | hr'
      · exact hname
      · exact hnames r' hr'

def Archive.endsAt (a : Archive) : Nat := a.front.length+(directory a.members).length

theorem Archive.drop_endsAt (a : Archive) : a.bytes.drop a.endsAt = a.ending.bytes := by
  rw [bytes,endsAt,← List.length_append,List.drop_left]

theorem Archive.length_eq (a : Archive) : a.bytes.length = a.endsAt+(22+a.ending.comment.length) := by
  simp [bytes,endsAt,EndRecord.bytes,a.ending.header_length,Nat.add_assoc]

theorem Archive.directory_eq (a : Archive) :
    (a.bytes.drop a.front.length).take (directory a.members).length = directory a.members := by
  rw [bytes,List.append_assoc,List.drop_left,List.take_left]

theorem Archive.find_split {a : Archive} {name : List UInt8} {m : Member} (h : a.find name = some m) :
    m.central.name = name ∧ ∃ before after, a.members = before ++ m :: after ∧ ∀ r ∈ before, r.central.name ≠ name := by
  obtain ⟨hm,before,after,hmembers,hbefore⟩ := List.find?_eq_some_iff_append.mp h
  refine ⟨by simpa using hm,before,after,hmembers,fun r hr => ?_⟩
  simpa using hbefore r hr

theorem Archive.drop_member {a : Archive} {m : Member} (hm : m ∈ a.members) :
    ∃ after, a.bytes.drop (field m.central.header 42 4) = m.localHeader.bytes ++ (m.data ++ after) := by
  obtain ⟨before,after,hbefore,hfront⟩ := a.stored m hm
  refine ⟨after ++ (directory a.members ++ a.ending.bytes),?_⟩
  rw [← hbefore,bytes,hfront]
  simp

end ZipFormat
