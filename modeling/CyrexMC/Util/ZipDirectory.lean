import CyrexMC.Lib.ZipFormat
import CyrexMC.Util.Zip
set_option autoImplicit false

namespace CyrexMC
open FixedWidth Stateful ZipFormat

theorem byteAt_ok {buffer : Bytes} {i : Nat} (h : i < buffer.length) :
    byteAt buffer i = .ok (buffer.getD i 0) := by
  simp [byteAt,h]

theorem byteAt_error {buffer : Bytes} {i : Nat} (h : buffer.length ≤ i) :
    byteAt buffer i = .error (.undefined .outOfBounds) := by
  simp [byteAt,h]

theorem take_drop_succ {buffer : Bytes} {i : Nat} (n : Nat) (h : i < buffer.length) :
    (buffer.drop i).take (n+1) = buffer.getD i 0 :: (buffer.drop (i+1)).take n := by
  rw [List.drop_eq_getElem_cons h,List.take_succ_cons]
  simp [h]

theorem or_shift {k low : Nat} (h : low < 2^k) (b : Nat) : low ||| b <<< k = low+b*2^k := by
  rw [Nat.shiftLeft_eq,Nat.mul_comm b,Nat.or_comm,← Nat.two_pow_add_eq_or_of_lt h,Nat.add_comm]

theorem le16_ok {buffer : Bytes} {i : Nat} (h : i+2 ≤ buffer.length) :
    le16 buffer i = .ok (UInt16.ofNat (field buffer i 2)) := by
  have hfield : field buffer i 2 = (buffer.getD i 0).toNat+256*(buffer.getD (i+1) 0).toNat := by
    rw [field,take_drop_succ 1 (by omega),take_drop_succ 0 (by omega)]
    simp [ofLE]
  have h0 := (buffer.getD i 0).toNat_lt
  have h1 := (buffer.getD (i+1) 0).toNat_lt
  have hor := or_shift (show (buffer.getD i 0).toNat < 2^8 by omega) (buffer.getD (i+1) 0).toNat
  have hfit : ((buffer.getD (i+1) 0).toNat <<< 8)%2^16 = (buffer.getD (i+1) 0).toNat <<< 8 := by
    rw [Nat.shiftLeft_eq]
    omega
  simp only [le16,byteAt_ok (show i < buffer.length by omega),byteAt_ok (show i+1 < buffer.length by omega),bind,
    Except.bind,pure,Except.pure,Except.ok.injEq,← UInt16.toNat_inj]
  rw [UInt16.toNat_or,UInt16.toNat_shiftLeft,UInt8.toNat_toUInt16,UInt8.toNat_toUInt16,
    show (8 : UInt16).toNat%16 = 8 from rfl,hfit,hor,UInt16.toNat_ofNat',hfield]
  omega

theorem le16_error {buffer : Bytes} {i : Nat} (h : buffer.length < i+2) :
    le16 buffer i = .error (.undefined .outOfBounds) := by
  by_cases hi : i < buffer.length
  · simp [le16,byteAt_ok hi,byteAt_error (show buffer.length ≤ i+1 by omega),bind,Except.bind]
  · simp [le16,byteAt_error (show buffer.length ≤ i by omega),bind,Except.bind]

theorem le32_ok {buffer : Bytes} {i : Nat} (h : i+4 ≤ buffer.length) :
    le32 buffer i = .ok (UInt32.ofNat (field buffer i 4)) := by
  have hfield : field buffer i 4 = (buffer.getD i 0).toNat+256*((buffer.getD (i+1) 0).toNat+
      256*((buffer.getD (i+2) 0).toNat+256*(buffer.getD (i+3) 0).toNat)) := by
    rw [field,take_drop_succ 3 (by omega),take_drop_succ 2 (by omega),take_drop_succ 1 (by omega),
      take_drop_succ 0 (by omega)]
    simp [ofLE]
  have h0 := (buffer.getD i 0).toNat_lt
  have h1 := (buffer.getD (i+1) 0).toNat_lt
  have h2 := (buffer.getD (i+2) 0).toNat_lt
  have h3 := (buffer.getD (i+3) 0).toNat_lt
  have hfit : ∀ k ≤ 24, ∀ b < 256, (b <<< k)%2^32 = b <<< k := fun k hk b hb => by
    have hpow : 2^k ≤ 2^24 := Nat.pow_le_pow_right (by decide) hk
    have hle : b*2^k ≤ b*2^24 := Nat.mul_le_mul_left b hpow
    rw [Nat.shiftLeft_eq]
    omega
  have hor1 := or_shift (show (buffer.getD i 0).toNat < 2^8 by omega) (buffer.getD (i+1) 0).toNat
  have hor2 := or_shift (show (buffer.getD i 0).toNat+(buffer.getD (i+1) 0).toNat*2^8 < 2^16 by omega)
    (buffer.getD (i+2) 0).toNat
  have hor3 := or_shift (show (buffer.getD i 0).toNat+(buffer.getD (i+1) 0).toNat*2^8+
    (buffer.getD (i+2) 0).toNat*2^16 < 2^24 by omega) (buffer.getD (i+3) 0).toNat
  simp only [le32,byteAt_ok (show i < buffer.length by omega),byteAt_ok (show i+1 < buffer.length by omega),
    byteAt_ok (show i+2 < buffer.length by omega),byteAt_ok (show i+3 < buffer.length by omega),bind,
    Except.bind,pure,Except.pure,Except.ok.injEq,← UInt32.toNat_inj]
  rw [UInt32.toNat_or,UInt32.toNat_or,UInt32.toNat_or,UInt32.toNat_shiftLeft,UInt32.toNat_shiftLeft,
    UInt32.toNat_shiftLeft,UInt8.toNat_toUInt32,UInt8.toNat_toUInt32,UInt8.toNat_toUInt32,UInt8.toNat_toUInt32,
    show (8 : UInt32).toNat%32 = 8 from rfl,show (16 : UInt32).toNat%32 = 16 from rfl,
    show (24 : UInt32).toNat%32 = 24 from rfl,hfit 8 (by decide) _ (by omega),hfit 16 (by decide) _ (by omega),
    hfit 24 (by decide) _ (by omega),hor1,hor2,hor3,UInt32.toNat_ofNat',hfield]
  omega

theorem le32_error {buffer : Bytes} {i : Nat} (h : buffer.length < i+4) :
    le32 buffer i = .error (.undefined .outOfBounds) := by
  by_cases h0 : i < buffer.length
  · by_cases h1 : i+1 < buffer.length
    · by_cases h2 : i+2 < buffer.length
      · simp [le32,byteAt_ok h0,byteAt_ok h1,byteAt_ok h2,byteAt_error (show buffer.length ≤ i+3 by omega),bind,
          Except.bind]
      · simp [le32,byteAt_ok h0,byteAt_ok h1,byteAt_error (show buffer.length ≤ i+2 by omega),bind,Except.bind]
    · simp [le32,byteAt_ok h0,byteAt_error (show buffer.length ≤ i+1 by omega),bind,Except.bind]
  · simp [le32,byteAt_error (show buffer.length ≤ i by omega),bind,Except.bind]

def ZipEntry.ofHeader (header name : Bytes) : ZipEntry :=
  { crc32 := UInt32.ofNat (field header 16 4), csize := UInt32.ofNat (field header 20 4),
    usize := UInt32.ofNat (field header 24 4), localHeaderOffset := UInt32.ofNat (field header 42 4),
    compMethod := UInt16.ofNat (field header 10 2), gpFlags := UInt16.ofNat (field header 8 2), name }

def Truncated (rest : Bytes) : Prop := rest.take 4 = centralSignature ∧ rest.length < 46

instance (rest : Bytes) : Decidable (Truncated rest) := inferInstanceAs (Decidable (_ ∧ _))

def Names (filename rest : Bytes) (entry : ZipEntry) : Prop :=
  ∃ (r : RecordHead) (behind : Bytes), rest = r.bytes ++ behind ∧ r.name = filename ∧ entry = .ofHeader r.header r.name

theorem signature_iff {rest : Bytes} (h : 4 ≤ rest.length) (signature : Bytes) (hsignature : signature.length = 4) :
    UInt32.ofNat (field rest 0 4) = UInt32.ofNat (ofLE signature) ↔ rest.take 4 = signature := by
  have hlen : (rest.take 4).length = 4 := by
    rw [List.length_take]
    omega
  have hlt : field rest 0 4 < 2^32 := field_lt rest 0 4
  have hlt' : ofLE signature < 2^32 := by
    have hlt := ofLE_lt signature
    rwa [hsignature] at hlt
  rw [← UInt32.toNat_inj,UInt32.toNat_ofNat',UInt32.toNat_ofNat',Nat.mod_eq_of_lt hlt,Nat.mod_eq_of_lt hlt']
  constructor
  · intro heq
    have hback := toLE_ofLE (rest.take 4)
    have hback' := toLE_ofLE signature
    rw [hlen,show ofLE (rest.take 4) = field rest 0 4 from rfl,heq] at hback
    rw [hsignature] at hback'
    exact hback.symm.trans hback'
  · intro heq
    rw [← heq]
    rfl

theorem centralSignature_iff {rest : Bytes} (h : 4 ≤ rest.length) :
    UInt32.ofNat (field rest 0 4) = 0x02014b50 ↔ rest.take 4 = centralSignature :=
  signature_iff h centralSignature rfl

theorem localSignature_iff {rest : Bytes} (h : 4 ≤ rest.length) :
    UInt32.ofNat (field rest 0 4) = 0x04034b50 ↔ rest.take 4 = localSignature :=
  signature_iff h localSignature rfl

theorem le16_then {α : Type} (buffer : Bytes) (i : Nat) {f : UInt16 → Except Fault α}
    (hf : ∀ v, f v = .error (.undefined .outOfBounds)) : (le16 buffer i >>= f) = .error (.undefined .outOfBounds) := by
  by_cases h : i+2 ≤ buffer.length
  · rw [le16_ok h]
    exact hf _
  · rw [le16_error (by omega)]
    rfl

theorem le32_then {α : Type} (buffer : Bytes) (i : Nat) {f : UInt32 → Except Fault α}
    (hf : ∀ v, f v = .error (.undefined .outOfBounds)) : (le32 buffer i >>= f) = .error (.undefined .outOfBounds) := by
  by_cases h : i+4 ≤ buffer.length
  · rw [le32_ok h]
    exact hf _
  · rw [le32_error (by omega)]
    rfl

theorem le16_at {central : Bytes} {cdIdx i : Nat} (hi : i+2 ≤ 46) (h : 46 ≤ (central.drop cdIdx).length) :
    le16 central (cdIdx+i) = .ok (UInt16.ofNat (field (central.drop cdIdx) i 2)) := by
  rw [List.length_drop] at h
  rw [le16_ok (by omega),field_drop]

theorem le32_at {central : Bytes} {cdIdx i : Nat} (hi : i+4 ≤ 46) (h : 46 ≤ (central.drop cdIdx).length) :
    le32 central (cdIdx+i) = .ok (UInt32.ofNat (field (central.drop cdIdx) i 4)) := by
  rw [List.length_drop] at h
  rw [le32_ok (by omega),field_drop]

section

variable {central filename : Bytes} {fuel cdIdx : Nat}

theorem findEntryLoop_end (h : (central.drop cdIdx).take 4 ≠ centralSignature) :
    findEntryLoop central filename (fuel+1) cdIdx = .ok none := by
  by_cases hmore : cdIdx+4 ≤ central.length
  · have hlen : 4 ≤ (central.drop cdIdx).length := by
      rw [List.length_drop]
      omega
    have hsig := le32_ok hmore
    rw [← Nat.add_zero cdIdx,← field_drop,Nat.add_zero] at hsig
    have hne : UInt32.ofNat (field (central.drop cdIdx) 0 4) ≠ 0x02014b50 := fun heq => h ((centralSignature_iff hlen).mp heq)
    simp only [findEntryLoop,hmore,if_true,hsig,bind,Except.bind,ne_eq,hne,not_false_eq_true]
    rfl
  · simp only [findEntryLoop,hmore,if_false]
    rfl

theorem le32_signature (h : (central.drop cdIdx).take 4 = centralSignature) :
    cdIdx+4 ≤ central.length ∧ le32 central cdIdx = .ok 0x02014b50 := by
  have hlen := congrArg List.length h
  rw [List.length_take,show centralSignature.length = 4 from rfl,List.length_drop] at hlen
  have hmore : cdIdx+4 ≤ central.length := by omega
  have hrest : 4 ≤ (central.drop cdIdx).length := by
    rw [List.length_drop]
    omega
  have hsig := le32_ok hmore
  rw [← Nat.add_zero cdIdx,← field_drop,Nat.add_zero] at hsig
  exact ⟨hmore,by rw [hsig,(centralSignature_iff hrest).mpr h]⟩

theorem findEntryLoop_truncated (h : Truncated (central.drop cdIdx)) :
    findEntryLoop central filename (fuel+1) cdIdx = .error (.undefined .outOfBounds) := by
  obtain ⟨hstart,hshort⟩ := h
  obtain ⟨hmore,hsig⟩ := le32_signature hstart
  have hlast : central.length < cdIdx+42+4 := by
    rw [List.length_drop] at hshort
    omega
  simp only [findEntryLoop,hmore,if_true,hsig]
  refine le16_then central _ fun nameLen => le16_then central _ fun extraLen => le16_then central _ fun commentLen => ?_
  refine le16_then central _ fun compMethod => le16_then central _ fun gpFlags => ?_
  refine le32_then central _ fun crc32 => le32_then central _ fun csize => le32_then central _ fun usize => ?_
  rw [le32_error hlast]
  rfl

variable (filename fuel) in
theorem findEntryLoop_header {rest : Bytes} (hrest : central.drop cdIdx = rest)
    (hstart : rest.take 4 = centralSignature) (hheader : 46 ≤ rest.length) :
    findEntryLoop central filename (fuel+1) cdIdx =
      if rest.length < 46+field rest 28 2 then .ok none
      else if (rest.drop 46).take (field rest 28 2) = filename then
        .ok (some (.ofHeader rest ((rest.drop 46).take (field rest 28 2))))
      else findEntryLoop central filename fuel (cdIdx+(46+field rest 28 2+field rest 30 2+field rest 32 2)) := by
  subst hrest
  obtain ⟨hmore,hsig⟩ := le32_signature hstart
  have hsize : ∀ i, (UInt16.ofNat (field (central.drop cdIdx) i 2)).toNat = field (central.drop cdIdx) i 2 := fun i =>
    UInt16.toNat_ofNat_of_lt' (field_lt (central.drop cdIdx) i 2)
  have hbound : (cdIdx+46+field (central.drop cdIdx) 28 2 > central.length) =
      ((central.drop cdIdx).length < 46+field (central.drop cdIdx) 28 2) := by
    rw [List.length_drop,eq_iff_iff]
    omega
  simp only [findEntryLoop,hmore,if_true,hsig]
  rw [le16_at (i:=28) (by decide) hheader,le16_at (i:=30) (by decide) hheader,le16_at (i:=32) (by decide) hheader,
    le16_at (i:=10) (by decide) hheader,le16_at (i:=8) (by decide) hheader,le32_at (i:=16) (by decide) hheader,
    le32_at (i:=20) (by decide) hheader,le32_at (i:=24) (by decide) hheader,le32_at (i:=42) (by decide) hheader]
  simp only [bind,Except.bind,hsize,hbound,pure,Except.pure]
  by_cases hshort : (central.drop cdIdx).length < 46+field (central.drop cdIdx) 28 2
  · simp only [hshort,if_true,ite_self]
  · have hinside : cdIdx+46+field (central.drop cdIdx) 28 2 ≤ central.length := by
      rw [List.length_drop] at hshort hheader
      omega
    simp only [hshort,if_false,bytesAt,hinside,if_true,List.drop_drop]
    rfl

theorem head_take (r : RecordHead) (behind : Bytes) : (r.bytes ++ behind).take 4 = centralSignature := by
  rw [RecordHead.bytes,List.append_assoc,List.take_append_of_le_length (by rw [r.header_length]; decide),r.signature]

theorem head_field (r : RecordHead) (behind : Bytes) {i n : Nat} (hi : i+n ≤ 46) :
    field (r.bytes ++ behind) i n = field r.header i n := by
  rw [RecordHead.bytes,List.append_assoc,field_append (by rw [r.header_length]; exact hi)]

theorem head_name (r : RecordHead) (behind : Bytes) :
    ((r.bytes ++ behind).drop 46).take (field r.header 28 2) = r.name := by
  rw [RecordHead.bytes,List.append_assoc,List.drop_left' r.header_length,r.name_length,List.take_left]

variable (fuel) in
theorem findEntryLoop_head {r : RecordHead} {behind : Bytes} (hrest : central.drop cdIdx = r.bytes ++ behind) :
    findEntryLoop central filename (fuel+1) cdIdx =
      if r.name = filename then .ok (some (.ofHeader r.header r.name))
      else findEntryLoop central filename fuel
        (cdIdx+(46+field r.header 28 2+field r.header 30 2+field r.header 32 2)) := by
  have hlen := r.bytes_length
  have hfits : ¬ (r.bytes ++ behind).length < 46+field r.header 28 2 := by
    rw [List.length_append,r.name_length]
    omega
  have hentry : ZipEntry.ofHeader (r.bytes ++ behind) r.name = .ofHeader r.header r.name := by
    simp only [ZipEntry.ofHeader,head_field r behind (show 16+4 ≤ 46 by decide),
      head_field r behind (show 20+4 ≤ 46 by decide),head_field r behind (show 24+4 ≤ 46 by decide),
      head_field r behind (show 42+4 ≤ 46 by decide),head_field r behind (show 10+2 ≤ 46 by decide),
      head_field r behind (show 8+2 ≤ 46 by decide)]
  rw [findEntryLoop_header filename fuel hrest (head_take r behind) (by rw [List.length_append]; omega),
    head_field r behind (show 28+2 ≤ 46 by decide),head_field r behind (show 30+2 ≤ 46 by decide),
    head_field r behind (show 32+2 ≤ 46 by decide),head_name,if_neg hfits,hentry]

variable (fuel) in
theorem findEntryLoop_records {front rest : Bytes} (records : List CentralRecord)
    (hnames : ∀ r ∈ records, r.name ≠ filename) (hcentral : central = front ++ (records.flatMap CentralRecord.bytes ++ rest)) :
    findEntryLoop central filename (fuel+records.length) front.length =
      findEntryLoop central filename fuel (front ++ records.flatMap CentralRecord.bytes).length := by
  induction records generalizing front with
  | nil => simp
  | cons r records ih =>
    have hdrop : central.drop front.length =
        r.toRecordHead.bytes ++ (r.extra ++ r.comment ++ (records.flatMap CentralRecord.bytes ++ rest)) := by
      rw [hcentral,List.drop_left]
      simp [r.bytes_eq]
    have hnext := ih (fun r' hr' => hnames r' (by simp [hr']))
      (show central = (front ++ r.bytes) ++ (records.flatMap CentralRecord.bytes ++ rest) by simp [hcentral])
    rw [List.length_cons,← Nat.add_assoc,findEntryLoop_head _ hdrop,if_neg (hnames r (by simp)),← r.bytes_length,
      ← List.length_append,hnext]
    simp

theorem findEntryLoop_stop {rest : Bytes} (hrest : central.drop cdIdx = rest) (hstop : Stops filename rest)
    (hfuel : 46 ≤ rest.length → 0 < fuel) :
    let result := findEntryLoop central filename (fuel+1) cdIdx
    (Truncated rest ∧ result = .error (.undefined .outOfBounds)) ∨
    (∃ entry, Names filename rest entry ∧ result = .ok (some entry)) ∨
    (¬ Truncated rest ∧ (∀ entry, ¬ Names filename rest entry) ∧ result = .ok none) := by
  subst hrest
  intro result
  have hnone : ¬ (central.drop cdIdx).take 4 = centralSignature → ∀ entry, ¬ Names filename (central.drop cdIdx) entry := by
    rintro hstart entry ⟨r,behind,heq,-⟩
    exact hstart (heq ▸ head_take r behind)
  by_cases hstart : (central.drop cdIdx).take 4 = centralSignature
  · by_cases hheader : 46 ≤ (central.drop cdIdx).length
    · have hwhole : ¬ Truncated (central.drop cdIdx) := fun h => by
        have hshort := h.2
        omega
      refine Or.inr ?_
      by_cases hname : 46+field (central.drop cdIdx) 28 2 ≤ (central.drop cdIdx).length
      · obtain ⟨r,behind,heq,-⟩ := exists_head hstart hname
        have hresult : result = _ := findEntryLoop_head fuel heq
        by_cases hfound : r.name = filename
        · rw [if_pos hfound] at hresult
          exact Or.inl ⟨_,⟨r,behind,heq,hfound,rfl⟩,hresult⟩
        · rw [if_neg hfound] at hresult
          -- A whole record would have another name, so this one is cut short and the loop has run out.
          have hcut : behind.length < field r.header 30 2+field r.header 32 2 := by
            by_contra hlong
            obtain ⟨whole,after,rfl,hbytes⟩ := r.exists_record (Nat.not_lt.mp hlong)
            exact hfound (hstop whole after (heq.trans hbytes))
          have hlen := congrArg List.length heq
          rw [List.length_append,r.bytes_length,← r.name_length,List.length_drop] at hlen
          have hout : central.drop
              (cdIdx+(46+field r.header 28 2+field r.header 30 2+field r.header 32 2)) = [] :=
            List.drop_eq_nil_iff.mpr (by omega)
          obtain ⟨k,rfl⟩ := Nat.exists_eq_succ_of_ne_zero (Nat.ne_of_gt (hfuel hheader))
          refine Or.inr ⟨hwhole,?_,hresult.trans (findEntryLoop_end (by rw [hout]; decide))⟩
          rintro entry ⟨r',behind',heq',hname',-⟩
          exact hfound ((RecordHead.unique (heq.symm.trans heq')).2.trans hname')
      · have hresult := findEntryLoop_header filename fuel rfl hstart (Nat.le_of_not_lt (by omega))
        rw [if_pos (Nat.not_le.mp hname)] at hresult
        refine Or.inr ⟨hwhole,?_,hresult⟩
        rintro entry ⟨r,behind,heq,-⟩
        have hlen := congrArg List.length heq
        rw [List.length_append,r.bytes_length] at hlen
        have hsame := head_field r behind (show 28+2 ≤ 46 by decide)
        rw [← heq,r.name_length] at hsame
        omega
    · have htruncated : Truncated (central.drop cdIdx) := ⟨hstart,by omega⟩
      exact Or.inl ⟨htruncated,findEntryLoop_truncated htruncated⟩
  · exact Or.inr (Or.inr ⟨fun h => hstart h.1,hnone hstart,findEntryLoop_end hstart⟩)

end

structure Passed (filename central : Bytes) (records : List CentralRecord) (rest : Bytes) : Prop where
  central : central = records.flatMap CentralRecord.bytes ++ rest
  names : ∀ r ∈ records, r.name ≠ filename

theorem length_records_le (records : List CentralRecord) :
    records.length ≤ (records.flatMap CentralRecord.bytes).length := by
  induction records with
  | nil => exact Nat.le_refl 0
  | cons r records ih =>
    have hr := r.bytes_length
    simp only [List.length_cons,List.flatMap_cons,List.length_append]
    omega

theorem findEntry_split {central filename rest : Bytes} {records : List CentralRecord}
    (h : Passed filename central records rest) (hstop : Stops filename rest) :
    (Truncated rest ∧ findEntry central filename = .error (.undefined .outOfBounds)) ∨
    (∃ entry, Names filename rest entry ∧ findEntry central filename = .ok (some entry)) ∨
    (¬ Truncated rest ∧ (∀ entry, ¬ Names filename rest entry) ∧ findEntry central filename = .ok none) := by
  have hlength := congrArg List.length h.central
  rw [List.length_append] at hlength
  have hrecords := length_records_le records
  have hfuel : central.length+1 = central.length-records.length+1+records.length := by omega
  have hrun := findEntryLoop_records (central.length-records.length+1) records h.names
    (show central = [] ++ _ from h.central)
  rw [← hfuel,List.nil_append] at hrun
  rw [findEntry,show (0 : Nat) = ([] : Bytes).length from rfl,hrun]
  exact findEntryLoop_stop (by rw [h.central,List.drop_left]) hstop fun hlong => by omega

theorem Truncated.stops {rest : Bytes} (h : Truncated rest) (filename : Bytes) : Stops filename rest := by
  intro r behind hrest
  have hlength := congrArg List.length hrest
  have hshort := h.2
  rw [List.length_append,r.bytes_length] at hlength
  omega

theorem Names.stops {filename rest : Bytes} {entry : ZipEntry} (h : Names filename rest entry) :
    Stops filename rest := by
  obtain ⟨r,behind,hrest,hname,-⟩ := h
  intro whole after hwhole
  rw [hrest,whole.bytes_eq,List.append_assoc] at hwhole
  exact (RecordHead.unique hwhole).2.symm.trans hname

theorem Names.unique {filename rest : Bytes} {entry entry' : ZipEntry} (h : Names filename rest entry)
    (h' : Names filename rest entry') : entry = entry' := by
  obtain ⟨r,behind,hrest,-,rfl⟩ := h
  obtain ⟨r',behind',hrest',-,rfl⟩ := h'
  obtain ⟨hheader,hname⟩ := RecordHead.unique (hrest.symm.trans hrest')
  rw [hheader,hname]

theorem Names.not_truncated {filename rest : Bytes} {entry : ZipEntry} (h : Names filename rest entry) :
    ¬ Truncated rest := by
  obtain ⟨r,behind,hrest,-⟩ := h
  intro ht
  have hshort := ht.2
  rw [hrest,List.length_append,r.bytes_length] at hshort
  omega

/-- The loop reads past the directory if and only if it comes to a signature without a header. -/
theorem findEntry_outOfBounds_iff (central filename : Bytes) :
    findEntry central filename = .error (.undefined .outOfBounds) ↔
      ∃ records rest, Passed filename central records rest ∧ Truncated rest := by
  constructor
  · intro h
    obtain ⟨records,rest,hcentral,hnames,hstop⟩ := exists_split filename central
    refine ⟨records,rest,⟨hcentral,hnames⟩,?_⟩
    rcases findEntry_split ⟨hcentral,hnames⟩ hstop with ⟨ht,-⟩ | ⟨entry,-,hsome⟩ | ⟨-,-,hnone⟩
    · exact ht
    · rw [hsome] at h
      cases h
    · rw [hnone] at h
      cases h
  · rintro ⟨records,rest,hpassed,ht⟩
    rcases findEntry_split hpassed (ht.stops filename) with ⟨-,h⟩ | ⟨entry,hnames,-⟩ | ⟨hnot,-⟩
    · exact h
    · exact absurd ht hnames.not_truncated
    · exact absurd ht hnot

theorem findEntry_some_iff (central filename : Bytes) (entry : ZipEntry) :
    findEntry central filename = .ok (some entry) ↔
      ∃ records rest, Passed filename central records rest ∧ Names filename rest entry := by
  constructor
  · intro h
    obtain ⟨records,rest,hcentral,hnames,hstop⟩ := exists_split filename central
    refine ⟨records,rest,⟨hcentral,hnames⟩,?_⟩
    rcases findEntry_split ⟨hcentral,hnames⟩ hstop with ⟨-,hbad⟩ | ⟨entry',hentry,hsome⟩ | ⟨-,-,hnone⟩
    · rw [hbad] at h
      cases h
    · rw [hsome] at h
      cases h
      exact hentry
    · rw [hnone] at h
      cases h
  · rintro ⟨records,rest,hpassed,hentry⟩
    rcases findEntry_split hpassed hentry.stops with ⟨ht,-⟩ | ⟨entry',hentry',h⟩ | ⟨-,hnot,-⟩
    · exact absurd ht hentry.not_truncated
    · rw [h,hentry.unique hentry']
    · exact absurd hentry (hnot entry)

theorem length_of_findEntry {central filename : Bytes} {entry : ZipEntry}
    (hwalk : findEntry central filename = .ok (some entry)) :
    46 ≤ central.length := by
  obtain ⟨records,rest,hpassed,r,behind,rfl,-⟩ := (findEntry_some_iff central filename entry).mp hwalk
  rw [hpassed.central,List.length_append,List.length_append,r.bytes_length]
  omega

theorem findEntry_cases (central filename : Bytes) :
    findEntry central filename = .error (.undefined .outOfBounds) ∨ ∃ found, findEntry central filename = .ok found := by
  obtain ⟨records,rest,hcentral,hnames,hstop⟩ := exists_split filename central
  rcases findEntry_split ⟨hcentral,hnames⟩ hstop with ⟨-,h⟩ | ⟨entry,-,h⟩ | ⟨-,-,h⟩
  · exact Or.inl h
  · exact Or.inr ⟨_,h⟩
  · exact Or.inr ⟨_,h⟩

structure ZipEntry.CopiedFrom (entry : ZipEntry) (r : CentralRecord) : Prop where
  name : entry.name = r.name
  gpFlags : entry.gpFlags.toNat = field r.bytes 8 2
  compMethod : entry.compMethod.toNat = field r.bytes 10 2
  crc32 : entry.crc32.toNat = field r.bytes 16 4
  csize : entry.csize.toNat = field r.bytes 20 4
  usize : entry.usize.toNat = field r.bytes 24 4
  localHeaderOffset : entry.localHeaderOffset.toNat = field r.bytes 42 4

theorem ZipEntry.copiedFrom_ofHeader (r : CentralRecord) : (ofHeader r.header r.name).CopiedFrom r := by
  have hfield : ∀ i n, i+n ≤ 46 → field r.bytes i n = field r.header i n := fun i n hi => by
    rw [r.bytes_eq,head_field r.toRecordHead _ hi]
  have h16 : ∀ i, i+2 ≤ 46 → (UInt16.ofNat (field r.header i 2)).toNat = field r.bytes i 2 := fun i hi =>
    (UInt16.toNat_ofNat_of_lt' (field_lt r.header i 2)).trans (hfield i 2 hi).symm
  have h32 : ∀ i, i+4 ≤ 46 → (UInt32.ofNat (field r.header i 4)).toNat = field r.bytes i 4 := fun i hi =>
    (UInt32.toNat_ofNat_of_lt' (field_lt r.header i 4)).trans (hfield i 4 hi).symm
  exact ⟨rfl,h16 8 (by decide),h16 10 (by decide),h32 16 (by decide),h32 20 (by decide),h32 24 (by decide),
    h32 42 (by decide)⟩

theorem ZipEntry.CopiedFrom.unique {entry entry' : ZipEntry} {r : CentralRecord} (h : entry.CopiedFrom r)
    (h' : entry'.CopiedFrom r) : entry = entry' := by
  have hcrc32 := UInt32.toNat_inj.mp (h.crc32.trans h'.crc32.symm)
  have hcsize := UInt32.toNat_inj.mp (h.csize.trans h'.csize.symm)
  have husize := UInt32.toNat_inj.mp (h.usize.trans h'.usize.symm)
  have hoffset := UInt32.toNat_inj.mp (h.localHeaderOffset.trans h'.localHeaderOffset.symm)
  have hmethod := UInt16.toNat_inj.mp (h.compMethod.trans h'.compMethod.symm)
  have hflags := UInt16.toNat_inj.mp (h.gpFlags.trans h'.gpFlags.symm)
  have hname := h.name.trans h'.name.symm
  cases entry
  cases entry'
  simp_all

theorem findEntry_records (records : List CentralRecord) (filename : Bytes) :
    findEntry (records.flatMap CentralRecord.bytes) filename =
      .ok ((records.find? fun r => r.name = filename).map fun r => .ofHeader r.header r.name) := by
  cases hfind : records.find? fun r => r.name = filename with
  | some r =>
    obtain ⟨hname,before,after,rfl,hbefore⟩ := List.find?_eq_some_iff_append.mp hfind
    refine (findEntry_some_iff _ filename _).mpr
      ⟨before,r.bytes ++ after.flatMap CentralRecord.bytes,⟨by simp,fun r' hr' => ?_⟩,r.toRecordHead,
        r.extra ++ r.comment ++ after.flatMap CentralRecord.bytes,?_,by simpa using hname,rfl⟩
    · simpa using hbefore r' hr'
    · simp [r.bytes_eq]
  | none =>
    have hnames : ∀ r ∈ records, r.name ≠ filename := by simpa using List.find?_eq_none.mp hfind
    have hlength := length_records_le records
    have hcentral : records.flatMap CentralRecord.bytes = [] ++ (records.flatMap CentralRecord.bytes ++ []) := by simp
    have hrun := findEntryLoop_records ((records.flatMap CentralRecord.bytes).length-records.length+1) records hnames
      hcentral
    have hfuel : (records.flatMap CentralRecord.bytes).length+1 =
        (records.flatMap CentralRecord.bytes).length-records.length+1+records.length := by omega
    rw [findEntry,hfuel,show (0 : Nat) = ([] : Bytes).length from rfl,hrun]
    refine findEntryLoop_end ?_
    rw [List.nil_append,List.drop_length]
    decide

/-- Of records that stand back to back the loop finds the first with the name, with the fields of that record, and it
finds none if and only if none has the name. -/
theorem directory_search (records : List CentralRecord) (filename : Bytes) :
    (∀ entry, findEntry (records.flatMap CentralRecord.bytes) filename = .ok (some entry) ↔
      ∃ before r after, records = before ++ r :: after ∧ (∀ r' ∈ before, r'.name ≠ filename) ∧ r.name = filename ∧
        entry.CopiedFrom r) ∧
    (findEntry (records.flatMap CentralRecord.bytes) filename = .ok none ↔ ∀ r ∈ records, r.name ≠ filename) := by
  rw [findEntry_records]
  constructor
  · intro entry
    simp only [Except.ok.injEq,Option.map_eq_some_iff,List.find?_eq_some_iff_append,decide_eq_true_eq,Bool.not_eq_true',
      decide_eq_false_iff_not]
    constructor
    · rintro ⟨r,⟨hname,before,after,hrecords,hbefore⟩,rfl⟩
      exact ⟨before,r,after,hrecords,hbefore,hname,ZipEntry.copiedFrom_ofHeader r⟩
    · rintro ⟨before,r,after,hrecords,hbefore,hname,hcopied⟩
      exact ⟨r,⟨hname,before,after,hrecords,hbefore⟩,(ZipEntry.copiedFrom_ofHeader r).unique hcopied⟩
  · simp

end CyrexMC
