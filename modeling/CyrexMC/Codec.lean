import CyrexMC.BinaryReader
import CyrexMC.BinaryWriter
import CyrexMC.Lib.Integers
set_option autoImplicit false

namespace CyrexMC
open BinaryReader BinaryWriter

theorem exec_reads {α : Type} {d : Read α} {bytes suffix : Bytes} {a : α} (h : d.Reads bytes a)
    {r : BinaryReader} (hr : Open r) (ha : r.ahead = bytes ++ suffix) :
    exec d r = .ok a { r with offset := r.offset+bytes.length } := by
  have hf := exec_feed d hr
  rw [ha,h suffix] at hf
  have hlen := congrArg List.length ha
  rw [ahead_length,List.length_append] at hlen
  have hi := hr.inside
  have ho : r.dataPtr.length-suffix.length = r.offset+bytes.length := by omega
  simpa only [upTo,ho] using hf

theorem readU8_reads (v : UInt8) : readU8.Reads (writeU8 v) v :=
  (Pull.Reads.take [v]).map fun bytes => bytes.headD 0

theorem readI8_reads (v : Int8) : readI8.Reads (writeI8 v) v := by
  have h := (readU8_reads v.toUInt8).map UInt8.toInt8
  simpa [readI8,writeI8,writeU8] using h

theorem readBool_reads (v : Bool) : readBool.Reads (writeBool v) v := by
  have h := (readU8_reads (if v then 1 else 0)).map fun b => b != 0
  cases v <;> simpa [readBool,writeBool,writeU8] using h

theorem readRawLE_reads {n v : Nat} (h : v < 256^n) :
    (readRawLE n).Reads (FixedWidth.toLE n v) v := by
  have ht := (Pull.Reads.take (FixedWidth.toLE n v) : (Pull.take _ : Read Bytes).Reads _ _).map FixedWidth.ofLE
  rwa [FixedWidth.toLE_length,FixedWidth.ofLE_toLE_of_lt h] at ht

theorem readRawBE_reads {n v : Nat} (h : v < 256^n) :
    (readRawBE n).Reads (FixedWidth.toBE n v) v := by
  have ht := (Pull.Reads.take (FixedWidth.toBE n v) : (Pull.take _ : Read Bytes).Reads _ _).map FixedWidth.ofBE
  rwa [FixedWidth.toBE_length,FixedWidth.ofBE_toBE_of_lt h] at ht

theorem readU16LE_reads (v : UInt16) : readU16LE.Reads (writeU16LE v) v := by
  have h := (readRawLE_reads (n:=2) v.toNat_lt).map UInt16.ofNat
  rwa [UInt16.ofNat_toNat] at h

theorem readU16BE_reads (v : UInt16) : readU16BE.Reads (writeU16BE v) v := by
  have h := (readRawBE_reads (n:=2) v.toNat_lt).map UInt16.ofNat
  rwa [UInt16.ofNat_toNat] at h

theorem readU32LE_reads (v : UInt32) : readU32LE.Reads (writeU32LE v) v := by
  have h := (readRawLE_reads (n:=4) v.toNat_lt).map UInt32.ofNat
  rwa [UInt32.ofNat_toNat] at h

theorem readU32BE_reads (v : UInt32) : readU32BE.Reads (writeU32BE v) v := by
  have h := (readRawBE_reads (n:=4) v.toNat_lt).map UInt32.ofNat
  rwa [UInt32.ofNat_toNat] at h

theorem readU64LE_reads (v : UInt64) : readU64LE.Reads (writeU64LE v) v := by
  have h := (readRawLE_reads (n:=8) v.toNat_lt).map UInt64.ofNat
  rwa [UInt64.ofNat_toNat] at h

theorem readU64BE_reads (v : UInt64) : readU64BE.Reads (writeU64BE v) v := by
  have h := (readRawBE_reads (n:=8) v.toNat_lt).map UInt64.ofNat
  rwa [UInt64.ofNat_toNat] at h

theorem readI16LE_reads (v : Int16) : readI16LE.Reads (writeI16LE v) v := by
  have h := (readRawLE_reads (n:=2) v.toUInt16.toNat_lt).map fun k => (UInt16.ofNat k).toInt16
  rwa [UInt16.ofNat_toNat] at h

theorem readI16BE_reads (v : Int16) : readI16BE.Reads (writeI16BE v) v := by
  have h := (readRawBE_reads (n:=2) v.toUInt16.toNat_lt).map fun k => (UInt16.ofNat k).toInt16
  rwa [UInt16.ofNat_toNat] at h

theorem readI32LE_reads (v : Int32) : readI32LE.Reads (writeI32LE v) v := by
  have h := (readRawLE_reads (n:=4) v.toUInt32.toNat_lt).map fun k => (UInt32.ofNat k).toInt32
  rwa [UInt32.ofNat_toNat] at h

theorem readI32BE_reads (v : Int32) : readI32BE.Reads (writeI32BE v) v := by
  have h := (readRawBE_reads (n:=4) v.toUInt32.toNat_lt).map fun k => (UInt32.ofNat k).toInt32
  rwa [UInt32.ofNat_toNat] at h

theorem readI64LE_reads (v : Int64) : readI64LE.Reads (writeI64LE v) v := by
  have h := (readRawLE_reads (n:=8) v.toUInt64.toNat_lt).map fun k => (UInt64.ofNat k).toInt64
  rwa [UInt64.ofNat_toNat] at h

theorem readI64BE_reads (v : Int64) : readI64BE.Reads (writeI64BE v) v := by
  have h := (readRawBE_reads (n:=8) v.toUInt64.toNat_lt).map fun k => (UInt64.ofNat k).toInt64
  rwa [UInt64.ofNat_toNat] at h

theorem accumulate {w value shift v : Nat} (b : UInt8) (hb : b.toNat % 128 = v % 128)
    (hacc : value < 2^shift) (hfit : v*2^shift < 2^w) :
    value ||| ((b &&& 0x7F).toNat <<< shift)%2^w = value+v%128*2^shift := by
  have hle : v%128*2^shift ≤ v*2^shift := Nat.mul_le_mul_right _ (Nat.mod_le v 128)
  rw [Leb128.and_mask,hb,Nat.shiftLeft_eq,Nat.mod_eq_of_lt (Nat.lt_of_le_of_lt hle hfit)]
  have h := Nat.two_pow_add_eq_or_of_lt hacc (v%128)
  rw [Nat.or_comm,Nat.mul_comm (v%128),← h,Nat.add_comm]

theorem readVarLoop_last (w : Nat) (overflow : Thrown) (n : Nat) {v value shift : Nat}
    (hlow : v < 128) (hacc : value < 2^shift) (hfit : v*2^shift < 2^w) :
    (readVarLoop w overflow (n+1) value shift).Reads (writeVarLoop (n+1) v) (value+v*2^shift) := by
  have hb := Leb128.ofNat_low v hlow
  have hstop : UInt8.ofNat v &&& 0x80 = 0 := (Leb128.and_continue _).mpr (by omega)
  have hsum := accumulate (UInt8.ofNat v) (by rw [hb]) hacc hfit
  have hw : writeVarLoop (n+1) v = [UInt8.ofNat v] ++ [] := by
    simp [writeVarLoop,show ¬ v ≥ 0x80 by omega]
  rw [hw,readVarLoop]
  apply (readU8_reads (UInt8.ofNat v)).bind
  simp only [hstop,if_true,hsum,Nat.mod_eq_of_lt hlow]
  exact Pull.Reads.done _

theorem readVarLoop_reads (w : Nat) (overflow : Thrown) (n : Nat) (v value shift : Nat)
    (hv : v < 128^(n+1)) (hacc : value < 2^shift) (hfit : v*2^shift < 2^w) :
    (readVarLoop w overflow (n+1) value shift).Reads (writeVarLoop (n+1) v) (value+v*2^shift) := by
  induction n generalizing v value shift with
  | zero => exact readVarLoop_last w overflow 0 (by omega) hacc hfit
  | succ n ih =>
    by_cases hlow : v < 128
    · exact readVarLoop_last w overflow (n+1) hlow hacc hfit
    · have hb := Leb128.or_continue (UInt8.ofNat v)
      have hmod : (UInt8.ofNat v ||| 0x80).toNat % 128 = v % 128 := by rw [hb]; simp
      have hgo : ¬ (UInt8.ofNat v ||| 0x80) &&& 0x80 = 0 := by rw [Leb128.and_continue,hb]; omega
      have hsum := accumulate _ hmod hacc hfit
      have hsplit : v = v%128+128*(v/128) := (Nat.mod_add_div v 128).symm
      have hpow : 2^(shift+7) = 128*2^shift := by rw [Nat.pow_add,Nat.mul_comm]
      have hshift : v >>> 7 = v/128 := Nat.shiftRight_eq_div_pow v 7
      have htotal : value+v%128*2^shift+v/128*2^(shift+7) = value+v*2^shift := by
        calc value+v%128*2^shift+v/128*2^(shift+7)
            = value+(v%128+128*(v/128))*2^shift := by rw [hpow]; ring
          _ = value+v*2^shift := by rw [← hsplit]
      have hacc' : value+v%128*2^shift < 2^(shift+7) := by
        have hm : v%128*2^shift ≤ 127*2^shift := Nat.mul_le_mul_right _ (by omega)
        omega
      have hfit' : v/128*2^(shift+7) < 2^w := by
        have hle : v/128*128*2^shift ≤ v*2^shift := Nat.mul_le_mul_right _ (Nat.div_mul_le_self v 128)
        rw [hpow,← Nat.mul_assoc]
        omega
      have hnext := ih (v/128) _ _ (by rw [Nat.pow_succ] at hv; omega) hacc' hfit'
      rw [htotal] at hnext
      have hw : writeVarLoop (n+1+1) v =
          [UInt8.ofNat v ||| 0x80] ++ writeVarLoop (n+1) (v/128) := by
        simp [writeVarLoop,show v ≥ 0x80 by omega,hshift]
      rw [hw,readVarLoop]
      apply (readU8_reads (UInt8.ofNat v ||| 0x80)).bind
      simp only [hgo,if_false,hsum]
      exact hnext

theorem readVarUInt_reads (v : UInt32) : readVarUInt.Reads (writeVarUInt v) v := by
  have hv := v.toNat_lt
  have h := readVarLoop_reads 32 .varUIntOverflow 4 v.toNat 0 0
    (by omega) (by omega) (by omega)
  have hr := h.map UInt32.ofNat
  simpa [readVarUInt,writeVarUInt] using hr

theorem readVarULong_reads (v : UInt64) : readVarULong.Reads (writeVarULong v) v := by
  have hv := v.toNat_lt
  have h := readVarLoop_reads 64 .varULongOverflow 9 v.toNat 0 0
    (by omega) (by omega) (by omega)
  have hr := h.map UInt64.ofNat
  simpa [readVarULong,writeVarULong] using hr

theorem readVarInt_reads (v : Int32) :
    readVarInt.Reads (writeVarInt v) (.ofBitVec (ZigZag.unmask (ZigZag.mask v.toBitVec))) := by
  have h := (readVarUInt_reads (v <<< 1 ^^^ -(v &&& 1)).toUInt32).map fun u =>
    (u >>> 1 ^^^ (~~~(u &&& 1)+1)).toInt32
  have hv : ((v <<< 1 ^^^ -(v &&& 1)).toUInt32 >>> 1 ^^^ (~~~((v <<< 1 ^^^ -(v &&& 1)).toUInt32 &&& 1)+1)).toInt32 =
      .ofBitVec (ZigZag.unmask (ZigZag.mask v.toBitVec)) := by
    rw [← Int32.toBitVec_inj]
    simp [ZigZag.mask,ZigZag.unmask]
  rwa [hv] at h

theorem readVarLong_reads (v : Int64) :
    readVarLong.Reads (writeVarLong v) (.ofBitVec (ZigZag.unmask (ZigZag.mask v.toBitVec))) := by
  have h := (readVarULong_reads (v <<< 1 ^^^ -(v &&& 1)).toUInt64).map fun u =>
    (u >>> 1 ^^^ (~~~(u &&& 1)+1)).toInt64
  have hv : ((v <<< 1 ^^^ -(v &&& 1)).toUInt64 >>> 1 ^^^ (~~~((v <<< 1 ^^^ -(v &&& 1)).toUInt64 &&& 1)+1)).toInt64 =
      .ofBitVec (ZigZag.unmask (ZigZag.mask v.toBitVec)) := by
    rw [← Int64.toBitVec_inj]
    simp [ZigZag.mask,ZigZag.unmask]
  rwa [hv] at h

def Returns {α : Type} (d : Read α) (written suffix : Bytes) (a : α) : Prop :=
  exec d (ofBytes (written ++ suffix)) = .ok a { ofBytes (written ++ suffix) with offset := written.length }

theorem returns_iff {α : Type} {d : Read α} {written : Bytes} {a b : α} (h : d.Reads written a) (suffix : Bytes) :
    Returns d written suffix b ↔ a = b := by
  have hahead : (ofBytes (written ++ suffix)).ahead = written ++ suffix := rfl
  have hrun := exec_reads h (open_ofBytes (written ++ suffix)) hahead
  rw [Returns,hrun]
  simp [ofBytes]

/-- A signed number comes back if and only if it is even and not negative, or odd and negative. -/
theorem readVar_writeVar_iff (v : Int32) (w : Int64) (suffix : Bytes) :
    (Returns readVarInt (writeVarInt v) suffix v ↔ (0 ≤ v.toInt ↔ v.toInt%2 = 0)) ∧
    (Returns readVarLong (writeVarLong w) suffix w ↔ (0 ≤ w.toInt ↔ w.toInt%2 = 0)) := by
  constructor
  · rw [returns_iff (readVarInt_reads v),← Int32.toBitVec_inj]
    exact ZigZag.unmask_mask_iff_sign v.toBitVec (by decide)
  · rw [returns_iff (readVarLong_reads w),← Int64.toBitVec_inj]
    exact ZigZag.unmask_mask_iff_sign w.toBitVec (by decide)

/-- The write of 1 spreads its lowest bit over all the others. -/
theorem readVarInt_writeVarInt_one : ¬ Returns readVarInt (writeVarInt 1) [] 1 ∧
    Returns readVarInt (writeVarInt 1) [] (-0x7fffffff) := by
  have hread := readVarInt_reads 1
  rw [returns_iff hread,returns_iff hread]
  decide

theorem readString_reads {str : Bytes} (h : str.length < 2^32) :
    readString.Reads (writeString str) str := by
  have hlen : (UInt32.ofNat str.length).toNat = str.length := by
    rw [UInt32.toNat_ofNat',Nat.mod_eq_of_lt h]
  apply (readVarUInt_reads (UInt32.ofNat str.length)).bind
  rw [hlen]
  exact Pull.Reads.take str

theorem readStringU32LE_reads {str : Bytes} (h : str.length < 2^32) :
    readStringU32LE.Reads (writeStringU32LE str) str := by
  have hlen : (UInt32.ofNat str.length).toNat = str.length := by
    rw [UInt32.toNat_ofNat',Nat.mod_eq_of_lt h]
  apply (readU32LE_reads (UInt32.ofNat str.length)).bind
  rw [hlen]
  exact Pull.Reads.take str

theorem readUUID_reads (id : UUID) : readUUID.Reads (writeUUID id) id := by
  obtain ⟨bytes,hsize⟩ := id
  have hlen : (writeUUID ⟨bytes,hsize⟩).length = 16 := by simp [writeUUID,hsize]
  have ht : (Pull.take _ : Read Bytes).Reads _ _ := Pull.Reads.take (writeUUID ⟨bytes,hsize⟩)
  rw [hlen] at ht
  have hback : ((writeUUID ⟨bytes,hsize⟩).take 8).reverse ++ ((writeUUID ⟨bytes,hsize⟩).drop 8).reverse
      = bytes := by
    have h8 : (bytes.take 8).reverse.length = 8 := by simp [hsize]
    simp [writeUUID,h8]
  rw [← List.append_nil (writeUUID ⟨bytes,hsize⟩)]
  apply ht.bind
  intro tail
  simp only [hback,hsize,dite_true,Pull.pure_eq,Pull.feed_done,List.nil_append]

end CyrexMC
