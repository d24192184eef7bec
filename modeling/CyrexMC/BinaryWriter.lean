import CyrexMC.Basic
import CyrexMC.Lib.Integers
set_option autoImplicit false

/-! `network/io/binary_writer.hpp`. A write appends to the buffer, so a write is the bytes it
appends and a run of writes is their concatenation. -/

namespace CyrexMC.BinaryWriter

def writeU8 (v : UInt8) : Bytes := [v]
def writeI8 (v : Int8) : Bytes := [v.toUInt8]
def writeBool (v : Bool) : Bytes := [if v then 1 else 0]

def writeU16LE (v : UInt16) : Bytes := FixedWidth.toLE 2 v.toNat
def writeU16BE (v : UInt16) : Bytes := FixedWidth.toBE 2 v.toNat
def writeI16LE (v : Int16) : Bytes := FixedWidth.toLE 2 v.toUInt16.toNat
def writeI16BE (v : Int16) : Bytes := FixedWidth.toBE 2 v.toUInt16.toNat
def writeU32LE (v : UInt32) : Bytes := FixedWidth.toLE 4 v.toNat
def writeU32BE (v : UInt32) : Bytes := FixedWidth.toBE 4 v.toNat
def writeI32LE (v : Int32) : Bytes := FixedWidth.toLE 4 v.toUInt32.toNat
def writeI32BE (v : Int32) : Bytes := FixedWidth.toBE 4 v.toUInt32.toNat
def writeU64LE (v : UInt64) : Bytes := FixedWidth.toLE 8 v.toNat
def writeU64BE (v : UInt64) : Bytes := FixedWidth.toBE 8 v.toNat
def writeI64LE (v : Int64) : Bytes := FixedWidth.toLE 8 v.toUInt64.toNat
def writeI64BE (v : Int64) : Bytes := FixedWidth.toBE 8 v.toUInt64.toNat

def writeFloatLE (bits : UInt32) : Bytes := writeU32LE bits

/-- The loop of `writeVarUInt` and `writeVarULong`: `n` bytes are room for `7*n` bits. -/
def writeVarLoop : Nat → Nat → Bytes
  | 0, _ => []
  | n+1, v => if v ≥ 0x80 then (UInt8.ofNat v ||| 0x80) :: writeVarLoop n (v >>> 7) else [UInt8.ofNat v]

def writeVarUInt (v : UInt32) : Bytes := writeVarLoop 5 v.toNat
def writeVarULong (v : UInt64) : Bytes := writeVarLoop 10 v.toNat

def writeVarInt (v : Int32) : Bytes := writeVarUInt (v <<< 1 ^^^ -(v &&& 1)).toUInt32
def writeVarLong (v : Int64) : Bytes := writeVarULong (v <<< 1 ^^^ -(v &&& 1)).toUInt64

/-- `do { len++; v >>= 7; } while (v != 0)`. -/
def getVarSizeLoop : Nat → Nat → Nat
  | 0, _ => 0
  | n+1, v => if v >>> 7 = 0 then 1 else 1+getVarSizeLoop n (v >>> 7)

def getVarUIntSize (v : UInt32) : Nat := getVarSizeLoop 5 v.toNat
def getVarULongSize (v : UInt64) : Nat := getVarSizeLoop 10 v.toNat

theorem writeVarLoop_length (n v : Nat) : (writeVarLoop n v).length = getVarSizeLoop n v := by
  induction n generalizing v with
  | zero => rfl
  | succ n ih =>
    have hshift : v >>> 7 = v/128 := Nat.shiftRight_eq_div_pow v 7
    by_cases h : v ≥ 0x80
    · have hmore : ¬ v/128 = 0 := by omega
      simp [writeVarLoop,getVarSizeLoop,h,hshift,hmore,ih,Nat.add_comm]
    · have hlast : v/128 = 0 := by omega
      simp [writeVarLoop,getVarSizeLoop,h,hshift,hlast]

theorem writeVarUInt_length (v : UInt32) : (writeVarUInt v).length = getVarUIntSize v :=
  writeVarLoop_length 5 v.toNat

theorem getVarUIntSize_pos (v : UInt32) : 0 < getVarUIntSize v := by
  unfold getVarUIntSize getVarSizeLoop
  split <;> omega

theorem getVarSizeLoop_le (n v : Nat) : getVarSizeLoop n v ≤ n := by
  induction n generalizing v with
  | zero => exact Nat.le_refl 0
  | succ n ih =>
    have hv := ih (v >>> 7)
    unfold getVarSizeLoop
    split <;> omega

def writeString (str : Bytes) : Bytes := writeVarUInt (UInt32.ofNat str.length) ++ str

/-- `std::reverse` of the bytes `[0,8)` and `[8,16)`. -/
def writeUUID (id : UUID) : Bytes := (id.bytes.take 8).reverse ++ (id.bytes.drop 8).reverse

def writeStringU32LE (str : Bytes) : Bytes := writeU32LE (UInt32.ofNat str.length) ++ str

end CyrexMC.BinaryWriter
