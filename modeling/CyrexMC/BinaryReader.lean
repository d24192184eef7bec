import CyrexMC.Basic
import CyrexMC.Lib.Integers
import CyrexMC.Lib.Pull
set_option autoImplicit false

/-! `network/io/binary_reader.hpp`. -/

namespace CyrexMC

/-- `dataPtr` holds the memory from the pointer to the end of its allocation. What the code
checks reads against is `dataSize`, which need not be the length of that memory. -/
structure BinaryReader where
  dataPtr : Bytes
  dataSize : Nat
  offset : Nat := 0
  deriving DecidableEq, Repr

/-- A decoder. All that the read functions do to a reader is `ensureReadable(n)`, copy the
next `n` bytes and move `offset` past them. -/
abbrev Read := Pull UInt8 Fault

namespace BinaryReader

def ofBytes (data : Bytes) : BinaryReader := { dataPtr := data, dataSize := data.length }

/-- `size_t` arithmetic. -/
def remaining (r : BinaryReader) : Nat := (r.dataSize+2^64-r.offset)%2^64

/-- Runs a decoder on a reader. As in C++ a throw leaves the reader where it was. -/
def exec {α : Type} : Read α → EStateM Fault BinaryReader α
  | .done a, r => .ok a r
  | .fail e, r => .error e r
  | .pull n k, r =>
    if (r.offset+n)%2^64 > r.dataSize then .error (.throws .readerOverflow) r
    else if r.offset+n ≤ r.dataPtr.length then
      exec (k ((r.dataPtr.drop r.offset).take n)) { r with offset := r.offset+n }
    else .error (.undefined .outOfBounds) r

@[simp] theorem exec_done {α : Type} (a : α) (r : BinaryReader) : exec (.done a) r = .ok a r := rfl
@[simp] theorem exec_fail {α : Type} (e : Fault) (r : BinaryReader) :
    exec (.fail e : Read α) r = .error e r := rfl

theorem exec_bind {α γ : Type} (d : Read α) (f : α → Read γ) :
    exec (d >>= f) = (exec d >>= fun a => exec (f a)) := by
  funext r
  induction d generalizing r with
  | done a => rfl
  | fail e => rfl
  | pull n k ih =>
    change exec (.pull n fun xs => k xs >>= f) r = EStateM.bind (exec (.pull n k)) (fun a => exec (f a)) r
    by_cases hc : (r.offset+n)%2^64 > r.dataSize
    · simp only [exec,EStateM.bind,hc,if_true]
    · by_cases hin : r.offset+n ≤ r.dataPtr.length
      · simp only [exec,EStateM.bind,hc,if_false,hin,if_true]
        exact ih _ _
      · simp only [exec,EStateM.bind,hc,if_false,hin]

def ahead (r : BinaryReader) : Bytes := r.dataPtr.drop r.offset

structure Open (r : BinaryReader) : Prop where
  bound : r.dataPtr.length ≤ r.dataSize
  inside : r.offset ≤ r.dataPtr.length

theorem open_ofBytes (data : Bytes) : Open (ofBytes data) := ⟨Nat.le_refl _,Nat.zero_le _⟩

theorem ahead_length (r : BinaryReader) : r.ahead.length = r.dataPtr.length-r.offset := by
  simp [ahead]

def upTo (r : BinaryReader) (rest : Bytes) : BinaryReader :=
  { r with offset := r.dataPtr.length-rest.length }

/-- What a decoder does on an open reader is what it does on the bytes ahead; where these
run out the code either throws or reads outside the memory. -/
theorem exec_feed {α : Type} (d : Read α) {r : BinaryReader} (hr : Open r) :
    match d.feed r.ahead with
    | .done a rest => exec d r = .ok a (r.upTo rest)
    | .failed e rest => exec d r = .error e (r.upTo rest)
    | .short _ => ∃ f r', exec d r = .error f r' := by
  have hsame : ∀ s : BinaryReader, Open s → s.upTo s.ahead = s := by
    intro s hs
    have hi := hs.inside
    have ho : s.dataPtr.length-s.ahead.length = s.offset := by rw [ahead_length]; omega
    simp only [upTo,ho]
  induction d generalizing r with
  | done a => simp [Pull.feed,hsame r hr]
  | fail e => simp [Pull.feed,hsame r hr]
  | pull n k ih =>
    have hi := hr.inside
    have hb := hr.bound
    have hl := ahead_length r
    by_cases hn : n ≤ r.ahead.length
    · have hin : r.offset+n ≤ r.dataPtr.length := by omega
      have hm := Nat.mod_le (r.offset+n) (2^64)
      have hc : ¬ (r.offset+n)%2^64 > r.dataSize := by omega
      have hnext : Open { r with offset := r.offset+n } := ⟨hb,hin⟩
      have ht : (r.dataPtr.drop r.offset).take n = r.ahead.take n := rfl
      have hd : r.ahead.drop n = BinaryReader.ahead { r with offset := r.offset+n } := by
        simp [ahead,List.drop_drop]
      simp only [Pull.feed,hn,if_true,exec,hc,if_false,hin,ht,hd]
      exact ih _ hnext
    · have hout : ¬ r.offset+n ≤ r.dataPtr.length := by omega
      simp only [Pull.feed,hn,if_false,exec,hout]
      split
      · exact ⟨_,_,rfl⟩
      · exact ⟨_,_,rfl⟩

def readU8 : Read UInt8 := do
  let bytes ← Pull.take 1
  pure (bytes.headD 0)

def readI8 : Read Int8 := do
  let v ← readU8
  pure v.toInt8

def readBool : Read Bool := do
  let v ← readU8
  pure (v != 0)

def readRawLE (n : Nat) : Read Nat := do
  let bytes ← Pull.take n
  pure (FixedWidth.ofLE bytes)

def readRawBE (n : Nat) : Read Nat := do
  let bytes ← Pull.take n
  pure (FixedWidth.ofBE bytes)

def readU16LE : Read UInt16 := do pure (UInt16.ofNat (← readRawLE 2))
def readU16BE : Read UInt16 := do pure (UInt16.ofNat (← readRawBE 2))
def readI16LE : Read Int16 := do pure (UInt16.ofNat (← readRawLE 2)).toInt16
def readI16BE : Read Int16 := do pure (UInt16.ofNat (← readRawBE 2)).toInt16
def readU32LE : Read UInt32 := do pure (UInt32.ofNat (← readRawLE 4))
def readU32BE : Read UInt32 := do pure (UInt32.ofNat (← readRawBE 4))
def readI32LE : Read Int32 := do pure (UInt32.ofNat (← readRawLE 4)).toInt32
def readI32BE : Read Int32 := do pure (UInt32.ofNat (← readRawBE 4)).toInt32
def readU64LE : Read UInt64 := do pure (UInt64.ofNat (← readRawLE 8))
def readU64BE : Read UInt64 := do pure (UInt64.ofNat (← readRawBE 8))
def readI64LE : Read Int64 := do pure (UInt64.ofNat (← readRawLE 8)).toInt64
def readI64BE : Read Int64 := do pure (UInt64.ofNat (← readRawBE 8)).toInt64

/-- The loop of `readVarUInt` and `readVarULong` with `n` rounds to go, on `w`-bit values. -/
def readVarLoop (w : Nat) (overflow : Thrown) : Nat → Nat → Nat → Read Nat
  | 0, _, _ => .fail (.throws overflow)
  | n+1, value, shift => do
    let b ← readU8
    let value := value ||| ((b &&& 0x7F).toNat <<< shift)%2^w
    if b &&& 0x80 = 0 then pure value else readVarLoop w overflow n value (shift+7)

def readVarUInt : Read UInt32 := do
  let v ← readVarLoop 32 .varUIntOverflow 5 0 0
  pure (UInt32.ofNat v)

def readVarULong : Read UInt64 := do
  let v ← readVarLoop 64 .varULongOverflow 10 0 0
  pure (UInt64.ofNat v)

def readVarInt : Read Int32 := do
  let v ← readVarUInt
  pure (v >>> 1 ^^^ (~~~(v &&& 1)+1)).toInt32

def readVarLong : Read Int64 := do
  let v ← readVarULong
  pure (v >>> 1 ^^^ (~~~(v &&& 1)+1)).toInt64

def readString : Read Bytes := do
  let len ← readVarUInt
  Pull.take len.toNat

def readBytesVector (len : Nat) : Read Bytes := Pull.take len

/-- Each half of the sixteen bytes is read backwards. -/
def readUUID : Read UUID := do
  let bytes ← Pull.take 16
  let id := (bytes.take 8).reverse ++ (bytes.drop 8).reverse
  if h : id.length = 16 then pure ⟨id,h⟩ else .fail (.undefined .outOfBounds)

def readStringU32LE : Read Bytes := do
  let len ← readU32LE
  Pull.take len.toNat

end BinaryReader

end CyrexMC
