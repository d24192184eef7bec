import CyrexMC.Codec
import CyrexMC.Protocol.DecoderBounds
set_option autoImplicit false

namespace CyrexMC

/-- `glm::vec2`, by bit patterns. -/
structure Vec2 where
  x : UInt32
  y : UInt32
  deriving DecidableEq, Repr

structure Vec3 where
  x : UInt32
  y : UInt32
  z : UInt32
  deriving DecidableEq, Repr

namespace BinaryWriter

/-- A `double` is its bit pattern. -/
def writeDoubleLE (bits : UInt64) : Bytes := writeU64LE bits
def writeVector2 (v : Vec2) : Bytes := writeFloatLE v.x ++ writeFloatLE v.y
def writeVector3 (v : Vec3) : Bytes := writeFloatLE v.x ++ writeFloatLE v.y ++ writeFloatLE v.z
def writeBytes (bytes : Bytes) : Bytes := bytes

def writeOptional {α : Type} (value : Option α) (writer : α → Bytes) : Bytes :=
  match value with
  | some v => writeBool true ++ writer v
  | none => writeBool false

end BinaryWriter

namespace BinaryReader

def readShort : Read Int16 := readI16BE
def readUShort : Read UInt16 := readU16BE
def readFloatLE : Read UInt32 := readU32LE
def readDoubleLE : Read UInt64 := readU64LE

def readVector2 : Read Vec2 := do
  let x ← readFloatLE
  let y ← readFloatLE
  pure { x, y }

def readVector3 : Read Vec3 := do
  let x ← readFloatLE
  let y ← readFloatLE
  let z ← readFloatLE
  pure { x, y, z }

def readOptional {α : Type} (reader : Read α) : Read (Option α) := do
  let present ← readBool
  if present then do
    let v ← reader
    pure (some v)
  else pure none

end BinaryReader

open BinaryReader BinaryWriter

/-- The types of values that come back; of the signed varints not all do. -/
inductive Kind where
  | u8 | i8 | bool
  | u16LE | u16BE | i16LE | i16BE
  | u32LE | u32BE | i32LE | i32BE
  | u64LE | u64BE | i64LE | i64BE
  | short | ushort
  | float | double | vector2 | vector3
  | varUInt | varULong
  | string | stringU32LE | uuid
  | bytes (n : Nat) (hn : n < 2^32)
  | optional (k : Kind)

namespace Kind

def Value : Kind → Type
  | u8 => UInt8
  | i8 => Int8
  | bool => Bool
  | u16LE | u16BE | ushort => UInt16
  | i16LE | i16BE | short => Int16
  | u32LE | u32BE | varUInt | float => UInt32
  | i32LE | i32BE => Int32
  | u64LE | u64BE | varULong | double => UInt64
  | i64LE | i64BE => Int64
  | vector2 => Vec2
  | vector3 => Vec3
  | string | stringU32LE | bytes _ _ => Bytes
  | uuid => UUID
  | optional k => Option k.Value

def write : (k : Kind) → k.Value → Bytes
  | u8, v => writeU8 v
  | i8, v => writeI8 v
  | bool, v => writeBool v
  | u16LE, v => writeU16LE v
  | u16BE, v | ushort, v => writeU16BE v
  | i16LE, v => writeI16LE v
  | i16BE, v | short, v => writeI16BE v
  | u32LE, v => writeU32LE v
  | u32BE, v => writeU32BE v
  | i32LE, v => writeI32LE v
  | i32BE, v => writeI32BE v
  | u64LE, v => writeU64LE v
  | u64BE, v => writeU64BE v
  | i64LE, v => writeI64LE v
  | i64BE, v => writeI64BE v
  | float, v => writeFloatLE v
  | double, v => writeDoubleLE v
  | vector2, v => writeVector2 v
  | vector3, v => writeVector3 v
  | varUInt, v => writeVarUInt v
  | varULong, v => writeVarULong v
  | string, v => writeString v
  | stringU32LE, v => writeStringU32LE v
  | uuid, v => writeUUID v
  | bytes _ _, v => writeBytes v
  | optional k, v => writeOptional v k.write

/-- The lengths that the code has room for. -/
def Fits : (k : Kind) → k.Value → Prop
  | string, v | stringU32LE, v => List.length v < 2^32
  | bytes n _, v => List.length v = n
  | optional k, v => ∀ a, v = some a → k.Fits a
  | _, _ => True

def read : (k : Kind) → Read k.Value
  | u8 => readU8
  | i8 => readI8
  | bool => readBool
  | u16LE => readU16LE
  | u16BE => readU16BE
  | i16LE => readI16LE
  | i16BE => readI16BE
  | u32LE => readU32LE
  | u32BE => readU32BE
  | i32LE => readI32LE
  | i32BE => readI32BE
  | u64LE => readU64LE
  | u64BE => readU64BE
  | i64LE => readI64LE
  | i64BE => readI64BE
  | short => readShort
  | ushort => readUShort
  | float => readFloatLE
  | double => readDoubleLE
  | vector2 => readVector2
  | vector3 => readVector3
  | varUInt => readVarUInt
  | varULong => readVarULong
  | string => readString
  | stringU32LE => readStringU32LE
  | uuid => readUUID
  | bytes n _ => readBytesVector n
  | optional k => readOptional k.read

theorem readVector2_reads (v : Vec2) : readVector2.Reads (writeVector2 v) v := by
  refine (readU32LE_reads v.x).bind ?_
  have hy := (readU32LE_reads v.y).map fun y => ({ x := v.x, y } : Vec2)
  exact hy

theorem readVector3_reads (v : Vec3) : readVector3.Reads (writeVector3 v) v := by
  rw [writeVector3,List.append_assoc]
  refine (readU32LE_reads v.x).bind ((readU32LE_reads v.y).bind ?_)
  have hz := (readU32LE_reads v.z).map fun z => ({ x := v.x, y := v.y, z } : Vec3)
  exact hz

theorem readOptional_reads {α : Type} {reader : Read α} {writer : α → Bytes} {value : Option α}
    (h : ∀ a, value = some a → reader.Reads (writer a) a) :
    (readOptional reader).Reads (writeOptional value writer) value := by
  cases value with
  | none =>
    have hflag := (readBool_reads false).bind (f:=fun present => if present = true then (do
      let v ← reader
      pure (some v) : Read (Option α)) else pure none) (Pull.Reads.done none)
    rwa [List.append_nil] at hflag
  | some a =>
    refine (readBool_reads true).bind ?_
    exact (h a rfl).map some

theorem reads (k : Kind) (v : k.Value) (h : k.Fits v) : k.read.Reads (k.write v) v := by
  induction k with
  | u8 => exact readU8_reads v
  | i8 => exact readI8_reads v
  | bool => exact readBool_reads v
  | u16LE => exact readU16LE_reads v
  | u16BE => exact readU16BE_reads v
  | i16LE => exact readI16LE_reads v
  | i16BE => exact readI16BE_reads v
  | u32LE => exact readU32LE_reads v
  | u32BE => exact readU32BE_reads v
  | i32LE => exact readI32LE_reads v
  | i32BE => exact readI32BE_reads v
  | u64LE => exact readU64LE_reads v
  | u64BE => exact readU64BE_reads v
  | i64LE => exact readI64LE_reads v
  | i64BE => exact readI64BE_reads v
  | short => exact readI16BE_reads v
  | ushort => exact readU16BE_reads v
  | float => exact readU32LE_reads v
  | double => exact readU64LE_reads v
  | vector2 => exact readVector2_reads v
  | vector3 => exact readVector3_reads v
  | varUInt => exact readVarUInt_reads v
  | varULong => exact readVarULong_reads v
  | string => exact readString_reads h
  | stringU32LE => exact readStringU32LE_reads h
  | uuid => exact readUUID_reads v
  | bytes n hn =>
    have hlength : List.length v = n := h
    have htake : (Pull.take (List.length v) : Read Bytes).Reads v v := Pull.Reads.take v
    rwa [hlength] at htake
  | optional k ih => exact readOptional_reads fun a ha => ih a (h a ha)

theorem checked_map {α β : Type} {P : α → Prop} {d : Read α} (hd : Checked P d) (f : α → β) :
    Checked (fun _ => True) (d >>= fun a => pure (f a)) :=
  hd.bind fun _ _ => checked_pure trivial

theorem checked_forget {α : Type} {P : α → Prop} {d : Read α} (hd : Checked P d) : Checked (fun _ => True) d := by
  have hbind : Checked (fun _ => True) (d >>= pure) := hd.bind fun _ _ => checked_pure trivial
  rwa [bind_pure] at hbind

theorem checked_readUUID : Checked (fun _ => True) readUUID := by
  refine (checked_take (by decide)).bind fun bytes hlength => ?_
  have hid : ((bytes.take 8).reverse ++ (bytes.drop 8).reverse).length = 16 := by simp [hlength]
  rw [dif_pos hid]
  exact checked_pure trivial

theorem checked_read (k : Kind) : Checked (fun _ => True) k.read := by
  have hLE : ∀ {n : Nat}, n < 2^32 → Checked (fun _ => True) (readRawLE n) := fun hn => checked_readRawLE hn
  have hBE : ∀ {n : Nat}, n < 2^32 → Checked (fun _ => True) (readRawBE n) := fun hn => checked_readRawBE hn
  have hfloat : Checked (fun _ => True) readFloatLE := checked_readU32LE
  induction k with
  | u8 => exact checked_readU8
  | i8 => exact checked_map checked_readU8 _
  | bool => exact checked_readBool
  | u16LE | i16LE => exact checked_map (hLE (by decide)) _
  | u16BE | i16BE | short | ushort => exact checked_map (hBE (by decide)) _
  | u32LE | i32LE | float => exact checked_map (hLE (by decide)) _
  | u32BE | i32BE => exact checked_map (hBE (by decide)) _
  | u64LE | i64LE | double => exact checked_map (hLE (by decide)) _
  | u64BE | i64BE => exact checked_map (hBE (by decide)) _
  | vector2 => exact hfloat.bind fun _ _ => checked_map hfloat _
  | vector3 => exact hfloat.bind fun _ _ => hfloat.bind fun _ _ => checked_map hfloat _
  | varUInt => exact checked_readVarUInt
  | varULong => exact checked_map (checked_readVarLoop 64 .varULongOverflow 10 0 0) _
  | string => exact checked_forget checked_readString
  | stringU32LE => exact checked_forget checked_readStringU32LE
  | uuid => exact checked_readUUID
  | bytes n hn => exact checked_forget (checked_take hn)
  | optional k ih =>
    refine checked_readBool.bind fun present _ => ?_
    cases present with
    | true => exact checked_map ih some
    | false => exact checked_pure trivial

end Kind

abbrev Item := (k : Kind) × k.Value

namespace Item

def write (item : Item) : Bytes := item.1.write item.2

def Fits (item : Item) : Prop := item.1.Fits item.2

def readAll : List Kind → Read (List Item)
  | [] => pure []
  | k :: ks => do
    let v ← k.read
    let items ← readAll ks
    pure (⟨k,v⟩ :: items)

theorem readAll_reads (items : List Item) (h : ∀ item ∈ items, item.Fits) :
    (readAll (items.map Sigma.fst)).Reads (items.flatMap write) items := by
  induction items with
  | nil => exact Pull.Reads.done []
  | cons item items ih =>
    have hitem := item.1.reads item.2 (h item (List.mem_cons_self ..))
    have hrest := ih fun i hi => h i (List.mem_cons_of_mem _ hi)
    exact hitem.bind (hrest.map fun items => item :: items)

theorem checked_readAll (ks : List Kind) : Checked (fun _ => True) (readAll ks) := by
  induction ks with
  | nil => exact checked_pure trivial
  | cons k ks ih => exact k.checked_read.bind fun _ _ => Kind.checked_map ih _

end Item

theorem BinaryReader.Checked.exec_short {α : Type} {P : α → Prop} {d : Read α} (hd : Checked P d) {r : BinaryReader}
    (hr : r.dataSize = r.dataPtr.length) (hin : r.offset ≤ r.dataPtr.length) (hfits : r.dataPtr.length < 2^63)
    {missing : Nat} (h : d.feed r.ahead = .short missing) :
    ∃ r', exec d r = .error (.throws .readerOverflow) r' := by
  induction d generalizing r with
  | done a => cases h
  | fail e => cases h
  | pull n k ih =>
    obtain ⟨hn,hk⟩ := hd
    have hrefuses := refuses_iff hr hin hfits hn
    have hlength := ahead_length r
    rw [exec]
    by_cases hroom : r.offset+n ≤ r.dataPtr.length
    · rw [if_neg (fun hover => hrefuses.mp hover hroom),if_pos hroom]
      have hn' : n ≤ r.ahead.length := by omega
      rw [Pull.feed,if_pos hn'] at h
      have htake : (r.ahead.take n).length = n := by rw [List.length_take]; omega
      refine ih _ (hk _ htake) (r:={ r with offset := r.offset+n }) hr hroom hfits ?_
      rwa [ahead,List.drop_drop] at h
    · rw [if_pos (hrefuses.mpr hroom)]
      exact ⟨r,rfl⟩

/-- Whatever is written, the same reads in the same order give it back and stop behind it, whatever
follows; from a stream that is cut off anywhere they throw; and no other values are written so. -/
theorem stream_exact (items : List Item) (hitems : ∀ item ∈ items, item.Fits)
    (hfits : (items.flatMap Item.write).length < 2^63) :
    (∀ suffix, Returns (Item.readAll (items.map Sigma.fst)) (items.flatMap Item.write) suffix items) ∧
    (∀ data, data <+: items.flatMap Item.write → data ≠ items.flatMap Item.write →
      ∃ r, exec (Item.readAll (items.map Sigma.fst)) (ofBytes data) = .error (.throws .readerOverflow) r) ∧
    ∀ others : List Item, (∀ item ∈ others, item.Fits) → others.map Sigma.fst = items.map Sigma.fst →
      ∀ tail tail', others.flatMap Item.write ++ tail = items.flatMap Item.write ++ tail' →
        others = items ∧ tail = tail' := by
  have hreads := Item.readAll_reads items hitems
  refine ⟨fun suffix => (returns_iff hreads suffix).mpr rfl,fun data hprefix hne => ?_,
    fun others hothers hkinds tail tail' h => ?_⟩
  · obtain ⟨missing,hshort⟩ := hreads.short hprefix hne
    have hle := hprefix.length_le
    exact (Item.checked_readAll _).exec_short (r:=ofBytes data) rfl (Nat.zero_le _) (by simp only [ofBytes]; omega) hshort
  · have hother := Item.readAll_reads others hothers
    rw [hkinds] at hother
    exact hother.unique hreads h

theorem stream_exact_two :
    Returns (Item.readAll [.optional .string,.vector2]) [1,2,0x68,0x69,0,0,0x80,0x3F,0,0,0,0] [7]
      [⟨.optional .string,some [0x68,0x69]⟩,⟨.vector2,⟨0x3F800000,0⟩⟩] := by
  refine (stream_exact [⟨.optional .string,some [0x68,0x69]⟩,⟨.vector2,⟨0x3F800000,0⟩⟩] ?_ (by decide)).1 [7]
  intro item hitem
  simp only [List.mem_cons,List.not_mem_nil,or_false] at hitem
  rcases hitem with rfl | rfl
  · intro str hstr
    cases hstr
    exact show [0x68,0x69].length < 2^32 by decide
  · trivial

end CyrexMC
