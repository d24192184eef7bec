import CyrexMC.ResourcePacks.ZippedResourcePack
set_option autoImplicit false

/-! `util/zip.hpp`. -/

namespace CyrexMC
open Stateful

/-- A byte of a buffer that the code reads through a pointer, with no check. -/
def byteAt (buffer : Bytes) (i : Nat) : Except Fault UInt8 :=
  match buffer[i]? with
  | some b => .ok b
  | none => .error (.undefined .outOfBounds)

/-- Bytes of a buffer that the code copies from a pointer, with no check. -/
def bytesAt (buffer : Bytes) (i n : Nat) : Except Fault Bytes :=
  if i+n ≤ buffer.length then .ok ((buffer.drop i).take n)
  else .error (.undefined .outOfBounds)

def le16 (buffer : Bytes) (i : Nat) : Except Fault UInt16 := do
  let p0 ← byteAt buffer i
  let p1 ← byteAt buffer (i+1)
  pure (p0.toUInt16 ||| p1.toUInt16 <<< 8)

def le32 (buffer : Bytes) (i : Nat) : Except Fault UInt32 := do
  let p0 ← byteAt buffer i
  let p1 ← byteAt buffer (i+1)
  let p2 ← byteAt buffer (i+2)
  let p3 ← byteAt buffer (i+3)
  pure (p0.toUInt32 ||| p1.toUInt32 <<< 8 ||| p2.toUInt32 <<< 16 ||| p3.toUInt32 <<< 24)

structure ZipEntry where
  crc32 : UInt32
  csize : UInt32
  usize : UInt32
  localHeaderOffset : UInt32
  compMethod : UInt16
  gpFlags : UInt16
  name : Bytes
  deriving DecidableEq, Repr

/-- The stream of a call of `extractFile` and the sizes of the buffers it has allocated, oldest
first. -/
structure ZipRun where
  ifs : IfStream := {}
  allocated : List Nat := []

abbrev ZipM (α : Type) := EStateM Fault ZipRun α

/-- `seekg`, a buffer of `n` bytes, and `read` into it; what is read is returned if it is all of
the buffer. -/
def readAt (file : Bytes) (position n : Nat) (short : ZipError) : ZipM Bytes := do
  modify fun z => { z with ifs := z.ifs.seekg position }
  modify fun z => { z with allocated := z.allocated ++ [n] }
  let z ← get
  let (buffer,ifs) := z.ifs.read file n
  set { z with ifs }
  if buffer.length ≠ n then throw (.throws (.zip short))
  return buffer

def endAt (tail : Bytes) (i : Nat) : Bool :=
  tail[i]? = some 0x50 && tail[i+1]? = some 0x4b && tail[i+2]? = some 0x05 && tail[i+3]? = some 0x06

/-- The loop over `tail`, down from `i`. -/
def findEnd (tail : Bytes) : Nat → Option Nat
  | 0 => if endAt tail 0 then some 0 else none
  | i+1 => if endAt tail (i+1) then some (i+1) else findEnd tail i

def findEntryLoop (central filename : Bytes) : Nat → Nat → Except Fault (Option ZipEntry)
  | 0, _ => .error .outOfFuel
  | fuel+1, cdIdx =>
    if cdIdx+4 ≤ central.length then do
      let sig ← le32 central cdIdx
      if sig ≠ 0x02014b50 then pure none
      else
        let nameLen ← le16 central (cdIdx+28)
        let extraLen ← le16 central (cdIdx+30)
        let commentLen ← le16 central (cdIdx+32)
        let compMethod ← le16 central (cdIdx+10)
        let gpFlags ← le16 central (cdIdx+8)
        let crc32 ← le32 central (cdIdx+16)
        let csize ← le32 central (cdIdx+20)
        let usize ← le32 central (cdIdx+24)
        let localHeaderOffset ← le32 central (cdIdx+42)
        if cdIdx+46+nameLen.toNat > central.length then pure none
        else
          let name ← bytesAt central (cdIdx+46) nameLen.toNat
          if name = filename then
            pure (some { crc32, csize, usize, localHeaderOffset, compMethod, gpFlags, name })
          else
            findEntryLoop central filename fuel (cdIdx+(46+nameLen.toNat+extraLen.toNat+commentLen.toNat))
    else pure none

/-- Every round moves on by at least one byte. -/
def findEntry (central filename : Bytes) : Except Fault (Option ZipEntry) :=
  findEntryLoop central filename (central.length+1) 0

/-- The bytes of an entry, once it is found. The sums are in 64 bits and do not wrap. -/
def readCompressed (file : Bytes) (entry : ZipEntry) : ZipM Bytes := do
  let localHeader ← readAt file entry.localHeaderOffset.toNat 30 .localHeaderRead
  let lhSig ← fromExcept (le32 localHeader 0)
  if lhSig ≠ 0x04034b50 then throw (.throws (.zip .localHeaderSignature))
  let lhNameLen ← fromExcept (le16 localHeader 26)
  let lhExtraLen ← fromExcept (le16 localHeader 28)
  let dataOffset := entry.localHeaderOffset.toNat+30+lhNameLen.toNat+lhExtraLen.toNat
  if dataOffset+entry.csize.toNat > file.length then throw (.throws (.zip .dataBounds))
  readAt file dataOffset entry.csize.toNat .dataRead

def extractEntry (file central filename : Bytes) : ZipM (Bytes × ZipEntry) := do
  match ← fromExcept (findEntry central filename) with
  | none => throw (.throws (.zip (.nameNotFound filename)))
  | some entry =>
    let compressed ← readCompressed file entry
    return (compressed,entry)

/-- The check of the bounds of the central directory, in 32 bits. -/
def directoryFits (centralDirOffset centralDirSize : UInt32) (fileSize : Nat) : Bool :=
  centralDirOffset+centralDirSize ≤ UInt32.ofNat fileSize

/-- `content` is that of the file at `zipPath`, if it can be opened. -/
def extractFile (zipPath filename : Bytes) (content : Option Bytes) : ZipM (Bytes × ZipEntry) := do
  match content with
  | none => throw (.throws (.zip (.notOpened zipPath)))
  | some file =>
    modify fun z => { z with ifs := z.ifs.seekg file.length }
    if file.length < 22 then throw (.throws (.zip .tooSmall))
    let searchSize := min file.length 65557
    let tail ← readAt file (file.length-searchSize) searchSize .tailRead
    match findEnd tail (searchSize-22) with
    | none => throw (.throws (.zip .endNotFound))
    | some eocd =>
      let centralDirSize ← fromExcept (le32 tail (eocd+12))
      let centralDirOffset ← fromExcept (le32 tail (eocd+16))
      if !directoryFits centralDirOffset centralDirSize file.length then
        throw (.throws (.zip .directoryBounds))
      let central ← readAt file centralDirOffset.toNat centralDirSize.toNat .directoryRead
      extractEntry file central filename

end CyrexMC
