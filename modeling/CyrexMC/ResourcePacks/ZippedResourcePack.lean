import CyrexMC.ThirdParty
import CyrexMC.Lib.Stateful
import Mathlib.Algebra.Group.Nat.Defs
set_option autoImplicit false

/-! `zipped_resource_pack.cpp`. -/

namespace CyrexMC
open Stateful

/-- The part of `std::ifstream` that lasts from call to call. -/
structure IfStream where
  position : Nat := 0
  eofbit : Bool := false
  failbit : Bool := false
  deriving DecidableEq, Repr

namespace IfStream

/-- `seekg` clears `eofbit`, and does nothing else while `failbit` is set. -/
def seekg (s : IfStream) (position : Nat) : IfStream :=
  let s := { s with eofbit := false }
  if s.failbit then s else { s with position }

/-- `read` with its `gcount`: a short read sets both bits. -/
def read (content : Bytes) (s : IfStream) (n : Nat) : Bytes × IfStream :=
  if s.eofbit || s.failbit then ([],{ s with failbit := true })
  else
    let got := (content.drop s.position).take n
    let s := { s with position := s.position+got.length }
    if got.length < n then (got,{ s with eofbit := true, failbit := true }) else (got,s)

end IfStream

/-- A pack that was loaded. Its file does not change, and a file offset is a signed 64-bit
number; a zip archive has at least the 22 bytes of its end record. -/
structure ZippedResourcePack where
  file : Bytes
  manifest : Json
  sha256Hash : Bytes := []
  id : UUID := UUID.nil
  fileStream : IfStream := {}
  fileFits : file.length < 2^63
  fileZip : 22 ≤ file.length

namespace ZippedResourcePack

/-- A call of a member function, which may change the mutable fields. -/
abbrev Call (α : Type) := EStateM Fault ZippedResourcePack α

def getPackSize (p : ZippedResourcePack) : Nat := p.file.length

def headerUuid (manifest : Json) : Except Fault Bytes := do
  let header ← manifest.atKey (ascii "header")
  let uuid ← header.atKey (ascii "uuid")
  uuid.getString

def getPackId (tp : ThirdParty) : Call UUID := do
  let p ← get
  if !p.id.isNil then return p.id
  let uuidStr ← fromExcept (headerUuid p.manifest)
  match tp.uuidFromString uuidStr with
  | none => throw (.throws .invalidUuidFormat)
  | some parsed =>
    modify fun p => { p with id := parsed }
    return parsed

def headerVersion (manifest : Json) : Except Fault Bytes := do
  let header ← manifest.atKey (ascii "header")
  let version ← header.atKey (ascii "version")
  let major ← (← version.atIndex 0).getInt
  let minor ← (← version.atIndex 1).getInt
  let patch ← (← version.atIndex 2).getInt
  pure (toDecimal major ++ ascii "." ++ toDecimal minor ++ ascii "." ++ toDecimal patch)

def getPackVersion : Call Bytes := do
  let p ← get
  fromExcept (headerVersion p.manifest)

/-- The loop of `computeSha256FromFile`: the slices it feeds to the hash. -/
def hashedSlices (content : Bytes) : Nat → IfStream → List Bytes
  | 0, _ => []
  | fuel+1, s =>
    if s.failbit then []
    else
      let (slice,s) := s.read content (64*1024)
      (if slice.length > 0 then [slice] else []) ++ hashedSlices content fuel s

def computeSha256FromFile (tp : ThirdParty) (p : ZippedResourcePack) : Bytes :=
  tp.sha256 (hashedSlices p.file (p.file.length+2) {}).flatten

def getSha256 (tp : ThirdParty) : Call Bytes := do
  let p ← get
  if p.sha256Hash.isEmpty then modify fun p => { p with sha256Hash := computeSha256FromFile tp p }
  let p ← get
  return p.sha256Hash

def getPackChunkString (start length : Nat) : Call Bytes := do
  if length < 1 then throw (.throws .packLength)
  modify fun p => { p with fileStream := p.fileStream.seekg start }
  let p ← get
  if p.fileStream.failbit then throw (.throws .chunkOffset)
  let (buffer,stream) := p.fileStream.read p.file length
  set { p with fileStream := stream }
  return buffer

def getPackChunk (off len : Nat) : Call Bytes := do
  if len = 0 then throw (.throws .chunkLength)
  let fileSize := (← get).getPackSize
  if off ≥ fileSize then throw (.throws .offsetRange)
  let chunkLen := min len (fileSize-off)
  modify fun p => { p with fileStream := p.fileStream.seekg off }
  let p ← get
  let (chunk,stream) := p.fileStream.read p.file chunkLen
  set { p with fileStream := stream }
  if chunk.length ≠ chunkLen then throw (.throws .chunkRead)
  return chunk

theorem getPackId_apply (tp : ThirdParty) (p : ZippedResourcePack) :
    getPackId tp p =
      if p.id.isNil then
        match headerUuid p.manifest with
        | .error e => .error e p
        | .ok str =>
          match tp.uuidFromString str with
          | none => .error (.throws .invalidUuidFormat) p
          | some id => .ok id { p with id }
      else .ok p.id p := by
  by_cases hnil : p.id.isNil
  · cases hstr : headerUuid p.manifest with
    | error e => simp [getPackId,bind_apply,hnil,hstr]
    | ok str => cases hid : tp.uuidFromString str <;> simp [getPackId,bind_apply,map_apply,hnil,hstr,hid]
  · simp [getPackId,bind_apply,hnil]

theorem getPackVersion_apply (p : ZippedResourcePack) :
    getPackVersion p =
      match headerVersion p.manifest with
      | .error e => .error e p
      | .ok version => .ok version p := by
  cases h : headerVersion p.manifest <;> simp [getPackVersion,bind_apply,h]

theorem getPackVersion_ok {p q : ZippedResourcePack} {version : Bytes} (h : getPackVersion p = .ok version q) :
    headerVersion p.manifest = .ok version := by
  rw [getPackVersion_apply] at h
  cases hheader : headerVersion p.manifest with
  | error e => simp [hheader] at h
  | ok version' =>
    simp only [hheader,EStateM.Result.ok.injEq] at h
    rw [h.1]

theorem getSha256_apply (tp : ThirdParty) (p : ZippedResourcePack) :
    getSha256 tp p =
      let sha256Hash := if p.sha256Hash.isEmpty then computeSha256FromFile tp p else p.sha256Hash
      .ok sha256Hash { p with sha256Hash } := by
  obtain ⟨file,manifest,sha256Hash,id,fileStream,fileFits,fileZip⟩ := p
  cases sha256Hash <;> rfl

theorem getPackChunkString_apply (start length : Nat) (p : ZippedResourcePack) :
    getPackChunkString start length p =
      if length < 1 then .error (.throws .packLength) p
      else
        let stream := p.fileStream.seekg start
        if stream.failbit then .error (.throws .chunkOffset) { p with fileStream := stream }
        else .ok (stream.read p.file length).1 { p with fileStream := (stream.read p.file length).2 } := by
  by_cases hlen : length < 1
  · simp [getPackChunkString,bind_apply,hlen]
  · by_cases hfail : (p.fileStream.seekg start).failbit <;>
      simp [getPackChunkString,bind_apply,map_apply,hlen,hfail]

/-- A read that returns does not depend on where the stream was. -/
theorem getPackChunkString_ok {start length : Nat} {p q : ZippedResourcePack} {chunk : Bytes}
    (h : getPackChunkString start length p = .ok chunk q) : chunk = (p.file.drop start).take length := by
  rw [getPackChunkString_apply] at h
  split at h
  · cases h
  · cases hfail : p.fileStream.failbit with
    | true => simp [IfStream.seekg,hfail] at h
    | false =>
      simp only [IfStream.seekg,hfail,Bool.false_eq_true,if_false,IfStream.read,Bool.or_self] at h
      split at h <;> cases h <;> rfl

def ofId (id : UUID) (size : Nat) (hsize : 22 ≤ size ∧ size < 2^63) : ZippedResourcePack :=
  let version := Json.array [.integer 1,.integer 0,.integer 0]
  { file := List.replicate size 0,
    manifest := .object [(ascii "header",.object [(ascii "uuid",.string id.bytes),(ascii "version",version)])],
    fileFits := by simpa using hsize.2, fileZip := by simpa using hsize.1 }

/-- No accessor that `ResourcePackDef` leaves at its default is overridden. -/
def getSubPackName : Bytes := []
def getEncryptionKey : Bytes := []
def cdnUrl : Bytes := []
def usesScript : Bool := false
def isAddonPack : Bool := false
def isRaytracingCapable : Bool := false

end ZippedResourcePack

end CyrexMC
