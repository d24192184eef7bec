import CyrexMC.Lib.Binary64
import CyrexMC.ResourcePacks.ZippedResourcePack
set_option autoImplicit false

/-! `resource_pack_factory.cpp` and `ResourcePackMeta.hpp`. -/

namespace CyrexMC

/-- A positive `int`, which is all that `setMaxChunkSize` lets through. -/
structure ChunkSize where
  val : Nat
  pos : 0 < val
  lt : val < 2^31
  deriving DecidableEq, Repr

/-- A `ResourcePackDef*` is the place of its pack in `packs`. -/
structure ResourcePackFactory where
  maxChunkSize : ChunkSize := ⟨1024*256,by decide,by decide⟩
  packs : List ZippedResourcePack := []
  packsById : List (UUID × Nat) := []

namespace ResourcePackFactory

/-- The body of the loop of `reloadPacks`. -/
def addPack (tp : ThirdParty) (f : ResourcePackFactory) (pack : ZippedResourcePack) :
    Except Fault ResourcePackFactory :=
  match ZippedResourcePack.getPackId tp pack with
  | .ok id pack => .ok { f with packs := f.packs ++ [pack], packsById := (id,f.packs.length) :: f.packsById }
  | .error e _ => .error e

/-- `reloadPacks` on what the loaders return, one list after the other. -/
def reloadPacks (tp : ThirdParty) (f : ResourcePackFactory) (loaded : List ZippedResourcePack) :
    Except Fault ResourcePackFactory :=
  loaded.foldlM (addPack tp) { f with packs := [], packsById := [] }

def getResourceStack (f : ResourcePackFactory) : List Nat := List.range f.packs.length

def getPackById (f : ResourcePackFactory) (id : UUID) : Option Nat := f.packsById.lookup id

def setMaxChunkSize (f : ResourcePackFactory) (size : Int32) : Except Fault ResourcePackFactory :=
  if h : size.toInt ≤ 0 then .error (.throws .maxChunkSize)
  else .ok { f with
    maxChunkSize := ⟨size.toInt.toNat,by omega,by have hlt := size.toInt_lt; omega⟩ }

end ResourcePackFactory

structure ResourcePackChunkState where
  want : Bool
  sent : Bool
  deriving DecidableEq, Repr

structure ResourcePackMeta where
  packId : UUID
  pack : Nat
  maxChunkSize : Nat
  chunkCount : Int
  chunks : List ResourcePackChunkState
  nextToSend : Nat := 0
  deriving DecidableEq, Repr

/-- The constructor; `chunks.resize` takes a negative count for a huge one. -/
def ResourcePackMeta.create (id : UUID) (pack maxChunk : Nat) (chunksCount : Int) :
    Except Fault ResourcePackMeta :=
  if chunksCount < 0 then .error (.throws .vectorLength)
  else .ok { packId := id, pack, maxChunkSize := maxChunk, chunkCount := chunksCount,
             chunks := List.replicate chunksCount.toNat ⟨false,false⟩ }

namespace ResourcePackMeta

def finished (m : ResourcePackMeta) : Bool := (m.nextToSend : Int) ≥ m.chunkCount

def setWant (m : ResourcePackMeta) (idx : Nat) : ResourcePackMeta :=
  { m with chunks := m.chunks.modify idx fun c => { c with want := true } }

def setSent (m : ResourcePackMeta) (idx : Nat) : ResourcePackMeta :=
  { m with chunks := m.chunks.modify idx fun c => { c with sent := true } }

def isSent (m : ResourcePackMeta) (idx : Nat) : Bool := (m.chunks.getD idx ⟨false,false⟩).sent

/-- `while (nextToSend < chunkCount && chunks[nextToSend].sent) nextToSend++`. -/
def advanceLoop (m : ResourcePackMeta) : Nat → Nat → Nat
  | 0, nextToSend => nextToSend
  | fuel+1, nextToSend =>
    if (nextToSend : Int) < m.chunkCount ∧ m.isSent nextToSend then
      m.advanceLoop fuel (nextToSend+1)
    else nextToSend

def advance (m : ResourcePackMeta) : ResourcePackMeta :=
  { m with nextToSend := m.advanceLoop m.chunkCount.toNat m.nextToSend }

end ResourcePackMeta

/-- `static_cast<int>(std::ceil(static_cast<double>(packSize) / maxChunkSize))`. -/
def ceilChunkCount (packSize maxChunkSize : Nat) : Except Fault Int :=
  let count := Binary64.ceilDiv (Binary64.ofNat packSize) maxChunkSize
  if count < 2^31 then .ok count else .error (.undefined .doubleToInt)

/-- `static_cast<int>((packSize + maxSize - 1) / maxSize)`. -/
def roundedChunkCount (packSize maxSize : Nat) : Int :=
  (Int32.ofNat ((packSize+maxSize-1)%2^64/maxSize)).toInt

end CyrexMC
