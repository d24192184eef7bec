import CyrexMC.Codec
import CyrexMC.Lib.Tiling
import CyrexMC.Session.Download
set_option autoImplicit false

namespace CyrexMC
open BinaryReader BinaryWriter Stateful

variable {tp : ThirdParty}

namespace ResourcePackChunkRequestPacket

def payload (tp : ThirdParty) (id : UUID) (i : Int) : Bytes :=
  writeString (tp.uuidToString id) ++ writeU32LE (Int32.ofInt i).toUInt32

theorem readI16LE_reads_low (v : Nat) : readI16LE.Reads (FixedWidth.toLE 2 v) (UInt16.ofNat (v%256^2)).toInt16 := by
  have ht := (Pull.Reads.take (FixedWidth.toLE 2 v) : (Pull.take _ : Read Bytes).Reads _ _).map fun bytes =>
    (UInt16.ofNat (FixedWidth.ofLE bytes)).toInt16
  rwa [FixedWidth.toLE_length,FixedWidth.ofLE_toLE] at ht

theorem toInt_low (v : Nat) : (UInt16.ofNat (v%256^2)).toInt16.toInt = (v : Int).bmod (2^16) := by
  rw [UInt16.toInt16_ofNat',Int16.toInt_ofNat']
  have hlow := Int.emod_bmod (v : Int) (2^16)
  simpa using hlow

theorem bmod_eq_iff {i : Int} (h : 0 ≤ i) : i.bmod (2^16) = i ↔ i < 2^15 := by
  rw [Int.bmod_def]
  omega

theorem decodePayload_payload (htext : UuidText tp) (id : UUID) {i : Int} (hi : 0 ≤ i ∧ i < 2^31) :
    exec (decodePayload tp) (ofBytes (payload tp id i)) =
      .ok { packId := id, chunkIndex := i.bmod (2^16) }
        { ofBytes (payload tp id i) with offset := (payload tp id i).length-2 } := by
  have hnat : (Int32.ofInt i).toUInt32.toNat = i.toNat := by
    rw [← UInt32.toNat_toBitVec,Int32.toBitVec_toUInt32,Int32.toBitVec_ofInt,BitVec.toNat_ofInt]
    omega
  have hsplit : payload tp id i = (writeString (tp.uuidToString id) ++ FixedWidth.toLE 2 i.toNat) ++
      FixedWidth.toLE 2 (i.toNat/256^2) := by
    rw [payload,writeU32LE,hnat,FixedWidth.toLE_add 2 2,List.append_assoc]
  have hid : fromString tp (tp.uuidToString id) = .done id := by simp only [fromString,htext.inverts id]
  have hlength := htext.length id
  have hreads : (decodePayload tp).Reads (writeString (tp.uuidToString id) ++ FixedWidth.toLE 2 i.toNat)
      { packId := id, chunkIndex := i.bmod (2^16) } := by
    apply (readString_reads (show (tp.uuidToString id).length < 2^32 by omega)).bind
    simp only [hid,Pull.done_bind]
    have hindex := (readI16LE_reads_low i.toNat).map fun chunkIndex =>
      ({ packId := id, packVersion := [], chunkIndex := chunkIndex.toInt } : ResourcePackChunkRequestPacket)
    rwa [toInt_low,Int.toNat_of_nonneg hi.1] at hindex
  have hsuffix : (ofBytes (payload tp id i)).ahead = _ := hsplit
  have hrun := exec_reads hreads (open_ofBytes (payload tp id i)) hsuffix
  have hend : (payload tp id i).length-2 = (writeString (tp.uuidToString id) ++ FixedWidth.toLE 2 i.toNat).length := by
    rw [hsplit]
    simp only [List.length_append,FixedWidth.toLE_length]
    omega
  rw [hrun,hend]
  simp [ofBytes]

theorem chunkIndex_lt {r r' : BinaryReader} {pk : ResourcePackChunkRequestPacket}
    (h : exec (decodePayload tp) r = .ok pk r') : pk.chunkIndex < 2^15 := by
  rw [decodePayload,exec_bind] at h
  obtain ⟨packInfo,r₁,-,h⟩ := of_bind_ok h
  rw [exec_bind] at h
  obtain ⟨packId,r₂,-,h⟩ := of_bind_ok h
  rw [exec_bind] at h
  obtain ⟨chunkIndex,r₃,-,h⟩ := of_bind_ok h
  cases h
  exact chunkIndex.toInt_lt

end ResourcePackChunkRequestPacket

open ResourcePackChunkRequestPacket NetworkSession

/-- Two bytes of the index of an announced chunk are always left over. The request is for the chunk that it names,
and is put on the list of those to serve, exactly below 2^15, and no other request is for a chunk from there on. -/
theorem chunkRequest_halved (htext : UuidText tp) {packSize : Nat} {size : ChunkSize} {chunkCount i : Int}
    (hcount : ceilChunkCount packSize size.val = .ok chunkCount) (hi : 0 ≤ i ∧ i < chunkCount) (id : UUID) :
    ¬ Returns (decodePayload tp) (payload tp id i) [] { packId := id, chunkIndex := i } ∧
    ((∃ r, exec (decodePayload tp) (ofBytes (payload tp id i)) = .ok { packId := id, chunkIndex := i } r) ↔ i < 2^15) ∧
    (∀ pk r m s, exec (decodePayload tp) (ofBytes (payload tp id i)) = .ok pk r → m.chunkCount = chunkCount →
      ((wantChunk id m pk.chunkIndex s).pendingChunks = s.pendingChunks ++ [(m.packId,i)] ↔ i < 2^15)) ∧
    ((∃ data pk r, exec (decodePayload tp) (ofBytes data) = .ok pk r ∧ pk.packId = id ∧ pk.chunkIndex = i) ↔
      i < 2^15) := by
  have hbound := (ceilChunkCount_bounds hcount).2
  have hrun := decodePayload_payload htext id (show 0 ≤ i ∧ i < 2^31 by omega)
  have hsame := bmod_eq_iff hi.1
  refine ⟨fun h => ?_,?_,?_,?_⟩
  · rw [Returns,List.append_nil,hrun,EStateM.Result.ok.injEq,BinaryReader.mk.injEq] at h
    have hlength : 0 < (payload tp id i).length := by simp [payload,writeU32LE]
    omega
  · rw [hrun]
    simpa using hsame
  · intro pk r m s hpk hm
    rw [hrun,EStateM.Result.ok.injEq] at hpk
    obtain ⟨rfl,-⟩ := hpk
    constructor
    · intro hwant
      simp only [wantChunk] at hwant
      split at hwant
      · exact hsame.mp (by simpa using hwant)
      · simp at hwant
    · intro hlt
      have hback := hsame.mpr hlt
      rw [wantChunk,if_pos (by rw [hback,hm]; exact hi),hback]
  · constructor
    · rintro ⟨data,pk,r,hpk,-,rfl⟩
      exact chunkIndex_lt hpk
    · intro hlt
      refine ⟨_,_,_,hrun,rfl,hsame.mpr hlt⟩

theorem chunkRequest_halved_second :
    let i : Int := 1
    ¬ Returns (decodePayload .textIds) (payload .textIds UUID.nil i) [] { packId := UUID.nil, chunkIndex := i } ∧
    ((∃ r, exec (decodePayload .textIds) (ofBytes (payload .textIds UUID.nil i)) =
      .ok { packId := UUID.nil, chunkIndex := i } r) ↔ i < 2^15) := by
  intro i
  have hcount : ceilChunkCount 44 22 = .ok 2 := by decide +kernel
  have hhalved := @chunkRequest_halved .textIds ThirdParty.textIds_uuidText 44 ⟨22,by decide,by decide⟩ 2 i hcount
    (by decide) UUID.nil
  exact ⟨hhalved.1,hhalved.2.1⟩

/-- A pack of 40000 bytes in chunks of one byte is announced with 40000 chunks; a request for chunk 32768 is read as
one for chunk -32768. -/
theorem chunk_32768_misread :
    let written := payload .textIds UUID.nil 32768
    ceilChunkCount 40000 1 = .ok 40000 ∧
      exec (decodePayload .textIds) (ofBytes written) = .ok { chunkIndex := -32768 } { ofBytes written with offset := 39 } ∧
      ¬ Returns (decodePayload .textIds) written [] { packId := UUID.nil, chunkIndex := 32768 } := by
  intro written
  have hrun : exec (decodePayload .textIds) (ofBytes written) =
      .ok { chunkIndex := -32768 } { ofBytes written with offset := 39 } := by
    have hlength : written.length = 41 := by decide +kernel
    have hpayload := decodePayload_payload ThirdParty.textIds_uuidText UUID.nil (i:=32768) (by decide)
    rwa [hlength] at hpayload
  refine ⟨by decide +kernel,hrun,fun h => ?_⟩
  rw [Returns,List.append_nil,hrun,EStateM.Result.ok.injEq] at h
  exact absurd h.1 (by decide)

/-- `static_cast<size_t>(idx) * pack->maxChunkSize`. -/
def startOffset (idx maxChunkSize : Nat) : Nat := idx*maxChunkSize%2^64

/-- `std::min(static_cast<size_t>(pack->maxChunkSize), pack->pack->getPackSize() - startOffset)`. -/
def chunkSize (packSize maxChunkSize startOffset : Nat) : Nat :=
  min maxChunkSize ((packSize+2^64-startOffset)%2^64)

theorem NetworkSession.cut_range (m : ResourcePackMeta) (idx : Int) (file : Bytes) :
    cut m idx file = (file.drop (startOffset idx.toNat m.maxChunkSize)).take
      (chunkSize file.length m.maxChunkSize (startOffset idx.toNat m.maxChunkSize)) := rfl

/-- A chunk begins inside the pack, and neither the product nor the difference wraps. -/
structure CutInside (packSize maxChunkSize i : Nat) : Prop where
  start : startOffset i maxChunkSize = i*maxChunkSize
  inside : i*maxChunkSize < packSize
  rest : (packSize+2^64-startOffset i maxChunkSize)%2^64 = packSize-i*maxChunkSize
  pos : 1 ≤ chunkSize packSize maxChunkSize (startOffset i maxChunkSize)
  le : chunkSize packSize maxChunkSize (startOffset i maxChunkSize) ≤ maxChunkSize

theorem cutInside {packSize i : Nat} {size : ChunkSize} (hsize : packSize < 2^63) (hin : i*size.val < packSize) :
    CutInside packSize size.val i := by
  have hpos := size.pos
  have hstart : startOffset i size.val = i*size.val := Nat.mod_eq_of_lt (by omega)
  have hrest : (packSize+2^64-i*size.val)%2^64 = packSize-i*size.val := by omega
  constructor
  · exact hstart
  · exact hin
  · rw [hstart,hrest]
  · rw [hstart,chunkSize,hrest]
    omega
  · exact Nat.min_le_left _ _

/-- Both handlers count the chunks of a pack alike, and the chunks fill it one behind the other. -/
theorem chunks_tile {packSize : Nat} {size : ChunkSize} (hpos : 0 < packSize) (hsmall : packSize < 2^53)
    (hfits : (packSize+size.val-1)/size.val < 2^31) :
    ∃ n : Nat, ceilChunkCount packSize size.val = .ok (n : Int) ∧ roundedChunkCount packSize size.val = n ∧
      (∀ i < n, CutInside packSize size.val i) ∧
      (∀ m file, m.maxChunkSize = size.val → file.length = packSize → ∀ i : Nat, NetworkSession.cut m i file =
        (file.drop (startOffset i size.val)).take (chunkSize packSize size.val (startOffset i size.val))) ∧
      Tiles (fun i => startOffset i size.val)
        (fun i => chunkSize packSize size.val (startOffset i size.val)) n packSize ∧
      ∀ b, b < packSize ↔ ∃! i, i < n ∧ startOffset i size.val ≤ b ∧
        b < startOffset i size.val+chunkSize packSize size.val (startOffset i size.val) := by
  have hsize := size.pos
  have hmax := size.lt
  have hceil : ceilChunkCount packSize size.val = .ok (((packSize+size.val-1)/size.val : Nat) : Int) := by
    rw [ceilChunkCount,Binary64.ofNat_exact hsmall,Binary64.ceilDiv_exact hsize hsmall,if_pos hfits]
  have hrounded : roundedChunkCount packSize size.val = ((packSize+size.val-1)/size.val : Nat) := by
    rw [roundedChunkCount,Nat.mod_eq_of_lt (by omega),Int32.toInt_ofNat_of_lt hfits]
  have hinside : ∀ i < (packSize+size.val-1)/size.val, CutInside packSize size.val i := fun i hi =>
    cutInside (by omega) ((lt_blocks_iff hpos hsize).mp hi)
  have htiles : Tiles (fun i => startOffset i size.val)
      (fun i => chunkSize packSize size.val (startOffset i size.val)) ((packSize+size.val-1)/size.val) packSize := by
    refine (tiles_blocks hpos hsize).congr fun i hi => ?_
    have hcut := hinside i hi
    exact ⟨hcut.start,by rw [chunkSize,hcut.rest]⟩
  have hcut : ∀ m file, m.maxChunkSize = size.val → file.length = packSize → ∀ i : Nat,
      NetworkSession.cut m i file =
        (file.drop (startOffset i size.val)).take (chunkSize packSize size.val (startOffset i size.val)) := by
    intro m file hm hfile i
    rw [NetworkSession.cut_range,hm,hfile,Int.toNat_natCast]
  refine ⟨_,hceil,hrounded,hinside,hcut,htiles,fun b => ⟨fun hb => htiles.existsUnique_range hb,?_⟩⟩
  rintro ⟨i,⟨hi,-,hlt⟩,-⟩
  exact Nat.lt_of_lt_of_le hlt (htiles.end_le_total hi)

theorem chunks_tile_four :
    ∃ n : Nat, ceilChunkCount 65 20 = .ok (n : Int) ∧ roundedChunkCount 65 20 = n ∧
      (∀ i < n, CutInside 65 20 i) ∧
      (∀ m file, m.maxChunkSize = 20 → file.length = 65 → ∀ i : Nat, NetworkSession.cut m i file =
        (file.drop (startOffset i 20)).take (chunkSize 65 20 (startOffset i 20))) ∧
      Tiles (fun i => startOffset i 20) (fun i => chunkSize 65 20 (startOffset i 20)) n 65 ∧
      ∀ b, b < 65 ↔ ∃! i, i < n ∧ startOffset i 20 ≤ b ∧ b < startOffset i 20+chunkSize 65 20 (startOffset i 20) :=
  @chunks_tile 65 ⟨20,by decide,by decide⟩ (by decide) (by decide) (by decide)

end CyrexMC
