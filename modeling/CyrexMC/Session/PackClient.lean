import CyrexMC.ResourcePacks.Hashing
import CyrexMC.Session.PackDelivery
import CyrexMC.Session.Wrapping
set_option autoImplicit false

/-! A client that puts packs together from the datagrams it is sent. -/

namespace CyrexMC
open BinaryReader BinaryWriter Stateful

variable {tp : ThirdParty}

/-- The fields in the order they are written; the version is not among them. -/
def ResourcePackDataInfoPacket.parse (tp : ThirdParty) : Read ResourcePackDataInfoPacket := do
  let id ← readString
  let packId ← fromString tp id
  let maxChunkSize ← readI32LE
  let chunkCount ← readI32LE
  let compressedPackSize ← readU64LE
  let size ← readVarUInt
  let sha256 ← Pull.take size.toNat
  let premium ← readBool
  let type ← readU8
  pure { packId, maxChunkSize := maxChunkSize.toInt, chunkCount := chunkCount.toInt, compressedPackSize, sha256, premium,
         type := ⟨type⟩ }

def ResourcePackChunkDataPacket.parse (tp : ThirdParty) : Read ResourcePackChunkDataPacket := do
  let id ← readString
  let packId ← fromString tp id
  let chunkIndex ← readU32LE
  let progress ← readU64LE
  let data ← readString
  pure { packId, chunkIndex := chunkIndex.toInt32.toInt, progress, data }

/-- What the client has: the announcement of each pack, and the chunks by pack and index. -/
structure PackClient where
  infos : UUID → Option ResourcePackDataInfoPacket := fun _ => none
  chunks : UUID × Int → Option Bytes := fun _ => none

namespace PackClient

/-- Of the packets in a frame the client takes the two that a download is made of. -/
def readBody (tp : ThirdParty) : Read (Option PacketBody) := do
  let header ← readVarUInt
  if header &&& 0x3FF = PacketId.ResourcePackDataInfo then do
    let pk ← ResourcePackDataInfoPacket.parse tp
    pure (some (.resourcePackDataInfo pk))
  else if header &&& 0x3FF = PacketId.ResourcePackChunkData then do
    let pk ← ResourcePackChunkDataPacket.parse tp
    pure (some (.resourcePackChunkData pk))
  else pure none

def readFrame : Read Bytes := do
  let length ← readVarUInt
  Pull.take length.toNat

def readBatch (tp : ThirdParty) : Nat → Bytes → List PacketBody
  | 0, _ => []
  | fuel+1, batch =>
    match readFrame.feed batch with
    | .done frame rest =>
      match (readBody tp).feed frame with
      | .done (some body) _ => body :: readBatch tp fuel rest
      | _ => readBatch tp fuel rest
    | _ => []

def take (c : PackClient) : PacketBody → PackClient
  | .resourcePackDataInfo pk => { c with infos := Function.update c.infos pk.packId (some pk) }
  | .resourcePackChunkData pk => { c with chunks := Function.update c.chunks (pk.packId,pk.chunkIndex) (some pk.data) }
  | _ => c

def receive (tp : ThirdParty) (compressionEnabled : Bool) (c : PackClient) (datagram : Bytes) : PackClient :=
  match McbePacketRouter.decompressIncoming tp compressionEnabled datagram.tail with
  | .ok batch => (readBatch tp batch.length batch).foldl take c
  | .error _ => c

/-- The chunks of a pack from the first on, if they are all there. -/
def gather (c : PackClient) (id : UUID) : Nat → Option Bytes
  | 0 => some []
  | n+1 => do
    let front ← c.gather id n
    let chunk ← c.chunks (id,n)
    some (front ++ chunk)

/-- The pack as the client accepts it: of the size and with the hash that were announced. -/
def file (tp : ThirdParty) (c : PackClient) (id : UUID) : Option Bytes := do
  let info ← c.infos id
  let file ← c.gather id info.chunkCount.toNat
  if file.length = info.compressedPackSize.toNat ∧ tp.sha256 file = info.sha256 then some file else none

end PackClient

/-- What the codecs, the UUID texts and the hash are documented to do. -/
structure ClientLibraries (tp : ThirdParty) : Prop where
  codec : Lossless tp
  uuidLength : ∀ id, (tp.uuidToString id).length ≤ 36
  uuidInverts : ∀ id, tp.uuidFromString (tp.uuidToString id) = some id
  hashLength : ∀ input, (tp.sha256 input).length = 32

theorem uuidString_reads (libs : ClientLibraries tp) (id : UUID) {α : Type} {bytes : Bytes} {a : α} {next : UUID → Read α}
    (h : (next id).Reads bytes a) :
    (readString >>= fun str => fromString tp str >>= next).Reads (writeString (tp.uuidToString id) ++ bytes) a := by
  have hlength := libs.uuidLength id
  have hid : fromString tp (tp.uuidToString id) = .done id := by simp only [fromString,libs.uuidInverts]
  apply (readString_reads (by omega)).bind
  rwa [hid,Pull.done_bind]

structure ResourcePackDataInfoPacket.Sized (pk : ResourcePackDataInfoPacket) : Prop where
  maxChunkSize : 0 ≤ pk.maxChunkSize ∧ pk.maxChunkSize < 2^31
  chunkCount : 0 ≤ pk.chunkCount ∧ pk.chunkCount < 2^31
  sha256 : pk.sha256.length = 32

theorem ResourcePackDataInfoPacket.parse_reads (libs : ClientLibraries tp) {pk : ResourcePackDataInfoPacket} (h : pk.Sized) :
    (parse tp).Reads (pk.encodePayload tp) { pk with packVersion := [] } := by
  have hmax : (Int32.ofInt pk.maxChunkSize).toInt = pk.maxChunkSize :=
    Int32.toInt_ofInt_of_le (by have := h.maxChunkSize; omega) h.maxChunkSize.2
  have hcount : (Int32.ofInt pk.chunkCount).toInt = pk.chunkCount :=
    Int32.toInt_ofInt_of_le (by have := h.chunkCount; omega) h.chunkCount.2
  have hsize : (UInt32.ofNat pk.sha256.length).toNat = pk.sha256.length := by
    rw [h.sha256]
    rfl
  simp only [encodePayload,List.append_assoc]
  apply uuidString_reads libs
  apply (readI32LE_reads _).bind
  apply (readI32LE_reads _).bind
  apply (readU64LE_reads _).bind
  apply (readVarUInt_reads _).bind
  rw [hsize]
  apply (Pull.Reads.take pk.sha256).bind
  apply (readBool_reads _).bind
  have htype := (readU8_reads pk.type.value).map fun type =>
    ({ pk with packVersion := [], type := ⟨type⟩ } : ResourcePackDataInfoPacket)
  simp only [hmax,hcount]
  exact htype

theorem ResourcePackChunkDataPacket.parse_reads (libs : ClientLibraries tp) {pk : ResourcePackChunkDataPacket}
    (hindex : 0 ≤ pk.chunkIndex ∧ pk.chunkIndex < 2^31) (hdata : pk.data.length < 2^32) :
    (parse tp).Reads (pk.encodePayload tp) { pk with packVersion := [] } := by
  have hback : (Int32.ofInt pk.chunkIndex).toUInt32.toInt32.toInt = pk.chunkIndex :=
    Int32.toInt_ofInt_of_le (by omega) hindex.2
  simp only [encodePayload,List.append_assoc]
  apply uuidString_reads libs
  apply (readU32LE_reads _).bind
  apply (readU64LE_reads _).bind
  have hread := (readString_reads hdata).map fun data =>
    ({ pk with packVersion := [], data } : ResourcePackChunkDataPacket)
  simp only [hback]
  exact hread

namespace PackClient

def seen (packet : Packet) : Option PacketBody :=
  match packet.body with
  | .resourcePackDataInfo pk => some (.resourcePackDataInfo { pk with packVersion := [] })
  | .resourcePackChunkData pk => some (.resourcePackChunkData { pk with packVersion := [] })
  | _ => none

def Fits (packet : Packet) : Prop :=
  match packet.body with
  | .resourcePackDataInfo pk => pk.Sized
  | .resourcePackChunkData pk => (0 ≤ pk.chunkIndex ∧ pk.chunkIndex < 2^31) ∧ pk.data.length ≤ 2^22
  | _ => False

theorem readFrame_frame {id : UInt32} {payload : Bytes} (h : payload.length+10 < 2^32) :
    ∃ header, header &&& 0x3FF = id &&& 0x3FF ∧
      readFrame.Reads (frame id 0 payload) (writeVarUInt header ++ payload) := by
  have hheader := writeVarUInt_length (packetHeader id 0)
  have hsize : getVarUIntSize (packetHeader id 0) ≤ 5 := getVarSizeLoop_le 5 _
  have hlength : (UInt32.ofNat (payload.length+getVarUIntSize (packetHeader id 0))).toNat =
      (writeVarUInt (packetHeader id 0) ++ payload).length := by
    rw [UInt32.toNat_ofNat',Nat.mod_eq_of_lt (by omega),List.length_append,hheader,Nat.add_comm]
  refine ⟨_,packetHeader_low id 0,?_⟩
  rw [frame,List.append_assoc]
  apply (readVarUInt_reads _).bind
  rw [hlength]
  exact Pull.Reads.take _

theorem readBatch_nil (tp : ThirdParty) (fuel : Nat) : readBatch tp fuel [] = [] := by
  cases fuel with
  | zero => rfl
  | succ fuel => rfl

theorem readBatch_frame {id : UInt32} {payload : Bytes} {body : PacketBody} (hlength : payload.length+10 < 2^32)
    (hbody : ∀ header : UInt32, header &&& 0x3FF = id &&& 0x3FF →
      (readBody tp).Reads (writeVarUInt header ++ payload) (some body)) :
    readBatch tp (frame id 0 payload).length (frame id 0 payload) = [body] := by
  obtain ⟨header,hheader,hframe⟩ := @readFrame_frame id payload hlength
  have hfeed := hframe []
  have hread := hbody header hheader []
  rw [List.append_nil] at hfeed hread
  cases hsize : (frame id 0 payload).length with
  | zero =>
    rw [List.length_eq_zero_iff.mp hsize] at hfeed
    cases hfeed
  | succ fuel => simp only [readBatch,hfeed,hread,readBatch_nil]

theorem readBody_dataInfo (libs : ClientLibraries tp) {pk : ResourcePackDataInfoPacket} (h : pk.Sized) {header : UInt32}
    (hid : header &&& 0x3FF = PacketId.ResourcePackDataInfo &&& 0x3FF) :
    (readBody tp).Reads (writeVarUInt header ++ pk.encodePayload tp)
      (some (.resourcePackDataInfo { pk with packVersion := [] })) := by
  apply (readVarUInt_reads header).bind
  have hthis : header &&& 0x3FF = PacketId.ResourcePackDataInfo := hid
  rw [if_pos hthis]
  exact (ResourcePackDataInfoPacket.parse_reads libs h).map fun pk => some (PacketBody.resourcePackDataInfo pk)

theorem readBody_chunkData (libs : ClientLibraries tp) {pk : ResourcePackChunkDataPacket}
    (hindex : 0 ≤ pk.chunkIndex ∧ pk.chunkIndex < 2^31) (hdata : pk.data.length < 2^32) {header : UInt32}
    (hid : header &&& 0x3FF = PacketId.ResourcePackChunkData &&& 0x3FF) :
    (readBody tp).Reads (writeVarUInt header ++ pk.encodePayload tp)
      (some (.resourcePackChunkData { pk with packVersion := [] })) := by
  apply (readVarUInt_reads header).bind
  have hthis : header &&& 0x3FF = PacketId.ResourcePackChunkData := hid
  rw [if_neg (by rw [hthis]; decide),if_pos hthis]
  exact (ResourcePackChunkDataPacket.parse_reads libs hindex hdata).map fun pk => some (PacketBody.resourcePackChunkData pk)

theorem length_writeString (str : Bytes) : (writeString str).length ≤ str.length+5 := by
  have hsize : getVarUIntSize (UInt32.ofNat str.length) ≤ 5 := getVarSizeLoop_le 5 _
  rw [writeString,List.length_append,writeVarUInt_length]
  omega

theorem two_le_frame (id : UInt32) (payload : Bytes) : 2 ≤ (frame id 0 payload).length := by
  have hlength := getVarUIntSize_pos (UInt32.ofNat (payload.length+getVarUIntSize (packetHeader id 0)))
  have hheader := getVarUIntSize_pos (packetHeader id 0)
  simp only [frame,List.length_append,writeVarUInt_length]
  omega

/-- The frame of a packet is read as that packet and nothing else. -/
theorem readBatch_encode (libs : ClientLibraries tp) {packet : Packet} (hsub : packet.subClientId = 0) (h : Fits packet) :
    2 ≤ (packet.encode tp).length ∧ (packet.encode tp).length ≤ defaultMaxDecompressionSize ∧
      readBatch tp (packet.encode tp).length (packet.encode tp) = (seen packet).toList := by
  obtain ⟨subClientId,body⟩ := packet
  cases hsub
  cases body with
  | resourcePackDataInfo pk =>
    have hid := length_writeString (tp.uuidToString pk.packId)
    have huuid := libs.uuidLength pk.packId
    have hvar : getVarUIntSize (UInt32.ofNat 32) ≤ 5 := getVarSizeLoop_le 5 _
    have hpayload : (pk.encodePayload tp).length ≤ 200 := by
      simp only [ResourcePackDataInfoPacket.encodePayload,List.length_append,writeVarUInt_length,h.sha256,writeI32LE,writeU64LE,
        FixedWidth.toLE_length,writeBool,writeU8,List.length_singleton]
      omega
    have hframe := frame_length_le PacketId.ResourcePackDataInfo 0 (pk.encodePayload tp)
    refine ⟨two_le_frame _ _,?_,?_⟩
    · exact hframe.trans (by simp only [defaultMaxDecompressionSize]; omega)
    · exact readBatch_frame (by omega) fun header hheader => readBody_dataInfo libs h hheader
  | resourcePackChunkData pk =>
    have hid := length_writeString (tp.uuidToString pk.packId)
    have huuid := libs.uuidLength pk.packId
    have hdata := length_writeString pk.data
    have hfits : pk.data.length ≤ 2^22 := h.2
    have hpayload : (pk.encodePayload tp).length ≤ 2^22+200 := by
      simp only [ResourcePackChunkDataPacket.encodePayload,List.length_append,writeU32LE,writeU64LE,FixedWidth.toLE_length]
      omega
    have hframe := frame_length_le PacketId.ResourcePackChunkData 0 (pk.encodePayload tp)
    refine ⟨two_le_frame _ _,?_,?_⟩
    · exact hframe.trans (by simp only [defaultMaxDecompressionSize]; omega)
    · exact readBatch_frame (by omega) fun header hheader => readBody_chunkData libs h.1 (by omega) hheader
  | _ => exact h.elim

theorem receive_wraps (libs : ClientLibraries tp) {s : NetworkSession} (hs : s.Unencrypted) {packet : Packet} {d : Bytes}
    (hsub : packet.subClientId = 0) (hfits : Fits packet) (h : Wraps tp s [packet] d) (c : PackClient) :
    c.receive tp s.compressionEnabled d = (seen packet).toList.foldl take c := by
  obtain ⟨hmin,hmax,hbatch⟩ := readBatch_encode libs hsub hfits
  obtain ⟨out,hout,-,hback⟩ := NetworkSession.compressOutgoing_incoming libs.codec hs hmin hmax
  obtain ⟨out',hout',rfl⟩ := h
  rw [List.flatMap_singleton,hout] at hout'
  cases hout'
  simp only [receive,List.tail_cons,hback,hbatch]

theorem receive_all (libs : ClientLibraries tp) {s : NetworkSession} (hs : s.Unencrypted) {packets : List Packet}
    {datagrams : List Bytes} (h : List.Forall₂ (fun packet d => Wraps tp s [packet] d) packets datagrams)
    (hfits : ∀ packet ∈ packets, packet.subClientId = 0 ∧ Fits packet) (c : PackClient) :
    datagrams.foldl (receive tp s.compressionEnabled) c = (packets.filterMap seen).foldl take c := by
  induction h generalizing c with
  | nil => rfl
  | @cons packet d packets datagrams hd _ ih =>
    obtain ⟨hsub,hthis⟩ := hfits packet (by simp)
    have hrest := ih (fun packet hpacket => hfits packet (by simp [hpacket])) (c.receive tp s.compressionEnabled d)
    rw [List.foldl_cons,hrest,receive_wraps libs hs hsub hthis hd]
    cases hseen : seen packet <;> simp [hseen]

/-- The client has the chunks that were served, and what was announced. -/
structure Holds (tp : ThirdParty) (f : ResourcePackFactory) (announced : List UUID) (served : List (UUID × Int))
    (c : PackClient) : Prop where
  infos : ∀ id, c.infos id =
    if id ∈ announced then (NetworkSession.infoOf tp f id).map fun info => { info with packVersion := [] } else none
  chunks : ∀ r, c.chunks r = if r ∈ served then some (f.chunkAt r).2.2.2 else none

theorem Holds.info {f : ResourcePackFactory} {announced : List UUID} {served : List (UUID × Int)} {c : PackClient}
    (h : Holds tp f announced served c) {id : UUID} {info : ResourcePackDataInfoPacket}
    (hinfo : NetworkSession.infoOf tp f id = some info) :
    Holds tp f (announced ++ [id]) served (c.take (.resourcePackDataInfo { info with packVersion := [] })) := by
  obtain ⟨i,p,hi,hp,hversion,hcount,hid,hmax⟩ := NetworkSession.infoOf_some hinfo
  constructor
  · intro x
    simp only [take,hid,Function.update_apply]
    by_cases hx : x = id
    · subst hx
      simp [hinfo,hid]
    · rw [if_neg hx,h.infos x]
      simp [hx]
  · exact h.chunks

theorem Holds.chunk {f : ResourcePackFactory} {announced : List UUID} {served : List (UUID × Int)} {c : PackClient}
    (h : Holds tp f announced served c) (r : UUID × Int) (progress : UInt64) {data : Bytes}
    (hdata : data = (f.chunkAt r).2.2.2) :
    Holds tp f announced (served ++ [r])
      (c.take (.resourcePackChunkData { packId := r.1, chunkIndex := r.2, progress, data })) := by
  constructor
  · exact h.infos
  · intro x
    simp only [take,Function.update_apply]
    by_cases hx : x = r
    · subst hx
      simp [hdata]
    · rw [if_neg hx,h.chunks x]
      simp [hx]

end PackClient

end CyrexMC
