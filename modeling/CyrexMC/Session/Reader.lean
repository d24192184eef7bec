import CyrexMC.Session.Restoring
import CyrexMC.Session.Vocabulary
set_option autoImplicit false

/-! A client that reads all that comes, and learns from it when the compression begins. -/

namespace CyrexMC
open BinaryReader BinaryWriter

variable {tp : ThirdParty}

namespace PackClient

def readFrames : Nat → Bytes → List Bytes
  | 0, _ => []
  | fuel+1, batch =>
    match readFrame.feed batch with
    | .done frame rest => frame :: readFrames fuel rest
    | _ => []

def frameBody (tp : ThirdParty) (frame : Bytes) : Option PacketBody :=
  match (readBody tp).feed frame with
  | .done body _ => body
  | _ => none

def frameSettles (frame : Bytes) : Bool :=
  match readVarUInt.feed frame with
  | .done header _ => header &&& 0x3FF = PacketId.NetworkSettings
  | _ => false

theorem readBatch_frames (tp : ThirdParty) (fuel : Nat) (batch : Bytes) :
    readBatch tp fuel batch = (readFrames fuel batch).filterMap (frameBody tp) := by
  induction fuel generalizing batch with
  | zero => rfl
  | succ fuel ih =>
    unfold readBatch readFrames
    cases hfeed : readFrame.feed batch with
    | done frame rest =>
      simp only [List.filterMap_cons,frameBody,ih]
      cases hbody : (readBody tp).feed frame with
      | done body rest' => cases body <;> rfl
      | failed e rest' => rfl
      | short n => rfl
    | failed e rest => rfl
    | short n => rfl

end PackClient

/-- A client with what it knows of the compression. -/
structure Reader where
  compressionEnabled : Bool := false
  packs : PackClient := {}

namespace Reader
open PackClient

def read (tp : ThirdParty) (r : Reader) (datagram : Bytes) : Reader :=
  match McbePacketRouter.decompressIncoming tp r.compressionEnabled datagram.tail with
  | .ok batch =>
    { compressionEnabled := r.compressionEnabled || (readFrames batch.length batch).any frameSettles,
      packs := (readBatch tp batch.length batch).foldl take r.packs }
  | .error _ => r

/-- What the client is to take from a line. -/
def hear (r : Reader) (line : Line) : Reader :=
  { compressionEnabled := r.compressionEnabled || line.settles, packs := (line.packets.filterMap seen).foldl take r.packs }

end Reader

structure Packet.Carried (tp : ThirdParty) (packet : Packet) : Prop where
  subClientId : packet.subClientId = 0
  payload : ∃ payload, packet.body.encodePayload tp = some payload ∧ payload.length+10 < 2^32
  seen : PackClient.Fits packet ∨ PackClient.seen packet = none

def Framed (tp : ThirdParty) (packet : Packet) (frame : Bytes) : Prop :=
  ∃ header payload, packet.body.encodePayload tp = some payload ∧
    header &&& 0x3FF = packet.body.getDef.networkId &&& 0x3FF ∧ frame = writeVarUInt header ++ payload

namespace PackClient

theorem readFrames_encode {packets : List Packet} (h : ∀ packet ∈ packets, packet.Carried tp) {fuel : Nat}
    (hfuel : packets.length ≤ fuel) :
    List.Forall₂ (Framed tp) packets (readFrames fuel (packets.flatMap fun packet => packet.encode tp)) := by
  induction packets generalizing fuel with
  | nil => cases fuel <;> exact .nil
  | cons packet packets ih =>
    cases fuel with
    | zero => simp at hfuel
    | succ fuel =>
      obtain ⟨hsub,⟨payload,hpayload,hlength⟩,-⟩ := h packet (List.mem_cons_self ..)
      obtain ⟨header,hheader,hread⟩ := @readFrame_frame packet.body.getDef.networkId payload hlength
      have hencode : packet.encode tp = frame packet.body.getDef.networkId 0 payload := by
        rw [Packet.encode,hpayload,hsub]
      have hrest := ih (fun packet' hpacket' => h packet' (List.mem_cons_of_mem _ hpacket'))
        (Nat.le_of_succ_le_succ hfuel)
      rw [List.flatMap_cons,hencode,readFrames,hread]
      exact .cons ⟨header,payload,hpayload,hheader,rfl⟩ hrest

theorem networkId_low (d : PacketDef) : d.networkId &&& 0x3FF = d.networkId := by
  cases d <;> rfl

theorem networkId_inj {d d' : PacketDef} (h : d.networkId = d'.networkId) : d = d' := by
  have hfind := PacketFactory.find_networkId d
  rw [h,PacketFactory.find_networkId d',Option.some_inj] at hfind
  exact hfind.symm

theorem frameSettles_eq {packet : Packet} {frame : Bytes} (h : Framed tp packet frame) :
    frameSettles frame = packet.isSettings := by
  obtain ⟨header,payload,-,hheader,rfl⟩ := h
  rw [networkId_low] at hheader
  have hread := readVarUInt_reads header payload
  simp only [frameSettles,hread,hheader,Packet.isSettings,decide_eq_decide]
  exact ⟨fun heq => @networkId_inj _ .networkSettings heq,fun heq => by rw [heq]; rfl⟩

theorem frameBody_eq (libs : ClientLibraries tp) {packet : Packet} {frame : Bytes} (hcarried : packet.Carried tp)
    (h : Framed tp packet frame) : frameBody tp frame = seen packet := by
  obtain ⟨header,payload,hpayload,hheader,rfl⟩ := h
  obtain ⟨subClientId,body⟩ := packet
  have hother : body.getDef ≠ .resourcePackDataInfo → body.getDef ≠ .resourcePackChunkData →
      frameBody tp (writeVarUInt header ++ payload) = none := by
    intro hinfo hchunk
    have hlow : header &&& 0x3FF = body.getDef.networkId := hheader.trans (networkId_low _)
    have hinfo' : body.getDef.networkId ≠ PacketId.ResourcePackDataInfo := fun heq =>
      hinfo (@networkId_inj _ .resourcePackDataInfo heq)
    have hchunk' : body.getDef.networkId ≠ PacketId.ResourcePackChunkData := fun heq =>
      hchunk (@networkId_inj _ .resourcePackChunkData heq)
    have hread : (readBody tp).Reads (writeVarUInt header ++ []) none := by
      apply (readVarUInt_reads header).bind
      rw [hlow,if_neg hinfo',if_neg hchunk']
      exact .done none
    rw [List.append_nil] at hread
    simp only [frameBody,hread payload]
  cases body with
  | resourcePackDataInfo pk =>
    have hread := readBody_dataInfo libs (hcarried.seen.resolve_right (by simp [seen])) hheader []
    cases hpayload
    rw [List.append_nil] at hread
    simp only [frameBody,hread,seen]
  | resourcePackChunkData pk =>
    have hfits : Fits ⟨subClientId,.resourcePackChunkData pk⟩ := hcarried.seen.resolve_right (by simp [seen])
    have hdata : pk.data.length ≤ 2^22 := hfits.2
    have hread := readBody_chunkData libs hfits.1 (by omega) hheader []
    cases hpayload
    rw [List.append_nil] at hread
    simp only [frameBody,hread,seen]
  | _ => exact hother (by simp [PacketBody.getDef]) (by simp [PacketBody.getDef])

end PackClient

/-- What the libraries of a client are documented to do: what does not fit the buffer is not decompressed. -/
structure ReaderLibraries (tp : ThirdParty) : Prop extends ClientLibraries tp where
  inflate_short (input : Bytes) (n : Nat) (_ : n < input.length) :
    tp.deflateDecompress (tp.deflateCompress input (tp.deflateCompressBound input.length)) n = none

theorem NetworkSession.unencrypted_begin (g : Guid) (compressionEnabled : Bool) :
    (begin g compressionEnabled).Unencrypted := by
  refine ⟨rfl,fun hmode => ?_⟩
  have hon : compressionEnabled = true := hmode
  simp [begin,hon]

theorem NetworkSession.compressOutgoing_large (libs : ReaderLibraries tp) (g : Guid) {payload out : Bytes}
    (hlarge : defaultMaxDecompressionSize < payload.length) (h : compressOutgoing tp (.begin g true) payload = .ok out) :
    ∃ e, McbePacketRouter.decompressIncoming tp true out = .error e := by
  have hzlib : getCompressor CompressionAlgorithm.ZLIB = some .zlib := by decide
  have hlong : Compressor.zlib.shouldCompress payload.length = true := by
    have hthreshold : defaultThreshold ≤ payload.length := le_trans (by decide) hlarge.le
    exact decide_eq_true hthreshold
  have hwritten := libs.codec.deflate_written payload
  have hnone := libs.inflate_short payload _ hlarge
  simp [compressOutgoing,begin,hzlib,hlong,Compressor.compress,ZlibCompressor.compress,hwritten] at h
  subst h
  have hback : getCompressor ⟨CompressionAlgorithm.ZLIB.value⟩ = some .zlib := by decide
  refine ⟨.undefined .emptyOptional,?_⟩
  simp [McbePacketRouter.decompressIncoming,hback,Compressor.decompress,ZlibCompressor.decompress,hnone]

namespace Packet

theorem untemplated_seen (packet : Packet) :
    PackClient.seen packet.untemplated = PackClient.seen packet ∧ packet.untemplated.isSettings = packet.isSettings := by
  obtain ⟨subClientId,body⟩ := packet
  cases body <;> exact ⟨rfl,rfl⟩

theorem untemplated_payload (tp : ThirdParty) (packet : Packet) :
    packet.untemplated.subClientId = packet.subClientId ∧
      packet.untemplated.body.getDef = packet.body.getDef ∧
      (packet.untemplated.body.encodePayload tp).map List.length = (packet.body.encodePayload tp).map List.length := by
  obtain ⟨subClientId,body⟩ := packet
  cases body with
  | resourcePacksInfo pk =>
    have hid : ∀ id : UUID, (writeUUID id).length = 16 := fun id => by
      simp [writeUUID,id.size_eq]
    refine ⟨rfl,rfl,?_⟩
    simp [untemplated,PacketBody.encodePayload,ResourcePacksInfoPacket.encodePayload,hid]
  | _ => exact ⟨rfl,rfl,rfl⟩

theorem untemplated_length (tp : ThirdParty) (packet : Packet) :
    (packet.untemplated.encode tp).length = (packet.encode tp).length := by
  obtain ⟨hsub,hdef,hpayload⟩ := packet.untemplated_payload tp
  unfold encode
  rw [hsub,hdef]
  generalize packet.untemplated.body.encodePayload tp = p, packet.body.encodePayload tp = q at hpayload ⊢
  cases p with
  | none =>
    rw [Option.map_eq_none_iff.mp hpayload.symm]
  | some payload =>
    obtain ⟨payload',rfl,hlength⟩ := Option.map_eq_some_iff.mp hpayload.symm
    simp [frame,hlength]

theorem Carried.of_untemplated {packet : Packet} (h : packet.untemplated.Carried tp) : packet.Carried tp := by
  obtain ⟨hsub,-,hpayload⟩ := packet.untemplated_payload tp
  obtain ⟨payload,hthis,hlength⟩ := h.payload
  rw [hthis,Option.map_some,eq_comm,Option.map_eq_some_iff] at hpayload
  obtain ⟨payload',hpayload',hsame⟩ := hpayload
  refine ⟨hsub.symm.trans h.subClientId,⟨payload',hpayload',by omega⟩,?_⟩
  have hseen := h.seen
  rw [packet.untemplated_seen.1] at hseen
  obtain ⟨subClientId,body⟩ := packet
  cases body with
  | resourcePacksInfo pk => exact .inr rfl
  | _ => exact hseen

theorem two_le_encode {packet : Packet} (h : packet.Carried tp) : 2 ≤ (packet.encode tp).length := by
  obtain ⟨payload,hpayload,-⟩ := h.payload
  rw [encode,hpayload,h.subClientId]
  exact PackClient.two_le_frame _ _

end Packet

/-- The line reaches the client, or there is nothing in it for the client. -/
structure Line.Legible (tp : ThirdParty) (line : Line) : Prop where
  nonempty : line.packets ≠ []
  carried : ∀ packet ∈ line.packets, packet.Carried tp
  heard : (line.packets.flatMap fun packet => packet.encode tp).length ≤ defaultMaxDecompressionSize ∨
    ∀ packet ∈ line.packets, PackClient.seen packet = none ∧ packet.isSettings = false

namespace Reader
open PackClient

theorem length_le_encode {packets : List Packet} (h : ∀ packet ∈ packets, packet.Carried tp) :
    2*packets.length ≤ (packets.flatMap fun packet => packet.encode tp).length := by
  induction packets with
  | nil => exact Nat.le_refl 0
  | cons packet packets ih =>
    have hfirst := Packet.two_le_encode (h packet (List.mem_cons_self ..))
    have hrest := ih fun packet' hpacket' => h packet' (List.mem_cons_of_mem _ hpacket')
    simp only [List.flatMap_cons,List.length_append,List.length_cons]
    omega

theorem read_batch (libs : ClientLibraries tp) {packets : List Packet} (h : ∀ packet ∈ packets, packet.Carried tp)
    {r : Reader} {datagram : Bytes} (hback : McbePacketRouter.decompressIncoming tp r.compressionEnabled datagram.tail =
      .ok (packets.flatMap fun packet => packet.encode tp)) :
    r.read tp datagram =
      { compressionEnabled := r.compressionEnabled || packets.any Packet.isSettings,
        packs := (packets.filterMap seen).foldl take r.packs } := by
  have hlength := length_le_encode h
  have hframes : List.Forall₂ (Framed tp) packets (readFrames _ (packets.flatMap fun packet => packet.encode tp)) :=
    readFrames_encode h (show packets.length ≤ (packets.flatMap fun packet => packet.encode tp).length by omega)
  simp only [read,hback,readBatch_frames]
  generalize readFrames _ _ = frames at hframes
  have hboth : frames.any frameSettles = packets.any Packet.isSettings ∧
      frames.filterMap (frameBody tp) = packets.filterMap seen := by
    clear hback hlength
    induction hframes with
    | nil => exact ⟨rfl,rfl⟩
    | @cons packet frame packets frames hframe _ ih =>
      obtain ⟨hany,hbodies⟩ := ih fun packet' hpacket' => h packet' (List.mem_cons_of_mem _ hpacket')
      have hbody := frameBody_eq libs (h packet (List.mem_cons_self ..)) hframe
      simp only [List.any_cons,List.filterMap_cons,frameSettles_eq hframe,hbody,hany,hbodies,and_self]
  rw [hboth.1,hboth.2]

theorem read_line (libs : ReaderLibraries tp) {g : Guid} {line : Line} {datagram : Bytes} (h : Says tp g line datagram)
    (hline : line.Legible tp) {r : Reader} (hmode : r.compressionEnabled = line.compressed) :
    r.read tp datagram = r.hear line := by
  obtain ⟨packets,hpackets,out,hout,rfl⟩ := h
  have hcarried : ∀ packet ∈ packets, packet.Carried tp := fun packet hpacket =>
    .of_untemplated (hline.carried _ (hpackets ▸ List.mem_map_of_mem hpacket))
  have hsame : packets.any Packet.isSettings = line.settles ∧ packets.filterMap seen = line.packets.filterMap seen := by
    rw [Line.settles,← hpackets,List.any_map,List.filterMap_map]
    simp only [Function.comp_def,Packet.untemplated_seen,and_self]
  have hlength : (line.packets.flatMap fun packet => packet.encode tp).length =
      (packets.flatMap fun packet => packet.encode tp).length := by
    rw [← hpackets,List.flatMap_map]
    simp only [List.length_flatMap,Packet.untemplated_length]
  have hback : ∀ batch, McbePacketRouter.decompressIncoming tp line.compressed out = .ok batch →
      batch = (packets.flatMap fun packet => packet.encode tp) → r.read tp (0xFE :: out) = r.hear line := by
    rintro batch hbatch rfl
    rw [read_batch libs.toClientLibraries hcarried (by rw [hmode]; exact hbatch),hear,hsame.1,hsame.2]
  by_cases hmax : (packets.flatMap fun packet => packet.encode tp).length ≤ defaultMaxDecompressionSize
  · have hpos : 0 < packets.length := by
      rw [← List.length_map (f:=Packet.untemplated),hpackets]
      exact List.length_pos_iff.mpr hline.nonempty
    have hmin := length_le_encode hcarried
    obtain ⟨out',hout',-,hthis⟩ := NetworkSession.compressOutgoing_incoming libs.codec
      (NetworkSession.unencrypted_begin g line.compressed) (by omega) hmax
    cases hout.symm.trans hout'
    exact hback _ hthis rfl
  · cases hcompressed : line.compressed with
    | false =>
      rw [hcompressed] at hback hout
      cases hout
      exact hback _ rfl rfl
    | true =>
      rw [hcompressed] at hout hmode
      obtain ⟨e,he⟩ := NetworkSession.compressOutgoing_large libs g (by omega) hout
      have hplain := hline.heard.resolve_left (by rw [hlength]; exact hmax)
      have hnone : line.settles = false ∧ line.packets.filterMap seen = [] := by
        rw [Line.settles,List.any_eq_false,List.filterMap_eq_nil_iff]
        exact ⟨fun packet hpacket => by simp [(hplain packet hpacket).2],fun packet hpacket => (hplain packet hpacket).1⟩
      have hsame : r.hear line = r := by simp only [hear,hnone,Bool.or_false,List.foldl_nil]
      simp [read,hmode,he,hsame]

theorem read_lines (libs : ReaderLibraries tp) {g : Guid} {lines : List Line} {datagrams : List Bytes}
    (h : List.Forall₂ (Says tp g) lines datagrams) (hlines : ∀ line ∈ lines, line.Legible tp)
    (hmodes : History.Always (fun pre line => line.compressed = pre.any Line.settles) lines) :
    datagrams.foldl (read tp) {} = lines.foldl hear {} ∧
      (lines.foldl hear {}).compressionEnabled = lines.any Line.settles := by
  induction lines using List.reverseRecOn generalizing datagrams with
  | nil =>
    cases h
    exact ⟨rfl,rfl⟩
  | append_singleton lines line ih =>
    have hfront := (List.forall₂_take_append _ _ _ h.flip).flip
    have hlast := (List.forall₂_drop_append _ _ _ h.flip).flip
    obtain ⟨hbefore,hmode⟩ := History.always_concat.mp hmodes
    obtain ⟨hread,hswitched⟩ := ih hfront (fun line' hline' => hlines line' (List.mem_append_left _ hline')) hbefore
    rw [← List.take_append_drop lines.length datagrams]
    generalize datagrams.drop lines.length = rest at hlast
    cases hlast with
    | @cons _ datagram _ _ hsays hnil =>
      cases hnil
      have hlegible := hlines line (List.mem_append_right _ (List.mem_singleton_self line))
      simp only [List.foldl_append,List.foldl_cons,List.foldl_nil,hread,List.any_append,List.any_cons,List.any_nil,
        Bool.or_false]
      exact ⟨read_line libs hsays hlegible (hswitched.trans hmode.symm),by rw [hear,hswitched]⟩

end Reader

end CyrexMC
