import CyrexMC.Session.Reader
set_option autoImplicit false

namespace CyrexMC

variable {tp : ThirdParty} {server : Server}

structure Server.Listed (tp : ThirdParty) (server : Server) : Prop where
  packsInfo : (server.packsInfo tp).encodePayload.length+10 < 2^32
  packStack : (server.packStack tp).encodePayload.length+10 < 2^32

def Packet.announcedId? (packet : Packet) : Option UUID :=
  match packet.body with
  | .resourcePackDataInfo pk => some pk.packId
  | _ => none

def Dialogue.announced (d : Dialogue) : List UUID := (d.lines.flatMap Line.packets).filterMap Packet.announcedId?

theorem PackClient.Fits.carried (libs : ClientLibraries tp) {packet : Packet} (h : PackClient.Fits packet)
    (hsub : packet.subClientId = 0) :
    packet.Carried tp ∧ (packet.encode tp).length ≤ defaultMaxDecompressionSize := by
  obtain ⟨-,hmax,-⟩ := PackClient.readBatch_encode libs hsub h
  have hlarge : defaultMaxDecompressionSize+10 < 2^32 := by decide
  refine ⟨⟨hsub,?_,.inl h⟩,hmax⟩
  cases hpayload : packet.body.encodePayload tp with
  | none =>
    obtain ⟨subClientId,body⟩ := packet
    cases body <;> first | exact h.elim | cases hpayload
  | some payload =>
    have hshorter : payload.length ≤ (packet.encode tp).length := by
      simp only [Packet.encode,hpayload,frame,List.length_append]
      omega
    exact ⟨payload,rfl,by omega⟩

theorem Vocabulary.carried (hserver : server.Delivers tp) (hlisted : server.Listed tp) (libs : ClientLibraries tp)
    {packet : Packet} (h : Vocabulary tp server packet) :
    packet.Carried tp ∧ ((packet.encode tp).length ≤ defaultMaxDecompressionSize ∨
      PackClient.seen packet = none ∧ packet.isSettings = false) := by
  cases h with
  | settings =>
    have hlength := frame_length_le PacketId.NetworkSettings 0 NetworkSession.networkSettings.encodePayload
    exact ⟨⟨rfl,⟨_,rfl,by decide⟩,.inr rfl⟩,.inl (hlength.trans (by decide))⟩
  | refusal version =>
    refine ⟨⟨rfl,⟨_,rfl,?_⟩,.inr rfl⟩,.inr ⟨rfl,rfl⟩⟩
    simp [PlayStatusPacket.encodePayload,BinaryWriter.writeU32BE,FixedWidth.toBE]
  | success => exact ⟨⟨rfl,⟨_,rfl,by decide⟩,.inr rfl⟩,.inr ⟨rfl,rfl⟩⟩
  | packs => exact ⟨⟨rfl,⟨_,rfl,hlisted.packsInfo⟩,.inr rfl⟩,.inr ⟨rfl,rfl⟩⟩
  | announcement hinfo =>
    obtain ⟨hcarried,hmax⟩ := (PackClient.fits_dataInfo hserver libs hinfo).carried libs rfl
    exact ⟨hcarried,.inl hmax⟩
  | chunk hr =>
    obtain ⟨hcarried,hmax⟩ := (PackClient.fits_chunkPacket hserver hr _ _).carried libs rfl
    exact ⟨hcarried,.inl hmax⟩
  | stack => exact ⟨⟨rfl,⟨_,rfl,hlisted.packStack⟩,.inr rfl⟩,.inr ⟨rfl,rfl⟩⟩

theorem Line.Shaped.legible (hserver : server.Delivers tp) (hlisted : server.Listed tp) (libs : ClientLibraries tp)
    {line : Line} (h : line.Shaped tp server) : line.Legible tp := by
  have hcarried := fun packet hpacket => (h.known packet hpacket).carried hserver hlisted libs
  cases h with
  | one heq hpacket =>
    refine ⟨by simp [heq],fun packet hmem => (hcarried packet hmem).1,?_⟩
    have hthis := (hpacket.carried hserver hlisted libs).2
    simpa [heq] using hthis
  | welcome hne hall =>
    refine ⟨hne,fun packet hmem => (hcarried packet hmem).1,.inr fun packet hmem => ?_⟩
    have hmem' := hall packet hmem
    refine ⟨?_,(Server.plain_welcome hmem').2⟩
    simp only [Server.welcome,List.mem_cons,List.not_mem_nil,or_false] at hmem'
    rcases hmem' with rfl | rfl <;> rfl

namespace PackClient

theorem Holds.packets {packets : List Packet} (hall : ∀ packet ∈ packets, Vocabulary tp server packet)
    {announced : List UUID} {served : List (UUID × Int)} {c : PackClient} (h : Holds tp server.factory announced served c) :
    Holds tp server.factory (announced ++ packets.filterMap Packet.announcedId?)
      (served ++ packets.filterMap Packet.chunkKey?) ((packets.filterMap seen).foldl take c) := by
  induction packets generalizing announced served c with
  | nil => simpa using h
  | cons packet packets ih =>
    have hrest := fun packet' hpacket' => hall packet' (List.mem_cons_of_mem packet hpacket')
    cases hall packet (List.mem_cons_self ..) with
    | @announcement id info hinfo =>
      obtain ⟨-,-,-,-,-,-,hid,-⟩ := NetworkSession.infoOf_some hinfo
      have hnext := ih hrest (h.info hinfo)
      rw [List.append_assoc] at hnext
      subst hid
      exact hnext
    | @chunk r hr =>
      have hnext := ih hrest (h.chunk r (UInt64.ofNat (server.factory.chunkAt r).2.2.1) rfl)
      rw [List.append_assoc] at hnext
      exact hnext
    | _ => exact ih hrest h

theorem announced_known {packets : List Packet} (hall : ∀ packet ∈ packets, Vocabulary tp server packet) :
    ∀ id ∈ packets.filterMap Packet.announcedId?, (server.factory.getPackById id).isSome := by
  intro id hid
  obtain ⟨packet,hpacket,hthis⟩ := List.mem_filterMap.mp hid
  cases hall packet hpacket with
  | announcement hinfo =>
    obtain ⟨i,p,hi,-,-,-,hsame,-⟩ := NetworkSession.infoOf_some hinfo
    cases hthis
    rw [hsame,hi]
    rfl
  | _ => cases hthis

end PackClient

theorem Reader.hear_lines (lines : List Line) (r : Reader) :
    (lines.foldl hear r).packs = ((lines.flatMap Line.packets).filterMap PackClient.seen).foldl PackClient.take r.packs := by
  induction lines generalizing r with
  | nil => rfl
  | cons line lines ih =>
    rw [List.foldl_cons,ih,List.flatMap_cons,List.filterMap_append,List.foldl_append]
    rfl

theorem Dialogue.Proper.holds {d : Dialogue} (h : d.Proper tp server) :
    PackClient.Holds tp server.factory d.announced d.served (d.lines.foldl Reader.hear {}).packs ∧
      ∀ id ∈ d.announced, (server.factory.getPackById id).isSome := by
  have hall : ∀ packet ∈ d.lines.flatMap Line.packets, Vocabulary tp server packet := by
    intro packet hpacket
    obtain ⟨line,hline,hpacket⟩ := List.mem_flatMap.mp hpacket
    exact (h.shaped line hline).known packet hpacket
  have hnone : PackClient.Holds tp server.factory [] [] {} := ⟨fun id => rfl,fun r => rfl⟩
  have hholds := hnone.packets hall
  rw [Reader.hear_lines,← h.chunks]
  exact ⟨hholds,PackClient.announced_known hall⟩

namespace RaknetHandler

/-- Whatever the server does for the others: a client that has a session, and reads what it has been sent since that began,
has learnt where the compression begins, and has a file just if it was announced and all of its chunks were served, and
then it is that of the pack. -/
theorem clients_restore (hserver : server.Delivers tp) (hlisted : server.Listed tp) (libs : ReaderLibraries tp)
    (hcat : server.factory.Catalogued tp) (hnone : server.sent = []) {schedule : List (List RakNetPacket)}
    {h : RaknetHandler} (hr : polls tp schedule { connections := .empty, server } = .ok () h) {g : Guid} {s : NetworkSession}
    (hs : h.connections.get? g = some s) :
    ∃ past d, Client.polls tp server (schedule.map (packetsOf g)) = { past, dialogue := some d } ∧
      let r := ((h.server.sentTo g).drop past.length).foldl (Reader.read tp) {}
      r.compressionEnabled = s.compressionEnabled ∧ ∀ id file, r.packs.file tp id = some file ↔
        id ∈ d.announced ∧ ∃ p, server.factory.packOf id = some p ∧ file = p.file ∧
          ∀ k < p.chunkCount server.factory.maxChunkSize, (id,(k : Int)) ∈ d.served := by
  have ha := (Attends.start hserver.streams hnone).polls hserver.ready hserver.counted hcat
    (fun input => libs.codec.deflate_written input) hr (g:=g)
  have hbounded : Client.Bounded tp server _ (Client.polls tp server (schedule.map (packetsOf g))) := .polls _
  generalize Client.polls tp server (schedule.map (packetsOf g)) = c at ha hbounded
  obtain ⟨past,dialogue⟩ := c
  have hrel := ha.dialogue
  rw [hs] at hrel
  cases hrel with
  | @some _ d hspeaks =>
    have hproper := hbounded.dialogue d rfl
    have hlines := (List.forall₂_drop_append _ _ _ hspeaks.lines.flip).flip
    obtain ⟨hread,hswitched⟩ := Reader.read_lines libs hlines
      (fun line hline => (hproper.shaped line hline).legible hserver hlisted libs.toClientLibraries) hproper.modes
    obtain ⟨hholds,hknown⟩ := hproper.holds
    refine ⟨past,d,rfl,?_⟩
    have hmode : s.compressionEnabled = d.compressed := hspeaks.progress.alike.compressionEnabled
    rw [hread]
    exact ⟨(hswitched.trans hproper.switched.symm).trans hmode.symm,hholds.file_iff hserver hknown⟩

theorem twoPacks_listed : Server.twoPacks.Listed .rawIds := ⟨by decide +kernel,by decide +kernel⟩

theorem rawIds_reader : ReaderLibraries .rawIds := by
  refine ⟨ThirdParty.rawIds_client,fun input n hshort => ?_⟩
  simp [ThirdParty.rawIds,ThirdParty.storing,hshort]

theorem clients_restore_twoPacks :
    let from7 (data : Bytes) : RakNetPacket := { guid := 7, data, random := fun _ => UUID.nil }
    let settings := frame PacketId.RequestNetworkSettings 0 (BinaryWriter.writeU32BE ProtocolInfo.currentProtocol)
    let sendPacks := frame PacketId.ResourcePackClientResponse 0 ([2,1,0,18] ++ (UUID.filled 2).bytes ++ [0x5F,0x31])
    let request := frame PacketId.ResourcePackChunkRequest 0 (16 :: (UUID.filled 2).bytes ++ [0,0])
    let schedule := [[from7 [19],chunkRequest 7 (.filled 1) 0,from7 [21]],
      [from7 [19],{ guid := 8, data := [19], random := fun _ => UUID.nil },from7 (0xFE :: settings)],
      [from7 (0xFE :: 0xFF :: sendPacks),chunkRequest 8 (.filled 1) 0,from7 (0xFE :: 0xFF :: request)]]
    ∃ h s, polls .rawIds schedule { connections := .empty, server := .twoPacks } = .ok () h ∧
      h.connections.get? 7 = some s ∧
      ((((h.server.sentTo 7).drop 1).foldl (Reader.read .rawIds) {}).packs.file .rawIds (.filled 2)).isSome = true ∧
      ∃ past d, Client.polls .rawIds .twoPacks (schedule.map (packetsOf 7)) = { past, dialogue := some d } ∧
        let r := ((h.server.sentTo 7).drop past.length).foldl (Reader.read .rawIds) {}
        r.compressionEnabled = s.compressionEnabled ∧ ∀ id file, r.packs.file .rawIds id = some file ↔
          id ∈ d.announced ∧ ∃ p, Server.twoPacks.factory.packOf id = some p ∧ file = p.file ∧
            ∀ k < p.chunkCount Server.twoPacks.factory.maxChunkSize, (id,(k : Int)) ∈ d.served := by
  intro from7 settings sendPacks request schedule
  have hends : endsWith (polls .rawIds schedule) (fun h => (h.connections.get? 7).isSome ∧
      ((((h.server.sentTo 7).drop 1).foldl (Reader.read .rawIds) {}).packs.file .rawIds (.filled 2)).isSome)
      { connections := .empty, server := .twoPacks } = true := by decide +kernel
  obtain ⟨h,hr,hfile⟩ := exists_of_endsWith hends
  simp only [decide_eq_true_eq] at hfile
  obtain ⟨s,hs⟩ := Option.isSome_iff_exists.mp hfile.1
  exact ⟨h,s,hr,hs,hfile.2,
    clients_restore Server.twoPacks_delivers twoPacks_listed rawIds_reader twoPacks_catalogued rfl hr hs⟩

end RaknetHandler

end CyrexMC
