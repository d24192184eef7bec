import CyrexMC.Session.RaknetHandler
set_option autoImplicit false

namespace CyrexMC
open Stateful

/-- What libdeflate and snappy promise: a buffer of the bound is large enough, and decompression
inverts compression. -/
structure Lossless (tp : ThirdParty) : Prop where
  deflate_written (input : Bytes) :
    tp.deflateCompress input (tp.deflateCompressBound input.length) ≠ []
  inflate_deflate (input : Bytes) (n : Nat) (_ : input.length ≤ n) :
    (tp.deflateDecompress (tp.deflateCompress input (tp.deflateCompressBound input.length)) n).map
      Subtype.val = some input
  snappy_written (input : Bytes) : tp.snappyRawCompress input ≠ []
  snappy_valid (input : Bytes) : tp.snappyIsValidCompressedBuffer (tp.snappyRawCompress input)
  snappy_length (input : Bytes) (_ : input.length < 2^32) :
    tp.snappyGetUncompressedLength (tp.snappyRawCompress input) = some (UInt32.ofNat input.length)
  snappy_inverts (input : Bytes) (n : Nat) (_ : n = input.length) :
    (tp.snappyRawUncompress (tp.snappyRawCompress input) n).map Subtype.val = some input

namespace Compressor

variable {tp : ThirdParty}

theorem compress_decompress (h : Lossless tp) (c : Compressor) {input : Bytes}
    (hsize : input.length ≤ defaultMaxDecompressionSize) :
    ∃ output, c.compress tp input = some output ∧ output ≠ [] ∧ c.decompress tp output = some input := by
  cases c with
  | zlib =>
    have hw := h.deflate_written input
    have hi := h.inflate_deflate input _ hsize
    refine ⟨_,?_,hw,?_⟩
    · simp [compress,ZlibCompressor.compress,hw]
    · exact hi
  | snappy =>
    have hlt : input.length < 2^32 := by simp only [defaultMaxDecompressionSize] at hsize; omega
    have hn : (UInt32.ofNat input.length).toNat = input.length := by
      rw [UInt32.toNat_ofNat',Nat.mod_eq_of_lt hlt]
    refine ⟨_,rfl,h.snappy_written input,?_⟩
    simp only [decompress,SnappyCompressor.decompress,h.snappy_valid,if_true,h.snappy_length input hlt]
    exact h.snappy_inverts input _ hn

end Compressor

structure NetworkSession.Unencrypted (s : NetworkSession) : Prop where
  encryption : s.encryptionEnabled = false
  compressor : s.compressionEnabled = true →
    s.compressor = some CompressionAlgorithm.ZLIB ∨ s.compressor = some CompressionAlgorithm.SNAPPY ∨
    s.compressor = some CompressionAlgorithm.NONE

namespace NetworkSession

variable {tp : ThirdParty}

/-- Whatever branch the writer takes, the reader's test leads it to the branch that undoes it. -/
theorem compressOutgoing_incoming (codec : Lossless tp) {s : NetworkSession} (hs : s.Unencrypted)
    {payload : Bytes} (hmin : 2 ≤ payload.length) (hmax : payload.length ≤ defaultMaxDecompressionSize) :
    ∃ out, compressOutgoing tp s payload = .ok out ∧ 2 ≤ out.length ∧
      McbePacketRouter.decompressIncoming tp s.compressionEnabled out = .ok payload := by
  cases hmode : s.compressionEnabled with
  | false =>
    refine ⟨payload,?_,hmin,rfl⟩
    simp [compressOutgoing,hmode]
  | true =>
    -- The fallback of the writer, for small payloads and for algorithms without a compressor.
    have hnone : getCompressor CompressionAlgorithm.NONE = none := by decide
    have hfallback : 2 ≤ (CompressionAlgorithm.NONE.value :: payload).length ∧
        McbePacketRouter.decompressIncoming tp true (CompressionAlgorithm.NONE.value :: payload) = .ok payload := by
      refine ⟨?_,by simp [McbePacketRouter.decompressIncoming,hnone]⟩
      simp only [List.length_cons]
      omega
    have hcompressed : ∀ algorithm comp, getCompressor algorithm = some comp →
        s.compressor = some algorithm → ∃ out, compressOutgoing tp s payload = .ok out ∧
          2 ≤ out.length ∧ McbePacketRouter.decompressIncoming tp true out = .ok payload := by
      intro algorithm comp hcomp hs
      by_cases hsize : comp.shouldCompress payload.length
      · obtain ⟨compressed,hc,hne,hd⟩ := comp.compress_decompress codec hmax
        have hpos := List.length_pos_iff.mpr hne
        refine ⟨algorithm.value :: compressed,?_,?_,?_⟩
        · simp [compressOutgoing,hmode,hs,hcomp,hsize,hc]
        · simp only [List.length_cons]
          omega
        · simp [McbePacketRouter.decompressIncoming,hcomp,hd]
      · refine ⟨_,?_,hfallback⟩
        simp [compressOutgoing,hmode,hs,hcomp,hsize]
    rcases hs.compressor hmode with h | h | h
    · exact hcompressed _ .zlib (by decide) h
    · exact hcompressed _ .snappy (by decide) h
    · refine ⟨_,?_,hfallback⟩
      simp [compressOutgoing,hmode,h,hnone]

end NetworkSession

/-- `route` on the datagram that `sendInternal` hands to the transport calls `onRaw` with the
payload, for a sender and a receiver in one mode and without encryption. -/
theorem route_sendInternal {tp : ThirdParty} (codec : Lossless tp) (payload : Bytes)
    (hmin : 2 ≤ payload.length) (hmax : payload.length ≤ 8*1024*1024) (w : World)
    (hw : w.session.Unencrypted) :
    ∃ datagram, NetworkSession.sendInternal tp payload w = .ok () { w with
        server := { w.server with sent := w.server.sent ++ [(w.session.guid,datagram)] } } ∧
      ∀ (h : RaknetHandler) (guid : Guid) (receiver : NetworkSession),
        h.connections.get? guid = some receiver → receiver.Unencrypted →
        receiver.compressionEnabled = w.session.compressionEnabled →
        McbePacketRouter.route tp guid datagram h =
          RaknetConnections.onSession guid (NetworkSession.onRaw tp payload) h := by
  obtain ⟨out,hout,hlen,hin⟩ := NetworkSession.compressOutgoing_incoming codec hw hmin hmax
  refine ⟨0xFE :: out,NetworkSession.sendInternal_plain hw.encryption hout,?_⟩
  intro h guid receiver hget hreceiver hmode
  have hsession := McbePacketRouter.routeSession_unencrypted (w:=⟨receiver,h.server⟩)
    hreceiver.encryption hlen (by rw [hmode,hin])
  simp only [McbePacketRouter.route,RaknetConnections.onSession,hget,List.tail_cons,hsession]

theorem ThirdParty.storing_lossless : Lossless storing where
  deflate_written input := by simp [storing]
  inflate_deflate input n h := by simp [storing,h]
  snappy_written input := by simp [storing]
  snappy_valid input := rfl
  snappy_length input h := rfl
  snappy_inverts input n h := by simp [storing,h]

theorem route_sendInternal_zlib :
    let session : NetworkSession :=
      { guid := 7, compressionEnabled := true, compressor := some CompressionAlgorithm.ZLIB }
    let h : RaknetHandler := ⟨Table.empty.emplace 7 session,.bare⟩
    ∃ datagram, NetworkSession.sendInternal .storing [2,1] ⟨session,.bare⟩ =
        .ok () ⟨session,{ Server.bare with sent := [(7,datagram)] }⟩ ∧
      McbePacketRouter.route .storing 7 datagram h =
        RaknetConnections.onSession 7 (NetworkSession.onRaw .storing [2,1]) h := by
  intro session h
  have hs : session.Unencrypted := ⟨rfl,fun _ => Or.inl rfl⟩
  obtain ⟨datagram,hsend,hroute⟩ :=
    route_sendInternal ThirdParty.storing_lossless [2,1] (by decide) (by decide) ⟨session,.bare⟩ hs
  exact ⟨datagram,hsend,hroute h 7 session rfl hs rfl⟩

end CyrexMC
