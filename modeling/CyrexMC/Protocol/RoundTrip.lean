import CyrexMC.Codec
import CyrexMC.Protocol.Packets
set_option autoImplicit false

namespace CyrexMC
open BinaryReader BinaryWriter

theorem LoginPacket.requestForConnection_reads {pk : LoginPacket}
    (ha : pk.authInfoJson.length < 2^32) (hc : pk.clientDataJwt.length < 2^32) :
    requestForConnection.Reads pk.tryEncodeRequestForConnection (pk.authInfoJson,pk.clientDataJwt) :=
  (readStringU32LE_reads ha).bind
    ((readStringU32LE_reads hc).map fun jwt => (pk.authInfoJson,jwt))

theorem LoginPacket.decodePayload_reads {pk : LoginPacket}
    (h : pk.tryEncodeRequestForConnection.length < 2^32) :
    decodePayload.Reads pk.encodePayload pk := by
  have hlen := h
  simp only [tryEncodeRequestForConnection,writeStringU32LE,List.length_append] at hlen
  have hahead : (ofBytes pk.tryEncodeRequestForConnection).ahead =
      pk.tryEncodeRequestForConnection ++ [] := by simp [ahead,ofBytes]
  have hreads : requestForConnection.Reads pk.tryEncodeRequestForConnection _ :=
    requestForConnection_reads (by omega) (by omega)
  have hnested := exec_reads hreads (open_ofBytes pk.tryEncodeRequestForConnection) hahead
  have hdone : (tryDecodeRequestForConnection pk.tryEncodeRequestForConnection >>= fun strings =>
      .done { protocol := pk.protocol, authInfoJson := strings.1, clientDataJwt := strings.2 }) =
      (.done pk : Read LoginPacket) := by
    simp [tryDecodeRequestForConnection,hnested]
  apply (readU32BE_reads pk.protocol).bind
  rw [← List.append_nil (writeString _)]
  apply (readString_reads h).bind
  exact hdone ▸ Pull.Reads.done pk

theorem PlayStatusPacket.decodePayload_reads (pk : PlayStatusPacket) :
    decodePayload.Reads pk.encodePayload pk :=
  (readU32BE_reads pk.status.value).map fun v => PlayStatusPacket.mk ⟨v⟩

theorem ServerToClientHandshakePacket.decodePayload_reads {pk : ServerToClientHandshakePacket}
    (h : pk.jwt.length < 2^32) : decodePayload.Reads pk.encodePayload pk :=
  (readString_reads h).map ServerToClientHandshakePacket.mk

theorem ClientCacheStatusPacket.decodePayload_reads (pk : ClientCacheStatusPacket) :
    decodePayload.Reads pk.encodePayload pk :=
  (readBool_reads pk.enabled).map ClientCacheStatusPacket.mk

structure ResourcePackInfoEntry.Sized (e : ResourcePackInfoEntry) : Prop where
  packVersion : e.packVersion.length < 2^32
  encryptionKey : e.encryptionKey.length < 2^32
  subPackName : e.subPackName.length < 2^32
  contentIdentity : e.contentIdentity.length < 2^32
  cdnUrl : e.cdnUrl.length < 2^32

theorem ResourcePackInfoEntry.decode_reads {e : ResourcePackInfoEntry} (h : e.Sized) :
    decode.Reads e.encode e := by
  simp only [encode,List.append_assoc]
  apply (readUUID_reads e.packId).bind
  apply (readString_reads h.packVersion).bind
  apply (readU64LE_reads e.packSize).bind
  apply (readString_reads h.encryptionKey).bind
  apply (readString_reads h.subPackName).bind
  apply (readString_reads h.contentIdentity).bind
  apply (readBool_reads e.scripting).bind
  apply (readBool_reads e.addonPack).bind
  apply (readBool_reads e.raytracingCapable).bind
  exact (readString_reads h.cdnUrl).map fun cdnUrl => { e with cdnUrl }

structure ResourcePackStackEntry.Sized (e : ResourcePackStackEntry) : Prop where
  packId : e.packId.length < 2^32
  packVersion : e.packVersion.length < 2^32
  subPackName : e.subPackName.length < 2^32

theorem ResourcePackStackEntry.decode_reads {e : ResourcePackStackEntry} (h : e.Sized) :
    decode.Reads e.encode e := by
  simp only [encode,List.append_assoc]
  apply (readString_reads h.packId).bind
  apply (readString_reads h.packVersion).bind
  exact (readString_reads h.subPackName).map fun subPackName => { e with subPackName }

theorem ExperimentEntry.decode_reads {e : ExperimentEntry} (h : e.name.length < 2^32) :
    decode.Reads e.encode e :=
  (readString_reads h).bind ((readBool_reads e.enabled).map fun enabled => { e with enabled })

/-- Wherever an array goes on with `bytes` and any further bytes, `d` gives `a` there and
leaves the reader right behind `bytes`. -/
def Undoes {α : Type} (d : Read α) (bytes : Bytes) (a : α) : Prop :=
  ∀ front suffix : Bytes,
    exec d { ofBytes (front ++ bytes ++ suffix) with offset := front.length } =
      .ok a { ofBytes (front ++ bytes ++ suffix) with offset := front.length+bytes.length }

theorem undoes_of_reads {α : Type} {d : Read α} {bytes : Bytes} {a : α} (h : d.Reads bytes a) :
    Undoes d bytes a := by
  intro front suffix
  let r : BinaryReader := { ofBytes (front ++ bytes ++ suffix) with offset := front.length }
  have hopen : Open r := ⟨Nat.le_refl _,by simp [r,ofBytes]⟩
  have hahead : r.ahead = bytes ++ suffix := by simp [r,ahead,ofBytes]
  exact exec_reads h hopen hahead

theorem decode_undoes_encode :
    (∀ pk : LoginPacket, pk.tryEncodeRequestForConnection.length < 2^32 →
      Undoes LoginPacket.decodePayload pk.encodePayload pk) ∧
    (∀ pk : PlayStatusPacket, Undoes PlayStatusPacket.decodePayload pk.encodePayload pk) ∧
    (∀ pk : ServerToClientHandshakePacket, pk.jwt.length < 2^32 →
      Undoes ServerToClientHandshakePacket.decodePayload pk.encodePayload pk) ∧
    (∀ pk : ClientCacheStatusPacket,
      Undoes ClientCacheStatusPacket.decodePayload pk.encodePayload pk) ∧
    (∀ e : ResourcePackInfoEntry, e.Sized → Undoes ResourcePackInfoEntry.decode e.encode e) ∧
    (∀ e : ResourcePackStackEntry, e.Sized → Undoes ResourcePackStackEntry.decode e.encode e) ∧
    (∀ e : ExperimentEntry, e.name.length < 2^32 → Undoes ExperimentEntry.decode e.encode e) ∧
    (∀ id, Undoes readUUID (writeUUID id) id) ∧
    (∀ v, Undoes readU8 (writeU8 v) v) ∧ (∀ v, Undoes readI8 (writeI8 v) v) ∧
    (∀ v, Undoes readU16LE (writeU16LE v) v) ∧ (∀ v, Undoes readU16BE (writeU16BE v) v) ∧
    (∀ v, Undoes readI16LE (writeI16LE v) v) ∧ (∀ v, Undoes readI16BE (writeI16BE v) v) ∧
    (∀ v, Undoes readU32LE (writeU32LE v) v) ∧ (∀ v, Undoes readU32BE (writeU32BE v) v) ∧
    (∀ v, Undoes readI32LE (writeI32LE v) v) ∧ (∀ v, Undoes readI32BE (writeI32BE v) v) ∧
    (∀ v, Undoes readU64LE (writeU64LE v) v) ∧ (∀ v, Undoes readU64BE (writeU64BE v) v) ∧
    (∀ v, Undoes readI64LE (writeI64LE v) v) ∧ (∀ v, Undoes readI64BE (writeI64BE v) v) := by
  refine ⟨fun pk h => ?_,fun pk => ?_,fun pk h => ?_,fun pk => ?_,fun e h => ?_,fun e h => ?_,
    fun e h => ?_,fun id => ?_,fun v => ?_,fun v => ?_,fun v => ?_,fun v => ?_,fun v => ?_,fun v => ?_,
    fun v => ?_,fun v => ?_,fun v => ?_,fun v => ?_,fun v => ?_,fun v => ?_,fun v => ?_,fun v => ?_⟩
  · exact undoes_of_reads (LoginPacket.decodePayload_reads h)
  · exact undoes_of_reads pk.decodePayload_reads
  · exact undoes_of_reads (ServerToClientHandshakePacket.decodePayload_reads h)
  · exact undoes_of_reads pk.decodePayload_reads
  · exact undoes_of_reads (ResourcePackInfoEntry.decode_reads h)
  · exact undoes_of_reads (ResourcePackStackEntry.decode_reads h)
  · exact undoes_of_reads (ExperimentEntry.decode_reads h)
  · exact undoes_of_reads (readUUID_reads id)
  · exact undoes_of_reads (readU8_reads v)
  · exact undoes_of_reads (readI8_reads v)
  · exact undoes_of_reads (readU16LE_reads v)
  · exact undoes_of_reads (readU16BE_reads v)
  · exact undoes_of_reads (readI16LE_reads v)
  · exact undoes_of_reads (readI16BE_reads v)
  · exact undoes_of_reads (readU32LE_reads v)
  · exact undoes_of_reads (readU32BE_reads v)
  · exact undoes_of_reads (readI32LE_reads v)
  · exact undoes_of_reads (readI32BE_reads v)
  · exact undoes_of_reads (readU64LE_reads v)
  · exact undoes_of_reads (readU64BE_reads v)
  · exact undoes_of_reads (readI64LE_reads v)
  · exact undoes_of_reads (readI64BE_reads v)

theorem decode_undoes_encode_login :
    let pk : LoginPacket := { protocol := 924, authInfoJson := [0x7b,0x7d], clientDataJwt := [] }
    pk.tryEncodeRequestForConnection.length < 2^32 ∧
      Undoes LoginPacket.decodePayload pk.encodePayload pk ∧
      Undoes ServerToClientHandshakePacket.decodePayload
        (ServerToClientHandshakePacket.encodePayload { jwt := [0x61] }) { jwt := [0x61] } ∧
      Undoes ResourcePackInfoEntry.decode (ResourcePackInfoEntry.encode {}) {} ∧
      Undoes ResourcePackStackEntry.decode (ResourcePackStackEntry.encode {}) {} ∧
      Undoes ExperimentEntry.decode (ExperimentEntry.encode {}) {} :=
  ⟨by decide,decode_undoes_encode.1 _ (by decide),
    decode_undoes_encode.2.2.1 _ (by decide),
    decode_undoes_encode.2.2.2.2.1 _ ⟨by decide,by decide,by decide,by decide,by decide⟩,
    decode_undoes_encode.2.2.2.2.2.1 _ ⟨by decide,by decide,by decide⟩,
    decode_undoes_encode.2.2.2.2.2.2.1 _ (by decide)⟩

end CyrexMC
