import CyrexMC.EncryptedStream
import CyrexMC.Session.RaknetHandler
set_option autoImplicit false

namespace CyrexMC
open Stateful Keystream

namespace McbePacketRouter

variable (tp : ThirdParty)

/-- `routeSession` with any function in the place of `onRaw`. -/
def routeSessionTo (onRaw : Bytes → SessionM Unit) (data : Bytes) : SessionM Unit := do
  let session ← getSession
  if data.length ≤ 1 then return ()
  if session.encryptionEnabled then
    match ← decryptIncoming tp data with
    | some payload =>
      let payload ← fromExcept (decompressIncoming tp session.compressionEnabled payload)
      onRaw payload
    | none => return ()
  else
    let payload ← fromExcept (decompressIncoming tp session.compressionEnabled data)
    onRaw payload

def routeTo (onRaw : Bytes → SessionM Unit) (guid : Guid) (data : Bytes) : HandlerM Unit :=
  RaknetConnections.onSession guid (routeSessionTo tp onRaw data.tail)

theorem route_eq : route tp = routeTo tp (NetworkSession.onRaw tp) := rfl

/-- What there is to be had from a compressed body, if it is sound and within the limit. -/
def inflate (compressor : Compressor) (body : Bytes) : Option Bytes :=
  (compressor.decompress tp body).filter fun payload => payload.length ≤ defaultMaxDecompressionSize

/-- The payload in what is behind the 0xFE, where nothing is encrypted; other data is to be dropped. -/
def unwrap (compressionEnabled : Bool) (data : Bytes) : Option Bytes :=
  if data.length ≤ 1 then none
  else if compressionEnabled then
    match getCompressor ⟨data.headD 0⟩ with
    | some compressor => inflate tp compressor data.tail
    | none => some data.tail
  else some data

/-- The session runs `onRaw` once, with the payload of the datagram, or the datagram leaves no trace, whatever
`onRaw` is. -/
def Unwraps (h : RaknetHandler) (guid : Guid) (data : Bytes) : Prop :=
  ∀ onRaw : Bytes → SessionM Unit, routeTo tp onRaw guid (0xFE :: data) h =
    match (h.connections.get? guid).bind fun session => unwrap tp session.compressionEnabled data with
    | some payload => RaknetConnections.onSession guid (onRaw payload) h
    | none => .ok () h

/-- The data is a tag that names a compressor and a body that this one does not inflate. -/
def Spoilt (data : Bytes) : Prop :=
  2 ≤ data.length ∧ ∃ compressor, getCompressor ⟨data.headD 0⟩ = some compressor ∧
    inflate tp compressor data.tail = none

variable {tp}

theorem inflate_some {compressor : Compressor} {body payload : Bytes}
    (h : inflate tp compressor body = some payload) : compressor.decompress tp body = some payload := by
  rw [inflate,Option.filter_eq_some_iff] at h
  exact h.1

theorem routeSessionTo_unencrypted (onRaw : Bytes → SessionM Unit) {data : Bytes} {w : World}
    (hw : w.session.encryptionEnabled = false) :
    routeSessionTo tp onRaw data w =
      if data.length ≤ 1 then .ok () w
      else match decompressIncoming tp w.session.compressionEnabled data with
        | .ok payload => onRaw payload w
        | .error e => .error e w := by
  by_cases hshort : data.length ≤ 1
  · simp [routeSessionTo,bind_apply,hshort]
  · cases hpayload : decompressIncoming tp w.session.compressionEnabled data <;>
      simp [routeSessionTo,bind_apply,hshort,hw,hpayload]

theorem decompressIncoming_unwrap {compressionEnabled : Bool} {data : Bytes} (hlong : 2 ≤ data.length)
    (h : compressionEnabled = true → ¬ Spoilt tp data) :
    ∃ payload, decompressIncoming tp compressionEnabled data = .ok payload ∧
      unwrap tp compressionEnabled data = some payload := by
  have hlen : ¬ data.length ≤ 1 := by omega
  cases compressionEnabled with
  | false => exact ⟨data,rfl,by simp [unwrap,hlen]⟩
  | true =>
    cases data with
    | nil => simp at hlong
    | cons method body =>
      cases hc : getCompressor ⟨method⟩ with
      | none =>
        refine ⟨body,by simp [decompressIncoming,hc],?_⟩
        simp only [unwrap,hlen,if_false,if_true,List.headD_cons,hc,List.tail_cons]
      | some compressor =>
        cases hinflate : inflate tp compressor body with
        | none => exact absurd ⟨hlong,compressor,hc,hinflate⟩ (h rfl)
        | some payload =>
          refine ⟨payload,by simp [decompressIncoming,hc,inflate_some hinflate],?_⟩
          simp only [unwrap,hlen,if_false,if_true,List.headD_cons,hc,List.tail_cons,hinflate]

theorem unwrap_spoilt {data : Bytes} (h : Spoilt tp data) : unwrap tp true data = none := by
  obtain ⟨hlong,compressor,hc,hinflate⟩ := h
  have hlen : ¬ data.length ≤ 1 := by omega
  simp only [unwrap,hlen,if_false,if_true,hc,hinflate]

end McbePacketRouter

theorem RaknetConnections.onSession_some {guid : Guid} {h : RaknetHandler} {session : NetworkSession}
    (hs : h.connections.get? guid = some session) (m : SessionM Unit) :
    onSession guid m h = match m ⟨session,h.server⟩ with
      | .ok a w => .ok a { connections := h.connections.set guid w.session, server := w.server }
      | .error e w => .error e { connections := h.connections.set guid w.session, server := w.server } := by
  cases hm : m ⟨session,h.server⟩ <;> simp [onSession,hs,hm]

open McbePacketRouter RaknetConnections

/-- On a session without encryption every datagram is unwrapped, or dropped without a trace, if and only if it is not
spoilt or the session has no compression. -/
theorem unwraps_iff {tp : ThirdParty} {h : RaknetHandler} {guid : Guid}
    (hplain : ∀ session, h.connections.get? guid = some session → session.encryptionEnabled = false) (data : Bytes) :
    route tp = routeTo tp (NetworkSession.onRaw tp) ∧
    (Unwraps tp h guid data ↔ ∀ session, h.connections.get? guid = some session →
      session.compressionEnabled = true → ¬ Spoilt tp data) := by
  refine ⟨route_eq tp,?_⟩
  cases hs : h.connections.get? guid with
  | none =>
    simp only [reduceCtorEq,false_implies,implies_true,iff_true]
    intro onRaw
    simp [routeTo,onSession,hs]
  | some session =>
    have henc : (World.mk session h.server).session.encryptionEnabled = false := hplain session hs
    have hrun : ∀ onRaw, routeTo tp onRaw guid (0xFE :: data) h = onSession guid (routeSessionTo tp onRaw data) h :=
      fun _ => rfl
    constructor
    · intro h session' heq hcompressed hspoilt
      cases heq
      have hthrows := h fun _ => throw (.throws .readerOverflow)
      rw [hs,Option.bind_some,hcompressed,unwrap_spoilt hspoilt,hrun,onSession_some hs,
        routeSessionTo_unencrypted _ henc,if_neg (by have := hspoilt.1; omega)] at hthrows
      cases hpayload : decompressIncoming tp session.compressionEnabled data <;> simp [hpayload] at hthrows
    · intro h onRaw
      rw [hs,Option.bind_some,hrun,onSession_some hs,routeSessionTo_unencrypted onRaw henc]
      by_cases hshort : data.length ≤ 1
      · have hnone : unwrap tp session.compressionEnabled data = none := by simp [unwrap,hshort]
        simp only [hshort,if_true,hnone,Table.set_get? hs]
      · obtain ⟨payload,hpayload,hunwrap⟩ := decompressIncoming_unwrap (by omega) (h session rfl)
        simp only [hshort,if_false,hpayload,hunwrap,onSession_some hs]

def RaknetHandler.withSession (session : NetworkSession) : RaknetHandler :=
  { connections := Table.empty.emplace 7 session, server := .bare }

theorem unwraps_inflated :
    Unwraps .storing (.withSession { guid := 7, compressionEnabled := true }) 7 [0,9,1,2] := by
  refine (unwraps_iff ?_ _).2.mpr ?_
  · intro session hs
    cases hs
    rfl
  · rintro session - - ⟨-,compressor,hc,hinflate⟩
    cases hc
    cases hinflate

/-- A tag for the zlib compressor and a body that is no stream of it: what is not there is taken for the payload. -/
theorem corrupt_body_unwrapped :
    ¬ Unwraps .failing (.withSession { guid := 7, compressionEnabled := true }) 7 [0,0] := by
  intro h
  have hrun := h fun _ => pure ()
  cases hrun

namespace McbePacketRouter

variable (tp : ThirdParty)

/-- What `decrypt` lets out is the input but for the checksum, which is read from inside what it has decrypted. -/
def DecryptsInside (c : AesEncryptor) (input : Bytes) : Prop :=
  ∃ output d, c.decrypt tp input = .ok (output,d) ∧
    ∀ plaintext, output = some plaintext → plaintext.length+hashSize = input.length

/-- `route` itself, with nothing behind it, reads no byte that is not there. -/
def RoutesInside (h : RaknetHandler) (guid : Guid) (data : Bytes) : Prop :=
  ∀ h', routeTo tp (fun _ => pure ()) guid (0xFE :: data) h ≠ .error (.undefined .outOfBounds) h'

variable {tp}

section Encrypted

variable (onRaw : Bytes → SessionM Unit) {data : Bytes} {w : World} {c d : AesEncryptor} (hlong : 2 ≤ data.length)
  (hw : w.session.encryptionEnabled = true) (hc : w.session.cipher = some c)
include hlong hw hc

theorem routeSessionTo_rejected (hd : c.decrypt tp data = .ok (none,d)) :
    routeSessionTo tp onRaw data w = .ok () { w with session := { w.session with cipher := some d } } := by
  have hlen : ¬ data.length ≤ 1 := by omega
  simp [routeSessionTo,decryptIncoming,bind_apply,map_apply,hlen,hw,hc,hd]

theorem routeSessionTo_accepted {plaintext : Bytes} (hd : c.decrypt tp data = .ok (some plaintext,d)) :
    routeSessionTo tp onRaw data w =
      match decompressIncoming tp w.session.compressionEnabled plaintext with
      | .ok payload => onRaw payload { w with session := { w.session with cipher := some d } }
      | .error e => .error e { w with session := { w.session with cipher := some d } } := by
  have hlen : ¬ data.length ≤ 1 := by omega
  cases hpayload : decompressIncoming tp w.session.compressionEnabled plaintext <;>
    simp [routeSessionTo,decryptIncoming,bind_apply,map_apply,hlen,hw,hc,hd,hpayload]

end Encrypted

theorem decompressIncoming_outOfBounds {compressionEnabled : Bool} {payload : Bytes} :
    decompressIncoming tp compressionEnabled payload = .error (.undefined .outOfBounds) ↔
      compressionEnabled = true ∧ payload = [] := by
  cases compressionEnabled with
  | false => simp [decompressIncoming]
  | true =>
    cases payload with
    | nil => simp [decompressIncoming]
    | cons method rest =>
      cases hc : getCompressor ⟨method⟩ with
      | none => simp [decompressIncoming,hc]
      | some compressor =>
        cases hd : compressor.decompress tp rest <;> simp [decompressIncoming,hc,hd]

end McbePacketRouter

/-- On a session with encryption `decrypt` and what `route` makes of its result stay inside the buffers if and only
if there is room for the checksum and the message is not, where the session has compression, an empty one. -/
theorem decrypts_inside_iff {tp : ThirdParty} {h : RaknetHandler} {guid : Guid} {session : NetworkSession}
    {c : AesEncryptor} (hs : h.connections.get? guid = some session) (henc : session.encryptionEnabled = true)
    (hc : session.cipher = some c) (data : Bytes) :
    DecryptsInside tp c data ∧ RoutesInside tp h guid data ↔
      hashSize ≤ data.length ∧ (session.compressionEnabled = true → data ≠ AesEncryptor.sealedEmpty tp c) := by
  by_cases hroom : hashSize ≤ data.length
  · obtain ⟨output,d,hd,hlength,hempty⟩ := AesEncryptor.decrypt_long tp c hroom
    have hlong : 2 ≤ data.length := Nat.le_trans (by decide) hroom
    have hinside : DecryptsInside tp c data := ⟨output,d,hd,hlength⟩
    have hrun : routeTo tp (fun _ => pure ()) guid (0xFE :: data) h =
        onSession guid (routeSessionTo tp (fun _ => pure ()) data) h := rfl
    have hroute : RoutesInside tp h guid data ↔ ¬ (session.compressionEnabled = true ∧ output = some []) := by
      unfold RoutesInside
      rw [hrun,onSession_some hs]
      cases output with
      | none => simp [routeSessionTo_rejected (w:=⟨session,h.server⟩) _ hlong henc hc hd]
      | some plaintext =>
        have hbounds : decompressIncoming tp session.compressionEnabled plaintext = .error (.undefined .outOfBounds) ↔
            session.compressionEnabled = true ∧ plaintext = [] := decompressIncoming_outOfBounds
        rw [routeSessionTo_accepted (w:=⟨session,h.server⟩) _ hlong henc hc hd,Option.some_inj,← hbounds]
        cases decompressIncoming tp session.compressionEnabled plaintext <;> simp
    rw [hroute,hempty]
    simp only [hinside,hroom,true_and,not_and,ne_eq]
  · have hout : ¬ DecryptsInside tp c data := by
      rintro ⟨output,d,hd,-⟩
      simp [AesEncryptor.decrypt,Nat.lt_of_not_le hroom] at hd
    simp only [hout,hroom,false_and]

def NetworkSession.encrypted : NetworkSession :=
  { guid := 7, compressionEnabled := true, encryptionEnabled := true,
    cipher := some (.init (List.replicate 32 0) (List.replicate 16 0) 0 0) }

theorem decrypts_inside_nine_bytes :
    DecryptsInside .failing (.init (List.replicate 32 0) (List.replicate 16 0) 0 0) (List.replicate 9 0) ∧
      RoutesInside .failing (.withSession .encrypted) 7 (List.replicate 9 0) :=
  (decrypts_inside_iff rfl rfl rfl _).mpr ⟨by decide,fun _ => by decide⟩

/-- Two bytes have no room for a checksum, and eight that are one leave nothing to take the first byte of. -/
theorem short_messages_overread :
    ¬ DecryptsInside .failing (.init (List.replicate 32 0) (List.replicate 16 0) 0 0) [0,0] ∧
      ¬ RoutesInside .failing (.withSession .encrypted) 7 (List.replicate 8 0) := by
  constructor
  · rintro ⟨output,d,hd,-⟩
    cases hd
  · intro h
    exact h _ rfl

end CyrexMC
