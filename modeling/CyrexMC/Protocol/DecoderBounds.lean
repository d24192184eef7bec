import CyrexMC.BinaryReader
import CyrexMC.Session.Confinement
set_option autoImplicit false

namespace CyrexMC.BinaryReader

/-- All requests of a decoder fit into 32 bits, it gives up only by a throw, and what it returns has the property. -/
abbrev Checked {α : Type} (P : α → Prop) (d : Read α) : Prop :=
  d.Sound (fun n => n < 2^32) (fun e => ∃ t, e = .throws t) P

theorem refuses_iff {r : BinaryReader} {n : Nat} (hr : r.dataSize = r.dataPtr.length) (hin : r.offset ≤ r.dataPtr.length)
    (hfits : r.dataPtr.length < 2^63) (hn : n < 2^32) :
    (r.offset+n)%2^64 > r.dataSize ↔ ¬ r.offset+n ≤ r.dataPtr.length := by
  rw [Nat.mod_eq_of_lt (by omega),hr]
  omega

section

variable {α : Type} {P : α → Prop} {d : Read α} {r : BinaryReader}

theorem Checked.returned (hd : Checked P d) {a : α} {r' : BinaryReader} (h : exec d r = .ok a r') : P a := by
  induction d generalizing r with
  | done b =>
    cases h
    exact hd
  | fail e => cases h
  | pull n k ih =>
    rw [exec] at h
    split at h
    · cases h
    · split at h
      · rename_i hroom
        have hlength : ((r.dataPtr.drop r.offset).take n).length = n := by
          rw [List.length_take,List.length_drop]
          omega
        exact ih _ (hd.2 _ hlength) h
      · cases h

theorem Checked.exec_inside (hd : Checked P d) (hr : r.dataSize = r.dataPtr.length) (hin : r.offset ≤ r.dataPtr.length)
    (hfits : r.dataPtr.length < 2^63) :
    match exec d r with
    | .ok a r' => P a ∧ r.offset ≤ r'.offset ∧ r'.offset ≤ r.dataPtr.length
    | .error e _ => ∃ t, e = .throws t := by
  induction d generalizing r with
  | done a => exact ⟨hd,Nat.le_refl _,hin⟩
  | fail e => exact hd
  | pull n k ih =>
    obtain ⟨hn,hk⟩ := hd
    have hrefuses := refuses_iff hr hin hfits hn
    rw [BinaryReader.exec]
    by_cases hroom : r.offset+n ≤ r.dataPtr.length
    · have hlength : ((r.dataPtr.drop r.offset).take n).length = n := by
        rw [List.length_take,List.length_drop]
        omega
      have hnext := ih _ (hk _ hlength) (r:={ r with offset := r.offset+n }) hr hroom hfits
      rw [if_neg (fun h => hrefuses.mp h hroom),if_pos hroom]
      split at hnext
      · obtain ⟨ha,hle,hend⟩ := hnext
        exact ⟨ha,Nat.le_trans (Nat.le_add_right _ _) hle,hend⟩
      · exact hnext
    · rw [if_pos (hrefuses.mpr hroom)]
      exact ⟨.readerOverflow,rfl⟩

end

theorem checked_take {n : Nat} (hn : n < 2^32) : Checked (fun bytes => bytes.length = n) (Pull.take n) :=
  Pull.Sound.take hn

theorem checked_pure {α : Type} {P : α → Prop} {a : α} (h : P a) : Checked P (pure a) := h

theorem checked_throw {α : Type} (P : α → Prop) (t : Thrown) : Checked P (.fail (.throws t)) := ⟨t,rfl⟩

theorem checked_readU8 : Checked (fun _ => True) readU8 :=
  (checked_take (by decide)).bind fun _ _ => checked_pure trivial

theorem checked_readBool : Checked (fun _ => True) readBool :=
  checked_readU8.bind fun _ _ => checked_pure trivial

theorem checked_readRawLE {n : Nat} (hn : n < 2^32) : Checked (fun _ => True) (readRawLE n) :=
  (checked_take hn).bind fun _ _ => checked_pure trivial

theorem checked_readRawBE {n : Nat} (hn : n < 2^32) : Checked (fun _ => True) (readRawBE n) :=
  (checked_take hn).bind fun _ _ => checked_pure trivial

theorem checked_readI16LE : Checked (fun _ => True) readI16LE :=
  (checked_readRawLE (by decide)).bind fun _ _ => checked_pure trivial

theorem checked_readU16LE : Checked (fun _ => True) readU16LE :=
  (checked_readRawLE (by decide)).bind fun _ _ => checked_pure trivial

theorem checked_readU32LE : Checked (fun _ => True) readU32LE :=
  (checked_readRawLE (by decide)).bind fun _ _ => checked_pure trivial

theorem checked_readU32BE : Checked (fun _ => True) readU32BE :=
  (checked_readRawBE (by decide)).bind fun _ _ => checked_pure trivial

theorem checked_readVarLoop (w : Nat) (overflow : Thrown) (n value shift : Nat) :
    Checked (fun _ => True) (readVarLoop w overflow n value shift) := by
  induction n generalizing value shift with
  | zero => exact checked_throw _ overflow
  | succ n ih =>
    refine checked_readU8.bind fun b _ => ?_
    by_cases hlast : b &&& 0x80 = 0
    · simp only [hlast,if_true]
      exact checked_pure trivial
    · simp only [hlast,if_false]
      exact ih _ _

theorem checked_readVarUInt : Checked (fun _ => True) readVarUInt :=
  (checked_readVarLoop 32 .varUIntOverflow 5 0 0).bind fun _ _ => checked_pure trivial

/-- A string read by a prefix of 32 bits is no longer than that prefix can say. -/
theorem checked_readString : Checked (fun str => str.length < 2^32) readString :=
  checked_readVarUInt.bind fun len _ => (checked_take len.toNat_lt).bind fun _ hlength =>
    checked_pure (hlength.trans_lt len.toNat_lt)

theorem checked_readStringU32LE : Checked (fun str => str.length < 2^32) readStringU32LE :=
  checked_readU32LE.bind fun len _ => (checked_take len.toNat_lt).bind fun _ hlength =>
    checked_pure (hlength.trans_lt len.toNat_lt)

end CyrexMC.BinaryReader

namespace CyrexMC
open BinaryReader

theorem checked_fromString (tp : ThirdParty) (str : Bytes) : Checked (fun _ => True) (fromString tp str) := by
  unfold fromString
  split
  · trivial
  · exact checked_throw _ _

theorem LoginPacket.checked_requestForConnection : Checked (fun _ => True) requestForConnection :=
  checked_readStringU32LE.bind fun _ _ => checked_readStringU32LE.bind fun _ _ => checked_pure trivial

theorem LoginPacket.checked_tryDecodeRequestForConnection {binary : Bytes} (h : binary.length < 2^63) :
    Checked (fun _ => True) (tryDecodeRequestForConnection binary) := by
  have hnested := checked_requestForConnection.exec_inside (r:=ofBytes binary) rfl (Nat.zero_le _) h
  unfold tryDecodeRequestForConnection
  split
  · trivial
  · rename_i e r hrun
    rw [hrun] at hnested
    exact hnested

theorem LoginPacket.checked_decodePayload : Checked (fun _ => True) decodePayload := by
  refine checked_readU32BE.bind fun _ _ => checked_readString.bind fun binary hbinary => ?_
  have hfits : binary.length < 2^63 := hbinary.trans (by decide)
  exact (checked_tryDecodeRequestForConnection hfits).bind fun _ _ => checked_pure trivial

theorem ResourcePackClientResponsePacket.checked_decodeEntry (tp : ThirdParty) :
    Checked (fun _ => True) (decodeEntry tp) := by
  refine checked_readString.bind fun s _ => ?_
  split
  · exact (checked_fromString tp _).bind fun _ _ => checked_pure trivial
  · exact checked_pure trivial

theorem ResourcePackClientResponsePacket.checked_decodeEntries (tp : ThirdParty) (n : Nat) :
    Checked (fun _ => True) (decodeEntries tp n) := by
  induction n with
  | zero => exact checked_pure trivial
  | succ n ih => exact (checked_decodeEntry tp).bind fun _ _ => ih.bind fun _ _ => checked_pure trivial

theorem PacketDef.checked_decode (tp : ThirdParty) (packetDef : PacketDef) :
    Checked (fun _ => True) (packetDef.decode tp) := by
  have hsome : ∀ {α : Type} {d : Read α} {body : α → Option PacketBody}, Checked (fun _ => True) d →
      Checked (fun _ => True) (d >>= fun pk => pure (body pk)) :=
    fun hd => hd.bind fun _ _ => checked_pure trivial
  cases packetDef with
  | requestNetworkSettings => exact hsome (checked_readU32BE.bind fun _ _ => checked_pure trivial)
  | login => exact hsome LoginPacket.checked_decodePayload
  | playStatus => exact hsome (checked_readU32BE.bind fun _ _ => checked_pure trivial)
  | serverToClientHandshake => exact hsome (checked_readString.bind fun _ _ => checked_pure trivial)
  | clientCacheStatus => exact hsome (checked_readBool.bind fun _ _ => checked_pure trivial)
  | resourcePackChunkRequest =>
    exact hsome (checked_readString.bind fun _ _ => (checked_fromString tp _).bind fun _ _ =>
      checked_readI16LE.bind fun _ _ => checked_pure trivial)
  | resourcePackClientResponse =>
    exact hsome (checked_readU8.bind fun _ _ => checked_readU16LE.bind fun _ _ =>
      (ResourcePackClientResponsePacket.checked_decodeEntries tp _).bind fun _ _ => checked_pure trivial)
  | networkSettings | clientToServerHandshake | resourcePacksInfo | resourcePackChunkData | resourcePackDataInfo
  | resourcePackStack => exact checked_pure trivial

theorem footprint_inside {α : Type} {P : α → Prop} {d : Read α} {r : BinaryReader} (hd : Checked P d)
    (hr : r.dataSize = r.dataPtr.length) (hin : r.offset ≤ r.dataPtr.length) (hfits : r.dataPtr.length < 2^63) :
    ∀ a ∈ footprint d r, r.offset ≤ a ∧ a < r.dataPtr.length := by
  induction d generalizing r with
  | done a => exact fun a ha => absurd ha List.not_mem_nil
  | fail e => exact fun a ha => absurd ha List.not_mem_nil
  | pull n k ih =>
    obtain ⟨hn,hk⟩ := hd
    have hrefuses := refuses_iff hr hin hfits hn
    intro a ha
    rw [footprint] at ha
    by_cases hroom : r.offset+n ≤ r.dataPtr.length
    · have hlength : ((r.dataPtr.drop r.offset).take n).length = n := by
        rw [List.length_take,List.length_drop]
        omega
      rw [if_neg (fun h => hrefuses.mp h hroom),if_pos hroom,List.mem_append] at ha
      rcases ha with ha | ha
      · have hrange := List.mem_range'_1.mp ha
        omega
      · have hnext := ih _ (hk _ hlength) (r:={ r with offset := r.offset+n }) hr hroom hfits a ha
        exact ⟨Nat.le_trans (Nat.le_add_right _ _) hnext.1,hnext.2⟩
    · rw [if_pos (hrefuses.mpr hroom)] at ha
      cases ha

/-- Every place that a decoder reads is in the array, and it throws or ends there. -/
structure StaysInside {α : Type} (d : Read α) (r : BinaryReader) : Prop where
  reads : ∀ a ∈ footprint d r, r.offset ≤ a ∧ a < r.dataPtr.length
  ends : match exec d r with
    | .ok _ r' => r.offset ≤ r'.offset ∧ r'.offset ≤ r.dataPtr.length
    | .error e _ => ∃ t, e = .throws t

theorem BinaryReader.Checked.staysInside {α : Type} {P : α → Prop} {d : Read α} (hd : Checked P d) {data : Bytes}
    {start : Nat} (hdata : data.length < 2^63) (hstart : start ≤ data.length) :
    StaysInside d { ofBytes data with offset := start } := by
  let r : BinaryReader := { ofBytes data with offset := start }
  have hexec := hd.exec_inside (r:=r) rfl hstart hdata
  have hends : match exec d r with
      | .ok _ r' => r.offset ≤ r'.offset ∧ r'.offset ≤ r.dataPtr.length
      | .error e _ => ∃ t, e = .throws t := by
    cases hrun : exec d r with
    | ok a r' =>
      rw [hrun] at hexec
      exact hexec.2
    | error e r' =>
      rw [hrun] at hexec
      exact hexec
  exact ⟨footprint_inside hd rfl hstart hdata,hends⟩

/-- The decoder of every registered packet stays inside the array that it is given, and the second reader of a
login inside the string that it is given. -/
theorem decoders_inside (tp : ThirdParty) (data : Bytes) (hdata : data.length < 2^63) :
    (∀ packetDef ∈ PacketFactory.registered, ∀ start ≤ data.length,
      StaysInside (packetDef.decode tp) { ofBytes data with offset := start }) ∧
    StaysInside LoginPacket.requestForConnection (ofBytes data) := by
  constructor
  · intro packetDef _ start hstart
    exact (packetDef.checked_decode tp).staysInside hdata hstart
  · exact LoginPacket.checked_requestForConnection.staysInside hdata (Nat.zero_le _)

theorem decoders_inside_login :
    StaysInside (PacketDef.login.decode .failing) { ofBytes [0,0,3,156,5,0xFF,0xFF,0xFF,0xFF] with offset := 0 } ∧
    StaysInside LoginPacket.requestForConnection (ofBytes [0xFF,0xFF,0xFF,0xFF,1]) :=
  ⟨(decoders_inside .failing [0,0,3,156,5,0xFF,0xFF,0xFF,0xFF] (by decide)).1 .login (by decide) 0 (by decide),
    (decoders_inside .failing [0xFF,0xFF,0xFF,0xFF,1] (by decide)).2⟩

end CyrexMC
