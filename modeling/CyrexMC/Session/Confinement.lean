import CyrexMC.Session.Batch
set_option autoImplicit false

namespace CyrexMC
open BinaryReader

/-- The places in the memory of a reader that a decoder reads, or tries to. -/
def footprint {α : Type} : Read α → BinaryReader → List Nat
  | .done _, _ => []
  | .fail _, _ => []
  | .pull n k, r =>
    if (r.offset+n)%2^64 > r.dataSize then []
    else if r.offset+n ≤ r.dataPtr.length then
      List.range' r.offset n ++
        footprint (k ((r.dataPtr.drop r.offset).take n)) { r with offset := r.offset+n }
    else List.range' r.offset n

def BinaryReader.own (r : BinaryReader) (m : Nat) : Bytes := (r.dataPtr.take m).drop r.offset

theorem own_length {r : BinaryReader} {m : Nat} (hm : m ≤ r.dataPtr.length) :
    (r.own m).length = m-r.offset := by
  simp [own,hm]

theorem own_append (r : BinaryReader) {m : Nat} (ho : r.offset ≤ m) (hm : m ≤ r.dataPtr.length) :
    r.own m ++ r.dataPtr.drop m = r.ahead := by
  have hlen : r.offset ≤ (r.dataPtr.take m).length := by simp; omega
  calc r.own m ++ r.dataPtr.drop m
      = (r.dataPtr.take m ++ r.dataPtr.drop m).drop r.offset := (List.drop_append_of_le_length hlen).symm
    _ = r.ahead := by rw [List.take_append_drop]; rfl

theorem own_step {r : BinaryReader} {m n : Nat} (ho : r.offset ≤ m) (hm : m ≤ r.dataPtr.length)
    (hn : n ≤ (r.own m).length) :
    (r.own m).take n = (r.dataPtr.drop r.offset).take n ∧
      (r.own m).drop n = { r with offset := r.offset+n }.own m := by
  have happend := own_append r ho hm
  constructor
  · calc (r.own m).take n
        = (r.own m ++ r.dataPtr.drop m).take n := (List.take_append_of_le_length hn).symm
      _ = (r.dataPtr.drop r.offset).take n := by rw [happend]; rfl
  · simp [own,List.drop_drop]

theorem own_passes {r : BinaryReader} {m n : Nat} (hr : Open r) (hm : m ≤ r.dataPtr.length)
    (ho : r.offset ≤ m) (hn : n ≤ (r.own m).length) :
    r.offset+n ≤ r.dataPtr.length ∧ ¬ (r.offset+n)%2^64 > r.dataSize ∧ r.offset+n ≤ m := by
  have hb := hr.bound
  have hlen := own_length (r:=r) hm
  have hmod := Nat.mod_le (r.offset+n) (2^64)
  refine ⟨?_,?_,?_⟩ <;> omega

/-- A decoder stays inside the first `m` bytes unless it runs short of them and the bound of the
reader lets the request pass. -/
theorem footprint_lt {α : Type} (d : Read α) {r : BinaryReader} {m : Nat} (hr : Open r)
    (ho : r.offset ≤ m) (hm : m ≤ r.dataPtr.length) :
    (∀ a ∈ footprint d r, a < m) ↔
      ∀ missing, d.feed (r.own m) = .short missing → (m+missing)%2^64 > r.dataSize := by
  induction d generalizing r with
  | done a => simp [footprint]
  | fail e => simp [footprint]
  | pull n k ih =>
    have hlen := own_length (r:=r) hm
    by_cases hn : n ≤ (r.own m).length
    · obtain ⟨hin,hc,hpast⟩ := own_passes hr hm ho hn
      obtain ⟨htake,hdrop⟩ := own_step ho hm hn
      have hnext := ih ((r.dataPtr.drop r.offset).take n) (r:={ r with offset := r.offset+n })
        ⟨hr.bound,hin⟩ hpast hm
      simp only [footprint,hc,if_false,hin,if_true,Pull.feed,hn,htake,hdrop]
      rw [← hnext]
      constructor
      · intro h a ha
        exact h a (List.mem_append_right _ ha)
      · intro h a ha
        rcases List.mem_append.mp ha with ha | ha
        · have hrange := List.mem_range'_1.mp ha
          omega
        · exact h a ha
    · have hshort : m+(n-(r.own m).length) = r.offset+n := by omega
      simp only [Pull.feed,hn,if_false,Fed.short.injEq,forall_eq',hshort,footprint]
      by_cases hc : (r.offset+n)%2^64 > r.dataSize
      · rw [if_pos hc]
        exact ⟨fun _ => hc,fun _ a ha => absurd ha List.not_mem_nil⟩
      · -- The request is let through, and its last byte is not among the first `m`.
        simp only [hc,if_false,iff_false]
        intro h
        have hlast : r.offset+n-1 ∈ List.range' r.offset n := List.mem_range'_1.mpr (by omega)
        have hlt : r.offset+n-1 < m := by
          by_cases hin : r.offset+n ≤ r.dataPtr.length
          · simp only [hin,if_true] at h
            exact h _ (List.mem_append_left _ hlast)
          · simp only [hin,if_false] at h
            exact h _ hlast
        omega

/-- Where the bound refuses the request beyond the first `m` bytes, what a decoder does is
settled by these bytes. -/
theorem exec_own {α : Type} (d : Read α) {r : BinaryReader} {m : Nat} (hr : Open r)
    (ho : r.offset ≤ m) (hm : m ≤ r.dataPtr.length) :
    match d.feed (r.own m) with
    | .done a rest => exec d r = .ok a { r with offset := m-rest.length }
    | .failed e _ => ∃ r', exec d r = .error e r'
    | .short missing => (m+missing)%2^64 > r.dataSize →
        ∃ r', exec d r = .error (.throws .readerOverflow) r' := by
  induction d generalizing r with
  | done a =>
    have hlen := own_length (r:=r) hm
    have hoff : m-(r.own m).length = r.offset := by omega
    simp [Pull.feed,hoff]
  | fail e => simp [Pull.feed]
  | pull n k ih =>
    have hlen := own_length (r:=r) hm
    by_cases hn : n ≤ (r.own m).length
    · obtain ⟨hin,hc,hpast⟩ := own_passes hr hm ho hn
      obtain ⟨htake,hdrop⟩ := own_step ho hm hn
      have hnext := ih ((r.dataPtr.drop r.offset).take n) (r:={ r with offset := r.offset+n })
        ⟨hr.bound,hin⟩ hpast hm
      simpa only [Pull.feed,hn,if_true,exec,hc,if_false,hin,htake,hdrop] using hnext
    · have hshort : m+(n-(r.own m).length) = r.offset+n := by omega
      simp only [Pull.feed,hn,if_false,hshort,exec]
      intro hc
      exact ⟨r,if_pos hc⟩

variable (tp : ThirdParty)

/-- The two decoders that one round of the loop runs over a frame, in a row. -/
def framePacket : Read (Option Packet) := do
  let packetHeader ← readVarUInt
  match PacketFactory.find (packetHeader &&& 0x3FF) with
  | none => pure none
  | some packetDef =>
    let body ← packetDef.decode tp
    pure (body.map fun body => { subClientId := packetHeader >>> 10 &&& 0x03, body })

def packetBuffer (data : Bytes) (o : Nat) : BinaryReader := { dataPtr := data.drop o, dataSize := data.length }

/-- The places behind the start of the frame that are read for the log. -/
def logged (data : Bytes) (o : Nat) (packetLength : UInt32) : List Nat :=
  match exec readVarUInt (packetBuffer data o) with
  | .error _ _ => []
  | .ok packetHeader buffer =>
    if packetHeader &&& 0x3FF = 0x01 then []
    else List.range' buffer.offset ((packetLength.toNat+2^64-buffer.offset)%2^64)

def frameReads (data : Bytes) (o : Nat) (packetLength : UInt32) : List Nat :=
  (footprint (framePacket tp) (packetBuffer data o) ++ logged data o packetLength).map (o+·)

/-- Every read for the frame is of one of its own bytes, and of a byte of the batch. -/
def Confined (data : Bytes) (o : Nat) (packetLength : UInt32) : Prop :=
  ∀ a ∈ frameReads tp data o packetLength, o ≤ a ∧ a < o+packetLength.toNat ∧ a < data.length

def frameBytes (data : Bytes) (o : Nat) (packetLength : UInt32) : Bytes :=
  (data.drop o).take packetLength.toNat

/-- The frame ends inside the batch unless its payload is not logged, and its decoders find
what they ask for in its own bytes, or ask for more than the whole batch. -/
def Sufficient (data : Bytes) (o : Nat) (packetLength : UInt32) : Prop :=
  (∀ packetHeader rest, readVarUInt.feed (frameBytes data o packetLength) = .done packetHeader rest →
    packetHeader &&& 0x3FF ≠ 0x01 → o+packetLength.toNat ≤ data.length) ∧
  ∀ missing, (framePacket tp).feed (frameBytes data o packetLength) = .short missing →
    ((frameBytes data o packetLength).length+missing)%2^64 > data.length

section Frame

variable {data : Bytes} {o : Nat} (ho : o ≤ data.length) (packetLength : UInt32)

variable (data o) in
theorem open_packetBuffer : Open (packetBuffer data o) :=
  ⟨by simp [packetBuffer],Nat.zero_le _⟩

variable (data o) in
theorem frameBytes_length : (frameBytes data o packetLength).length = min packetLength.toNat (data.length-o) := by
  simp [frameBytes]

theorem frameBytes_le : (frameBytes data o packetLength).length ≤ (packetBuffer data o).dataPtr.length := by
  simp [frameBytes,packetBuffer]

theorem own_packetBuffer :
    (packetBuffer data o).own (frameBytes data o packetLength).length = frameBytes data o packetLength := by
  simp only [own,packetBuffer,List.drop_zero,frameBytes,List.length_take]
  rw [List.take_eq_take_iff]
  omega

theorem footprint_frame {α : Type} (d : Read α) :
    (∀ a ∈ footprint d (packetBuffer data o), a < (frameBytes data o packetLength).length) ↔
      ∀ missing, d.feed (frameBytes data o packetLength) = .short missing →
        ((frameBytes data o packetLength).length+missing)%2^64 > data.length := by
  have h := footprint_lt d (open_packetBuffer data o) (Nat.zero_le _)
    (frameBytes_le packetLength)
  rwa [own_packetBuffer] at h

variable (data o) in
theorem exec_frame {α : Type} (d : Read α) :
    match d.feed (frameBytes data o packetLength) with
    | .done a rest => exec d (packetBuffer data o) =
        .ok a { packetBuffer data o with offset := (frameBytes data o packetLength).length-rest.length }
    | .failed e _ => ∃ r', exec d (packetBuffer data o) = .error e r'
    | .short missing => ((frameBytes data o packetLength).length+missing)%2^64 > data.length →
        ∃ r', exec d (packetBuffer data o) = .error (.throws .readerOverflow) r' := by
  have h := exec_own d (open_packetBuffer data o) (Nat.zero_le _)
    (frameBytes_le packetLength)
  rwa [own_packetBuffer] at h

theorem framePacket_short {missing : Nat} {bytes : Bytes} (h : readVarUInt.feed bytes = .short missing) :
    (framePacket tp).feed bytes = .short missing := by
  rw [framePacket,Pull.feed_bind,h]

theorem logged_lt (ho : o ≤ data.length)
    (hread : ∀ missing, readVarUInt.feed (frameBytes data o packetLength) = .short missing →
      ((frameBytes data o packetLength).length+missing)%2^64 > data.length) :
    (∀ a ∈ logged data o packetLength, a < (frameBytes data o packetLength).length) ↔
      ∀ packetHeader rest, readVarUInt.feed (frameBytes data o packetLength) = .done packetHeader rest →
        packetHeader &&& 0x3FF ≠ 0x01 → o+packetLength.toNat ≤ data.length := by
  have hexec := exec_frame data o packetLength readVarUInt
  have hlen := frameBytes_length data o packetLength
  have hL := packetLength.toNat_lt
  cases hf : readVarUInt.feed (frameBytes data o packetLength) with
  | failed e rest =>
    rw [hf] at hexec
    obtain ⟨r,hr⟩ := hexec
    simp [logged,hr]
  | short missing =>
    rw [hf] at hexec
    obtain ⟨r,hr⟩ := hexec (hread missing hf)
    simp [logged,hr]
  | done packetHeader rest =>
    rw [hf] at hexec
    simp only at hexec
    have hone : (∀ header' rest', (Fed.done packetHeader rest : Fed UInt8 Fault UInt32) = .done header' rest' →
        header' &&& 0x3FF ≠ 0x01 → o+packetLength.toNat ≤ data.length) ↔
        (packetHeader &&& 0x3FF ≠ 0x01 → o+packetLength.toNat ≤ data.length) := by
      refine ⟨fun h => h packetHeader rest rfl,fun h header' rest' he => ?_⟩
      cases he
      exact h
    rw [hone]
    by_cases hlogin : packetHeader &&& 0x3FF = 0x01
    · simp [logged,hexec,hlogin]
    · simp only [logged,hexec,hlogin,if_false,ne_eq,not_false_eq_true,true_imp_iff]
      generalize hs : (frameBytes data o packetLength).length-rest.length = size at *
      have hpayload : (packetLength.toNat+2^64-size)%2^64 = packetLength.toNat-size := by omega
      rw [hpayload]
      constructor
      · intro h
        by_cases hempty : packetLength.toNat = size
        · omega
        · have hlast := h (packetLength.toNat-1) (List.mem_range'_1.mpr (by omega))
          omega
      · intro h a ha
        have hrange := List.mem_range'_1.mp ha
        omega

theorem confined_iff (ho : o ≤ data.length) :
    Confined tp data o packetLength ↔ Sufficient tp data o packetLength := by
  have hlen := frameBytes_length data o packetLength
  have hmem : Confined tp data o packetLength ↔
      (∀ a ∈ footprint (framePacket tp) (packetBuffer data o), a < (frameBytes data o packetLength).length) ∧
      ∀ a ∈ logged data o packetLength, a < (frameBytes data o packetLength).length := by
    simp only [Confined,frameReads,List.mem_map,List.mem_append,forall_exists_index,and_imp,
      forall_apply_eq_imp_iff₂]
    constructor
    · intro h
      refine ⟨fun a ha => ?_,fun a ha => ?_⟩
      · have := h a (Or.inl ha)
        omega
      · have := h a (Or.inr ha)
        omega
    · intro h a ha
      have : a < (frameBytes data o packetLength).length := by
        rcases ha with ha | ha
        · exact h.1 a ha
        · exact h.2 a ha
      omega
  rw [hmem,footprint_frame,Sufficient,and_comm]
  refine and_congr_left fun hread => ?_
  exact logged_lt packetLength ho fun missing h => hread missing (framePacket_short tp h)

def outcome (bytes : Bytes) : Except Fault (Option Packet) :=
  match (framePacket tp).feed bytes with
  | .done packet _ => .ok packet
  | .failed e _ => .error e
  | .short _ => .error (.throws .readerOverflow)

theorem logsPayload_sufficient {packetHeader : UInt32} (rest : Bytes)
    (hlog : packetHeader &&& 0x3FF ≠ 0x01 → o+packetLength.toNat ≤ data.length) :
    NetworkSession.logsPayload data (packetHeader &&& 0x3FF) packetLength o
      ((frameBytes data o packetLength).length-rest.length) = true := by
  have hlen := frameBytes_length data o packetLength
  have hL := packetLength.toNat_lt
  refine decide_eq_true ?_
  by_cases hlogin : packetHeader &&& 0x3FF = 0x01
  · exact Or.inl hlogin
  · have hin := hlog hlogin
    refine Or.inr (Or.inr ?_)
    omega

theorem decodeFrame_framePacket {batch next : BinaryReader}
    (hread : exec readVarUInt batch = .ok packetLength next) :
    NetworkSession.decodeFrame tp data batch =
      match exec readVarUInt (packetBuffer data next.offset) with
      | .error f _ => .error f
      | .ok packetHeader buffer =>
        if NetworkSession.logsPayload data (packetHeader &&& 0x3FF) packetLength next.offset buffer.offset then
          match exec (framePacket tp) (packetBuffer data next.offset) with
          | .error f _ => .error f
          | .ok packet _ => .ok (packet.map fun packet =>
              (packet,{ next with offset := next.offset+packetLength.toNat }))
        else .error (.undefined .outOfBounds) := by
  simp only [NetworkSession.decodeFrame,hread,framePacket,exec_bind,Stateful.bind_apply]
  change (match exec readVarUInt (packetBuffer data next.offset) with | .error f _ => _ | .ok _ _ => _) = _
  cases exec readVarUInt (packetBuffer data next.offset) with
  | error f buffer => rfl
  | ok packetHeader buffer =>
    simp only
    split
    · cases PacketFactory.find (packetHeader &&& 0x3FF) with
      | none => rfl
      | some packetDef =>
        simp only [exec_bind,Stateful.bind_apply]
        cases exec (packetDef.decode tp) buffer with
        | error f r => rfl
        | ok body r => cases body <;> rfl
    · rfl

theorem decodeFrame_sufficient {batch next : BinaryReader}
    (hread : exec readVarUInt batch = .ok packetLength next)
    (h : Sufficient tp data next.offset packetLength) :
    (NetworkSession.decodeFrame tp data batch).map (Option.map Prod.fst) =
      outcome tp (frameBytes data next.offset packetLength) := by
  have hheader := exec_frame data next.offset packetLength readVarUInt
  have hpacket := exec_frame data next.offset packetLength (framePacket tp)
  obtain ⟨hlog,hshort⟩ := h
  rw [decodeFrame_framePacket tp packetLength hread]
  cases hf : readVarUInt.feed (frameBytes data next.offset packetLength) with
  | failed e rest =>
    rw [hf] at hheader
    obtain ⟨r,hr⟩ := hheader
    simp [outcome,framePacket,Pull.feed_bind,hf,hr,Except.map]
  | short missing =>
    rw [hf] at hheader
    have hfp := framePacket_short tp hf
    obtain ⟨r,hr⟩ := hheader (hshort missing hfp)
    simp [outcome,hfp,hr,Except.map]
  | done packetHeader rest =>
    rw [hf] at hheader
    simp only at hheader
    have hlogged := logsPayload_sufficient packetLength rest (hlog packetHeader rest hf)
    simp only [hheader,hlogged,if_true,outcome]
    cases hp : (framePacket tp).feed (frameBytes data next.offset packetLength) with
    | done packet rest =>
      rw [hp] at hpacket
      simp only at hpacket
      cases packet <;> simp [hpacket,Except.map]
    | failed e rest =>
      rw [hp] at hpacket
      obtain ⟨r,hr⟩ := hpacket
      simp [hr,Except.map]
    | short missing =>
      rw [hp] at hpacket
      obtain ⟨r,hr⟩ := hpacket (hshort missing hp)
      simp [hr,Except.map]

end Frame

/-- A frame of a batch: its length prefix stands at `start`, and its `packetLength` bytes at `o`. -/
structure FrameAt (data : Bytes) (start o : Nat) (packetLength : UInt32) : Prop where
  inside : start ≤ data.length
  read : exec readVarUInt { ofBytes data with offset := start } =
    .ok packetLength { ofBytes data with offset := o }

theorem FrameAt.le {data : Bytes} {start o : Nat} {packetLength : UInt32}
    (h : FrameAt data start o packetLength) : o ≤ data.length := by
  have hopen : Open { ofBytes data with offset := start } := ⟨Nat.le_refl _,h.inside⟩
  have hfeed := exec_feed readVarUInt hopen
  rw [h.read] at hfeed
  split at hfeed
  · simp only [EStateM.Result.ok.injEq,upTo,ofBytes,BinaryReader.mk.injEq] at hfeed
    omega
  · simp at hfeed
  · obtain ⟨f,r,hr⟩ := hfeed
    simp at hr

/-- A round reads only bytes of its frame just when these are sufficient, and then they alone
settle what it decodes to, whatever stands behind the frame. -/
theorem confined_iff_sufficient (data : Bytes) (start o : Nat) (packetLength : UInt32)
    (h : FrameAt data start o packetLength) :
    (Confined tp data o packetLength ↔ Sufficient tp data o packetLength) ∧
    (Sufficient tp data o packetLength →
      (NetworkSession.decodeFrame tp data { ofBytes data with offset := start }).map (Option.map Prod.fst) =
        outcome tp (frameBytes data o packetLength) ∧
      ∀ data' : Bytes, FrameAt data' start o packetLength →
        data'.take (o+packetLength.toNat) = data.take (o+packetLength.toNat) →
        Sufficient tp data' o packetLength →
        (NetworkSession.decodeFrame tp data' { ofBytes data' with offset := start }).map (Option.map Prod.fst) =
          (NetworkSession.decodeFrame tp data { ofBytes data with offset := start }).map (Option.map Prod.fst)) := by
  refine ⟨confined_iff tp packetLength h.le,fun hs => ?_⟩
  have hdata := decodeFrame_sufficient tp packetLength h.read hs
  refine ⟨hdata,fun data' h' hsame hs' => ?_⟩
  have hdata' := decodeFrame_sufficient tp packetLength h'.read hs'
  have hbytes : frameBytes data' o packetLength = frameBytes data o packetLength := by
    have hdrop := congrArg (List.drop o) hsame
    simpa only [frameBytes,List.drop_take,Nat.add_sub_cancel_left] using hdrop
  rw [hdata,hdata']
  simp only [hbytes]

theorem confined_iff_sufficient_cacheStatus :
    FrameAt [3,0x81,0x01,1] 0 1 3 ∧
      (Confined .failing [3,0x81,0x01,1] 1 3 ↔ Sufficient .failing [3,0x81,0x01,1] 1 3) :=
  ⟨⟨by decide,rfl⟩,(confined_iff_sufficient .failing [3,0x81,0x01,1] 0 1 3 ⟨by decide,rfl⟩).1⟩

/-- A request without a payload takes its protocol version from the frame behind it. -/
theorem request_reads_next_frame :
    FrameAt [2,0xC1,0x01,3,0x81,0x01,1] 0 1 2 ∧ FrameAt [2,0xC1,0x01,3,0x81,0x01,0] 0 1 2 ∧
    ¬ Confined .failing [2,0xC1,0x01,3,0x81,0x01,1] 1 2 ∧
    (NetworkSession.decodeFrame .failing [2,0xC1,0x01,3,0x81,0x01,1] (ofBytes [2,0xC1,0x01,3,0x81,0x01,1])).map
      (Option.map Prod.fst) = .ok (some { body := .requestNetworkSettings { protocolVersion := 0x03810101 } }) ∧
    (NetworkSession.decodeFrame .failing [2,0xC1,0x01,3,0x81,0x01,0] (ofBytes [2,0xC1,0x01,3,0x81,0x01,0])).map
      (Option.map Prod.fst) = .ok (some { body := .requestNetworkSettings { protocolVersion := 0x03810100 } }) := by
  have hread : ∃ a ∈ frameReads .failing [2,0xC1,0x01,3,0x81,0x01,1] 1 2, ¬ a < 3 := by decide
  refine ⟨⟨by decide,rfl⟩,⟨by decide,rfl⟩,?_,rfl,rfl⟩
  intro h
  obtain ⟨a,ha,hout⟩ := hread
  exact hout (h a ha).2.1

end CyrexMC
