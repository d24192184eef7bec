import CyrexMC.Session.Confinement
set_option autoImplicit false

namespace CyrexMC
open BinaryReader Stateful

theorem exec_ok_offset {α : Type} (d : Read α) {r r' : BinaryReader} {a : α} (h : exec d r = .ok a r') :
    r' = { r with offset := r'.offset } ∧ r.offset ≤ r'.offset ∧ (r.offset < r'.offset → r'.offset ≤ r.dataPtr.length) := by
  induction d generalizing r with
  | done b =>
    cases h
    exact ⟨rfl,Nat.le_refl _,fun hlt => absurd hlt (Nat.lt_irrefl _)⟩
  | fail e => cases h
  | pull n k ih =>
    simp only [exec] at h
    split at h
    · cases h
    · split at h
      · rename_i hin
        obtain ⟨heq,hle,hlt⟩ := ih _ h
        refine ⟨heq,Nat.le_trans (Nat.le_add_right _ n) hle,fun _ => ?_⟩
        by_cases hmore : r.offset+n < r'.offset
        · exact hlt hmore
        · have hsame : r'.offset = r.offset+n := Nat.le_antisymm (Nat.not_lt.mp hmore) hle
          rw [hsame]
          exact hin
      · cases h

theorem readVarUInt_ok {r r' : BinaryReader} {v : UInt32} (h : exec readVarUInt r = .ok v r') :
    r' = { r with offset := r'.offset } ∧ r.offset < r'.offset ∧ r'.offset ≤ r.dataPtr.length := by
  obtain ⟨heq,-,hlt⟩ := exec_ok_offset readVarUInt h
  have hpull : ∃ k, readVarUInt = .pull 1 k := ⟨_,rfl⟩
  obtain ⟨k,hk⟩ := hpull
  rw [hk] at h
  simp only [exec] at h
  split at h
  · cases h
  · split at h
    · obtain ⟨-,hle,-⟩ := exec_ok_offset _ h
      exact ⟨heq,hle,hlt hle⟩
    · cases h

/-- An iteration that has read the length of its frame, which begins at `o`, and the header. -/
structure Round (data : Bytes) (batch : BinaryReader) (o : Nat) (packetLength packetHeader : UInt32)
    (headerSize : Nat) : Prop where
  length : exec readVarUInt batch = .ok packetLength { ofBytes data with offset := o }
  header : exec readVarUInt (packetBuffer data o) =
    .ok packetHeader { packetBuffer data o with offset := headerSize }

/-- The length covers the header and ends in the batch. -/
structure Fits (data : Bytes) (o : Nat) (packetLength : UInt32) (headerSize : Nat) : Prop where
  header : headerSize ≤ packetLength.toNat
  inside : o+packetLength.toNat ≤ data.length

variable (tp : ThirdParty)

/-- The fields of a login are not all there, or not well formed. -/
def LoginFails (data : Bytes) (o headerSize : Nat) : Prop :=
  ∃ e r, exec (PacketDef.login.decode tp) { packetBuffer data o with offset := headerSize } = .error (.throws e) r

structure RoundExact (data : Bytes) (batch : BinaryReader) (o : Nat) (packetLength packetHeader : UInt32)
    (headerSize : Nat) : Prop where
  used : ∀ packet next, NetworkSession.decodeFrame tp data batch = .ok (some (packet,next)) →
    Fits data o packetLength headerSize ∧ next.offset ≤ data.length ∧ next.remaining = data.length-next.offset
  payload : packetHeader &&& 0x3FF ≠ PacketId.Login →
    (packetLength.toNat+2^64-headerSize)%2^64 = packetLength.toNat-headerSize ∧ headerSize ≤ packetLength.toNat
  logged : ∀ a ∈ logged data o packetLength, o+a < data.length
  rejected : ¬ Fits data o packetLength headerSize →
    NetworkSession.decodeFrame tp data batch = .ok none ∨
      ∃ e, NetworkSession.decodeFrame tp data batch = .error (.throws e)

section

variable {tp} {data : Bytes} {batch : BinaryReader} {o : Nat} {packetLength packetHeader : UInt32} {headerSize : Nat}

theorem Round.header_inside (h : Round data batch o packetLength packetHeader headerSize) :
    o+headerSize ≤ data.length := by
  obtain ⟨-,hlt,hle⟩ := readVarUInt_ok h.header
  simp only [packetBuffer,List.length_drop] at hlt hle
  omega

/-- The round from its two varints on. -/
theorem Round.decodeFrame (h : Round data batch o packetLength packetHeader headerSize) :
    NetworkSession.decodeFrame tp data batch =
      if NetworkSession.logsPayload data (packetHeader &&& 0x3FF) packetLength o headerSize then
        match PacketFactory.find (packetHeader &&& 0x3FF) with
        | none => .ok none
        | some packetDef =>
          match exec (packetDef.decode tp) { packetBuffer data o with offset := headerSize } with
          | .error f _ => .error f
          | .ok none _ => .ok none
          | .ok (some body) _ =>
            .ok (some ({ subClientId := packetHeader >>> 10 &&& 0x03, body },
              { ofBytes data with offset := o+packetLength.toNat }))
      else .error (.undefined .outOfBounds) := by
  have hheader := h.header
  unfold packetBuffer at hheader
  unfold NetworkSession.decodeFrame
  simp only [h.length,hheader]
  rfl

theorem Round.logged (h : Round data batch o packetLength packetHeader headerSize) :
    logged data o packetLength =
      if packetHeader &&& 0x3FF = 0x01 then []
      else List.range' headerSize ((packetLength.toNat+2^64-headerSize)%2^64) := by
  rw [CyrexMC.logged,h.header]

theorem Round.next (h : Round data batch o packetLength packetHeader headerSize) {packet : Packet} {next : BinaryReader}
    (hused : NetworkSession.decodeFrame tp data batch = .ok (some (packet,next))) :
    next = { ofBytes data with offset := o+packetLength.toNat } := by
  rw [h.decodeFrame] at hused
  split at hused
  · split at hused
    · cases hused
    · split at hused
      · cases hused
      · cases hused
      · cases hused
        rfl
  · cases hused

theorem exists_round {packet : Packet} {next : BinaryReader} (hbatch : batch = { ofBytes data with offset := batch.offset })
    (hused : NetworkSession.decodeFrame tp data batch = .ok (some (packet,next))) :
    ∃ o packetLength packetHeader headerSize, Round data batch o packetLength packetHeader headerSize := by
  unfold NetworkSession.decodeFrame at hused
  cases hlength : exec readVarUInt batch with
  | error f r => simp [hlength] at hused
  | ok packetLength r =>
    obtain ⟨hr,-⟩ := readVarUInt_ok hlength
    simp only [hlength] at hused
    cases hheader : exec readVarUInt { dataPtr := data.drop r.offset, dataSize := data.length } with
    | error f s => simp [hheader] at hused
    | ok packetHeader s =>
      obtain ⟨hs,-⟩ := readVarUInt_ok hheader
      refine ⟨r.offset,packetLength,packetHeader,s.offset,?_,?_⟩
      · rw [hlength]
        rw [hbatch] at hr
        exact congrArg _ hr
      · rw [packetBuffer,hheader]
        exact congrArg _ hs

theorem remaining_eq {n : Nat} (hdata : data.length < 2^64) (hn : n ≤ data.length) :
    remaining { ofBytes data with offset := n } = data.length-n := by
  simp only [remaining,ofBytes]
  omega

theorem Round.logsPayload_iff (h : Round data batch o packetLength packetHeader headerSize) (hdata : data.length < 2^64) :
    NetworkSession.logsPayload data (packetHeader &&& 0x3FF) packetLength o headerSize = true ↔
      packetHeader &&& 0x3FF = PacketId.Login ∨ Fits data o packetLength headerSize := by
  have hinside := h.header_inside
  have hL := packetLength.toNat_lt
  have hfits : Fits data o packetLength headerSize ↔
      headerSize ≤ packetLength.toNat ∧ o+packetLength.toNat ≤ data.length :=
    ⟨fun hf => ⟨hf.header,hf.inside⟩,fun hf => ⟨hf.1,hf.2⟩⟩
  rw [NetworkSession.logsPayload,decide_eq_true_iff,hfits]
  refine or_congr Iff.rfl ?_
  omega

theorem Round.exact_of_fits (h : Round data batch o packetLength packetHeader headerSize) (hdata : data.length < 2^64)
    (hf : Fits data o packetLength headerSize) :
    RoundExact tp data batch o packetLength packetHeader headerSize := by
  obtain ⟨hheader,hinside⟩ := hf
  have hL := packetLength.toNat_lt
  have hsize : (packetLength.toNat+2^64-headerSize)%2^64 = packetLength.toNat-headerSize := by omega
  refine ⟨?_,?_,?_,?_⟩
  · intro packet next hused
    rw [h.next hused]
    exact ⟨⟨hheader,hinside⟩,hinside,remaining_eq hdata hinside⟩
  · intro hlogin
    exact ⟨hsize,hheader⟩
  · intro a ha
    rw [h.logged,hsize] at ha
    split at ha
    · cases ha
    · have hrange := List.mem_range'_1.mp ha
      omega
  · intro hnot
    exact absurd ⟨hheader,hinside⟩ hnot

theorem loginDecode_some {r r' : BinaryReader} {body : Option PacketBody}
    (h : exec (PacketDef.login.decode tp) r = .ok body r') : ∃ pk, body = some (.login pk) := by
  simp only [PacketDef.decode,exec_bind] at h
  obtain ⟨pk,s,-,hpk⟩ := of_bind_ok h
  cases hpk
  exact ⟨pk,rfl⟩

theorem Round.decodeFrame_login (h : Round data batch o packetLength packetHeader headerSize) (hdata : data.length < 2^64)
    (hlogin : packetHeader &&& 0x3FF = PacketId.Login) :
    NetworkSession.decodeFrame tp data batch =
      match exec (PacketDef.login.decode tp) { packetBuffer data o with offset := headerSize } with
      | .error f _ => .error f
      | .ok none _ => .ok none
      | .ok (some body) _ =>
        .ok (some ({ subClientId := packetHeader >>> 10 &&& 0x03, body },
          { ofBytes data with offset := o+packetLength.toNat })) := by
  have hfind : PacketFactory.find PacketId.Login = some .login := PacketFactory.find_networkId .login
  rw [h.decodeFrame,if_pos ((h.logsPayload_iff hdata).mpr (Or.inl hlogin)),hlogin,hfind]

theorem Round.exact_of_loginFails (h : Round data batch o packetLength packetHeader headerSize) (hdata : data.length < 2^64)
    (hlogin : packetHeader &&& 0x3FF = PacketId.Login) (hfails : LoginFails tp data o headerSize) :
    RoundExact tp data batch o packetLength packetHeader headerSize := by
  obtain ⟨e,r,hr⟩ := hfails
  have hthrows : NetworkSession.decodeFrame tp data batch = .error (.throws e) := by
    rw [h.decodeFrame_login hdata hlogin,hr]
  refine ⟨?_,?_,?_,?_⟩
  · intro packet next hused
    rw [hthrows] at hused
    cases hused
  · intro hother
    exact absurd hlogin hother
  · intro a ha
    rw [h.logged,if_pos (show packetHeader &&& 0x3FF = 0x01 from hlogin)] at ha
    cases ha
  · intro hnot
    exact Or.inr ⟨e,hthrows⟩

/-- One iteration is exact if and only if its frame fits or is a login that is not decoded. -/
theorem Round.exact_iff (h : Round data batch o packetLength packetHeader headerSize) (hdata : data.length < 2^64) :
    RoundExact tp data batch o packetLength packetHeader headerSize ↔
      Fits data o packetLength headerSize ∨ packetHeader &&& 0x3FF = PacketId.Login ∧ LoginFails tp data o headerSize := by
  constructor
  · intro hexact
    by_cases hf : Fits data o packetLength headerSize
    · exact Or.inl hf
    · have hrejected := hexact.rejected hf
      by_cases hlogin : packetHeader &&& 0x3FF = PacketId.Login
      · refine Or.inr ⟨hlogin,?_⟩
        rw [h.decodeFrame_login hdata hlogin] at hrejected
        cases hrun : exec (PacketDef.login.decode tp) { packetBuffer data o with offset := headerSize } with
        | error f r =>
          rw [hrun] at hrejected
          rcases hrejected with hnone | ⟨e,he⟩
          · cases hnone
          · cases he
            exact ⟨e,r,hrun⟩
        | ok body r =>
          obtain ⟨pk,rfl⟩ := loginDecode_some hrun
          rw [hrun] at hrejected
          rcases hrejected with hnone | ⟨e,he⟩
          · cases hnone
          · cases he
      · -- The payload is logged, so the reads for the log were let through: the frame fits.
        have hnotlogged : ¬ NetworkSession.logsPayload data (packetHeader &&& 0x3FF) packetLength o headerSize = true := by
          rw [h.logsPayload_iff hdata]
          exact not_or.mpr ⟨hlogin,hf⟩
        rw [h.decodeFrame,if_neg hnotlogged] at hrejected
        rcases hrejected with hnone | ⟨e,he⟩
        · cases hnone
        · cases he
  · rintro (hf | ⟨hlogin,hfails⟩)
    · exact h.exact_of_fits hdata hf
    · exact h.exact_of_loginFails hdata hlogin hfails

end

/-- The iterations of the loop of `onRaw`, by their batch cursor and the world that they find. -/
inductive Reaches (data : Bytes) (w : World) : BinaryReader → World → Prop where
  | start : Reaches data w (ofBytes data) w
  | next {batch next : BinaryReader} {w' w'' : World} {packet : Packet} (h : Reaches data w batch w')
      (hdecode : NetworkSession.decodeFrame tp data batch = .ok (some (packet,next)))
      (hhandle : NetworkSession.handle tp packet.body w' = .ok true w'') (hmore : next.remaining > 0) :
      Reaches data w next w''

section

variable {tp} {data : Bytes} {w w' : World} {batch : BinaryReader}

theorem Reaches.cursor_eq (h : Reaches tp data w batch w') : batch = { ofBytes data with offset := batch.offset } := by
  induction h with
  | start => rfl
  | next h hdecode hhandle hmore ih =>
    obtain ⟨o,packetLength,packetHeader,headerSize,hround⟩ := exists_round ih hdecode
    rw [hround.next hdecode]

theorem Reaches.onRaw (h : Reaches tp data w batch w') :
    ∃ fuel, data.length < fuel+batch.offset ∧
      NetworkSession.onRaw tp data w = NetworkSession.onRawLoop tp data fuel batch w' := by
  induction h with
  | start => exact ⟨data.length+1,Nat.lt_succ_self _,rfl⟩
  | @next batch next w' w'' packet h hdecode hhandle hmore ih =>
    obtain ⟨fuel,hfuel,hrun⟩ := ih
    obtain ⟨o,packetLength,packetHeader,headerSize,hround⟩ := exists_round h.cursor_eq hdecode
    obtain ⟨-,hlt,hle⟩ := readVarUInt_ok hround.length
    rw [h.cursor_eq] at hlt hle
    simp only [ofBytes] at hlt hle
    cases fuel with
    | zero => omega
    | succ fuel =>
      refine ⟨fuel,?_,?_⟩
      · rw [hround.next hdecode]
        simp only
        omega
      · rw [hrun,NetworkSession.onRawLoop]
        simp only [hdecode]
        rw [bind_ok hhandle]
        simp only [hmore,if_true]

end

structure IterationExact (data : Bytes) (batch : BinaryReader) : Prop where
  offset : batch.offset ≤ data.length
  remaining : batch.remaining = data.length-batch.offset
  rounds : ∀ o packetLength packetHeader headerSize, Round data batch o packetLength packetHeader headerSize →
    RoundExact tp data batch o packetLength packetHeader headerSize

/-- The frame of an iteration fits, or is a login that is not decoded. -/
def Bounded (data : Bytes) (batch : BinaryReader) : Prop :=
  ∀ o packetLength packetHeader headerSize, Round data batch o packetLength packetHeader headerSize →
    Fits data o packetLength headerSize ∨ packetHeader &&& 0x3FF = PacketId.Login ∧ LoginFails tp data o headerSize

theorem Reaches.offset_le {tp : ThirdParty} {data : Bytes} {w w' : World} {batch : BinaryReader}
    (h : Reaches tp data w batch w') (hdata : data.length < 2^64)
    (hbounded : ∀ batch w', Reaches tp data w batch w' → Bounded tp data batch) : batch.offset ≤ data.length := by
  induction h with
  | start => exact Nat.zero_le _
  | next h hdecode hhandle hmore ih =>
    obtain ⟨o,packetLength,packetHeader,headerSize,hround⟩ := exists_round h.cursor_eq hdecode
    have hexact : RoundExact tp data _ o packetLength packetHeader headerSize :=
      (hround.exact_iff hdata).mpr (hbounded _ _ h o packetLength packetHeader headerSize hround)
    obtain ⟨-,hoffset,-⟩ := hexact.used _ _ hdecode
    exact hoffset

theorem onRaw_exact_iff (data : Bytes) (w : World) (hdata : data.length < 2^64) :
    (∀ batch w', Reaches tp data w batch w' → IterationExact tp data batch) ↔
      ∀ batch w', Reaches tp data w batch w' → Bounded tp data batch := by
  constructor
  · intro hexact batch w' h o packetLength packetHeader headerSize hround
    have hiteration := (hexact batch w' h).rounds o packetLength packetHeader headerSize hround
    exact (hround.exact_iff hdata).mp hiteration
  · intro hbounded batch w' h
    have hoffset := h.offset_le hdata hbounded
    refine ⟨hoffset,?_,?_⟩
    · rw [h.cursor_eq]
      exact remaining_eq hdata hoffset
    · intro o packetLength packetHeader headerSize hround
      exact (hround.exact_iff hdata).mpr (hbounded batch w' h o packetLength packetHeader headerSize hround)

def World.bare : World := { session := { guid := 0 }, server := .bare }

theorem onRaw_exact_iff_cacheStatus : ([3,0x81,0x01,1] : Bytes).length < 2^64 ∧
    ((∀ batch w', Reaches .failing [3,0x81,0x01,1] World.bare batch w' → IterationExact .failing [3,0x81,0x01,1] batch) ↔
      ∀ batch w', Reaches .failing [3,0x81,0x01,1] World.bare batch w' → Bounded .failing [3,0x81,0x01,1] batch) :=
  ⟨by decide,onRaw_exact_iff .failing _ World.bare (by decide)⟩

/-- A frame of length zero with the header of a ClientCacheStatus. -/
theorem empty_frame_underflows :
    ¬ ∀ batch w', Reaches .failing [0,0x81,0x01,1] World.bare batch w' → IterationExact .failing [0,0x81,0x01,1] batch := by
  intro h
  have hround : Round [0,0x81,0x01,1] (ofBytes [0,0x81,0x01,1]) 1 0 0x81 2 := ⟨rfl,rfl⟩
  have hexact := (h _ _ .start).rounds 1 0 0x81 2 hround
  have hpayload := hexact.payload (by decide)
  exact absurd hpayload.2 (by decide)

end CyrexMC
