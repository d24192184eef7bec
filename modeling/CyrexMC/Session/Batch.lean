import CyrexMC.Codec
import CyrexMC.Session.NetworkSession
set_option autoImplicit false

/-! What `onRaw` makes of a batch. Taking the frames apart does not depend on the session, so a
batch is a list of packets and a way to stop behind them. -/

namespace CyrexMC
open BinaryReader BinaryWriter Stateful

theorem packetHeader_toNat {networkId subClientId : UInt32} (hid : networkId.toNat < 1024)
    (hsub : subClientId.toNat ≤ 3) :
    (packetHeader networkId subClientId).toNat = networkId.toNat+subClientId.toNat*1024 := by
  have hlow : networkId.toNat &&& 1023 = networkId.toNat := by
    rw [Nat.and_two_pow_sub_one_eq_mod networkId.toNat 10]
    omega
  have hshift : (subClientId.toNat <<< 10)%2^32 = 2^10*subClientId.toNat := by
    rw [Nat.shiftLeft_eq]
    omega
  have hor := Nat.two_pow_add_eq_or_of_lt (show networkId.toNat < 2^10 by omega) subClientId.toNat
  simp only [packetHeader,UInt32.toNat_or,UInt32.toNat_and,UInt32.toNat_shiftLeft]
  simp only [UInt32.reduceToNat,Nat.reduceMod,hlow,hshift]
  rw [Nat.or_comm,← hor]
  omega

theorem packetHeader_id {networkId subClientId : UInt32} (hid : networkId.toNat < 1024)
    (hsub : subClientId.toNat ≤ 3) :
    packetHeader networkId subClientId &&& 0x3FF = networkId := by
  rw [← UInt32.toNat_inj,UInt32.toNat_and,packetHeader_toNat hid hsub]
  have h : (networkId.toNat+subClientId.toNat*1024) &&& 1023 = _ :=
    Nat.and_two_pow_sub_one_eq_mod (networkId.toNat+subClientId.toNat*1024) 10
  simp only [UInt32.reduceToNat,h]
  omega

theorem packetHeader_subClientId {networkId subClientId : UInt32} (hid : networkId.toNat < 1024)
    (hsub : subClientId.toNat ≤ 3) :
    packetHeader networkId subClientId >>> 10 &&& 0x03 = subClientId := by
  rw [← UInt32.toNat_inj,UInt32.toNat_and,UInt32.toNat_shiftRight,packetHeader_toNat hid hsub]
  have h : (networkId.toNat+subClientId.toNat*1024) >>> 10 &&& 3 = _ :=
    Nat.and_two_pow_sub_one_eq_mod ((networkId.toNat+subClientId.toNat*1024) >>> 10) 2
  have hs := Nat.shiftRight_eq_div_pow (networkId.toNat+subClientId.toNat*1024) 10
  simp only [UInt32.reduceToNat,Nat.reduceMod,h]
  omega

/-- The id can be read off a header whatever the sub client. -/
theorem packetHeader_low (networkId subClientId : UInt32) :
    packetHeader networkId subClientId &&& 0x3FF = networkId &&& 0x3FF := by
  have hlow : ∀ n : Nat, n &&& 1023 = n%2^10 := fun n => Nat.and_two_pow_sub_one_eq_mod n 10
  have hshift : (subClientId.toNat <<< 10)%2^32%2^10 = 0 := by
    rw [Nat.shiftLeft_eq]
    omega
  rw [← UInt32.toNat_inj]
  simp only [packetHeader,UInt32.toNat_and,UInt32.toNat_or,UInt32.toNat_shiftLeft,UInt32.reduceToNat,hlow,
    Nat.or_mod_two_pow,hshift,Nat.or_zero,Nat.mod_mod,Nat.reduceMod]

theorem frame_id {id sub id' sub' : UInt32} {payload payload' : Bytes}
    (h : frame id sub payload = frame id' sub' payload') : id &&& 0x3FF = id' &&& 0x3FF := by
  have hread : ∀ v rest, readVarUInt.feed (writeVarUInt v ++ rest) = .done v rest := readVarUInt_reads
  have hfeed := congrArg (fun bytes => readVarUInt.feed bytes) h
  simp only [frame,List.append_assoc,hread] at hfeed
  injection hfeed with hlength hrest
  have hheader := congrArg (fun bytes => readVarUInt.feed bytes) hrest
  simp only [hread] at hheader
  injection hheader with hid
  rw [← packetHeader_low id sub,hid,packetHeader_low]

/-- A frame as `Packet::encode` writes it, for any id that fits its field. -/
structure Frame where
  networkId : UInt32
  subClientId : UInt32
  payload : Bytes
  id_lt : networkId.toNat < 1024
  sub_le : subClientId.toNat ≤ 3

namespace Frame

def header (f : Frame) : Bytes := writeVarUInt (packetHeader f.networkId f.subClientId)

def declared (f : Frame) : UInt32 :=
  UInt32.ofNat (f.payload.length+getVarUIntSize (packetHeader f.networkId f.subClientId))

def lengthPrefix (f : Frame) : Bytes := writeVarUInt f.declared

def bytes (f : Frame) : Bytes := frame f.networkId f.subClientId f.payload

theorem bytes_eq (f : Frame) : f.bytes = f.lengthPrefix ++ f.header ++ f.payload := rfl

theorem declared_toNat {f : Frame} (h : f.bytes.length < 2^32) :
    f.declared.toNat = f.header.length+f.payload.length := by
  have hh : f.header.length = _ := writeVarUInt_length (packetHeader f.networkId f.subClientId)
  simp only [bytes_eq,List.length_append] at h
  rw [declared,UInt32.toNat_ofNat',← hh]
  omega

end Frame

def payloadReader (data front : Bytes) (f : Frame) : BinaryReader :=
  { dataPtr := data.drop (front.length+f.lengthPrefix.length), dataSize := data.length,
    offset := f.header.length }

def cursor (data front : Bytes) : BinaryReader := { ofBytes data with offset := front.length }

theorem drop_front {data front post : Bytes} {f : Frame} (h : data = front ++ f.bytes ++ post) :
    data.drop (front.length+f.lengthPrefix.length) = f.header ++ (f.payload ++ post) := by
  have hsplit : data = (front ++ f.lengthPrefix) ++ (f.header ++ (f.payload ++ post)) := by
    simp [h,Frame.bytes_eq]
  rw [hsplit,← List.length_append,List.drop_left]

theorem payloadReader_ahead {data front post : Bytes} {f : Frame} (h : data = front ++ f.bytes ++ post) :
    (payloadReader data front f).ahead = f.payload ++ post := by
  simp only [payloadReader,ahead,drop_front h,List.drop_left]

variable (tp : ThirdParty)

def visit (data front : Bytes) (f : Frame) : Except Fault (Option Packet) :=
  match PacketFactory.find f.networkId with
  | none => .ok none
  | some packetDef =>
    match exec (packetDef.decode tp) (payloadReader data front f) with
    | .error e _ => .error e
    | .ok none _ => .ok none
    | .ok (some body) _ => .ok (some { subClientId := f.subClientId, body })

theorem decodeFrame_visit {data front post : Bytes} {f : Frame} (h : data = front ++ f.bytes ++ post)
    (hsize : f.bytes.length < 2^32) :
    NetworkSession.decodeFrame tp data (cursor data front) =
      (visit tp data front f).map fun packet =>
        packet.map fun packet => (packet,cursor data (front ++ f.bytes)) := by
  have hdeclared := Frame.declared_toNat hsize
  have hlen := congrArg List.length h
  simp only [List.length_append,Frame.bytes_eq] at hlen hsize
  have hopen : Open (cursor data front) := ⟨Nat.le_refl _,by simp only [cursor,ofBytes]; omega⟩
  have hahead : (cursor data front).ahead = f.lengthPrefix ++ (f.header ++ f.payload ++ post) := by
    simp [h,cursor,ahead,ofBytes,Frame.bytes_eq]
  have hread : exec readVarUInt (cursor data front) = .ok f.declared
      { ofBytes data with offset := front.length+f.lengthPrefix.length } :=
    exec_reads (readVarUInt_reads f.declared) hopen hahead
  let start : BinaryReader :=
    { dataPtr := data.drop (front.length+f.lengthPrefix.length), dataSize := data.length }
  have hstart : Open start := ⟨by simp only [start,List.length_drop]; omega,Nat.zero_le _⟩
  have hrest : start.ahead = f.header ++ (f.payload ++ post) := drop_front h
  have hheader : exec readVarUInt start =
      .ok (packetHeader f.networkId f.subClientId) (payloadReader data front f) := by
    have hr := exec_reads (readVarUInt_reads (packetHeader f.networkId f.subClientId)) hstart hrest
    simpa [start,payloadReader,Frame.header] using hr
  have hpayload : (f.header.length+f.payload.length+2^64-f.header.length)%2^64 = f.payload.length := by
    omega
  have hlog : NetworkSession.logsPayload data f.networkId f.declared
      (front.length+f.lengthPrefix.length) f.header.length := by
    simp only [NetworkSession.logsPayload,hdeclared,hpayload]
    exact decide_eq_true (Or.inr (Or.inr (by omega)))
  have hnext : front.length+f.lengthPrefix.length+f.declared.toNat = (front ++ f.bytes).length := by
    simp only [hdeclared,Frame.bytes_eq,List.length_append]
    omega
  unfold NetworkSession.decodeFrame visit
  simp only [hread]
  rw [hheader]
  simp only [packetHeader_id f.id_lt f.sub_le,packetHeader_subClientId f.id_lt f.sub_le]
  have hlog' : NetworkSession.logsPayload data f.networkId f.declared
      (front.length+f.lengthPrefix.length) (payloadReader data front f).offset := hlog
  simp only [hlog',if_true,hnext]
  cases PacketFactory.find f.networkId with
  | none => rfl
  | some packetDef =>
    cases hd : exec (packetDef.decode tp) (payloadReader data front f) with
    | error e r => simp [hd,Except.map]
    | ok body r => cases body <;> simp [hd,Except.map,cursor]

def batchBytes (frames : List Frame) : Bytes := frames.flatMap Frame.bytes

/-- Frame by frame: the frames in `frames` stand behind `front`. -/
def serveFrames (data : Bytes) : Bytes → List Frame → SessionM Unit
  | _, [] => return ()
  | front, f :: frames => do
    match visit tp data front f with
    | .error e => throw e
    | .ok none => return ()
    | .ok (some packet) =>
      if ← NetworkSession.handle tp packet.body then serveFrames data (front ++ f.bytes) frames

theorem Frame.bytes_pos (f : Frame) : 0 < f.bytes.length := by
  have hh : f.header.length = _ := writeVarUInt_length (packetHeader f.networkId f.subClientId)
  have hpos := getVarUIntSize_pos (packetHeader f.networkId f.subClientId)
  simp only [bytes_eq,List.length_append]
  omega

theorem batchBytes_pos {frames : List Frame} (h : frames ≠ []) : 0 < (batchBytes frames).length := by
  cases frames with
  | nil => contradiction
  | cons f frames =>
    have hf := f.bytes_pos
    simp only [batchBytes,List.flatMap_cons,List.length_append]
    omega

theorem cursor_remaining {data front post : Bytes} (h : data = front ++ post) (hp : post.length < 2^64) :
    (cursor data front).remaining = post.length := by
  simp only [remaining,cursor,ofBytes,h,List.length_append]
  omega

theorem onRawLoop_frames (data front : Bytes) (frames : List Frame) (fuel : Nat)
    (hne : frames ≠ []) (hdata : data = front ++ batchBytes frames)
    (hsize : (batchBytes frames).length < 2^32) (hfuel : (batchBytes frames).length < fuel) :
    NetworkSession.onRawLoop tp data fuel (cursor data front) = serveFrames tp data front frames := by
  induction frames generalizing front fuel with
  | nil => contradiction
  | cons f frames ih =>
    cases fuel with
    | zero => omega
    | succ fuel =>
      have hpos := f.bytes_pos
      simp only [batchBytes,List.flatMap_cons,List.length_append] at hsize hfuel
      have hsplit : data = front ++ f.bytes ++ batchBytes frames := by
        simp [hdata,batchBytes]
      have hrest : (cursor data (front ++ f.bytes)).remaining = (batchBytes frames).length :=
        cursor_remaining hsplit (by simp only [batchBytes]; omega)
      simp only [NetworkSession.onRawLoop,serveFrames,decodeFrame_visit tp hsplit (by omega)]
      cases visit tp data front f with
      | error e => rfl
      | ok packet =>
        cases packet with
        | none => rfl
        | some packet =>
          simp only [Except.map,Option.map,hrest]
          by_cases hlast : frames = []
          · simp [hlast,serveFrames,batchBytes]
          · have hmore := batchBytes_pos hlast
            have hnext := ih (front ++ f.bytes) fuel hlast hsplit
              (by simp only [batchBytes]; omega) (by simp only [batchBytes]; omega)
            simp only [hmore,if_true,hnext]

/-- On frames written back to back the loop stands at each frame in turn, its decoder at that
frame's payload, and goes on for as long as packets are found, decoded and handled. -/
theorem onRaw_frames (frames : List Frame) (hne : frames ≠ []) (hsize : (batchBytes frames).length < 2^32) :
    (∀ pre f post, frames = pre ++ f :: post →
      (payloadReader (batchBytes frames) (batchBytes pre) f).ahead = f.payload ++ batchBytes post ∧
      NetworkSession.decodeFrame tp (batchBytes frames) (cursor (batchBytes frames) (batchBytes pre)) =
        (visit tp (batchBytes frames) (batchBytes pre) f).map fun packet =>
          packet.map fun packet =>
            (packet,cursor (batchBytes frames) (batchBytes (pre ++ [f])))) ∧
    NetworkSession.onRaw tp (batchBytes frames) = serveFrames tp (batchBytes frames) [] frames := by
  constructor
  · intro pre f post hf
    have hsplit : batchBytes frames = batchBytes pre ++ f.bytes ++ batchBytes post := by
      simp [hf,batchBytes]
    have hlen := congrArg List.length hsplit
    simp only [List.length_append] at hlen
    have hdecode := decodeFrame_visit tp hsplit (by omega)
    have hnext : batchBytes (pre ++ [f]) = batchBytes pre ++ f.bytes := by simp [batchBytes]
    rw [hnext]
    exact ⟨payloadReader_ahead hsplit,hdecode⟩
  · exact onRawLoop_frames tp (batchBytes frames) [] frames _ hne rfl hsize (Nat.lt_succ_self _)

theorem onRaw_frames_pair :
    let frames : List Frame :=
      [⟨PacketId.ClientCacheStatus,2,[1],by decide,by decide⟩,⟨0x3FF,0,[],by decide,by decide⟩]
    frames ≠ [] ∧ (batchBytes frames).length < 2^32 ∧
      NetworkSession.onRaw .failing (batchBytes frames) =
        serveFrames .failing (batchBytes frames) [] frames :=
  ⟨by decide,by decide,(onRaw_frames .failing _ (by decide) (by decide)).2⟩

/-- The packets the loop finds as long as it goes on, and the fault behind the last of them. -/
def parseLoop (data : Bytes) : Nat → BinaryReader → List Packet × Option Fault
  | 0, _ => ([],some .outOfFuel)
  | fuel+1, batch =>
    match NetworkSession.decodeFrame tp data batch with
    | .error f => ([],some f)
    | .ok none => ([],none)
    | .ok (some (packet,batch)) =>
      if batch.remaining > 0 then
        (packet :: (parseLoop data fuel batch).1,(parseLoop data fuel batch).2)
      else ([packet],none)

def parseBatch (data : Bytes) : List Packet × Option Fault :=
  parseLoop tp data (data.length+1) (ofBytes data)

/-- The packets are handled until one handler returns false, and then the loop ends. -/
def serve : List Packet → Option Fault → SessionM Unit
  | [], none => return ()
  | [], some f => throw f
  | packet :: packets, ending => do
    if ← NetworkSession.handle tp packet.body then serve packets ending

theorem onRawLoop_serve (data : Bytes) (fuel : Nat) (batch : BinaryReader) :
    NetworkSession.onRawLoop tp data fuel batch =
      serve tp (parseLoop tp data fuel batch).1 (parseLoop tp data fuel batch).2 := by
  induction fuel generalizing batch with
  | zero => rfl
  | succ fuel ih =>
    simp only [NetworkSession.onRawLoop,parseLoop]
    cases NetworkSession.decodeFrame tp data batch with
    | error f => rfl
    | ok found =>
      cases found with
      | none => rfl
      | some found =>
        obtain ⟨packet,batch⟩ := found
        by_cases hmore : batch.remaining > 0
        · simp only [hmore,if_true,serve,ih]
        · simp only [hmore,if_false,serve]

theorem onRaw_serve (data : Bytes) :
    NetworkSession.onRaw tp data = serve tp (parseBatch tp data).1 (parseBatch tp data).2 :=
  onRawLoop_serve tp data _ _

end CyrexMC
