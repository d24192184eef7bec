import CyrexMC.Session.Download
set_option autoImplicit false

/-! What a chunk request comes to, whether it returns or throws, and what happens on the way. -/

namespace CyrexMC
open Stateful

variable {tp : ThirdParty}

inductive ChunkEvent where
  /-- The packet with a chunk is handed to `send`, which writes these datagrams. -/
  | handed : UUID → Nat → List Bytes → ChunkEvent
  /-- The flag of a chunk is set. -/
  | sent : UUID → Nat → ChunkEvent
  /-- `nextPack` is called, behind a chunk of the pack. -/
  | nextPack : UUID → ChunkEvent
  /-- A chunk that is due cannot be read, or its packet cannot be sent. -/
  | failed : UUID → Nat → ChunkEvent
  /-- The session is marked for disconnect. -/
  | marked
  deriving DecidableEq, Repr

def ChunkEvent.datagrams : ChunkEvent → List Bytes
  | .handed _ _ datagrams => datagrams
  | _ => []

def datagramsOf (log : List ChunkEvent) : List Bytes := log.flatMap ChunkEvent.datagrams

theorem datagramsOf_append (log log' : List ChunkEvent) :
    datagramsOf (log ++ log') = datagramsOf log ++ datagramsOf log' := List.flatMap_append

/-- What the transport was handed between two states. -/
def written (w w' : World) : List Bytes := (w'.server.sent.drop w.server.sent.length).map Prod.snd

inductive Exit where
  | goesOn
  | returns
  | throws
  deriving DecidableEq, Repr

def Exit.ofCall : Exit → Exit
  | .goesOn | .returns => .returns
  | .throws => .throws

/-- The pack has the chunk, and it has not been sent. -/
structure Due (s : NetworkSession) (packId : UUID) (m : ResourcePackMeta) (n : Nat) : Prop where
  loaded : s.loadedPacks packId = some m
  inside : n < m.chunks.length
  chunk : (n : Int) < m.chunkCount
  unsent : m.isSent n = false

namespace NetworkSession

def chunkPacket (m : ResourcePackMeta) (n : Nat) : SessionM (Option ResourcePackChunkDataPacket) := do
  let packSize ← getPackSize m.pack
  let startOffset := n*m.maxChunkSize%2^64
  let chunkSize := min m.maxChunkSize ((packSize+2^64-startOffset)%2^64)
  let chunk ← callPack m.pack (ZippedResourcePack.getPackChunkString startOffset chunkSize)
  if chunk.isEmpty then return none
  let packVersion ← callPack m.pack ZippedResourcePack.getPackVersion
  return some { packId := m.packId, packVersion, chunkIndex := n, progress := UInt64.ofNat startOffset, data := chunk }

variable (tp) in
def sendChunk (pk : ResourcePackChunkDataPacket) : SessionM Unit := send tp { body := .resourcePackChunkData pk } true

variable (tp) in
/-- What happens in the body of the loop of `processChunkQueue`. -/
def roundLog (packId : UUID) (idx : Int) (w : World) : List ChunkEvent :=
  match w.session.loadedPacks packId with
  | none => []
  | some m =>
    let n := idx.toNat
    if idx < 0 ∨ idx ≥ m.chunkCount then [.marked]
    else if m.chunks.length ≤ n ∨ m.isSent n then []
    else
      match chunkPacket m n w with
      | .error _ _ => [.failed packId n]
      | .ok none _ => [.failed packId n,.marked]
      | .ok (some pk) w₁ =>
        match sendChunk tp pk w₁ with
        | .error _ w₂ => [.handed packId n (written w₁ w₂),.failed packId n]
        | .ok _ w₂ =>
          .handed packId n (written w₁ w₂) :: .sent packId n ::
            if (m.afterSend n).finished then [.nextPack packId] else []

variable (tp) in
def drainLog : Nat → World → List ChunkEvent
  | 0, _ => []
  | n+1, w =>
    match w.session.pendingChunks with
    | [] => []
    | (packId,idx) :: rest =>
      let w₁ : World := { w with session := { w.session with pendingChunks := rest } }
      roundLog tp packId idx w₁ ++
        match processOne tp packId idx w₁ with
        | .ok true w₂ => drainLog n w₂
        | _ => []

variable (tp) in
def queueLog (w : World) : List ChunkEvent :=
  if w.session.queueProcessing then []
  else drainLog tp w.session.pendingChunks.length { w with session := { w.session with queueProcessing := true } }

variable (tp) in
/-- What happens in `handleResourcePackChunkRequest`. -/
def requestLog (request : ResourcePackChunkRequestPacket) (w : World) : List ChunkEvent :=
  match findPack tp request.packId w with
  | .error _ _ => []
  | .ok none _ => [.marked]
  | .ok (some key) w₁ =>
    match w₁.session.loadedPacks key with
    | none => []
    | some packInfo =>
      queueLog tp { w₁ with
        session := enqueuePack packInfo.packId (wantChunk key packInfo request.chunkIndex w₁.session) }

variable (tp) in
def callLog (body : PacketBody) (w : World) : List ChunkEvent :=
  match body with
  | .resourcePackChunkRequest request => requestLog tp request w
  | _ => []

variable (tp) in
/-- The body of the loop of `processChunkQueue`, for a request that was taken off `pendingChunks`. -/
inductive ServesOne (packId : UUID) : Int → World → List ChunkEvent → Exit → World → Prop where
  | unknown {idx : Int} {w : World} (h : w.session.loadedPacks packId = none) : ServesOne packId idx w [] .goesOn w
  | badIndex {idx : Int} {w : World} {m : ResourcePackMeta} (h : w.session.loadedPacks packId = some m)
      (hidx : idx < 0 ∨ idx ≥ m.chunkCount) :
      ServesOne packId idx w [.marked] .returns { w with session := { w.session with markedForDisconnect := true } }
  /-- There is no flag for a chunk of the pack, which leads out of the array. -/
  | noFlag {n : Nat} {w : World} {m : ResourcePackMeta} (h : w.session.loadedPacks packId = some m)
      (hchunk : (n : Int) < m.chunkCount) (hshort : m.chunks.length ≤ n) : ServesOne packId n w [] .throws w
  | alreadySent {n : Nat} {w : World} {m : ResourcePackMeta} (h : w.session.loadedPacks packId = some m)
      (hchunk : (n : Int) < m.chunkCount) (hsent : m.isSent n = true) : ServesOne packId n w [] .goesOn w
  | readThrows {n : Nat} {w w' : World} {m : ResourcePackMeta} {e : Fault} (hdue : Due w.session packId m n)
      (hread : chunkPacket m n w = .error e w') : ServesOne packId n w [.failed packId n] .throws w'
  | emptyRead {n : Nat} {w w' : World} {m : ResourcePackMeta} (hdue : Due w.session packId m n)
      (hread : chunkPacket m n w = .ok none w') :
      ServesOne packId n w [.failed packId n,.marked] .returns
        { w' with session := { w'.session with markedForDisconnect := true } }
  | sendThrows {n : Nat} {w w' w'' : World} {m : ResourcePackMeta} {pk : ResourcePackChunkDataPacket} {e : Fault}
      (hdue : Due w.session packId m n) (hread : chunkPacket m n w = .ok (some pk) w')
      (hsend : sendChunk tp pk w' = .error e w'') :
      ServesOne packId n w [.handed packId n (written w' w''),.failed packId n] .throws w''
  | delivers {n : Nat} {w w' w'' : World} {m : ResourcePackMeta} {pk : ResourcePackChunkDataPacket}
      (hdue : Due w.session packId m n) (hread : chunkPacket m n w = .ok (some pk) w')
      (hsend : sendChunk tp pk w' = .ok () w'') (hmore : (m.afterSend n).finished = false) :
      ServesOne packId n w [.handed packId n (written w' w''),.sent packId n] .goesOn
        { w'' with session := withPack packId (m.afterSend n) w''.session }
  | completes {n : Nat} {w w' w'' : World} {m : ResourcePackMeta} {pk : ResourcePackChunkDataPacket}
      (hdue : Due w.session packId m n) (hread : chunkPacket m n w = .ok (some pk) w')
      (hsend : sendChunk tp pk w' = .ok () w'') (hlast : (m.afterSend n).finished = true) :
      ServesOne packId n w [.handed packId n (written w' w''),.sent packId n,.nextPack packId] .goesOn
        { w'' with session := nextPack (withPack packId (m.afterSend n) w''.session) }

/-- The state in which the body of the loop serves a request for chunk `n`, with no other before it. -/
def takenUp (key : UUID) (m : ResourcePackMeta) (n : Nat) (w : World) : World :=
  { w with session := { enqueuePack m.packId (withPack key (m.setWant n) w.session) with
                        pendingChunks := [], queueProcessing := true } }

/-- The flag of `processChunkQueue` is cleared on every way out. -/
def putDown (w : World) : World := { w with session := { w.session with queueProcessing := false } }

variable (tp) in
/-- `handleResourcePackChunkRequest`, with no request left from before. -/
inductive Requests (request : ResourcePackChunkRequestPacket) (w : World) :
    List ChunkEvent → Exit → World → Prop where
  | unknownPack {w' : World} (hfind : findPack tp request.packId w = .ok none w') :
      Requests request w [.marked] .returns { w' with session := { w'.session with markedForDisconnect := true } }
  | loadThrows {w' : World} {e : Fault} (hfind : findPack tp request.packId w = .error e w') :
      Requests request w [] .throws w'
  | noChunk {w' : World} {key : UUID} {m : ResourcePackMeta} (hfind : findPack tp request.packId w = .ok (some key) w')
      (hm : w'.session.loadedPacks key = some m) (hidx : ¬ (request.chunkIndex ≥ 0 ∧ request.chunkIndex < m.chunkCount)) :
      Requests request w [] .returns { w' with session := enqueuePack m.packId w'.session }
  | served {w' w'' : World} {key : UUID} {m : ResourcePackMeta} {n : Nat} {log : List ChunkEvent} {exit : Exit}
      (hfind : findPack tp request.packId w = .ok (some key) w') (hm : w'.session.loadedPacks key = some m)
      (hidx : request.chunkIndex = n) (hchunk : (n : Int) < m.chunkCount)
      (hserved : ServesOne tp m.packId n (takenUp key m n w') log exit w'') :
      Requests request w log exit.ofCall (putDown w'')

theorem leaves_chunkPacket (m : ResourcePackMeta) (n : Nat) : Leaves (chunkPacket m n) := by
  refine leaves_bind (leaves_callPack m.pack _) fun packSize => leaves_bind (leaves_callPack m.pack _) fun chunk => ?_
  cases chunk.isEmpty with
  | true => exact leaves_pure none
  | false => exact leaves_bind (leaves_callPack m.pack _) fun packVersion => leaves_pure _

theorem leaves_sendChunk (pk : ResourcePackChunkDataPacket) : Leaves (sendChunk tp pk) := leaves_send _ true

variable (tp) in
def deliverPacket (packId : UUID) (m : ResourcePackMeta) (n : Nat) : Option ResourcePackChunkDataPacket → SessionM Bool
  | none => do
    markForDisconnect
    return false
  | some pk => do
    sendChunk tp pk
    modifySession (withPack packId (m.afterSend n))
    if (m.afterSend n).finished then modifySession nextPack
    return true

theorem processOne_due {packId : UUID} {m : ResourcePackMeta} {n : Nat} {w : World} (hdue : Due w.session packId m n) :
    processOne tp packId n w = (chunkPacket m n >>= deliverPacket tp packId m n) w := by
  obtain ⟨hm,hin,hchunk,hunsent⟩ := hdue
  have hidx : ¬ ((n : Int) < 0 ∨ (n : Int) ≥ m.chunkCount) := by omega
  have hsent : m.chunks[n].sent = false := by simpa [ResourcePackMeta.isSent,hin] using hunsent
  rw [processOne,bind_ok (getSession_apply w)]
  simp only [hm,hidx,if_false,Int.toNat_natCast,List.getElem?_eq_getElem hin,hsent,Bool.false_eq_true,chunkPacket,
    bind_assoc]
  refine congrFun (bind_congr fun packSize => bind_congr fun chunk => ?_) w
  cases chunk.isEmpty with
  | true => rfl
  | false =>
    simp only [Bool.false_eq_true,if_false,bind_assoc,pure_bind]
    rfl

theorem roundLog_due {packId : UUID} {m : ResourcePackMeta} {n : Nat} {w : World} (hdue : Due w.session packId m n) :
    roundLog tp packId n w =
      match chunkPacket m n w with
      | .error _ _ => [.failed packId n]
      | .ok none _ => [.failed packId n,.marked]
      | .ok (some pk) w₁ =>
        match sendChunk tp pk w₁ with
        | .error _ w₂ => [.handed packId n (written w₁ w₂),.failed packId n]
        | .ok _ w₂ =>
          .handed packId n (written w₁ w₂) :: .sent packId n ::
            if (m.afterSend n).finished then [.nextPack packId] else [] := by
  have hidx : ¬ ((n : Int) < 0 ∨ (n : Int) ≥ m.chunkCount) := by have hchunk := hdue.chunk; omega
  have hflag : ¬ (m.chunks.length ≤ n ∨ m.isSent n = true) := by
    have hin := hdue.inside
    simp only [hdue.unsent,Bool.false_eq_true,or_false]
    omega
  simp only [roundLog,hdue.loaded,if_neg hidx,Int.toNat_natCast,if_neg hflag]

def roundExit (goesOn : Bool) : Exit := if goesOn then .goesOn else .returns

theorem processOne_serves_due {packId : UUID} {m : ResourcePackMeta} {n : Nat} {w : World} (hdue : Due w.session packId m n) :
    Lands (fun goesOn => ServesOne tp packId n w (roundLog tp packId n w) (roundExit goesOn))
      (ServesOne tp packId n w (roundLog tp packId n w) .throws) (processOne tp packId n w) := by
  rw [processOne_due hdue,roundLog_due hdue]
  cases hread : chunkPacket m n w with
  | error e w₁ =>
    rw [bind_error hread]
    exact .readThrows hdue hread
  | ok found w₁ =>
    rw [bind_ok hread]
    cases found with
    | none => exact .emptyRead hdue hread
    | some pk =>
      rw [deliverPacket]
      cases hsend : sendChunk tp pk w₁ with
      | error e w₂ =>
        rw [bind_error hsend]
        simp only [hsend]
        exact .sendThrows hdue hread hsend
      | ok _ w₂ =>
        rw [bind_ok hsend,bind_ok (modifySession_apply _ w₂)]
        simp only [hsend]
        cases hlast : (m.afterSend n).finished with
        | true => exact .completes hdue hread hsend hlast
        | false => exact .delivers hdue hread hsend hlast

theorem processOne_serves (packId : UUID) (idx : Int) (w : World) :
    Lands (fun goesOn => ServesOne tp packId idx w (roundLog tp packId idx w) (roundExit goesOn))
      (ServesOne tp packId idx w (roundLog tp packId idx w) .throws) (processOne tp packId idx w) := by
  cases hm : w.session.loadedPacks packId with
  | none =>
    rw [processOne,bind_ok (getSession_apply w)]
    simp only [roundLog,hm]
    exact .unknown hm
  | some m =>
    by_cases hidx : idx < 0 ∨ idx ≥ m.chunkCount
    · rw [processOne,bind_ok (getSession_apply w)]
      simp only [roundLog,hm,if_pos hidx]
      exact .badIndex hm hidx
    · obtain ⟨n,rfl⟩ := Int.eq_ofNat_of_zero_le (show 0 ≤ idx by omega)
      have hchunk : (n : Int) < m.chunkCount := by omega
      by_cases hshort : m.chunks.length ≤ n
      · have hflag : m.chunks[n]? = none := List.getElem?_eq_none_iff.mpr hshort
        rw [processOne,bind_ok (getSession_apply w)]
        simp only [roundLog,hm,if_neg hidx,Int.toNat_natCast,hflag,hshort,true_or,if_true]
        exact .noFlag hm hchunk hshort
      · have hin : n < m.chunks.length := Nat.not_le.mp hshort
        have hget : m.isSent n = m.chunks[n].sent := by simp [ResourcePackMeta.isSent,hin]
        cases hsent : m.isSent n with
        | true =>
          rw [processOne,bind_ok (getSession_apply w)]
          simp only [roundLog,hm,if_neg hidx,Int.toNat_natCast,List.getElem?_eq_getElem hin,← hget,hsent,or_true,if_true]
          exact .alreadySent hm hchunk hsent
        | false =>
          have hdue : Due w.session packId m n := ⟨hm,hin,hchunk,hsent⟩
          exact processOne_serves_due hdue

theorem processChunkQueue_empty {w : World} (hidle : w.session.queueProcessing = false)
    (hpending : w.session.pendingChunks = []) : processChunkQueue tp w = .ok () w ∧ queueLog tp w = [] := by
  have hsame : ({ w with session := { w.session with queueProcessing := false } } : World) = w := by
    rw [← hidle]
  constructor
  · simp only [processChunkQueue,bind_apply,getSession_apply,hidle,hpending,setQueueProcessing,modifySession_apply,
      tryCatch_apply,List.length_nil,drain,pure_apply,Bool.false_eq_true,if_false]
    rw [← hpending,hsame]
  · simp [queueLog,hidle,hpending,drainLog]

theorem processChunkQueue_single {packId : UUID} {idx : Int} {w : World} (hidle : w.session.queueProcessing = false)
    (hpending : w.session.pendingChunks = [(packId,idx)]) :
    let w₁ : World := { w with session := { w.session with pendingChunks := [], queueProcessing := true } }
    queueLog tp w = roundLog tp packId idx w₁ ∧
      processChunkQueue tp w = match processOne tp packId idx w₁ with
        | .ok _ w₂ => .ok () (putDown w₂)
        | .error e w₂ => .error e (putDown w₂) := by
  intro w₁
  constructor
  · simp only [queueLog,hidle,hpending,List.length_singleton,drainLog,Bool.false_eq_true,if_false]
    cases processOne tp packId idx w₁ with
    | ok goesOn w₂ => cases goesOn <;> simp [w₁]
    | error e w₂ => simp [w₁]
  · simp only [processChunkQueue,bind_apply,getSession_apply,hidle,hpending,setQueueProcessing,modifySession_apply,
      tryCatch_apply,List.length_singleton,drain,Bool.false_eq_true,if_false]
    cases processOne tp packId idx w₁ with
    | ok goesOn w₂ => cases goesOn <;> rfl
    | error e w₂ => rfl

inductive NewMeta (f₀ : ResourcePackFactory) (m : ResourcePackMeta) : Prop where
  | counted {p : ZippedResourcePack} {id : UUID} {pack : Nat} {count : Int} (hp : p ∈ f₀.packs)
      (hcount : ceilChunkCount p.getPackSize f₀.maxChunkSize.val = .ok count ∨
        count = roundedChunkCount p.getPackSize f₀.maxChunkSize.val)
      (h : ResourcePackMeta.create id pack f₀.maxChunkSize.val count = .ok m)

inductive Finds (f₀ : ResourcePackFactory) (packId : UUID) (w : World) : Option UUID → World → Prop where
  | loaded {m : ResourcePackMeta} (h : w.session.loadedPacks packId = some m) : Finds f₀ packId w (some packId) w
  | loads {w' : World} {new : ResourcePackMeta} (h : w.session.loadedPacks packId = none) (hcalls : LeavesPacks w w')
      (hnew : NewMeta f₀ new) :
      Finds f₀ packId w (some new.packId) { w' with session := emplacePack new.packId new w'.session }
  | nothing (h : w.session.loadedPacks packId = none) : Finds f₀ packId w none w

end NetworkSession

theorem ResourcePackFactory.Touched.size {f g : ResourcePackFactory} (h : f.Touched tp g) {i : Nat}
    {p : ZippedResourcePack} (hp : g.packs[i]? = some p) : ∃ q ∈ f.packs, q.getPackSize = p.getPackSize := by
  obtain ⟨q,hq,hqp⟩ := h.back hp
  exact ⟨q,List.mem_of_getElem? hq,hqp.getPackSize.symm⟩

namespace NetworkSession

section

variable {f₀ : ResourcePackFactory}

theorem leavesPacks_trans {u v w : World} (h : LeavesPacks u v) (k : LeavesPacks v w) : LeavesPacks u w :=
  leavesBound.trans u v w h k

theorem lands_call {α β : Type} {Q : β → World → Prop} {E : World → Prop} {m : SessionM α}
    {f : α → SessionM β} {u w : World} (hm : Leaves m) (hu : LeavesPacks u w) (hthrows : ∀ w', LeavesPacks u w' → E w')
    (hok : ∀ a w₁, m w = .ok a w₁ → LeavesPacks u w₁ → Lands Q E (f a w₁)) : Lands Q E ((m >>= f) w) := by
  have hsame : Lands (fun _ => LeavesPacks u) (LeavesPacks u) (m w) :=
    Lands.mono (Lands.of_within hm w) (fun _ _ => leavesPacks_trans hu) fun _ => leavesPacks_trans hu
  exact Lands.bind hsame hthrows hok

theorem findPack_finds (packId : UUID) {w : World} (hf : f₀.Touched tp w.server.factory) :
    Lands (Finds f₀ packId w) (LeavesPacks w) (findPack tp packId w) := by
  rw [findPack,bind_ok (getSession_apply w)]
  cases hm : w.session.loadedPacks packId with
  | some m => exact .loaded hm
  | none =>
    simp only
    rw [bind_ok (getServer_apply w)]
    cases hi : w.server.factory.getPackById packId with
    | none => exact .nothing hm
    | some i =>
      simp only
      refine lands_call (leaves_callPack i _) (.refl _) (fun _ => id) fun packSize w₁ hsize h₁ => ?_
      obtain ⟨-,p,hp,rfl⟩ := getPackSize_ok hsize
      obtain ⟨q,hq,hqp⟩ := hf.size hp
      refine lands_call (leaves_callPack i _) h₁ (fun _ => id) fun id w₂ _ h₂ => ?_
      rw [hf.maxChunkSize,← hqp]
      cases hnew : ResourcePackMeta.create id i f₀.maxChunkSize.val
          (roundedChunkCount q.getPackSize f₀.maxChunkSize.val) with
      | error e =>
        rw [bind_error (fromExcept_error e w₂)]
        exact h₂
      | ok new =>
        rw [bind_ok (fromExcept_ok new w₂),bind_ok (modifySession_apply _ w₂)]
        exact .loads hm h₂ (.counted hq (Or.inr rfl) hnew)

theorem Finds.queue {packId : UUID} {found : Option UUID} {w w' : World} (h : Finds f₀ packId w found w') :
    w'.session.pendingChunks = w.session.pendingChunks ∧ w'.session.queueProcessing = w.session.queueProcessing := by
  cases h with
  | loaded | nothing => exact ⟨rfl,rfl⟩
  | loads hnone hcalls hnew => exact ⟨hcalls.pendingChunks,hcalls.queueProcessing⟩

theorem Finds.some_loaded {packId key : UUID} {w w' : World} (h : Finds f₀ packId w (some key) w') :
    ∃ m, w'.session.loadedPacks key = some m := by
  cases h with
  | loaded hm => exact ⟨_,hm⟩
  | @loads w₁ new hnone hcalls hnew =>
    cases h : w₁.session.loadedPacks new.packId with
    | some m' => exact ⟨m',by rw [emplacePack_some h,h]⟩
    | none => exact ⟨new,by rw [emplacePack_none h]; simp [withPack]⟩

theorem queue_wanted {key : UUID} {m : ResourcePackMeta} {n : Nat} {w : World} (hchunk : (n : Int) < m.chunkCount)
    (hidle : w.session.queueProcessing = false) (hpending : w.session.pendingChunks = []) :
    let w₁ : World := { w with session := enqueuePack m.packId (wantChunk key m n w.session) }
    queueLog tp w₁ = roundLog tp m.packId n (takenUp key m n w) ∧
      processChunkQueue tp w₁ = match processOne tp m.packId n (takenUp key m n w) with
        | .ok _ w₂ => .ok () (putDown w₂)
        | .error e w₂ => .error e (putDown w₂) := by
  intro w₁
  have hidx : (n : Int) ≥ 0 ∧ (n : Int) < m.chunkCount := ⟨by omega,hchunk⟩
  have hone : w₁.session.pendingChunks = [(m.packId,(n : Int))] := by simp [w₁,enqueuePack,wantChunk,hidx,hpending]
  have hup : ({ w₁ with session := { w₁.session with pendingChunks := [], queueProcessing := true } } : World) =
      takenUp key m n w := by
    have hwant : wantChunk key m n w.session = { withPack key (m.setWant n) w.session with
        pendingChunks := w.session.pendingChunks ++ [(m.packId,(n : Int))] } := if_pos hidx
    simp only [w₁,hwant]
    rfl
  have hidle₁ : w₁.session.queueProcessing = false := by simp [w₁,enqueuePack,wantChunk,hidx,hidle]
  have hboth := @processChunkQueue_single tp _ _ _ hidle₁ hone
  rwa [hup] at hboth

theorem queue_requests {request : ResourcePackChunkRequestPacket} {w w' : World} {key : UUID} {m : ResourcePackMeta} {n : Nat}
    (hfind : findPack tp request.packId w = .ok (some key) w') (hm : w'.session.loadedPacks key = some m)
    (hidx : request.chunkIndex = n) (hchunk : (n : Int) < m.chunkCount) (hidle : w'.session.queueProcessing = false)
    (hpending : w'.session.pendingChunks = []) :
    let u : World := { w' with session := enqueuePack m.packId (wantChunk key m n w'.session) }
    Lands (fun _ => Requests tp request w (queueLog tp u) .returns) (Requests tp request w (queueLog tp u) .throws)
      (processChunkQueue tp u) := by
  intro u
  obtain ⟨hlog,hrun⟩ := @queue_wanted tp key m n w' hchunk hidle hpending
  have hserves := @processOne_serves tp m.packId n (takenUp key m n w')
  rw [hlog,hrun]
  cases hone : processOne tp m.packId n (takenUp key m n w') with
  | error e w₁ =>
    rw [hone] at hserves
    exact Requests.served hfind hm hidx hchunk hserves
  | ok goesOn w₁ =>
    rw [hone] at hserves
    have hexit : (roundExit goesOn).ofCall = .returns := by cases goesOn <;> rfl
    rw [← hexit]
    exact Requests.served hfind hm hidx hchunk hserves

theorem handleResourcePackChunkRequest_requests (request : ResourcePackChunkRequestPacket) {w : World}
    (hidle : w.session.queueProcessing = false) (hpending : w.session.pendingChunks = []) :
    Lands (fun _ => Requests tp request w (requestLog tp request w) .returns)
      (Requests tp request w (requestLog tp request w) .throws) (handleResourcePackChunkRequest tp request w) := by
  have hself : w.server.factory.Touched tp w.server.factory := .refl _
  have hfinds := findPack_finds request.packId hself
  rw [handleResourcePackChunkRequest]
  cases hfind : findPack tp request.packId w with
  | error e w₁ =>
    simp only [bind_error hfind,requestLog,hfind]
    exact .loadThrows hfind
  | ok found w₁ =>
    rw [hfind] at hfinds
    obtain ⟨hpending₁,hidle₁⟩ := hfinds.queue
    rw [hpending] at hpending₁
    rw [hidle] at hidle₁
    rw [bind_ok hfind]
    cases found with
    | none =>
      simp only [requestLog,hfind]
      exact .unknownPack hfind
    | some key =>
      obtain ⟨m,hm⟩ := hfinds.some_loaded
      simp only [requestLog,hfind,hm]
      rw [bind_ok (getSession_apply w₁),hm]
      simp only
      rw [bind_ok (modifySession_apply _ w₁),bind_ok (modifySession_apply _ _)]
      by_cases hidx : request.chunkIndex ≥ 0 ∧ request.chunkIndex < m.chunkCount
      · obtain ⟨n,hn⟩ := Int.eq_ofNat_of_zero_le hidx.1
        have hchunk : (n : Int) < m.chunkCount := by omega
        simp only [hn]
        exact Lands.bind (queue_requests hfind hm hn hchunk hidle₁ hpending₁) (fun _ => id) fun _ _ _ => id
      · have hwant : wantChunk key m request.chunkIndex w₁.session = w₁.session := if_neg hidx
        let w₂ : World := { w₁ with session := enqueuePack m.packId w₁.session }
        obtain ⟨hrun,hlog⟩ := @processChunkQueue_empty tp w₂ hidle₁ hpending₁
        simp only [hwant]
        rw [bind_ok hrun,hlog]
        exact Requests.noChunk hfind hm hidx

end

end NetworkSession

end CyrexMC
