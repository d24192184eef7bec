import CyrexMC.ResourcePacks.Factory
set_option autoImplicit false

namespace CyrexMC

namespace ResourcePackMeta

/-- There is a flag for each chunk, and `nextToSend` is the first that is not set. -/
structure WellFormed (m : ResourcePackMeta) : Prop where
  length : (m.chunks.length : Int) = m.chunkCount
  passed : ∀ j < m.nextToSend, m.isSent j = true
  bound : m.nextToSend ≤ m.chunks.length
  stuck : m.nextToSend < m.chunks.length → m.isSent m.nextToSend = false

def Unfinished (m : ResourcePackMeta) : Prop := ∃ j < m.chunks.length, m.isSent j = false

theorem WellFormed.finished_iff {m : ResourcePackMeta} (h : m.WellFormed) :
    m.finished = true ↔ ∀ j < m.chunks.length, m.isSent j = true := by
  have hlength := h.length
  constructor
  · intro hf j hj
    have hge : m.chunkCount ≤ m.nextToSend := by simpa [finished] using hf
    exact h.passed j (by omega)
  · intro hall
    have hnext : ¬ m.nextToSend < m.chunks.length := fun hlt => by
      have hfalse := h.stuck hlt
      rw [hall _ hlt] at hfalse
      cases hfalse
    simp only [finished,decide_eq_true_eq,ge_iff_le]
    omega

theorem WellFormed.finished_iff_not {m : ResourcePackMeta} (h : m.WellFormed) :
    m.finished = true ↔ ¬ m.Unfinished := by
  rw [h.finished_iff,Unfinished]
  constructor
  · rintro hall ⟨j,hj,hfalse⟩
    rw [hall j hj] at hfalse
    cases hfalse
  · intro hn j hj
    by_contra hfalse
    exact hn ⟨j,hj,by simpa using hfalse⟩

theorem create_ok {id : UUID} {pack maxChunk : Nat} {count : Int} {m : ResourcePackMeta}
    (h : create id pack maxChunk count = .ok m) :
    0 ≤ count ∧ m = { packId := id, pack, maxChunkSize := maxChunk, chunkCount := count,
                      chunks := List.replicate count.toNat ⟨false,false⟩ } := by
  unfold create at h
  split at h
  · cases h
  · cases h
    exact ⟨by omega,rfl⟩

theorem create_wellFormed {id : UUID} {pack maxChunk : Nat} {count : Int} {m : ResourcePackMeta}
    (h : create id pack maxChunk count = .ok m) : m.WellFormed ∧ ∀ j, m.isSent j = false := by
  obtain ⟨hcount,rfl⟩ := create_ok h
  have hsent : ∀ j, (ResourcePackMeta.mk id pack maxChunk count
      (List.replicate count.toNat ⟨false,false⟩) 0).isSent j = false := fun j => by
    simp only [isSent,List.getD_eq_getElem?_getD,List.getElem?_replicate]
    split <;> rfl
  refine ⟨⟨?_,fun j hj => ?_,Nat.zero_le _,fun _ => hsent _⟩,hsent⟩
  · simpa using hcount
  · cases hj

@[simp] theorem length_setWant (m : ResourcePackMeta) (i : Nat) :
    (m.setWant i).chunks.length = m.chunks.length := by
  simp [setWant]

@[simp] theorem length_setSent (m : ResourcePackMeta) (i : Nat) :
    (m.setSent i).chunks.length = m.chunks.length := by
  simp [setSent]

@[simp] theorem isSent_setWant (m : ResourcePackMeta) (i j : Nat) : (m.setWant i).isSent j = m.isSent j := by
  simp only [isSent,setWant,List.getD_eq_getElem?_getD,List.getElem?_modify]
  by_cases hij : i = j
  · subst hij
    cases m.chunks[i]? <;> simp
  · simp [hij]

theorem isSent_setSent (m : ResourcePackMeta) {i : Nat} (hi : i < m.chunks.length) (j : Nat) :
    (m.setSent i).isSent j = (decide (j = i) || m.isSent j) := by
  simp only [isSent,setSent,List.getD_eq_getElem?_getD,List.getElem?_modify]
  by_cases hij : i = j
  · subst hij
    simp [hi]
  · have hji : j ≠ i := Ne.symm hij
    simp [hij,hji]

theorem WellFormed.setWant {m : ResourcePackMeta} (h : m.WellFormed) (i : Nat) : (m.setWant i).WellFormed := by
  have hlength : ((m.setWant i).chunks.length : Int) = (m.setWant i).chunkCount := by
    rw [length_setWant]
    exact h.length
  constructor
  · exact hlength
  · intro j hj
    rw [isSent_setWant]
    exact h.passed j hj
  · rw [length_setWant]
    exact h.bound
  · intro hlt
    rw [length_setWant] at hlt
    rw [isSent_setWant]
    exact h.stuck hlt

theorem advanceLoop_spec {m : ResourcePackMeta} (hlength : (m.chunks.length : Int) = m.chunkCount)
    (fuel n : Nat) (hn : n ≤ m.chunks.length) (hfuel : m.chunks.length ≤ n+fuel)
    (hpassed : ∀ j < n, m.isSent j = true) :
    (∀ j < m.advanceLoop fuel n, m.isSent j = true) ∧ m.advanceLoop fuel n ≤ m.chunks.length ∧
      (m.advanceLoop fuel n < m.chunks.length → m.isSent (m.advanceLoop fuel n) = false) := by
  induction fuel generalizing n with
  | zero => exact ⟨hpassed,hn,fun hlt => absurd hlt (by simp only [advanceLoop]; omega)⟩
  | succ fuel ih =>
    unfold advanceLoop
    by_cases hlt : n < m.chunks.length
    · cases hsent : m.isSent n with
      | true =>
        rw [if_pos ⟨by omega,rfl⟩]
        refine ih (n+1) (by omega) (by omega) fun j hj => ?_
        rcases Nat.lt_succ_iff_lt_or_eq.mp hj with hj | rfl
        · exact hpassed j hj
        · exact hsent
      | false =>
        rw [if_neg (by simp)]
        exact ⟨hpassed,hn,fun _ => hsent⟩
    · rw [if_neg (by omega)]
      exact ⟨hpassed,hn,fun h => absurd h hlt⟩

def afterSend (m : ResourcePackMeta) (i : Nat) : ResourcePackMeta := (m.setSent i).advance

@[simp] theorem length_afterSend (m : ResourcePackMeta) (i : Nat) :
    (m.afterSend i).chunks.length = m.chunks.length := by
  simp [afterSend,advance]

theorem isSent_afterSend (m : ResourcePackMeta) {i : Nat} (hi : i < m.chunks.length) (j : Nat) :
    (m.afterSend i).isSent j = (decide (j = i) || m.isSent j) := isSent_setSent m hi j

theorem WellFormed.afterSend {m : ResourcePackMeta} (h : m.WellFormed) {i : Nat} (hi : i < m.chunks.length) :
    (m.afterSend i).WellFormed := by
  have hsame : (m.setSent i).chunks.length = m.chunks.length := length_setSent m i
  have hlength : ((m.setSent i).chunks.length : Int) = (m.setSent i).chunkCount := by
    rw [hsame]
    exact h.length
  have hcount : (m.setSent i).chunkCount.toNat = m.chunks.length := by omega
  have hpassed : ∀ j < m.nextToSend, (m.setSent i).isSent j = true := fun j hj => by
    rw [isSent_setSent m hi,h.passed j hj,Bool.or_true]
  have hbound := h.bound
  obtain ⟨hsent,hle,hstuck⟩ := advanceLoop_spec hlength (m.setSent i).chunkCount.toNat m.nextToSend
    (by omega) (by omega) hpassed
  exact ⟨hlength,hsent,hle,hstuck⟩

def deliver (m : ResourcePackMeta) (i : Nat) : ResourcePackMeta := ((m.setWant i).setSent i).advance

theorem deliver_eq (m : ResourcePackMeta) (i : Nat) : m.deliver i = (m.setWant i).afterSend i := rfl

@[simp] theorem length_deliver (m : ResourcePackMeta) (i : Nat) :
    (m.deliver i).chunks.length = m.chunks.length := by
  simp [deliver_eq]

theorem isSent_deliver (m : ResourcePackMeta) {i : Nat} (hi : i < m.chunks.length) (j : Nat) :
    (m.deliver i).isSent j = (decide (j = i) || m.isSent j) := by
  have hi' : i < (m.setWant i).chunks.length := by simpa using hi
  rw [deliver_eq,isSent_afterSend _ hi',isSent_setWant]

theorem WellFormed.deliver {m : ResourcePackMeta} (h : m.WellFormed) {i : Nat} (hi : i < m.chunks.length) :
    (m.deliver i).WellFormed := by
  have hi' : i < (m.setWant i).chunks.length := by simpa using hi
  exact (h.setWant i).afterSend hi'

def isWanted (m : ResourcePackMeta) (idx : Nat) : Bool := (m.chunks.getD idx ⟨false,false⟩).want

@[simp] theorem isWanted_afterSend (m : ResourcePackMeta) (i j : Nat) : (m.afterSend i).isWanted j = m.isWanted j := by
  simp only [isWanted,afterSend,advance,setSent,List.getD_eq_getElem?_getD,List.getElem?_modify]
  by_cases hij : i = j
  · subst hij
    cases m.chunks[i]? <;> simp
  · simp [hij]

theorem isWanted_setWant (m : ResourcePackMeta) {i : Nat} (hi : i < m.chunks.length) (j : Nat) :
    (m.setWant i).isWanted j = (decide (j = i) || m.isWanted j) := by
  simp only [isWanted,setWant,List.getD_eq_getElem?_getD,List.getElem?_modify]
  by_cases hij : i = j
  · subst hij
    simp [hi]
  · have hji : j ≠ i := Ne.symm hij
    simp [hij,hji]

end ResourcePackMeta

theorem ceilChunkCount_bounds {packSize maxChunkSize : Nat} {count : Int}
    (h : ceilChunkCount packSize maxChunkSize = .ok count) : 0 ≤ count ∧ count < 2^31 := by
  simp only [ceilChunkCount] at h
  split at h
  · rename_i hlt
    cases h
    omega
  · cases h

theorem ceilChunkCount_pos {packSize : Nat} {maxChunkSize : ChunkSize} {count : Int} (hpos : 0 < packSize)
    (h : ceilChunkCount packSize maxChunkSize.val = .ok count) : 0 < count := by
  have hmax := maxChunkSize.pos
  have hcount : 0 < Binary64.ceilDiv (Binary64.ofNat packSize) maxChunkSize.val := by
    by_cases hsmall : packSize < 2^53
    · rw [Binary64.ofNat_exact hsmall,Binary64.ceilDiv_exact hmax hsmall]
      exact Nat.div_pos (by omega) hmax
    · have hge := Binary64.ofNat_ge (Nat.not_lt.mp hsmall)
      have hlt := maxChunkSize.lt
      exact Binary64.ceilDiv_pos hmax (by omega)
  simp only [ceilChunkCount] at h
  split at h
  · cases h
    exact Int.natCast_pos.mpr hcount
  · cases h

theorem roundedChunkCount_of_fits {packSize : Nat} {maxChunkSize : ChunkSize}
    (hfits : (packSize+maxChunkSize.val-1)/maxChunkSize.val < 2^31) :
    roundedChunkCount packSize maxChunkSize.val = ((packSize+maxChunkSize.val-1)/maxChunkSize.val : Nat) := by
  have hmax := maxChunkSize.lt
  have hpos := maxChunkSize.pos
  have hsmall : packSize+maxChunkSize.val-1 < 2^31*maxChunkSize.val := (Nat.div_lt_iff_lt_mul hpos).mp hfits
  have hnowrap : (packSize+maxChunkSize.val-1)%2^64 = packSize+maxChunkSize.val-1 := by
    apply Nat.mod_eq_of_lt
    omega
  unfold roundedChunkCount
  rw [hnowrap]
  exact Int32.toInt_ofNat_of_lt hfits

theorem roundedChunkCount_pos {packSize : Nat} {maxChunkSize : ChunkSize} (hpos : 0 < packSize)
    (hfits : (packSize+maxChunkSize.val-1)/maxChunkSize.val < 2^31) : 0 < roundedChunkCount packSize maxChunkSize.val := by
  have hmax := maxChunkSize.pos
  rw [roundedChunkCount_of_fits hfits]
  exact Int.natCast_pos.mpr (Nat.div_pos (by omega) hmax)

end CyrexMC
