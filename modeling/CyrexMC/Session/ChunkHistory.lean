import CyrexMC.Lib.Runs
import CyrexMC.Session.ChunkTransfer
set_option autoImplicit false

/-! What the flags of a download have to do with the history of its chunks. -/

namespace CyrexMC
open History NetworkSession Stateful

variable {tp : ThirdParty} {f₀ : ResourcePackFactory} {log log' : List ChunkEvent} {s s' : NetworkSession}

structure ResourcePackMeta.Kept (f₀ : ResourcePackFactory) (id : UUID) (m : ResourcePackMeta) : Prop where
  packId : m.packId = id
  wellFormed : m.WellFormed
  wanted : ∀ j, m.isSent j = true → m.isWanted j = true
  count : ∃ p ∈ f₀.packs, ceilChunkCount p.getPackSize f₀.maxChunkSize.val = .ok m.chunkCount ∨
    m.chunkCount = roundedChunkCount p.getPackSize f₀.maxChunkSize.val

/-- Nothing is unloaded, and no flag is taken back. -/
def Grows (s s' : NetworkSession) : Prop :=
  ∀ id m, s.loadedPacks id = some m → ∃ m', s'.loadedPacks id = some m' ∧ m'.chunks.length = m.chunks.length ∧
    (∀ j, m.isWanted j = true → m'.isWanted j = true) ∧ ∀ j, m.isSent j = true → m'.isSent j = true

theorem Grows.of_eq (h : s'.loadedPacks = s.loadedPacks) : Grows s s' :=
  fun id m hm => ⟨m,by rw [h]; exact hm,rfl,fun _ hj => hj,fun _ hj => hj⟩

theorem Grows.trans {s t u : NetworkSession} (h : Grows s t) (k : Grows t u) : Grows s u := by
  intro id m hm
  obtain ⟨m',hm',hlength,hwant,hsent⟩ := h id m hm
  obtain ⟨m'',hm'',hlength',hwant',hsent'⟩ := k id m' hm'
  exact ⟨m'',hm'',hlength'.trans hlength,fun j hj => hwant' j (hwant j hj),fun j hj => hsent' j (hsent j hj)⟩

theorem Grows.update {id : UUID} {m new : ResourcePackMeta} (hm : s.loadedPacks id = some m)
    (hloaded : s'.loadedPacks = Function.update s.loadedPacks id (some new)) (hlength : new.chunks.length = m.chunks.length)
    (hwant : ∀ j, m.isWanted j = true → new.isWanted j = true) (hsent : ∀ j, m.isSent j = true → new.isSent j = true) :
    Grows s s' := by
  intro id' m' hm'
  by_cases hid : id' = id
  · subst hid
    cases hm.symm.trans hm'
    exact ⟨new,by simp [hloaded],hlength,hwant,hsent⟩
  · exact ⟨m',by simpa [hloaded,hid] using hm',rfl,fun _ hj => hj,fun _ hj => hj⟩

/-- A datagram with the chunk, in the mode of the session. -/
def Carries (tp : ThirdParty) (s : NetworkSession) (id : UUID) (j : Nat) (d : Bytes) : Prop :=
  ∃ pk : ResourcePackChunkDataPacket, pk.packId = id ∧ pk.chunkIndex = j ∧ pk.data ≠ [] ∧
    Wraps tp s [{ body := .resourcePackChunkData pk }] d

/-- Why an event came up: a flag is set behind the hand-over of its packet, and `nextPack` is called
behind the last chunk of its pack. -/
def Explained (tp : ThirdParty) (s : NetworkSession) (pre : List ChunkEvent) : ChunkEvent → Prop
  | .sent id j => .sent id j ∉ pre ∧ ∃ front d, pre = front ++ [.handed id j [d]] ∧
      ∃ mode, Carries tp mode id j d
  | .nextPack id => ∃ front j d m, pre = front ++ [.handed id j [d],.sent id j] ∧ .sent id j ∉ front ∧
      s.loadedPacks id = some m ∧ ∀ i < m.chunks.length, .sent id i ∈ pre
  | .handed _ _ _ | .failed _ _ | .marked => True

theorem Explained.grows (hg : Grows s s') (pre : List ChunkEvent) (e : ChunkEvent) (h : Explained tp s pre e) :
    Explained tp s' pre e := by
  cases e with
  | nextPack id =>
    obtain ⟨front,j,d,m,hpre,hfirst,hm,hall⟩ := h
    obtain ⟨m',hm',hlength,-,-⟩ := hg id m hm
    exact ⟨front,j,d,m',hpre,hfirst,hm',by rwa [hlength]⟩
  | handed | sent | failed | marked => exact h

structure Recorded (tp : ThirdParty) (f₀ : ResourcePackFactory) (log : List ChunkEvent) (s : NetworkSession) : Prop where
  kept : ∀ id m, s.loadedPacks id = some m → m.Kept f₀ id
  flags : ∀ id j, .sent id j ∈ log ↔ ∃ m, s.loadedPacks id = some m ∧ m.isSent j = true
  explained : Always (Explained tp s) log
  once : ∀ id m, s.loadedPacks id = some m → 0 < m.chunkCount →
    log.count (.nextPack id) = if m.finished then 1 else 0

theorem recorded_new (guid : Guid) : Recorded tp f₀ [] { guid } := by
  constructor
  · intro id m hm
    cases hm
  · intro id j
    simp
  · exact always_nil
  · intro id m hm
    cases hm

theorem Recorded.not_mem_nextPack (h : Recorded tp f₀ log s) {id : UUID} (hnone : s.loadedPacks id = none) :
    .nextPack id ∉ log := by
  intro hmem
  obtain ⟨pre,post,rfl⟩ := List.append_of_mem hmem
  obtain ⟨front,j,d,m,-,-,hm,-⟩ := h.explained pre _ post rfl
  rw [hnone] at hm
  cases hm

def ChunkEvent.quiet : ChunkEvent → Bool
  | .sent _ _ | .nextPack _ => false
  | .handed _ _ _ | .failed _ _ | .marked => true

theorem Recorded.quiet (h : Recorded tp f₀ log s) (hloaded : s'.loadedPacks = s.loadedPacks)
    (hquiet : ∀ e ∈ log', e.quiet = true) : Recorded tp f₀ (log ++ log') s' := by
  have hsent : ∀ id j, .sent id j ∉ log' := fun id j hmem => by cases hquiet _ hmem
  have hnext : ∀ id, .nextPack id ∉ log' := fun id hmem => by cases hquiet _ hmem
  constructor
  · rw [hloaded]
    exact h.kept
  · intro id j
    rw [List.mem_append,hloaded,← h.flags id j]
    exact or_iff_left (hsent id j)
  · refine (h.explained.mono (Explained.grows (.of_eq hloaded))).append fun e he pre => ?_
    cases e with
    | sent id j => exact absurd he (hsent id j)
    | nextPack id => exact absurd he (hnext id)
    | handed | failed | marked => trivial
  · intro id m hm hcount
    rw [List.count_append,List.count_eq_zero_of_not_mem (hnext id),Nat.add_zero]
    rw [hloaded] at hm
    exact h.once id m hm hcount

theorem Recorded.congr (h : Recorded tp f₀ log s) (hloaded : s'.loadedPacks = s.loadedPacks) : Recorded tp f₀ log s' := by
  have hsame : Recorded tp f₀ (log ++ []) s' := h.quiet hloaded (by simp)
  rwa [List.append_nil] at hsame

theorem ResourcePackMeta.Kept.afterSend {id : UUID} {m : ResourcePackMeta} (h : m.Kept f₀ id) {n : Nat}
    (hn : n < m.chunks.length) (hwant : m.isWanted n = true) : (m.afterSend n).Kept f₀ id := by
  refine ⟨h.packId,h.wellFormed.afterSend hn,?_,h.count⟩
  intro j hj
  rw [isSent_afterSend m hn,Bool.or_eq_true,decide_eq_true_eq] at hj
  rw [isWanted_afterSend]
  rcases hj with rfl | hj
  · exact hwant
  · exact h.wanted j hj

theorem grows_afterSend {id : UUID} {m : ResourcePackMeta} {n : Nat} (hdue : Due s id m n)
    (hloaded : s'.loadedPacks = Function.update s.loadedPacks id (some (m.afterSend n))) : Grows s s' := by
  refine .update hdue.loaded hloaded (ResourcePackMeta.length_afterSend m n) (fun j hj => ?_) fun j hj => ?_
  · rwa [ResourcePackMeta.isWanted_afterSend]
  · rw [ResourcePackMeta.isSent_afterSend m hdue.inside,hj,Bool.or_true]

section

variable {id : UUID} {m : ResourcePackMeta} {n : Nat} {d : Bytes}

def lastLog (id : UUID) (m : ResourcePackMeta) (n : Nat) : List ChunkEvent :=
  if (m.afterSend n).finished then [.nextPack id] else []

theorem not_mem_lastLog (id' : UUID) (j : Nat) : .sent id' j ∉ lastLog id m n := by
  unfold lastLog
  split <;> simp

theorem count_lastLog (id' : UUID) :
    (lastLog id m n).count (.nextPack id') = if id' = id ∧ (m.afterSend n).finished then 1 else 0 := by
  unfold lastLog
  by_cases hid : id' = id
  · subst hid
    cases (m.afterSend n).finished <;> simp
  · have hne : ¬ id = id' := Ne.symm hid
    split <;> simp [hid,hne]

theorem Recorded.fresh (h : Recorded tp f₀ log s) (hdue : Due s id m n) : .sent id n ∉ log := by
  rw [h.flags]
  rintro ⟨m',hm',hsent⟩
  cases hdue.loaded.symm.trans hm'
  rw [hdue.unsent] at hsent
  cases hsent

theorem Recorded.flags_sent (h : Recorded tp f₀ log s) (hdue : Due s id m n)
    (hloaded : s'.loadedPacks = Function.update s.loadedPacks id (some (m.afterSend n))) (id' : UUID) (j : Nat) :
    .sent id' j ∈ log ++ [.handed id n [d]] ++ [.sent id n] ++ lastLog id m n ↔
      ∃ m', s'.loadedPacks id' = some m' ∧ m'.isSent j = true := by
  simp only [List.mem_append,not_mem_lastLog,or_false,List.mem_singleton,reduceCtorEq,ChunkEvent.sent.injEq,h.flags]
  by_cases hid : id' = id
  · subst hid
    simp [hloaded,hdue.loaded,ResourcePackMeta.isSent_afterSend m hdue.inside,or_comm]
  · simp [hloaded,hid]

theorem Recorded.explained_sent (h : Recorded tp f₀ log s) (hdue : Due s id m n) {mode : NetworkSession}
    (hd : Carries tp mode id n d) (hloaded : s'.loadedPacks = Function.update s.loadedPacks id (some (m.afterSend n))) :
    Always (Explained tp s') (log ++ [.handed id n [d]] ++ [.sent id n] ++ lastLog id m n) := by
  have hg : Grows s s' := grows_afterSend hdue hloaded
  have hfirst := h.fresh hdue
  have hbefore : Always (Explained tp s') (log ++ [.handed id n [d]] ++ [.sent id n]) := by
    rw [always_concat,always_concat]
    exact ⟨⟨h.explained.mono (Explained.grows hg),trivial⟩,by simpa using hfirst,log,d,rfl,mode,hd⟩
  have hflags := h.flags_sent (d:=d) hdue hloaded
  unfold lastLog at hflags ⊢
  cases hfinished : (m.afterSend n).finished with
  | false => simpa using hbefore
  | true =>
    have hself : s'.loadedPacks id = some (m.afterSend n) := by simp [hloaded]
    have hwf := (h.kept id m hdue.loaded).wellFormed.afterSend hdue.inside
    refine always_concat.mpr ⟨hbefore,log,n,d,_,List.append_assoc _ _ _,hfirst,hself,fun i hi => ?_⟩
    have hmem := (hflags id i).mpr ⟨_,hself,hwf.finished_iff.mp hfinished i hi⟩
    simpa [hfinished] using hmem

theorem Recorded.once_sent (h : Recorded tp f₀ log s) (hdue : Due s id m n)
    (hloaded : s'.loadedPacks = Function.update s.loadedPacks id (some (m.afterSend n))) (id' : UUID)
    (m' : ResourcePackMeta) (hm' : s'.loadedPacks id' = some m') (hcount : 0 < m'.chunkCount) :
    (log ++ [ChunkEvent.handed id n [d]] ++ [ChunkEvent.sent id n] ++ lastLog id m n).count (ChunkEvent.nextPack id') =
      if m'.finished then 1 else 0 := by
  have hnew : (log ++ [ChunkEvent.handed id n [d]] ++ [ChunkEvent.sent id n]).count (.nextPack id') =
      log.count (.nextPack id') := by simp
  rw [List.count_append,hnew,count_lastLog]
  by_cases hid : id' = id
  · subst hid
    have hself : m' = m.afterSend n := by simpa [hloaded] using hm'.symm
    have hunfinished : m.finished = false := by
      cases hfinished : m.finished with
      | false => rfl
      | true =>
        have hsent := (h.kept id' m hdue.loaded).wellFormed.finished_iff.mp hfinished n hdue.inside
        rw [hdue.unsent] at hsent
        cases hsent
    subst hself
    rw [h.once id' m hdue.loaded hcount,hunfinished]
    simp
  · rw [hloaded,Function.update_of_ne hid] at hm'
    simp [h.once id' m' hm' hcount,hid]

theorem Recorded.sent (h : Recorded tp f₀ log s) (hdue : Due s id m n) (hwant : m.isWanted n = true)
    {mode : NetworkSession} (hd : Carries tp mode id n d)
    (hloaded : s'.loadedPacks = Function.update s.loadedPacks id (some (m.afterSend n))) :
    Recorded tp f₀ (log ++ [.handed id n [d]] ++ [.sent id n] ++ lastLog id m n) s' := by
  refine ⟨fun id' m' hm' => ?_,h.flags_sent hdue hloaded,h.explained_sent hdue hd hloaded,h.once_sent hdue hloaded⟩
  rcases loaded_cases hloaded hm' with ⟨rfl,rfl⟩ | ⟨-,hm'⟩
  · exact (h.kept id' m hdue.loaded).afterSend hdue.inside hwant
  · exact h.kept id' m' hm'

end

theorem NetworkSession.NewMeta.kept {m : ResourcePackMeta} (h : NewMeta f₀ m) :
    m.Kept f₀ m.packId ∧ ∀ j, m.isSent j = false := by
  obtain ⟨hp,hcount,hm⟩ := h
  obtain ⟨-,hmeta⟩ := ResourcePackMeta.create_ok hm
  obtain ⟨hwf,hsent⟩ := ResourcePackMeta.create_wellFormed hm
  refine ⟨⟨rfl,hwf,fun j hj => ?_,_,hp,by rw [hmeta]; exact hcount⟩,hsent⟩
  rw [hsent j] at hj
  cases hj

theorem Recorded.put {id : UUID} {new : ResourcePackMeta} (h : Recorded tp f₀ log s) (hkept : new.Kept f₀ id)
    (hloaded : s'.loadedPacks = Function.update s.loadedPacks id (some new)) (hg : Grows s s')
    (hflags : ∀ j, .sent id j ∈ log ↔ new.isSent j = true)
    (honce : 0 < new.chunkCount → log.count (.nextPack id) = if new.finished then 1 else 0) :
    Recorded tp f₀ log s' := by
  refine ⟨fun id' m hm => ?_,fun id' j => ?_,h.explained.mono (Explained.grows hg),fun id' m hm hcount => ?_⟩
  · rcases loaded_cases hloaded hm with ⟨rfl,rfl⟩ | ⟨-,hm⟩
    · exact hkept
    · exact h.kept id' m hm
  · by_cases hne : id' = id
    · subst hne
      simp [hloaded,hflags]
    · rw [h.flags,hloaded,Function.update_of_ne hne]
  · rcases loaded_cases hloaded hm with ⟨rfl,rfl⟩ | ⟨-,hm⟩
    · exact honce hcount
    · exact h.once id' m hm hcount

theorem Recorded.emplaced {new : ResourcePackMeta} (h : Recorded tp f₀ log s) (hnew : NewMeta f₀ new) :
    Recorded tp f₀ log (emplacePack new.packId new s) ∧ Grows s (emplacePack new.packId new s) := by
  cases hid : s.loadedPacks new.packId with
  | some m =>
    rw [emplacePack_some hid]
    exact ⟨h,.of_eq rfl⟩
  | none =>
    obtain ⟨hkept,hunsent⟩ := hnew.kept
    have hg : Grows s (withPack new.packId new s) := by
      intro id m hm
      have hne : id ≠ new.packId := fun heq => by rw [heq,hid] at hm; cases hm
      exact ⟨m,by simpa [withPack,hne] using hm,rfl,fun _ hj => hj,fun _ hj => hj⟩
    rw [emplacePack_none hid]
    refine ⟨h.put hkept rfl hg (fun j => ?_) fun hcount => ?_,hg⟩
    · simp [h.flags,hid,hunsent]
    · have hunfinished : new.finished = false := by
        cases hfinished : new.finished with
        | false => rfl
        | true =>
          have hlength := hkept.wellFormed.length
          have hsent := hkept.wellFormed.finished_iff.mp hfinished 0 (by omega)
          rw [hunsent 0] at hsent
          cases hsent
      rw [hunfinished,List.count_eq_zero_of_not_mem (h.not_mem_nextPack hid)]
      rfl

theorem ResourcePackMeta.Kept.setWant {id : UUID} {m : ResourcePackMeta} (h : m.Kept f₀ id) {n : Nat}
    (hn : n < m.chunks.length) : (m.setWant n).Kept f₀ id := by
  refine ⟨h.packId,h.wellFormed.setWant n,fun j hj => ?_,h.count⟩
  rw [isSent_setWant] at hj
  rw [isWanted_setWant m hn,h.wanted j hj,Bool.or_true]

theorem Recorded.wanted {id : UUID} {m : ResourcePackMeta} {n : Nat} (h : Recorded tp f₀ log s)
    (hm : s.loadedPacks id = some m) (hn : n < m.chunks.length) :
    Recorded tp f₀ log (withPack id (m.setWant n) s) ∧ Grows s (withPack id (m.setWant n) s) := by
  have hg : Grows s (withPack id (m.setWant n) s) := by
    refine .update hm rfl (ResourcePackMeta.length_setWant m n) (fun j hj => ?_) fun j hj => ?_
    · rw [ResourcePackMeta.isWanted_setWant m hn,hj,Bool.or_true]
    · rwa [ResourcePackMeta.isSent_setWant]
  refine ⟨h.put ((h.kept id m hm).setWant hn) rfl hg (fun j => ?_) fun hcount => h.once id m hm hcount,hg⟩
  simp [h.flags,hm]

end CyrexMC
