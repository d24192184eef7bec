import Mathlib.Algebra.Order.Group.Nat
import Mathlib.Logic.ExistsUnique
set_option autoImplicit false

/-- The ranges of `size i` numbers from `start i` on, for `i < n`, fill `[0,total)`. -/
structure Tiles (start size : Nat → Nat) (n total : Nat) : Prop where
  pos : 0 < n
  first : start 0 = 0
  next : ∀ i, i+1 < n → start (i+1) = start i+size i
  last : ∀ i, i+1 = n → start i+size i = total
  nonempty : ∀ i < n, 0 < size i

namespace Tiles

variable {start size : Nat → Nat} {n total : Nat}

theorem congr (h : Tiles start size n total) {start' size' : Nat → Nat}
    (hsame : ∀ i < n, start' i = start i ∧ size' i = size i) : Tiles start' size' n total := by
  constructor
  · exact h.pos
  · rw [(hsame 0 h.pos).1]
    exact h.first
  · intro i hi
    rw [(hsame (i+1) hi).1,(hsame i (by omega)).1,(hsame i (by omega)).2]
    exact h.next i hi
  · intro i hi
    rw [(hsame i (by omega)).1,(hsame i (by omega)).2]
    exact h.last i hi
  · intro i hi
    rw [(hsame i hi).2]
    exact h.nonempty i hi

theorem end_le_start (h : Tiles start size n total) {i j : Nat} (hij : i < j) (hj : j < n) :
    start i+size i ≤ start j := by
  induction j with
  | zero => cases hij
  | succ j ih =>
    rw [h.next j hj]
    rcases Nat.lt_succ_iff_lt_or_eq.mp hij with hlt | rfl
    · exact (ih hlt (by omega)).trans (Nat.le_add_right _ _)
    · exact le_refl _

theorem exists_range (h : Tiles start size n total) {b : Nat} (hb : b < total) :
    ∃ i < n, start i ≤ b ∧ b < start i+size i := by
  have hupto : ∀ k < n, b < start k+size k → ∃ i < n, start i ≤ b ∧ b < start i+size i := by
    intro k
    induction k with
    | zero =>
      intro hk hlt
      exact ⟨0,hk,by rw [h.first]; exact Nat.zero_le b,hlt⟩
    | succ k ih =>
      intro hk hlt
      by_cases hle : start (k+1) ≤ b
      · exact ⟨k+1,hk,hle,hlt⟩
      · rw [h.next k hk] at hle
        exact ih (by omega) (by omega)
  obtain ⟨k,rfl⟩ := Nat.exists_eq_succ_of_ne_zero h.pos.ne'
  exact hupto k (Nat.lt_succ_self k) (by rw [h.last k rfl]; exact hb)

theorem existsUnique_range (h : Tiles start size n total) {b : Nat} (hb : b < total) :
    ∃! i, i < n ∧ start i ≤ b ∧ b < start i+size i := by
  obtain ⟨i,hi,hlow,hhigh⟩ := h.exists_range hb
  refine ⟨i,⟨hi,hlow,hhigh⟩,?_⟩
  rintro j ⟨hj,hlow',hhigh'⟩
  rcases Nat.lt_trichotomy i j with hlt | rfl | hlt
  · have hend := h.end_le_start hlt hj
    omega
  · rfl
  · have hend := h.end_le_start hlt hi
    omega

theorem end_le_total (h : Tiles start size n total) {i : Nat} (hi : i < n) : start i+size i ≤ total := by
  obtain ⟨k,rfl⟩ := Nat.exists_eq_succ_of_ne_zero h.pos.ne'
  have hlast := h.last k rfl
  rcases Nat.lt_succ_iff_lt_or_eq.mp hi with hlt | rfl
  · have hend := h.end_le_start hlt (Nat.lt_succ_self k)
    omega
  · omega

end Tiles

theorem lt_blocks_iff {total block i : Nat} (hpos : 0 < total) (hblock : 0 < block) :
    i < (total+block-1)/block ↔ i*block < total := by
  rw [Nat.lt_iff_add_one_le,Nat.le_div_iff_mul_le hblock,Nat.succ_mul]
  omega

theorem tiles_blocks {total block : Nat} (hpos : 0 < total) (hblock : 0 < block) :
    Tiles (fun i => i*block) (fun i => min block (total-i*block)) ((total+block-1)/block) total := by
  have hlt : ∀ i, i < (total+block-1)/block ↔ i*block < total := fun i => lt_blocks_iff hpos hblock
  have hsucc : ∀ i, (i+1)*block = i*block+block := fun i => Nat.succ_mul i block
  constructor
  · rw [hlt]
    simpa using hpos
  · exact Nat.zero_mul block
  · intro i hi
    have hnext := (hlt (i+1)).mp hi
    rw [hsucc] at hnext ⊢
    omega
  · intro i hi
    have hin := (hlt i).mp (by omega)
    have hout := (hlt (i+1)).not.mp (by omega)
    rw [hsucc] at hout
    omega
  · intro i hi
    have hin := (hlt i).mp hi
    omega
