import Mathlib.Data.List.Basic
set_option autoImplicit false

namespace Keystream

def xorFrom (ks : Nat → UInt8) : Nat → List UInt8 → List UInt8
  | _, [] => []
  | p, x :: xs => (x ^^^ ks p) :: xorFrom ks (p+1) xs

@[simp] theorem xorFrom_length (ks : Nat → UInt8) (p : Nat) (xs : List UInt8) :
    (xorFrom ks p xs).length = xs.length := by
  induction xs generalizing p with
  | nil => rfl
  | cons x xs ih => simp [xorFrom,ih]

theorem xorFrom_xorFrom (ks ks' : Nat → UInt8) (p : Nat) (xs : List UInt8) :
    xorFrom ks' p (xorFrom ks p xs) = xorFrom (fun i => ks i ^^^ ks' i) p xs := by
  induction xs generalizing p with
  | nil => rfl
  | cons x xs ih => simp only [xorFrom,ih,UInt8.xor_assoc]

theorem xorFrom_twice (ks : Nat → UInt8) (p : Nat) (xs : List UInt8) : xorFrom ks p (xorFrom ks p xs) = xs := by
  induction xs generalizing p with
  | nil => rfl
  | cons x xs ih => rw [xorFrom,xorFrom,ih,UInt8.xor_assoc,UInt8.xor_self,UInt8.xor_zero]

theorem xorFrom_eq_comm {ks : Nat → UInt8} {p : Nat} {xs ys : List UInt8} :
    xorFrom ks p xs = ys ↔ xs = xorFrom ks p ys := by
  constructor
  · rintro rfl
    exact (xorFrom_twice ks p xs).symm
  · rintro rfl
    exact xorFrom_twice ks p ys

theorem xor_eq_iff (x k y : UInt8) : x ^^^ k = y ↔ k = x ^^^ y := by
  constructor
  · rintro rfl
    rw [← UInt8.xor_assoc,UInt8.xor_self,UInt8.zero_xor]
  · rintro rfl
    rw [← UInt8.xor_assoc,UInt8.xor_self,UInt8.zero_xor]

theorem xorFrom_eq_iff (ks : Nat → UInt8) (p : Nat) {xs ys : List UInt8} (h : xs.length = ys.length) :
    xorFrom ks p xs = ys ↔ ∀ i < xs.length, ks (p+i) = xs.getD i 0 ^^^ ys.getD i 0 := by
  induction xs generalizing p ys with
  | nil =>
    cases ys with
    | nil => simp [xorFrom]
    | cons y ys => simp at h
  | cons x xs ih =>
    cases ys with
    | nil => simp at h
    | cons y ys =>
      have hrest : xs.length = ys.length := by simpa using h
      simp only [xorFrom,List.cons.injEq,xor_eq_iff,ih (p+1) hrest,List.length_cons]
      constructor
      · rintro ⟨hfirst,hothers⟩ i hi
        cases i with
        | zero => exact hfirst
        | succ i =>
          have hstep := hothers i (by omega)
          rwa [Nat.add_right_comm] at hstep
      · intro hall
        refine ⟨hall 0 (by omega),fun i hi => ?_⟩
        have hstep := hall (i+1) (by omega)
        rwa [← Nat.add_assoc,Nat.add_right_comm] at hstep

end Keystream
