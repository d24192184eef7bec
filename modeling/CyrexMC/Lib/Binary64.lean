import Mathlib.Data.Nat.Log
import Mathlib.Tactic.Ring
set_option autoImplicit false

/-!
Naturals and their quotients in 64-bit floating point: 53 significant bits, ties to even.
-/

namespace Binary64

/-- `a/b` rounded to the nearest integer, ties to even. -/
def nearest (a b : Nat) : Nat :=
  if 2*(a%b) < b then a/b
  else if b < 2*(a%b) then a/b+1
  else if a/b%2 = 0 then a/b else a/b+1

theorem nearest_le {a b n : Nat} (hb : 0 < b) (h : a ≤ n*b) : nearest a b ≤ n := by
  have hdiv := Nat.div_add_mod a b
  have hmod := Nat.mod_lt a hb
  have hq : a/b ≤ n := Nat.div_le_of_le_mul (by rw [Nat.mul_comm]; exact h)
  -- A quotient that has reached `n` leaves no remainder, so there is nothing to round up.
  have hr : a/b = n → a%b = 0 := by
    intro he
    rw [he,Nat.mul_comm] at hdiv
    omega
  unfold nearest
  split
  · exact hq
  · split <;> (try split) <;> omega

theorem lt_nearest {a b n : Nat} (hb : 0 < b) (h : (2*n+1)*b < 2*a) : n < nearest a b := by
  have hdiv := Nat.div_add_mod a b
  have hmod := Nat.mod_lt a hb
  have hn : n ≤ a/b := by
    by_contra hlt
    have hm : b*(a/b+1) ≤ b*n := Nat.mul_le_mul_left b (by omega)
    have he : b*(a/b+1) = b*(a/b)+b := by ring
    have hn : (2*n+1)*b = 2*(b*n)+b := by ring
    omega
  have heq : n = a/b → b < 2*(a%b) := by
    intro he
    have hexp : (2*n+1)*b = 2*(b*(a/b))+b := by rw [he]; ring
    omega
  unfold nearest
  split
  · have hne : n ≠ a/b := fun he => by have hb := heq he; omega
    omega
  · split
    · omega
    · have hne : n ≠ a/b := fun he => by have hb := heq he; omega
      split <;> omega

theorem nearest_mul (a b : Nat) (hb : 0 < b) : nearest (a*b) b = a := by
  simp [nearest,hb]

def ofNat (n : Nat) : Nat := nearest n (2^(Nat.log 2 n-52))*2^(Nat.log 2 n-52)

theorem ofNat_exact {n : Nat} (h : n < 2^53) : ofNat n = n := by
  have hlog : Nat.log 2 n-52 = 0 := by
    have hl : Nat.log 2 n < 53 := Nat.log_lt_of_lt_pow' (by omega) h
    omega
  simp only [ofNat,hlog,Nat.pow_zero,Nat.mul_one]
  have hn := nearest_mul n 1 (by omega)
  rwa [Nat.mul_one] at hn

theorem ofNat_ge {n : Nat} (h : 2^53 ≤ n) : 2^52 ≤ ofNat n := by
  have hn : n ≠ 0 := by omega
  have hlog : 53 ≤ Nat.log 2 n := Nat.le_log_of_pow_le (by omega) h
  have hpow : 2^52*2^(Nat.log 2 n-52) = 2^Nat.log 2 n := by
    rw [← Nat.pow_add]
    congr 1
    omega
  have hle := Nat.pow_log_le_self 2 hn
  have hpos := Nat.two_pow_pos (Nat.log 2 n-52)
  have hlt : 2^52-1 < nearest n (2^(Nat.log 2 n-52)) := by
    apply lt_nearest hpos
    omega
  have hmul := Nat.mul_le_mul (show 2^52 ≤ nearest n (2^(Nat.log 2 n-52)) by omega) hpos
  simpa [ofNat] using hmul

/-- How far left `a/b` is shifted before rounding, to have 53 bits before the point. -/
def shift (a b : Nat) : Nat := 52+Nat.clog 2 ((a+b-1)/a)-Nat.log 2 (a/b)

/-- `std::ceil` of the floating-point quotient of two naturals. -/
def ceilDiv (a b : Nat) : Nat :=
  (nearest (a*2^shift a b) b+2^shift a b-1)/2^shift a b

theorem ceil_eq {m k n : Nat} (hlow : n*2^k < m) (hhigh : m ≤ (n+1)*2^k) : (m+2^k-1)/2^k = n+1 := by
  have hk : 0 < 2^k := Nat.two_pow_pos k
  apply Nat.div_eq_of_lt_le
  · have he : (n+1)*2^k = n*2^k+2^k := by ring
    omega
  · have he : (n+1+1)*2^k = (n+1)*2^k+2^k := by ring
    omega

theorem lt_two_pow_shift {a b : Nat} (hb : 0 < b) (hba : b < a) (ha : a < 2^53) : b < 2*2^shift a b := by
  have hone : (a+b-1)/a = 1 := Nat.div_eq_of_lt_le (by omega) (by omega)
  have hq : a/b ≠ 0 := by
    have h : 1 ≤ a/b := (Nat.one_le_div_iff hb).mpr (by omega)
    omega
  have hlog := Nat.pow_log_le_self 2 hq
  have hmul : 2^Nat.log 2 (a/b)*b ≤ a :=
    Nat.le_trans (Nat.mul_le_mul_right b hlog) (Nat.div_mul_le_self a b)
  have hle : Nat.log 2 (a/b) < 53 := by
    apply Nat.log_lt_of_lt_pow' (by omega)
    exact Nat.lt_of_le_of_lt (Nat.div_le_self a b) ha
  have hs : shift a b = 52-Nat.log 2 (a/b) := by
    simp [shift,hone]
  have hp : 2^Nat.log 2 (a/b)*(2*2^shift a b) = 2^53 := by
    rw [hs,← Nat.pow_succ',← Nat.pow_add]
    congr 1
    omega
  by_contra hge
  have hcontra : 2^Nat.log 2 (a/b)*(2*2^shift a b) ≤ 2^Nat.log 2 (a/b)*b :=
    Nat.mul_le_mul_left _ (by omega)
  omega

theorem le_mul_two_pow_shift {a b : Nat} (hpos : 0 < a) (hab : a ≤ b) : b ≤ a*2^shift a b := by
  have hc := Nat.le_pow_clog (b:=2) (by omega) ((a+b-1)/a)
  have hq : a/b = 0 ∨ a/b = 1 :=
    Nat.le_one_iff_eq_zero_or_eq_one.mp (Nat.div_le_of_le_mul (by omega))
  have hl : Nat.log 2 (a/b) = 0 := by rcases hq with h | h <;> simp [h]
  have hs : Nat.clog 2 ((a+b-1)/a) ≤ shift a b := by
    simp only [shift,hl]
    omega
  have hdiv := Nat.div_add_mod (a+b-1) a
  have hmod := Nat.mod_lt (a+b-1) hpos
  have hpow := Nat.pow_le_pow_right (n:=2) (by omega) hs
  have hle : a*((a+b-1)/a) ≤ a*2^shift a b :=
    Nat.mul_le_mul_left a (Nat.le_trans hc hpow)
  omega

theorem lt_nearest_shift {a b n : Nat} (hb : 0 < b) (ha : a < 2^53) (hlow : n*b+1 ≤ a) (hhigh : a ≤ (n+1)*b) :
    n*2^shift a b < nearest (a*2^shift a b) b := by
  apply lt_nearest hb
  rcases Nat.eq_zero_or_pos n with rfl | hn
  · have hle := le_mul_two_pow_shift (show 0 < a by omega) (show a ≤ b by omega)
    simp only [Nat.zero_mul,Nat.mul_zero,Nat.zero_add,Nat.one_mul]
    omega
  · have hba : b < a := by
      have he : 1*b ≤ n*b := Nat.mul_le_mul_right b hn
      omega
    have hk := lt_two_pow_shift hb hba ha
    calc (2*(n*2^shift a b)+1)*b = 2*(n*b)*2^shift a b+b := by ring
      _ < 2*(n*b)*2^shift a b+2*2^shift a b := by omega
      _ = 2*((n*b+1)*2^shift a b) := by ring
      _ ≤ 2*(a*2^shift a b) := Nat.mul_le_mul_left 2 (Nat.mul_le_mul_right _ hlow)

/-- Below 2^53 the floating-point quotient rounds up to the exact one: a fraction that is not
an integer lies more than half a unit in the last place above the integer below it. -/
theorem ceilDiv_exact {a b : Nat} (hb : 0 < b) (ha : a < 2^53) : ceilDiv a b = (a+b-1)/b := by
  rcases Nat.eq_zero_or_pos a with rfl | hpos
  · have hz : nearest 0 b = 0 := by simp [nearest,hb]
    have hk : 0 < 2^shift 0 b := Nat.two_pow_pos _
    rw [ceilDiv,Nat.zero_mul,hz,Nat.div_eq_of_lt (by omega),Nat.div_eq_of_lt (by omega)]
  · obtain ⟨n,hn⟩ : ∃ n, (a+b-1)/b = n+1 := by
      have h : 1 ≤ (a+b-1)/b := (Nat.one_le_div_iff hb).mpr (by omega)
      exact ⟨(a+b-1)/b-1,by omega⟩
    have hdiv := Nat.div_add_mod (a+b-1) b
    have hmod := Nat.mod_lt (a+b-1) hb
    rw [hn] at hdiv
    have hexp : b*(n+1) = n*b+b := by ring
    have hhigh : a ≤ (n+1)*b := by
      have he : (n+1)*b = n*b+b := by ring
      omega
    rw [hn]
    apply ceil_eq
    · exact lt_nearest_shift hb ha (by omega) hhigh
    · apply nearest_le hb
      calc a*2^shift a b ≤ (n+1)*b*2^shift a b := Nat.mul_le_mul_right _ hhigh
        _ = (n+1)*2^shift a b*b := by ring

theorem ceilDiv_pos {a b : Nat} (hb : 0 < b) (h : b ≤ a) : 0 < ceilDiv a b := by
  have hk := Nat.two_pow_pos (shift a b)
  have hone : 0 < nearest (a*2^shift a b) b := by
    apply lt_nearest hb
    have hle := Nat.mul_le_mul h hk
    omega
  exact Nat.div_pos (by omega) hk

end Binary64
