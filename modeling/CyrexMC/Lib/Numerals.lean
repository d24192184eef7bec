import Mathlib.Data.List.Basic
import Mathlib.Data.List.TakeWhile
set_option autoImplicit false

namespace Decimal

def isDigit (b : UInt8) : Bool := 0x30 ≤ b && b ≤ 0x39

def isSpace (b : UInt8) : Bool := b == 0x20 || 0x09 ≤ b && b ≤ 0x0D

def digits (n : Nat) : List UInt8 := (Nat.toDigits 10 n).map fun c => UInt8.ofNat c.toNat

def value (ds : List UInt8) : Nat := ds.foldl (fun v b => 10*v+(b.toNat-0x30)) 0

def magnitude? (str : List UInt8) : Option Nat :=
  let ds := str.takeWhile isDigit
  if ds = [] then none else some (value ds)

def signed? (str : List UInt8) : Option (Bool × Nat) :=
  match str.dropWhile isSpace with
  | 0x2D :: rest => (magnitude? rest).map (true,·)
  | 0x2B :: rest => (magnitude? rest).map (false,·)
  | rest => (magnitude? rest).map (false,·)

def toInt : Bool × Nat → Int
  | (true,m) => -m
  | (false,m) => m

def number? (str : List UInt8) : Option Int := (signed? str).map toInt

theorem isDigit_ofNat {c : Char} (h : c.isDigit = true) :
    isDigit (UInt8.ofNat c.toNat) = true ∧ (UInt8.ofNat c.toNat).toNat = c.toNat := by
  have hrange : 0x30 ≤ c.toNat ∧ c.toNat ≤ 0x39 := by
    simpa [Char.isDigit,UInt32.le_iff_toNat_le] using h
  have hnat : (UInt8.ofNat c.toNat).toNat = c.toNat := by
    rw [UInt8.toNat_ofNat']
    omega
  refine ⟨?_,hnat⟩
  simp only [isDigit,Bool.and_eq_true,decide_eq_true_eq,UInt8.le_iff_toNat_le,hnat]
  exact hrange

theorem isDigit_of_mem_digits {n : Nat} {b : UInt8} (h : b ∈ digits n) : isDigit b = true := by
  obtain ⟨c,hc,rfl⟩ := List.mem_map.mp h
  exact (isDigit_ofNat (Nat.isDigit_of_mem_toDigits (by decide) (by decide) hc)).1

theorem digits_ne_nil (n : Nat) : digits n ≠ [] := by
  simp [digits]

theorem foldl_digits (cs : List Char) (h : ∀ c ∈ cs, c.isDigit = true) (v : Nat) :
    (cs.map fun c => UInt8.ofNat c.toNat).foldl (fun v b => 10*v+(b.toNat-0x30)) v = Nat.ofDigitChars 10 cs v := by
  induction cs generalizing v with
  | nil => simp
  | cons c cs ih =>
    obtain ⟨-,hnat⟩ := isDigit_ofNat (h c (List.mem_cons_self ..))
    rw [List.map_cons,List.foldl_cons,hnat,Nat.ofDigitChars_cons]
    exact ih (fun c hc => h c (List.mem_cons_of_mem _ hc)) _

theorem value_digits (n : Nat) : value (digits n) = n := by
  have hdigits : ∀ c ∈ Nat.toDigits 10 n, c.isDigit = true := fun c hc =>
    Nat.isDigit_of_mem_toDigits (by decide) (by decide) hc
  rw [value,digits,foldl_digits _ hdigits,Nat.ofDigitChars_ten_toDigits]

theorem magnitude?_digits (n : Nat) : magnitude? (digits n) = some n := by
  have hall : (digits n).takeWhile isDigit = digits n :=
    List.takeWhile_eq_self_iff.mpr fun b hb => isDigit_of_mem_digits hb
  rw [magnitude?,hall]
  simp only [digits_ne_nil,if_false,value_digits]

theorem plain_of_isDigit {b : UInt8} (h : isDigit b = true) : isSpace b = false ∧ b ≠ 0x2D ∧ b ≠ 0x2B := by
  simp only [isDigit,Bool.and_eq_true,decide_eq_true_eq,UInt8.le_iff_toNat_le] at h
  obtain ⟨hlow,hhigh⟩ := h
  simp only [UInt8.reduceToNat] at hlow hhigh
  have hne : ∀ c : UInt8, c.toNat < 0x30 → b ≠ c := by
    intro c hc heq
    rw [heq] at hlow
    omega
  refine ⟨?_,hne _ (by decide),hne _ (by decide)⟩
  simp only [isSpace,Bool.or_eq_false_iff,Bool.and_eq_false_iff,beq_eq_false_iff_ne,decide_eq_false_iff_not,
    UInt8.le_iff_toNat_le]
  refine ⟨hne _ (by decide),Or.inr ?_⟩
  simp only [UInt8.reduceToNat]
  omega

theorem signed?_digits (n : Nat) : signed? (digits n) = some (false,n) := by
  have hmagnitude := magnitude?_digits n
  cases hdigits : digits n with
  | nil => exact absurd hdigits (digits_ne_nil n)
  | cons b ds =>
    have hmem : b ∈ digits n := by simp [hdigits]
    obtain ⟨hspace,hminus,hplus⟩ := plain_of_isDigit (isDigit_of_mem_digits hmem)
    rw [hdigits] at hmagnitude
    have hdrop : (b :: ds).dropWhile isSpace = b :: ds := by simp [hspace]
    rw [signed?,hdrop]
    split
    · rename_i heq
      exact absurd (List.cons.inj heq).1 hminus
    · rename_i heq
      exact absurd (List.cons.inj heq).1 hplus
    · rw [hmagnitude]
      rfl

end Decimal

namespace HexText

def dash : UInt8 := 0x2D

def digit (n : Nat) : UInt8 := UInt8.ofNat (if n < 10 then 0x30+n else 0x57+n)

def digits (bytes : List UInt8) : List UInt8 := bytes.flatMap fun b => [digit (b.toNat/16),digit (b.toNat%16)]

def value? (c : UInt8) : Option Nat :=
  if 0x30 ≤ c ∧ c ≤ 0x39 then some (c.toNat-0x30)
  else if 0x61 ≤ c ∧ c ≤ 0x66 then some (c.toNat-0x57)
  else if 0x41 ≤ c ∧ c ≤ 0x46 then some (c.toNat-0x37)
  else none

def undigits : List UInt8 → Option (List UInt8)
  | [] => some []
  | [_] => none
  | hi :: lo :: rest => do
    let h ← value? hi
    let l ← value? lo
    let bytes ← undigits rest
    pure (UInt8.ofNat (16*h+l) :: bytes)

/-- A dash behind each of the groups of `ns` bytes, and the other bytes without one. -/
def grouped : List Nat → List UInt8 → List UInt8
  | [], bytes => digits bytes
  | n :: ns, bytes => digits (bytes.take n) ++ dash :: grouped ns (bytes.drop n)

theorem value?_digit {n : Nat} (h : n < 16) : value? (digit n) = some n := by
  have hall : ∀ i : Fin 16, value? (digit i.val) = some i.val := by decide
  exact hall ⟨n,h⟩

theorem digit_ne {n : Nat} (h : n < 16) : digit n ≠ dash ∧ digit n ≠ 0x5F ∧ digit n ≠ 0x7B := by
  have hall : ∀ i : Fin 16, digit i.val ≠ dash ∧ digit i.val ≠ 0x5F ∧ digit i.val ≠ 0x7B := by decide
  exact hall ⟨n,h⟩

theorem length_digits (bytes : List UInt8) : (digits bytes).length = 2*bytes.length := by
  simp [digits,Nat.mul_comm]

theorem undigits_digits (bytes : List UInt8) : undigits (digits bytes) = some bytes := by
  induction bytes with
  | nil => rfl
  | cons b bytes ih =>
    have hb := b.toNat_lt
    have hcons : digits (b :: bytes) = digit (b.toNat/16) :: digit (b.toNat%16) :: digits bytes := rfl
    have hhi := value?_digit (show b.toNat/16 < 16 by omega)
    have hlo := value?_digit (show b.toNat%16 < 16 by omega)
    simp only [hcons,undigits,hhi,hlo,ih,Option.bind_eq_bind,Option.bind_some,Nat.div_add_mod,UInt8.ofNat_toNat,
      Option.pure_def]

theorem mem_digits {bytes : List UInt8} {c : UInt8} (h : c ∈ digits bytes) : c ≠ dash ∧ c ≠ 0x5F ∧ c ≠ 0x7B := by
  simp only [digits,List.mem_flatMap,List.mem_cons,List.not_mem_nil,or_false] at h
  obtain ⟨b,-,hc⟩ := h
  have hb := b.toNat_lt
  rcases hc with rfl | rfl
  · exact digit_ne (by omega)
  · exact digit_ne (by omega)

theorem mem_grouped {ns : List Nat} {bytes : List UInt8} {c : UInt8} (h : c ∈ grouped ns bytes) :
    c ≠ 0x5F ∧ c ≠ 0x7B := by
  induction ns generalizing bytes with
  | nil => exact (mem_digits h).2
  | cons n ns ih =>
    rw [grouped,List.mem_append,List.mem_cons] at h
    rcases h with h | rfl | h
    · exact (mem_digits h).2
    · decide
    · exact ih h

theorem filter_grouped (ns : List Nat) (bytes : List UInt8) : (grouped ns bytes).filter (· ≠ dash) = digits bytes := by
  have hkept : ∀ bs : List UInt8, (digits bs).filter (· ≠ dash) = digits bs := fun bs =>
    List.filter_eq_self.mpr fun c hc => by simpa using (mem_digits hc).1
  induction ns generalizing bytes with
  | nil => exact hkept bytes
  | cons n ns ih =>
    have hrest := ih (bytes.drop n)
    rw [grouped,List.filter_append,hkept,List.filter_cons_of_neg (by simp),hrest,digits,digits,← List.flatMap_append,
      List.take_append_drop]
    rfl

end HexText
