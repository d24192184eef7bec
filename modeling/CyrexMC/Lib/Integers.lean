import Mathlib.Data.BitVec
import Mathlib.Data.Nat.Bitwise
import Mathlib.Tactic.Ring
set_option autoImplicit false

/-!
Numbers as a fixed count of bytes, in either order; the map that brings a sign into the lowest bit;
and little-endian base-128 numbers, with seven bits a byte.
-/

namespace FixedWidth

/-- The `n` lowest bytes of `v`, lowest first. -/
def toLE : Nat → Nat → List UInt8
  | 0, _ => []
  | n+1, v => UInt8.ofNat v :: toLE n (v/256)

def ofLE : List UInt8 → Nat
  | [] => 0
  | b :: bs => b.toNat+256*ofLE bs

def toBE (n v : Nat) : List UInt8 := (toLE n v).reverse

def ofBE (bs : List UInt8) : Nat := ofLE bs.reverse

@[simp] theorem toLE_length (n v : Nat) : (toLE n v).length = n := by
  induction n generalizing v with
  | zero => rfl
  | succ n ih => simp [toLE,ih]

@[simp] theorem toBE_length (n v : Nat) : (toBE n v).length = n := by simp [toBE]

theorem ofLE_toLE (n v : Nat) : ofLE (toLE n v) = v % 256^n := by
  induction n generalizing v with
  | zero => simp [toLE,ofLE,Nat.mod_one]
  | succ n ih =>
    have hb : (UInt8.ofNat v).toNat = v % 256 := UInt8.toNat_ofNat'
    rw [toLE,ofLE,ih,hb,Nat.pow_succ',Nat.mod_mul]

theorem ofLE_toLE_of_lt {n v : Nat} (h : v < 256^n) : ofLE (toLE n v) = v := by
  rw [ofLE_toLE,Nat.mod_eq_of_lt h]

theorem ofBE_toBE_of_lt {n v : Nat} (h : v < 256^n) : ofBE (toBE n v) = v := by
  simp [ofBE,toBE,ofLE_toLE_of_lt h]

theorem toLE_add (m n v : Nat) : toLE (m+n) v = toLE m v ++ toLE n (v/256^m) := by
  induction m generalizing v with
  | zero => simp [toLE]
  | succ m ih =>
    have hdiv : v/256/256^m = v/256^(m+1) := by rw [Nat.div_div_eq_div_mul,Nat.pow_succ']
    rw [Nat.succ_add,toLE,toLE,ih,hdiv,List.cons_append]

theorem ofLE_lt (bs : List UInt8) : ofLE bs < 256^bs.length := by
  induction bs with
  | nil => simp [ofLE]
  | cons b bs ih =>
    have hb := b.toNat_lt
    rw [ofLE,List.length_cons,Nat.pow_succ']
    omega

theorem toLE_ofLE (bs : List UInt8) : toLE bs.length (ofLE bs) = bs := by
  induction bs with
  | nil => rfl
  | cons b bs ih =>
    have hb := b.toNat_lt
    have hlow : UInt8.ofNat (b.toNat+256*ofLE bs) = b := by
      rw [← UInt8.toNat_inj,UInt8.toNat_ofNat']
      omega
    have hrest : (b.toNat+256*ofLE bs)/256 = ofLE bs := by omega
    rw [List.length_cons,ofLE,toLE,hlow,hrest,ih]

end FixedWidth

namespace ZigZag

variable {w : Nat}

/-- `v << 1 ^ -(v & 1)`, which spreads the lowest bit in place of the sign. -/
def mask (v : BitVec w) : BitVec w := v <<< 1 ^^^ -(v &&& 1#w)

/-- `(v >> 1) ^ (~(v & 1) + 1)`. -/
def unmask (v : BitVec w) : BitVec w := v >>> 1 ^^^ (~~~(v &&& 1#w)+1#w)

theorem neg_and_one (v : BitVec w) : -(v &&& 1#w) = if v.getLsbD 0 then BitVec.allOnes w else 0#w := by
  have hand : v &&& 1#w = if v.getLsbD 0 then 1#w else 0#w := by
    ext i hi
    cases i with
    | zero => cases h : v.getLsbD 0 <;> simp_all
    | succ i => cases h : v.getLsbD 0 <;> simp_all
  rw [hand]
  split
  · exact BitVec.neg_one_eq_allOnes
  · exact BitVec.neg_zero w

theorem getLsbD_mask_zero (v : BitVec w) : (mask v).getLsbD 0 = v.getLsbD 0 := by
  rw [mask,neg_and_one]
  cases h : v.getLsbD 0 with
  | false => simp
  | true => simp [BitVec.lt_of_getLsbD h]

theorem getLsbD_mask_succ (v : BitVec w) {i : Nat} (hi : i+1 < w) :
    (mask v).getLsbD (i+1) = (v.getLsbD i ^^ v.getLsbD 0) := by
  have hi' : i < w := by omega
  rw [mask,neg_and_one]
  cases v.getLsbD 0 <;> simp [hi,hi']

theorem getLsbD_unmask (v : BitVec w) {i : Nat} (hi : i < w) :
    (unmask v).getLsbD i = (v.getLsbD (i+1) ^^ v.getLsbD 0) := by
  rw [unmask,← BitVec.neg_eq_not_add,neg_and_one]
  cases v.getLsbD 0 <;> simp [hi,Nat.add_comm 1 i]

theorem getLsbD_unmask_mask (v : BitVec w) {i : Nat} (hi : i < w) :
    (unmask (mask v)).getLsbD i = if i+1 < w then v.getLsbD i else v.getLsbD 0 := by
  rw [getLsbD_unmask _ hi,getLsbD_mask_zero]
  by_cases hnext : i+1 < w
  · rw [if_pos hnext,getLsbD_mask_succ v hnext,Bool.xor_assoc,Bool.xor_self,Bool.xor_false]
  · rw [if_neg hnext,BitVec.getLsbD_of_ge _ _ (by omega),Bool.false_xor]

theorem unmask_mask_iff (v : BitVec w) (hw : 0 < w) : unmask (mask v) = v ↔ v.msb = v.getLsbD 0 := by
  rw [BitVec.msb_eq_getLsbD_last]
  constructor
  · intro h
    have htop := getLsbD_unmask_mask v (i:=w-1) (by omega)
    rwa [h,if_neg (by omega)] at htop
  · intro h
    apply BitVec.eq_of_getLsbD_eq
    intro i hi
    rw [getLsbD_unmask_mask v hi]
    by_cases hnext : i+1 < w
    · rw [if_pos hnext]
    · rw [if_neg hnext,← h,show i = w-1 by omega]

theorem unmask_mask_iff_sign (v : BitVec w) (hw : 0 < w) :
    unmask (mask v) = v ↔ (0 ≤ v.toInt ↔ v.toInt%2 = 0) := by
  obtain ⟨n,rfl⟩ := Nat.exists_eq_succ_of_ne_zero (Nat.ne_of_gt hw)
  have hlow : v.getLsbD 0 = decide (v.toNat%2 = 1) := Nat.testBit_zero v.toNat
  have hparity : v.toInt%2 = (v.toNat : Int)%2 := by
    rw [BitVec.toInt_eq_msb_cond]
    split
    · rw [Nat.pow_succ]
      omega
    · rfl
  rw [unmask_mask_iff v hw,BitVec.msb_eq_toInt,hlow,hparity,decide_eq_decide]
  omega

end ZigZag

namespace Leb128

theorem ofNat_low (v : Nat) (h : v < 128) : (UInt8.ofNat v).toNat = v := by
  rw [UInt8.toNat_ofNat']
  omega

theorem and_mask (b : UInt8) : (b &&& 0x7F).toNat = b.toNat % 128 := by
  rw [UInt8.toNat_and]
  exact Nat.and_two_pow_sub_one_eq_mod b.toNat 7

theorem and_continue (b : UInt8) : b &&& 0x80 = 0 ↔ b.toNat < 128 := by
  have h : ∀ i : Fin 256, (i.val &&& 128 = 0 ↔ i.val < 128) := by decide +kernel
  rw [← UInt8.toNat_inj,UInt8.toNat_and]
  exact h ⟨b.toNat,b.toNat_lt⟩

theorem or_continue (b : UInt8) : (b ||| 0x80).toNat = b.toNat%128+128 := by
  have h : ∀ i : Fin 256, i.val ||| 128 = i.val%128+128 := by decide +kernel
  rw [UInt8.toNat_or]
  exact h ⟨b.toNat,b.toNat_lt⟩

def value : List UInt8 → Nat
  | [] => 0
  | b :: bs => (b &&& 0x7F).toNat+2^7*value bs

theorem value_append (bs cs : List UInt8) : value (bs ++ cs) = value bs+2^(7*bs.length)*value cs := by
  induction bs with
  | nil => simp [value]
  | cons b bs ih =>
    rw [List.cons_append,value,value,ih,List.length_cons,Nat.mul_succ,Nat.pow_add]
    ring

theorem value_lt (bs : List UInt8) : value bs < 2^(7*bs.length) := by
  induction bs with
  | nil => simp [value]
  | cons b bs ih =>
    rw [value,and_mask,List.length_cons,Nat.mul_succ,Nat.pow_add]
    omega

/-- The bytes of `data` up to the first that ends a number, which is one of the first `n`. -/
def group? : Nat → List UInt8 → Option (List UInt8)
  | 0, _ => none
  | _, [] => none
  | n+1, b :: bs => if b &&& 0x80 = 0 then some [b] else (group? n bs).map fun g => b :: g

def Spills (n room : Nat) (data : List UInt8) : Prop :=
  ∃ front b rest, data = front ++ b :: rest ∧ front.length = n ∧ (∀ c ∈ front, 128 ≤ c.toNat) ∧
    room ≤ b.toNat ∧ b.toNat < 128

theorem group?_append {front rest : List UInt8} {b : UInt8} {n : Nat} (hfront : ∀ c ∈ front, 128 ≤ c.toNat)
    (hb : b.toNat < 128) (hn : front.length < n) : group? n (front ++ b :: rest) = some (front ++ [b]) := by
  induction front generalizing n with
  | nil =>
    obtain ⟨n,rfl⟩ := Nat.exists_eq_succ_of_ne_zero (show n ≠ 0 by simp at hn; omega)
    simp [group?,(and_continue b).mpr hb]
  | cons c front ih =>
    obtain ⟨n,rfl⟩ := Nat.exists_eq_succ_of_ne_zero (show n ≠ 0 by omega)
    have hc := hfront c (by simp)
    have hgo : ¬ c &&& 0x80 = 0 := by
      rw [and_continue]
      omega
    rw [List.cons_append,group?,if_neg hgo,ih (fun d hd => hfront d (by simp [hd])) (by simpa using hn)]
    rfl

theorem group?_some {n : Nat} {data g : List UInt8} (h : group? n data = some g) :
    ∃ front b rest, data = front ++ b :: rest ∧ g = front ++ [b] ∧ front.length < n ∧
      (∀ c ∈ front, 128 ≤ c.toNat) ∧ b.toNat < 128 := by
  induction n generalizing data g with
  | zero => simp [group?] at h
  | succ n ih =>
    cases data with
    | nil => simp [group?] at h
    | cons b bs =>
      by_cases hb : b &&& 0x80 = 0
      · simp only [group?,hb,if_true,Option.some.injEq] at h
        exact ⟨[],b,bs,rfl,h.symm,Nat.succ_pos n,by simp,(and_continue b).mp hb⟩
      · simp only [group?,hb,if_false,Option.map_eq_some_iff] at h
        obtain ⟨g',hg',rfl⟩ := h
        obtain ⟨front,c,rest,rfl,rfl,hlen,hfront,hc⟩ := ih hg'
        refine ⟨b :: front,c,rest,rfl,rfl,by simpa using hlen,?_,hc⟩
        intro d hd
        rcases List.mem_cons.mp hd with rfl | hd
        · exact Nat.not_lt.mp fun hlt => hb ((and_continue d).mpr hlt)
        · exact hfront d hd

theorem group?_take {n : Nat} {data g : List UInt8} (h : group? n data = some g) : data.take g.length = g := by
  obtain ⟨front,b,rest,rfl,rfl,-⟩ := group?_some h
  rw [List.append_cons front b rest,List.take_left]

theorem group?_length_le {n : Nat} {data g : List UInt8} (h : group? n data = some g) : g.length ≤ data.length := by
  have hlength := congrArg List.length (group?_take h)
  rw [List.length_take] at hlength
  omega

theorem group?_length_pos {n : Nat} {data g : List UInt8} (h : group? n data = some g) : 0 < g.length := by
  obtain ⟨front,b,rest,-,rfl,-⟩ := group?_some h
  rw [List.length_append]
  exact Nat.succ_pos _

/-- A number of up to `n+1` bytes fits into `7*n+k` bits unless its last byte spills over. -/
theorem value_lt_iff {n k : Nat} {data g : List UInt8} (h : group? (n+1) data = some g) :
    value g < 2^(7*n+k) ↔ ¬ Spills n (2^k) data := by
  obtain ⟨front,b,rest,rfl,rfl,hlen,hfront,hb⟩ := group?_some h
  have hfit := value_lt front
  have hlow : (b &&& 0x7F).toNat = b.toNat := by rw [and_mask,Nat.mod_eq_of_lt hb]
  have hsum : value (front ++ [b]) = value front+2^(7*front.length)*b.toNat := by
    rw [value_append,value,value,hlow,Nat.mul_zero,Nat.add_zero]
  have hspills : Spills n (2^k) (front ++ b :: rest) ↔ front.length = n ∧ 2^k ≤ b.toNat := by
    constructor
    · rintro ⟨front',b',rest',heq,hlen',hfront',hroom,hb'⟩
      have hsame : group? (n+1) (front' ++ b' :: rest') = some (front' ++ [b']) :=
        group?_append hfront' hb' (by omega)
      rw [← heq,h,Option.some_inj] at hsame
      obtain ⟨rfl,hbb⟩ := List.append_inj' hsame rfl
      cases hbb
      exact ⟨hlen',hroom⟩
    · rintro ⟨hlen',hroom⟩
      exact ⟨front,b,rest,rfl,hlen',hfront,hroom,hb⟩
  rw [hsum,hspills,not_and,Nat.not_le,Nat.pow_add]
  have hpos : 0 < 2^(7*front.length) := Nat.two_pow_pos _
  by_cases hfull : front.length = n
  · subst hfull
    simp only [true_implies]
    constructor
    · intro hlt
      exact Nat.lt_of_mul_lt_mul_left (Nat.lt_of_le_of_lt (Nat.le_add_left _ _) hlt)
    · intro hlt
      have hle : 2^(7*front.length)*(b.toNat+1) ≤ 2^(7*front.length)*2^k := Nat.mul_le_mul_left _ hlt
      rw [Nat.mul_succ] at hle
      omega
  · have hless : 7*(front.length+1) ≤ 7*n := Nat.mul_le_mul_left 7 (by omega)
    have hpow : 2^(7*(front.length+1)) ≤ 2^(7*n) := Nat.pow_le_pow_right (by omega) hless
    have hmore : 2^(7*n) ≤ 2^(7*n)*2^k := Nat.le_mul_of_pos_right _ (Nat.two_pow_pos k)
    have hseven : 2^(7*(front.length+1)) = 2^(7*front.length)*2^7 := by rw [Nat.mul_succ,Nat.pow_add]
    have hbig : 2^(7*front.length)*(b.toNat+1) ≤ 2^(7*front.length)*2^7 := Nat.mul_le_mul_left _ (by omega)
    rw [Nat.mul_succ] at hbig
    exact ⟨fun _ hn => absurd hn hfull,fun _ => by omega⟩

end Leb128
