import CyrexMC.ResourcePacks.ZippedResourcePack
set_option autoImplicit false

namespace CyrexMC

def hashBuffer : Nat := 64*1024

namespace IfStream

def goodAt (position : Nat) : IfStream := { position }

theorem read_goodAt {content : Bytes} {position : Nat} (h : position ≤ content.length) :
    (content.length < position+hashBuffer → ((goodAt position).read content hashBuffer).1 = content.drop position ∧
      ((goodAt position).read content hashBuffer).2.failbit = true) ∧
    (position+hashBuffer ≤ content.length → (goodAt position).read content hashBuffer =
      ((content.drop position).take hashBuffer,goodAt (position+hashBuffer))) := by
  have hread : (goodAt position).read content hashBuffer =
      let got := (content.drop position).take hashBuffer
      if got.length < hashBuffer then
        (got,{ position := position+got.length, eofbit := true, failbit := true })
      else (got,goodAt (position+got.length)) := rfl
  have hlength : ((content.drop position).take hashBuffer).length = min hashBuffer (content.length-position) := by
    rw [List.length_take,List.length_drop]
  constructor
  · intro hlast
    rw [hread]
    simp only [hlength]
    rw [if_pos (by omega)]
    have hrest : (content.drop position).length ≤ hashBuffer := by
      rw [List.length_drop]
      omega
    exact ⟨List.take_of_length_le hrest,rfl⟩
  · intro hmore
    have hfull : min hashBuffer (content.length-position) = hashBuffer := by omega
    rw [hread]
    simp only [hlength,hfull]
    rw [if_neg (Nat.lt_irrefl _)]

end IfStream

open IfStream ZippedResourcePack

def streamAfter (content : Bytes) : Nat → IfStream → IfStream
  | 0, s => s
  | k+1, s => streamAfter content k (s.read content hashBuffer).2

theorem hashedSlices_good (content : Bytes) (fuel : Nat) {s : IfStream} (h : s.failbit = false) :
    hashedSlices content (fuel+1) s =
      (if (s.read content hashBuffer).1.length > 0 then [(s.read content hashBuffer).1] else []) ++
        hashedSlices content fuel (s.read content hashBuffer).2 := by
  rw [hashedSlices,if_neg (by rw [h]; exact Bool.false_ne_true)]
  rfl

theorem hashedSlices_bad (content : Bytes) (fuel : Nat) {s : IfStream} (h : s.failbit = true) :
    hashedSlices content fuel s = [] := by
  cases fuel with
  | zero => rfl
  | succ fuel => rw [hashedSlices,if_pos h]

theorem hashedSlices_flatten {content : Bytes} (blocks fuel position : Nat)
    (hlow : position+blocks*hashBuffer ≤ content.length) (hhigh : content.length < position+(blocks+1)*hashBuffer) :
    (hashedSlices content (blocks+1+fuel) (goodAt position)).flatten = content.drop position := by
  induction blocks generalizing position with
  | zero =>
    obtain ⟨hslice,hbad⟩ := (read_goodAt (show position ≤ content.length by omega)).1 (by omega)
    rw [Nat.zero_add,Nat.add_comm,hashedSlices_good content fuel rfl,hashedSlices_bad content fuel hbad,hslice]
    by_cases hempty : (content.drop position).length > 0
    · rw [if_pos hempty]
      simp
    · have hnil : content.drop position = [] := List.length_eq_zero_iff.mp (by omega)
      rw [if_neg hempty,hnil]
      rfl
  | succ blocks ih =>
    have hblock : (blocks+1)*hashBuffer = blocks*hashBuffer+hashBuffer := Nat.succ_mul blocks hashBuffer
    have hblocks : (blocks+1+1)*hashBuffer = (blocks+1)*hashBuffer+hashBuffer := Nat.succ_mul (blocks+1) hashBuffer
    have hread := (read_goodAt (show position ≤ content.length by omega)).2 (by omega)
    have hnext := ih (position+hashBuffer) (by omega) (by omega)
    have hslice : ((content.drop position).take hashBuffer).length > 0 := by
      rw [List.length_take,List.length_drop]
      have hpos : 0 < hashBuffer := by decide
      omega
    have hfuel : blocks+1+1+fuel = blocks+1+fuel+1 := by omega
    rw [hfuel,hashedSlices_good content _ rfl,hread]
    simp only [hslice,if_true,List.cons_append,List.nil_append,List.flatten_cons,hnext]
    rw [← List.drop_drop,List.take_append_drop]

theorem streamAfter_goodAt {content : Bytes} (k position : Nat) (h : position+k*hashBuffer ≤ content.length) :
    streamAfter content k (goodAt position) = goodAt (position+k*hashBuffer) := by
  induction k generalizing position with
  | zero => simp [streamAfter]
  | succ k ih =>
    have hblock : (k+1)*hashBuffer = k*hashBuffer+hashBuffer := Nat.succ_mul k hashBuffer
    have hread := (read_goodAt (show position ≤ content.length by omega)).2 (by omega)
    have hnext := ih (position+hashBuffer) (by omega)
    rw [streamAfter,hread,hnext]
    congr 1
    omega

theorem streamAfter_succ (content : Bytes) (k : Nat) (s : IfStream) :
    streamAfter content (k+1) s = ((streamAfter content k s).read content hashBuffer).2 := by
  induction k generalizing s with
  | zero => rfl
  | succ k ih => exact ih _

theorem hashBuffer_blocks (n : Nat) : n/hashBuffer*hashBuffer ≤ n ∧ n < (n/hashBuffer+1)*hashBuffer := by
  have hdiv := Nat.div_add_mod n hashBuffer
  have hmod := Nat.mod_lt n (show 0 < hashBuffer by decide)
  rw [Nat.succ_mul,Nat.mul_comm (n/hashBuffer)]
  omega

theorem hashedSlices_covers (content : Bytes) {fuel : Nat} (hfuel : content.length/hashBuffer+1 ≤ fuel) :
    (hashedSlices content fuel {}).flatten = content := by
  obtain ⟨hlow,hhigh⟩ := hashBuffer_blocks content.length
  have hflatten : (hashedSlices content (content.length/hashBuffer+1+(fuel-(content.length/hashBuffer+1)))
      (goodAt 0)).flatten = content.drop 0 :=
    hashedSlices_flatten _ _ 0 (by omega) (by omega)
  rwa [Nat.add_sub_cancel' hfuel] at hflatten

theorem ZippedResourcePack.computeSha256FromFile_eq (tp : ThirdParty) (p : ZippedResourcePack) :
    computeSha256FromFile tp p = tp.sha256 p.file := by
  have hrounds := Nat.div_le_self p.file.length hashBuffer
  rw [computeSha256FromFile,hashedSlices_covers p.file (by omega)]

/-- The loop ends after one round more than the file has whole blocks, and the slices it has fed to the hash are the
file, one behind the other. -/
theorem computeSha256FromFile_covers (content : Bytes) :
    let rounds := content.length/hashBuffer+1
    (∀ k < rounds, (streamAfter content k {}).failbit = false) ∧ (streamAfter content rounds {}).failbit = true ∧
      (∀ fuel ≥ rounds, (hashedSlices content fuel {}).flatten = content) ∧
      ∀ (tp : ThirdParty) (p : ZippedResourcePack), computeSha256FromFile tp p = tp.sha256 p.file := by
  intro rounds
  obtain ⟨hlow,hhigh⟩ := hashBuffer_blocks content.length
  have hgood : ∀ k < rounds, streamAfter content k {} = goodAt (k*hashBuffer) := by
    intro k hk
    have hk' : k*hashBuffer ≤ content.length/hashBuffer*hashBuffer := Nat.mul_le_mul_right _ (Nat.le_of_lt_succ hk)
    have hafter : streamAfter content k (goodAt 0) = goodAt (0+k*hashBuffer) := streamAfter_goodAt k 0 (by omega)
    rwa [Nat.zero_add] at hafter
  refine ⟨?_,?_,fun fuel hfuel => hashedSlices_covers content hfuel,computeSha256FromFile_eq⟩
  · intro k hk
    rw [hgood k hk]
    rfl
  · rw [streamAfter_succ,hgood _ (Nat.lt_succ_self _)]
    exact ((read_goodAt hlow).1 (by rw [← Nat.succ_mul]; exact hhigh)).2

end CyrexMC
