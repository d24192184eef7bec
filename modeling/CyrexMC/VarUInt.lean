import CyrexMC.Codec
import CyrexMC.Lib.Stateful
import CyrexMC.Packet
set_option autoImplicit false

namespace CyrexMC
open BinaryReader BinaryWriter

theorem readVarLoop_succ (w : Nat) (overflow : Thrown) (n value shift : Nat) (b : UInt8) (bs : Bytes) :
    (readVarLoop w overflow (n+1) value shift).feed (b :: bs) =
      if b &&& 0x80 = 0 then .done (value ||| ((b &&& 0x7F).toNat <<< shift)%2^w) bs
      else (readVarLoop w overflow n (value ||| ((b &&& 0x7F).toNat <<< shift)%2^w) (shift+7)).feed bs := by
  simp only [readVarLoop,readU8,Pull.take,Pull.pull_bind,Pull.done_bind,Pull.pure_eq,Pull.feed,List.length_cons,
    Nat.le_add_left,if_true,List.take_succ_cons,List.take_zero,List.drop_succ_cons,List.drop_zero,List.headD_cons]
  by_cases hb : b &&& 0x80 = 0 <;> simp only [hb,if_true,if_false,Pull.feed_done]

theorem accumulate_mod {w value shift : Nat} (b : UInt8) (hacc : value < 2^shift) (hw : value < 2^w) :
    value ||| ((b &&& 0x7F).toNat <<< shift)%2^w = (value+(b &&& 0x7F).toNat*2^shift)%2^w := by
  have hor := Nat.two_pow_add_eq_or_of_lt hacc (b &&& 0x7F).toNat
  rw [Nat.shiftLeft_eq,Nat.add_comm,Nat.mul_comm _ (2^shift),hor,Nat.or_mod_two_pow,Nat.mod_eq_of_lt hw,Nat.or_comm]

/-- The loop gives what its group of bytes stands for, cut to the width; without a group it does not return. -/
theorem readVarLoop_feed (w : Nat) (overflow : Thrown) {n value shift : Nat} (data : Bytes) (hacc : value < 2^shift)
    (hw : value < 2^w) :
    match Leb128.group? n data with
    | some g => (readVarLoop w overflow n value shift).feed data =
        .done ((value+Leb128.value g*2^shift)%2^w) (data.drop g.length)
    | none => ∀ v rest, (readVarLoop w overflow n value shift).feed data ≠ .done v rest := by
  induction n generalizing value shift data with
  | zero => simp [Leb128.group?,readVarLoop]
  | succ n ih =>
    cases data with
    | nil => simp [Leb128.group?,readVarLoop,readU8,Pull.take,Pull.feed]
    | cons b bs =>
      have hstep := accumulate_mod b hacc hw
      have hseven : (b &&& 0x7F).toNat*2^shift ≤ 127*2^shift := by
        rw [Leb128.and_mask]
        exact Nat.mul_le_mul_right _ (by omega)
      have hpow : 2^(shift+7) = 128*2^shift := by rw [Nat.pow_add,Nat.mul_comm]
      have hmod := Nat.mod_le (value+(b &&& 0x7F).toNat*2^shift) (2^w)
      rw [readVarLoop_succ,hstep,Leb128.group?]
      by_cases hb : b &&& 0x80 = 0
      · simp [hb,Leb128.value]
      · simp only [hb,if_false]
        have hnext := ih bs (show (value+(b &&& 0x7F).toNat*2^shift)%2^w < 2^(shift+7) by omega)
          (Nat.mod_lt _ (Nat.two_pow_pos w))
        cases hg : Leb128.group? n bs with
        | none => simpa only [hg,Option.map_none] using hnext
        | some g =>
          simp only [hg] at hnext
          have htotal : value+(b &&& 0x7F).toNat*2^shift+Leb128.value g*2^(shift+7) =
              value+Leb128.value (b :: g)*2^shift := by
            rw [Leb128.value,hpow]
            ring
          rw [Nat.mod_add_mod,htotal] at hnext
          simpa using hnext

theorem readVarLoop_throws (w : Nat) (overflow : Thrown) {n value shift : Nat} {r r' : BinaryReader} {e : Fault}
    (hr : r.dataSize = r.dataPtr.length) (hin : r.offset ≤ r.dataPtr.length) (hfits : r.dataPtr.length < 2^63)
    (h : exec (readVarLoop w overflow n value shift) r = .error e r') : ∃ t, e = .throws t := by
  induction n generalizing value shift r with
  | zero =>
    cases h
    exact ⟨overflow,rfl⟩
  | succ n ih =>
    simp only [readVarLoop,readU8,Pull.take,Pull.pull_bind,Pull.done_bind,Pull.pure_eq,exec] at h
    split at h
    · cases h
      exact ⟨.readerOverflow,rfl⟩
    · rename_i hroom
      have hnext : r.offset+1 ≤ r.dataPtr.length := by
        rw [Nat.mod_eq_of_lt (by omega)] at hroom
        omega
      rw [if_pos hnext] at h
      split at h
      · cases h
      · exact ih (r:={ r with offset := r.offset+1 }) hr hnext hfits h

/-- A reader returns the number that the bytes it has consumed stand for, or it throws. -/
def NeverTruncates {α : Type} (d : Read α) (toNat : α → Nat) (data : Bytes) : Prop :=
  match exec d (ofBytes data) with
  | .ok v r => toNat v = Leb128.value (data.take r.offset)
  | .error e _ => data.length < 2^63 → ∃ t, e = .throws t

section

variable {α : Type} {d : Read α} {ofNat : Nat → α} {w n : Nat} {overflow : Thrown}

theorem readVar_cases (hd : d = (readVarLoop w overflow n 0 0 >>= fun v => pure (ofNat v))) (data : Bytes) :
    match Leb128.group? n data with
    | some g => exec d (ofBytes data) = .ok (ofNat (Leb128.value g%2^w)) { ofBytes data with offset := g.length }
    | none => ∃ e r, exec (readVarLoop w overflow n 0 0) (ofBytes data) = .error e r ∧
        exec d (ofBytes data) = .error e r := by
  have hfeed := @readVarLoop_feed w overflow n 0 0 data (by simp) (Nat.two_pow_pos w)
  have hexec := exec_feed (readVarLoop w overflow n 0 0) (open_ofBytes data)
  have hahead : (ofBytes data).ahead = data := rfl
  have hrun : exec d (ofBytes data) =
      (exec (readVarLoop w overflow n 0 0) >>= fun v => exec (pure (ofNat v))) (ofBytes data) := by
    rw [hd,exec_bind]
  rw [hahead] at hexec
  cases hg : Leb128.group? n data with
  | none =>
    simp only [hg] at hfeed
    obtain ⟨e,r,herror⟩ : ∃ e r, exec (readVarLoop w overflow n 0 0) (ofBytes data) = .error e r := by
      cases hf : (readVarLoop w overflow n 0 0).feed data with
      | done v rest => exact absurd hf (hfeed v rest)
      | failed e rest =>
        simp only [hf] at hexec
        exact ⟨e,_,hexec⟩
      | short m =>
        simp only [hf] at hexec
        exact hexec
    rw [Stateful.bind_error herror] at hrun
    exact ⟨e,r,herror,hrun⟩
  | some g =>
    simp only [hg,Nat.zero_add,Nat.pow_zero,Nat.mul_one] at hfeed
    simp only [hfeed] at hexec
    rw [Stateful.bind_ok hexec,Pull.pure_eq,exec_done] at hrun
    have hle := Leb128.group?_length_le hg
    have hlen : data.length-(data.drop g.length).length = g.length := by
      rw [List.length_drop]
      omega
    simpa only [upTo,ofBytes,hlen] using hrun

theorem neverTruncates_iff {toNat : α → Nat} (hd : d = (readVarLoop w overflow n 0 0 >>= fun v => pure (ofNat v)))
    (hw : ∀ v < 2^w, toNat (ofNat v) = v) (data : Bytes) :
    NeverTruncates d toNat data ↔ ∀ g, Leb128.group? n data = some g → Leb128.value g < 2^w := by
  have hcases := readVar_cases hd data
  cases hg : Leb128.group? n data with
  | none =>
    simp only [hg] at hcases
    obtain ⟨e,r,herror,hrun⟩ := hcases
    simp only [NeverTruncates,hrun,reduceCtorEq,false_implies,implies_true,iff_true]
    intro hfits
    exact readVarLoop_throws w overflow rfl (Nat.zero_le _) hfits herror
  | some g =>
    simp only [hg] at hcases
    have htake := Leb128.group?_take hg
    have hlt := Nat.mod_lt (Leb128.value g) (Nat.two_pow_pos w)
    simp only [NeverTruncates,hcases,htake,hw _ hlt,Option.some.injEq,forall_eq']
    exact Nat.mod_eq_iff_lt (Nat.two_pow_pos w).ne'

end

/-- Five and ten bytes are read at most, and the last of them has room for four bits and for one. -/
theorem readVarUInt_exact_iff (data : Bytes) :
    (NeverTruncates readVarUInt UInt32.toNat data ↔ ¬ Leb128.Spills 4 16 data) ∧
    (NeverTruncates readVarULong UInt64.toNat data ↔ ¬ Leb128.Spills 9 2 data) := by
  have hspills : ∀ {n k : Nat}, Leb128.Spills n (2^k) data →
      ∃ g, Leb128.group? (n+1) data = some g := by
    rintro n k ⟨front,b,rest,rfl,hlen,hfront,-,hb⟩
    exact ⟨_,Leb128.group?_append hfront hb (by omega)⟩
  have hfits : ∀ n k : Nat, (∀ g, Leb128.group? (n+1) data = some g → Leb128.value g < 2^(7*n+k)) ↔
      ¬ Leb128.Spills n (2^k) data := by
    intro n k
    constructor
    · intro h hs
      obtain ⟨g,hg⟩ := hspills hs
      exact (Leb128.value_lt_iff hg).mp (h g hg) hs
    · intro hs g hg
      exact (Leb128.value_lt_iff hg).mpr hs
  constructor
  · have hiff := neverTruncates_iff (d:=readVarUInt) (w:=32) rfl (fun v hv => UInt32.toNat_ofNat_of_lt' hv) data
    exact hiff.trans (hfits 4 4)
  · have hiff := neverTruncates_iff (d:=readVarULong) (w:=64) rfl (fun v hv => UInt64.toNat_ofNat_of_lt' hv) data
    exact hiff.trans (hfits 9 1)

/-- The five bytes stand for 2^32, and are read as 0. -/
theorem readVarUInt_wraps : ¬ NeverTruncates readVarUInt UInt32.toNat [0x80,0x80,0x80,0x80,0x10] := by
  have hrun : exec readVarUInt (ofBytes [0x80,0x80,0x80,0x80,0x10]) =
      .ok 0 { ofBytes [0x80,0x80,0x80,0x80,0x10] with offset := 5 } := rfl
  simp only [NeverTruncates,hrun]
  decide

theorem getVarSizeLoop_le_of_lt (n : Nat) {k v : Nat} (hk : 0 < k) (hv : v < 2^(7*k)) : getVarSizeLoop n v ≤ k := by
  induction n generalizing k v with
  | zero => exact Nat.zero_le k
  | succ n ih =>
    have hshift : v >>> 7 = v/128 := Nat.shiftRight_eq_div_pow v 7
    unfold getVarSizeLoop
    rw [hshift]
    by_cases hlast : v/128 = 0
    · rw [if_pos hlast]
      exact hk
    · rw [if_neg hlast]
      obtain ⟨k,rfl⟩ : ∃ j, k = j+1 := ⟨k-1,by omega⟩
      have hpow : 2^(7*(k+1)) = 128*2^(7*k) := by rw [Nat.mul_succ,Nat.pow_add,Nat.mul_comm]
      have hless : v/128 < 2^(7*k) := by omega
      have hmore : 0 < k := by
        by_contra hzero
        have hk0 : k = 0 := by omega
        subst hk0
        omega
      have hrest := ih hmore hless
      omega

structure WrittenExactly {α : Type} (d : Read α) (written : Bytes) (size most : Nat) (v : α) : Prop where
  length : written.length = size
  bound : size ≤ most
  back : ∀ suffix, Returns d written suffix v
  shortest : ∀ data r, exec d (ofBytes data) = .ok v r → size ≤ r.offset ∧ r.offset ≤ data.length

theorem writtenExactly {α : Type} {d : Read α} {toNat : α → Nat} {ofNat : Nat → α} {w n : Nat} {overflow : Thrown}
    (hd : d = (readVarLoop w overflow n 0 0 >>= fun v => pure (ofNat v))) (hw : ∀ v < 2^w, toNat (ofNat v) = v) {v : α}
    (hreads : d.Reads (writeVarLoop n (toNat v)) v) :
    WrittenExactly d (writeVarLoop n (toNat v)) (getVarSizeLoop n (toNat v)) n v := by
  refine ⟨writeVarLoop_length n (toNat v),getVarSizeLoop_le n (toNat v),?_,?_⟩
  · intro suffix
    exact (returns_iff hreads suffix).mpr rfl
  · intro data r hrun
    have hcases := readVar_cases hd data
    cases hg : Leb128.group? n data with
    | none =>
      simp only [hg] at hcases
      obtain ⟨e,r',-,herror⟩ := hcases
      rw [hrun] at herror
      cases herror
    | some g =>
      simp only [hg] at hcases
      rw [hrun,EStateM.Result.ok.injEq] at hcases
      obtain ⟨hv,rfl⟩ := hcases
      have hvalue : toNat v ≤ Leb128.value g := by
        rw [hv,hw _ (Nat.mod_lt _ (Nat.two_pow_pos w))]
        exact Nat.mod_le _ _
      have hlt := Nat.lt_of_le_of_lt hvalue (Leb128.value_lt g)
      exact ⟨getVarSizeLoop_le_of_lt n (Leb128.group?_length_pos hg) hlt,Leb128.group?_length_le hg⟩

/-- Both unsigned varints come back from the shortest bytes that stand for them, and a packet declares the number of
the bytes that follow, as a number of 32 bits. -/
theorem unsignedVarints_exact (v : UInt32) (w : UInt64) :
    WrittenExactly readVarUInt (writeVarUInt v) (getVarUIntSize v) 5 v ∧
    WrittenExactly readVarULong (writeVarULong w) (getVarULongSize w) 10 w ∧
    ∀ (tp : ThirdParty) (pk : Packet), (pk.body.encodePayload tp = none ∧ pk.encode tp = []) ∨
      ∃ (payload : Bytes) (declared : UInt32) (rest : Bytes), pk.body.encodePayload tp = some payload ∧
        pk.encode tp = writeVarUInt declared ++ rest ∧
        rest = writeVarUInt (packetHeader pk.body.getDef.networkId pk.subClientId) ++ payload ∧
        declared.toNat = rest.length%2^32 := by
  refine ⟨?_,?_,?_⟩
  · exact writtenExactly (w:=32) rfl (fun n hn => UInt32.toNat_ofNat_of_lt' hn) (readVarUInt_reads v)
  · exact writtenExactly (w:=64) rfl (fun n hn => UInt64.toNat_ofNat_of_lt' hn) (readVarULong_reads w)
  · intro tp pk
    let header := packetHeader pk.body.getDef.networkId pk.subClientId
    rw [Packet.encode]
    cases pk.body.encodePayload tp with
    | none => exact Or.inl ⟨rfl,rfl⟩
    | some payload =>
      let declared := UInt32.ofNat (payload.length+getVarUIntSize header)
      refine Or.inr ⟨payload,declared,writeVarUInt header ++ payload,rfl,List.append_assoc _ _ _,rfl,?_⟩
      rw [UInt32.toNat_ofNat',List.length_append,writeVarUInt_length,Nat.add_comm]

end CyrexMC
