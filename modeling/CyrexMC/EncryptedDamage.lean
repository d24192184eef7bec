import CyrexMC.EncryptedStream
set_option autoImplicit false

namespace CyrexMC
open Keystream

namespace AesEncryptor

def skip (c : AesEncryptor) (input : Bytes) : AesEncryptor :=
  let block := { c.decryptBlock with
    position := c.decryptBlock.position+word32 input.length, counter := c.decryptBlock.counter+1 }
  { c with decryptBlock := block }

variable (tp : ThirdParty)

/-- The bytes that are decrypted to a message here. -/
def sealed (c : AesEncryptor) (message : Bytes) : Bytes :=
  xorFrom (tp.ctrKeystream c.decryptBlock.decryption c.key c.decryptBlock.iv) c.decryptBlock.position
    (signed tp c.key c.decryptBlock.counter message)

theorem sealed_length (c : AesEncryptor) (message : Bytes) : (sealed tp c message).length = message.length+hashSize := by
  rw [sealed,xorFrom_length,signed_length]

theorem skip_congr (c : AesEncryptor) {input other : Bytes} (h : other.length = input.length) :
    c.skip other = c.skip input := by
  simp only [skip,h]

/-- Of each message one input is accepted, and the receiver goes on alike from all inputs of one length. -/
theorem decrypt_spec (c : AesEncryptor) {input : Bytes} (hlong : hashSize ≤ input.length) (hsize : input.length < 2^32) :
    ∃ output, c.decrypt tp input = .ok (output,c.skip input) ∧
      ∀ message, output = some message ↔ input = sealed tp c message := by
  have hroom : ¬ input.length < hashSize := by omega
  have hword : word32 input.length = input.length := Nat.mod_eq_of_lt hsize
  let plain := xorFrom (tp.ctrKeystream c.decryptBlock.decryption c.key c.decryptBlock.iv) c.decryptBlock.position input
  have hblock : c.decryptBlock.ctrEncrypt tp c.key input =
      (plain,{ c.decryptBlock with position := c.decryptBlock.position+word32 input.length }) := by
    simp [AesBlock.ctrEncrypt,hword,plain]
  have hplain : plain.length = input.length := xorFrom_length ..
  let output := if calculateChecksum tp c.decryptBlock.counter c.key (plain.take (input.length-hashSize)) ≠
      FixedWidth.ofLE (plain.drop (input.length-hashSize)) then none else some (plain.take (input.length-hashSize))
  refine ⟨output,?_,fun message => ?_⟩
  · simp only [decrypt,hblock,hroom,if_false,output]
    split <;> rfl
  · by_cases hlength : input.length = message.length+hashSize
    · have haccepts := @accepts_iff tp c.key plain message c.decryptBlock.counter (hplain.trans hlength)
      simp only [output,hlength,Nat.add_sub_cancel]
      rw [haccepts,sealed,← xorFrom_eq_comm]
    · constructor
      · intro hout
        simp only [output] at hout
        split at hout
        · cases hout
        · cases hout
          rw [List.length_take,hplain] at hlength
          omega
      · intro hin
        exact absurd (hin ▸ sealed_length tp c message) hlength

theorem decryptAll_spec (c : AesEncryptor) {inputs : List Bytes}
    (h : ∀ input ∈ inputs, hashSize ≤ input.length ∧ input.length < 2^32) :
    ∃ outputs, decryptAll tp inputs c = .ok (outputs,inputs.foldl skip c) ∧ outputs.length = inputs.length ∧
      ∀ (i : Nat) message, outputs[i]? = some (some message) ↔
        inputs[i]? = some (sealed tp ((inputs.take i).foldl skip c) message) := by
  induction inputs generalizing c with
  | nil => exact ⟨[],rfl,rfl,fun i message => by simp⟩
  | cons input inputs ih =>
    obtain ⟨hlong,hsize⟩ := h input (by simp)
    obtain ⟨output,hdecrypt,hfirst⟩ := decrypt_spec tp c hlong hsize
    obtain ⟨outputs,hrest,hlength,hplaces⟩ := ih (c.skip input) fun input hinput => h input (by simp [hinput])
    refine ⟨output :: outputs,?_,by simp [hlength],fun i message => ?_⟩
    · simp only [decryptAll,hdecrypt,bind,Except.bind,hrest,pure,Except.pure,List.foldl_cons]
    · cases i with
      | zero => simpa using hfirst message
      | succ i => simpa using hplaces i message

theorem foldl_skip_congr {inputs altered : List Bytes} (h : altered.map List.length = inputs.map List.length)
    (c : AesEncryptor) : altered.foldl skip c = inputs.foldl skip c := by
  induction inputs generalizing altered c with
  | nil => rw [List.map_eq_nil_iff.mp h]
  | cons input inputs ih =>
    obtain ⟨other,others,rfl,hlength,hrest⟩ := List.map_eq_cons_iff.mp h
    rw [List.foldl_cons,List.foldl_cons,skip_congr c hlength,ih hrest]

/-- Whatever is changed in a stream without changing the length of a message: the messages that are left alone come
out as before, a changed one comes out as a message only if it is what that message is sealed to at its place, and
the receiver is left as it would have been. -/
theorem damage_stays_local (c : AesEncryptor) {inputs altered : List Bytes}
    (hsize : ∀ input ∈ inputs, hashSize ≤ input.length ∧ input.length < 2^32)
    (hsame : altered.map List.length = inputs.map List.length) :
    ∃ outputs outputs' d, decryptAll tp inputs c = .ok (outputs,d) ∧ decryptAll tp altered c = .ok (outputs',d) ∧
      ∀ i : Nat, (altered[i]? = inputs[i]? → outputs'[i]? = outputs[i]?) ∧
        ∀ message, outputs'[i]? = some (some message) ↔
          altered[i]? = some (sealed tp ((inputs.take i).foldl skip c) message) := by
  have hsize' : ∀ other ∈ altered, hashSize ≤ other.length ∧ other.length < 2^32 := by
    intro other hother
    have hmem := List.mem_map_of_mem (f:=List.length) hother
    rw [hsame] at hmem
    obtain ⟨input,hinput,hlength⟩ := List.mem_map.mp hmem
    exact hlength ▸ hsize input hinput
  obtain ⟨outputs,hr,hlength,hplaces⟩ := decryptAll_spec tp c hsize
  obtain ⟨outputs',hr',hlength',hplaces'⟩ := decryptAll_spec tp c hsize'
  rw [foldl_skip_congr hsame] at hr'
  have hplace : ∀ (i : Nat) message, outputs'[i]? = some (some message) ↔
      altered[i]? = some (sealed tp ((inputs.take i).foldl skip c) message) := by
    intro i message
    have hbefore : (altered.take i).map List.length = (inputs.take i).map List.length := by
      rw [List.map_take,List.map_take,hsame]
    rw [hplaces',foldl_skip_congr hbefore]
  refine ⟨outputs,outputs',_,hr,hr',fun i => ⟨fun hi => ?_,hplace i⟩⟩
  have hcount : outputs'.length = outputs.length := by simpa [hlength,hlength'] using congrArg List.length hsame
  by_cases hlt : i < outputs.length
  · have hsome : ∀ message, outputs'[i]? = some (some message) ↔ outputs[i]? = some (some message) := fun message => by
      rw [hplace,hplaces,hi]
    rw [List.getElem?_eq_getElem hlt,List.getElem?_eq_getElem (hcount ▸ hlt)] at hsome ⊢
    simp only [Option.some_inj] at hsome ⊢
    exact Option.ext fun message => hsome message
  · rw [List.getElem?_eq_none (by omega),List.getElem?_eq_none (by omega)]

end AesEncryptor

theorem AesEncryptor.damage_stays_local_two :
    let c := AesEncryptor.init (List.replicate 32 0) (List.replicate 16 0) 0 0
    let inputs := [sealed .firstBytes c [0x61],sealed .firstBytes (c.skip (sealed .firstBytes c [0x61])) [0x62]]
    let altered := inputs.set 0 (List.replicate 9 0)
    ∃ outputs outputs' d, decryptAll .firstBytes inputs c = .ok (outputs,d) ∧
      decryptAll .firstBytes altered c = .ok (outputs',d) ∧
      ∀ i : Nat, (altered[i]? = inputs[i]? → outputs'[i]? = outputs[i]?) ∧
        ∀ message, outputs'[i]? = some (some message) ↔
          altered[i]? = some (sealed .firstBytes ((inputs.take i).foldl skip c) message) := by
  intro c inputs altered
  apply damage_stays_local
  · intro input hinput
    simp only [inputs,List.mem_cons,List.not_mem_nil,or_false] at hinput
    rcases hinput with rfl | rfl <;> rw [sealed_length] <;> decide
  · simp [altered,inputs,sealed_length,hashSize]

end CyrexMC
