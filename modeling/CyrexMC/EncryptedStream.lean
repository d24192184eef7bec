import CyrexMC.Transforms
set_option autoImplicit false

namespace CyrexMC
open Keystream

theorem calculateChecksum_lt (tp : ThirdParty) (counter : Int64) (key message : Bytes) :
    calculateChecksum tp counter key message < 256^hashSize := by
  have hlt := FixedWidth.ofLE_lt ((tp.sha256 (FixedWidth.toLE 8 counter.toUInt64.toNat ++
    message.take (word32 message.length) ++ key)).take hashSize)
  exact Nat.lt_of_lt_of_le hlt (Nat.pow_le_pow_right (by decide) (List.length_take_le _ _))

namespace AesEncryptor

variable (tp : ThirdParty)

def encryptAll : List Bytes → AesEncryptor → List (Option Bytes) × AesEncryptor
  | [], c => ([],c)
  | message :: messages, c =>
    let (output,c) := c.encrypt tp message
    let (outputs,c) := encryptAll messages c
    (output :: outputs,c)

/-- A message that is rejected does not end the stream. -/
def decryptAll : List Bytes → AesEncryptor → Except Fault (List (Option Bytes) × AesEncryptor)
  | [], c => .ok ([],c)
  | input :: inputs, c => do
    let (output,c) ← c.decrypt tp input
    let (outputs,c) ← decryptAll inputs c
    pure (output :: outputs,c)

def signed (key : Bytes) (counter : Int64) (message : Bytes) : Bytes :=
  message ++ FixedWidth.toLE hashSize (calculateChecksum tp counter key message)

/-- How many bytes of a message and its checksum `wc_AesCtrEncrypt` is told of. -/
def processed (message : Bytes) : Nat := word32 (message.length+hashSize)

/-- Where the keystreams of the two blocks differ. -/
def drift (key iv : Bytes) (i : Nat) : UInt8 := tp.ctrKeystream false key iv i ^^^ tp.ctrKeystream true key iv i

/-- Over the bytes that are processed the two keystreams differ as the two checksums do, and what
lies behind them is zero. -/
structure InStep (key iv : Bytes) (position : Nat) (sender receiver : Int64) (message : Bytes) : Prop where
  keystream : ∀ i < processed message, drift tp key iv (position+i) =
    (signed tp key sender message).getD i 0 ^^^ (signed tp key receiver message).getD i 0
  cut : (signed tp key receiver message).drop (processed message) =
    List.replicate (message.length+hashSize-processed message) 0

def StaysInStep (key iv : Bytes) : Nat → Int64 → Int64 → List Bytes → Prop
  | _, _, _, [] => True
  | position, sender, receiver, message :: messages =>
    InStep tp key iv position sender receiver message ∧
      StaysInStep key iv (position+processed message) (sender+1) (receiver+1) messages

def crossed (ks : Nat → UInt8) (key : Bytes) (position : Nat) (sender : Int64) (message : Bytes) : Bytes :=
  xorFrom ks position ((signed tp key sender message).take (processed message)) ++
    List.replicate (message.length+hashSize-processed message) 0

theorem signed_length (key : Bytes) (counter : Int64) (message : Bytes) :
    (signed tp key counter message).length = message.length+hashSize := by
  simp [signed]

theorem processed_le (message : Bytes) : processed message ≤ message.length+hashSize := Nat.mod_le _ _

theorem length_take_signed (key : Bytes) (counter : Int64) (message : Bytes) :
    ((signed tp key counter message).take (processed message)).length = processed message := by
  rw [List.length_take,signed_length]
  exact Nat.min_eq_left (processed_le message)

theorem crossed_length (ks : Nat → UInt8) (key : Bytes) (position : Nat) (sender : Int64) (message : Bytes) :
    (crossed tp ks key position sender message).length = message.length+hashSize := by
  have hle := processed_le message
  simp only [crossed,List.length_append,xorFrom_length,length_take_signed,List.length_replicate]
  omega

theorem crossed_take (ks : Nat → UInt8) (key : Bytes) (position : Nat) (sender : Int64) (message : Bytes) :
    (crossed tp ks key position sender message).take (processed message) =
      xorFrom ks position ((signed tp key sender message).take (processed message)) := by
  rw [crossed,List.take_left' (by rw [xorFrom_length,length_take_signed])]

theorem crossed_eq_iff (key iv : Bytes) (position : Nat) (sender receiver : Int64) (message : Bytes) :
    crossed tp (drift tp key iv) key position sender message = signed tp key receiver message ↔
      InStep tp key iv position sender receiver message := by
  let n := processed message
  have hsender := length_take_signed tp key sender message
  have hreceiver := length_take_signed tp key receiver message
  have htake : ∀ (xs : Bytes), ∀ i < n, (xs.take n).getD i 0 = xs.getD i 0 := fun xs i hi => by
    simp [List.getD_eq_getElem?_getD,hi]
  have hxor := xorFrom_eq_iff (drift tp key iv) position (hsender.trans hreceiver.symm)
  rw [hsender] at hxor
  constructor
  · intro heq
    have hfirst := congrArg (List.take n) heq
    rw [crossed_take,hxor] at hfirst
    have hrest := congrArg (List.drop n) heq
    rw [crossed,List.drop_left' (by rw [xorFrom_length,hsender])] at hrest
    exact ⟨fun i hi => by rw [hfirst i hi,htake _ i hi,htake _ i hi],hrest.symm⟩
  · rintro ⟨hkeystream,hcut⟩
    have hfirst := hxor.mpr fun i hi => by rw [hkeystream i hi,htake _ i hi,htake _ i hi]
    rw [crossed,hfirst,← hcut,List.take_append_drop]

theorem encrypt_eq {c : AesEncryptor} {iv : Bytes} {position : Nat} {sender : Int64}
    (hc : c.encryptBlock = ⟨false,iv,position,sender⟩) (message : Bytes) :
    c.encrypt tp message =
      (some (crossed tp (tp.ctrKeystream false c.key iv) c.key position sender message),
       { c with encryptBlock := ⟨false,iv,position+processed message,sender+1⟩ }) := by
  have hlen := signed_length tp c.key sender message
  simp only [signed,hashSize] at hlen
  simp only [encrypt,AesBlock.ctrEncrypt,hc,crossed,signed,processed,hashSize,hlen]

theorem ctrEncrypt_crossed {b : AesBlock} (hb : b.decryption = true) (key : Bytes) (sender : Int64) (message : Bytes) :
    b.ctrEncrypt tp key (crossed tp (tp.ctrKeystream false key b.iv) key b.position sender message) =
      (crossed tp (drift tp key b.iv) key b.position sender message,
       { b with position := b.position+processed message }) := by
  have htake := crossed_take tp (tp.ctrKeystream false key b.iv) key b.position sender message
  unfold processed at htake
  simp only [AesBlock.ctrEncrypt,crossed_length,htake,hb,xorFrom_xorFrom]
  rfl

theorem accepts_iff {key plain message : Bytes} {receiver : Int64} (hplain : plain.length = message.length+hashSize) :
    (if calculateChecksum tp receiver key (plain.take message.length) ≠ FixedWidth.ofLE (plain.drop message.length)
      then none else some (plain.take message.length)) = some message ↔ plain = signed tp key receiver message := by
  have hlt := calculateChecksum_lt tp receiver key message
  constructor
  · intro h
    split at h
    · cases h
    · rename_i hsame
      have htake : plain.take message.length = message := Option.some.inj h
      rw [htake,not_not] at hsame
      have hdrop := FixedWidth.toLE_ofLE (plain.drop message.length)
      rw [List.length_drop,hplain,Nat.add_sub_cancel_left,← hsame] at hdrop
      rw [signed,hdrop]
      conv_lhs => rw [← List.take_append_drop message.length plain,htake]
  · rintro rfl
    have htake : (signed tp key receiver message).take message.length = message := List.take_left
    have hdrop : (signed tp key receiver message).drop message.length = _ := List.drop_left
    rw [htake,hdrop,FixedWidth.ofLE_toLE_of_lt hlt]
    simp

def sealedEmpty (c : AesEncryptor) : Bytes :=
  xorFrom (tp.ctrKeystream c.decryptBlock.decryption c.key c.decryptBlock.iv) c.decryptBlock.position
    (signed tp c.key c.decryptBlock.counter [])

theorem sealedEmpty_length (c : AesEncryptor) : (sealedEmpty tp c).length = hashSize := by
  rw [sealedEmpty,xorFrom_length,signed_length,List.length_nil,Nat.zero_add]

theorem ctrEncrypt_length (b : AesBlock) (key input : Bytes) : (b.ctrEncrypt tp key input).1.length = input.length := by
  have hle : word32 input.length ≤ input.length := Nat.mod_le _ _
  simp only [AesBlock.ctrEncrypt,List.length_append,xorFrom_length,List.length_take,List.length_replicate]
  omega

theorem decrypt_long (c : AesEncryptor) {input : Bytes} (h : hashSize ≤ input.length) :
    ∃ output d, c.decrypt tp input = .ok (output,d) ∧
      (∀ plaintext, output = some plaintext → plaintext.length+hashSize = input.length) ∧
      (output = some [] ↔ input = sealedEmpty tp c) := by
  have hroom : ¬ input.length < hashSize := by omega
  let plain := (c.decryptBlock.ctrEncrypt tp c.key input).1
  have hplain : plain.length = input.length := ctrEncrypt_length tp c.decryptBlock c.key input
  let output := if calculateChecksum tp c.decryptBlock.counter c.key (plain.take (input.length-hashSize)) ≠
      FixedWidth.ofLE (plain.drop (input.length-hashSize)) then none else some (plain.take (input.length-hashSize))
  have hlength : ∀ plaintext, output = some plaintext → plaintext.length+hashSize = input.length := by
    intro plaintext hout
    simp only [output] at hout
    split at hout
    · cases hout
    · cases hout
      rw [List.length_take,hplain]
      omega
  refine ⟨output,{ c with decryptBlock := { (c.decryptBlock.ctrEncrypt tp c.key input).2 with
    counter := (c.decryptBlock.ctrEncrypt tp c.key input).2.counter+1 } },?_,hlength,?_⟩
  · have hcounter : (c.decryptBlock.ctrEncrypt tp c.key input).2.counter = c.decryptBlock.counter := rfl
    simp only [decrypt,hroom,if_false,hcounter,output,plain]
    split <;> rfl
  · by_cases hsize : input.length = hashSize
    · have haccepts := @accepts_iff tp c.key plain [] c.decryptBlock.counter
        (hplain.trans (hsize.trans (Nat.zero_add hashSize).symm))
      have hword : word32 input.length = input.length := by
        rw [hsize]
        rfl
      have hstream : plain = xorFrom (tp.ctrKeystream c.decryptBlock.decryption c.key c.decryptBlock.iv)
          c.decryptBlock.position input := by
        simp [plain,AesBlock.ctrEncrypt,hword]
      have hsealed : plain = signed tp c.key c.decryptBlock.counter [] ↔ input = sealedEmpty tp c := by
        rw [hstream,xorFrom_eq_comm,sealedEmpty]
      rw [← hsealed,← haccepts]
      simp only [output,hsize,Nat.sub_self,List.length_nil]
    · constructor
      · intro hout
        exact absurd (hlength [] hout).symm (by simpa using hsize)
      · intro hin
        exact absurd (congrArg List.length hin) (by rwa [sealedEmpty_length])

theorem decrypt_crossed {c : AesEncryptor} {iv : Bytes} {position : Nat} {receiver : Int64}
    (hc : c.decryptBlock = ⟨true,iv,position,receiver⟩) (sender : Int64) (message : Bytes) :
    ∃ output, c.decrypt tp (crossed tp (tp.ctrKeystream false c.key iv) c.key position sender message) =
        .ok (output,{ c with decryptBlock := ⟨true,iv,position+processed message,receiver+1⟩ }) ∧
      (output = some message ↔ InStep tp c.key iv position sender receiver message) := by
  have hout := ctrEncrypt_crossed tp (b:=⟨true,iv,position,receiver⟩) rfl c.key sender message
  have hplain := crossed_length tp (drift tp c.key iv) c.key position sender message
  have hlong : ¬ message.length+hashSize < hashSize := by omega
  refine ⟨_,?_,(accepts_iff tp hplain).trans (crossed_eq_iff tp c.key iv position sender receiver message)⟩
  simp only [decrypt,hc,hout,crossed_length,hlong,if_false,Nat.add_sub_cancel]
  split <;> rfl

/-- A whole stream, from any point of it on. -/
theorem decryptAll_encryptAll_from (key iv : Bytes) (messages : List Bytes) {position : Nat} {sender receiver : Int64}
    {c d : AesEncryptor} (hc : c.key = key ∧ c.encryptBlock = ⟨false,iv,position,sender⟩)
    (hd : d.key = key ∧ d.decryptBlock = ⟨true,iv,position,receiver⟩) :
    ∃ inputs outputs d', (encryptAll tp messages c).1 = inputs.map some ∧
      decryptAll tp inputs d = .ok (outputs,d') ∧
      (outputs = messages.map some ↔ StaysInStep tp key iv position sender receiver messages) := by
  induction messages generalizing position sender receiver c d with
  | nil => exact ⟨[],[],d,rfl,rfl,by simp [StaysInStep]⟩
  | cons message messages ih =>
    obtain ⟨rfl,hblock⟩ := hc
    have hencrypt := encrypt_eq tp hblock message
    obtain ⟨output,hdecrypt,haccepts⟩ := decrypt_crossed tp hd.2 sender message
    obtain ⟨inputs,outputs,d',hinputs,houtputs,hrest⟩ :=
      ih (c:={ c with encryptBlock := ⟨false,iv,position+processed message,sender+1⟩ }) ⟨rfl,rfl⟩
        (d:={ d with decryptBlock := ⟨true,iv,position+processed message,receiver+1⟩ }) ⟨hd.1,rfl⟩
    rw [hd.1] at hdecrypt haccepts
    let wire := crossed tp (tp.ctrKeystream false c.key iv) c.key position sender message
    refine ⟨wire :: inputs,output :: outputs,d',?_,?_,?_⟩
    · simp only [encryptAll,hencrypt,hinputs]
      rfl
    · simp only [decryptAll,wire,hdecrypt,bind,Except.bind,pure,Except.pure]
      rw [hd.1] at houtputs
      simp only [houtputs]
    · simp only [List.map_cons,List.cons.injEq,haccepts,hrest,StaysInStep]

/-- What two encryptors with one key, fresh but for the memory of their blocks, make of a stream. -/
theorem decryptAll_encryptAll (key iv : Bytes) (senderMemory receiverMemory : Int64 × Int64) (messages : List Bytes) :
    ∃ inputs outputs c,
      (encryptAll tp messages (init key iv senderMemory.1 senderMemory.2)).1 = inputs.map some ∧
      decryptAll tp inputs (init key iv receiverMemory.1 receiverMemory.2) = .ok (outputs,c) ∧
      (outputs = messages.map some ↔ StaysInStep tp key iv 0 senderMemory.1 receiverMemory.2 messages) :=
  decryptAll_encryptAll_from tp key iv messages ⟨rfl,rfl⟩ ⟨rfl,rfl⟩

theorem staysInStep_of_same (key iv : Bytes) (hks : ∀ i, tp.ctrKeystream false key iv i = tp.ctrKeystream true key iv i)
    (messages : List Bytes) (hsize : ∀ message ∈ messages, message.length+hashSize < 2^32) (position : Nat)
    (counter : Int64) : StaysInStep tp key iv position counter counter messages := by
  induction messages generalizing position counter with
  | nil => trivial
  | cons message messages ih =>
    have hall : processed message = message.length+hashSize := Nat.mod_eq_of_lt (hsize message (by simp))
    refine ⟨⟨fun i _ => ?_,?_⟩,ih (fun m hm => hsize m (by simp [hm])) _ _⟩
    · simp [drift,hks]
    · have hnone : (signed tp key counter message).length ≤ processed message := by
        rw [signed_length,hall]
      rw [List.drop_of_length_le hnone,hall,Nat.sub_self]
      rfl

theorem decryptAll_encryptAll_of_same (key iv : Bytes)
    (hks : ∀ i, tp.ctrKeystream false key iv i = tp.ctrKeystream true key iv i) (counter senderMemory receiverMemory : Int64)
    (messages : List Bytes) (hsize : ∀ message ∈ messages, message.length+hashSize < 2^32) :
    ∃ inputs c, (encryptAll tp messages (init key iv counter senderMemory)).1 = inputs.map some ∧
      decryptAll tp inputs (init key iv receiverMemory counter) = .ok (messages.map some,c) := by
  obtain ⟨inputs,outputs,c,hinputs,houtputs,hall⟩ := decryptAll_encryptAll_from tp key iv messages
    (c:=init key iv counter senderMemory) (d:=init key iv receiverMemory counter) ⟨rfl,rfl⟩ ⟨rfl,rfl⟩
  rw [hall.mpr (staysInStep_of_same tp key iv hks messages hsize 0 counter)] at houtputs
  exact ⟨inputs,c,hinputs,houtputs⟩

end AesEncryptor

def ThirdParty.firstBytes : ThirdParty := { ThirdParty.failing with sha256 := fun input => input.take 32 }

def ThirdParty.twoKeystreams : ThirdParty :=
  { ThirdParty.firstBytes with ctrKeystream := fun decryption _ _ _ => if decryption then 1 else 0 }

/-- The memory of the two blocks, or the key schedule that the decrypting block is set up with, makes
a receiver with the same key reject the first message. -/
theorem first_message_rejected :
    let key : Bytes := List.replicate 32 0
    let iv : Bytes := List.replicate 16 0
    (∃ input c d, AesEncryptor.encryptAll .firstBytes [[0x61]] (.init key iv 0 0) = ([some input],c) ∧
      AesEncryptor.decryptAll .firstBytes [input] (.init key iv 0 1) = .ok ([none],d)) ∧
    (∃ input c d, AesEncryptor.encryptAll .twoKeystreams [[0x61]] (.init key iv 0 0) = ([some input],c) ∧
      AesEncryptor.decryptAll .twoKeystreams [input] (.init key iv 0 0) = .ok ([none],d)) :=
  ⟨⟨_,_,_,rfl,rfl⟩,⟨_,_,_,rfl,rfl⟩⟩

end CyrexMC
