import CyrexMC.Basic
import CyrexMC.Lib.Numerals
import Mathlib.Algebra.Group.Int.Defs
set_option autoImplicit false

namespace CyrexMC

/-- The libraries the server links against, fetched by the build and not part of the
repository. What a call is documented to guarantee is in the types. -/
structure ThirdParty where
  /-- `libdeflate_deflate_compress_bound`. -/
  deflateCompressBound : Nat → Nat
  /-- `libdeflate_deflate_compress`: the bytes written, which are none when it fails. -/
  deflateCompress : Bytes → Nat → Bytes
  /-- `libdeflate_deflate_decompress` into a buffer of `n` bytes. -/
  deflateDecompress : Bytes → (n : Nat) → Option { out : Bytes // out.length ≤ n }
  snappyMaxCompressedLength : Nat → Nat
  snappyRawCompress : Bytes → Bytes
  snappyIsValidCompressedBuffer : Bytes → Bool
  snappyGetUncompressedLength : Bytes → Option UInt32
  snappyRawUncompress : Bytes → (n : Nat) → Option { out : Bytes // out.length = n }
  uuidFromString : Bytes → Option UUID
  uuidToString : UUID → Bytes
  /-- Whether `nlohmann::json::parse` returns. -/
  jsonAccepts : Bytes → Bool
  sha256 : Bytes → Bytes
  /-- The AES-CTR keystream of a key schedule set up for encryption or decryption. -/
  ctrKeystream : Bool → Bytes → Bytes → Nat → UInt8
  idNewIncomingConnection : UInt8
  idConnectionLost : UInt8
  idDisconnectionNotification : UInt8
  /-- They label different cases of one `switch`, next to 0xFE. -/
  ids_nodup : [idNewIncomingConnection,idConnectionLost,idDisconnectionNotification,0xFE].Nodup

def ThirdParty.failing : ThirdParty :=
  { deflateCompressBound := fun n => n+9, deflateCompress := fun _ _ => [],
    deflateDecompress := fun _ _ => none, snappyMaxCompressedLength := fun n => 32+n+n/6,
    snappyRawCompress := id, snappyIsValidCompressedBuffer := fun _ => false,
    snappyGetUncompressedLength := fun _ => none, snappyRawUncompress := fun _ _ => none,
    uuidFromString := fun _ => none, uuidToString := fun id => id.bytes,
    jsonAccepts := fun _ => false, sha256 := fun _ => List.replicate 32 0,
    ctrKeystream := fun _ _ _ _ => 0, idNewIncomingConnection := 19, idConnectionLost := 22,
    idDisconnectionNotification := 21, ids_nodup := by decide }

def ThirdParty.storing : ThirdParty :=
  { ThirdParty.failing with
    deflateCompress := fun input _ => 1 :: input
    deflateDecompress := fun input n => if h : input.tail.length ≤ n then some ⟨input.tail,h⟩ else none
    snappyRawCompress := fun input => 1 :: input
    snappyIsValidCompressedBuffer := fun _ => true
    snappyGetUncompressedLength := fun input => some (UInt32.ofNat input.tail.length)
    snappyRawUncompress := fun input n => if h : input.tail.length = n then some ⟨input.tail,h⟩ else none }

def ThirdParty.rawIds : ThirdParty :=
  { ThirdParty.storing with
    uuidFromString := fun str => if h : str.length = 16 then some ⟨str,h⟩ else none }

/-- What is used of `nlohmann::json`. A floating-point number is given by its integer part. -/
inductive Json where
  | null
  | boolean : Bool → Json
  | integer : Int → Json
  | float : Int → Json
  | string : Bytes → Json
  | array : List Json → Json
  | object : List (Bytes × Json) → Json

namespace Json

def contains (key : Bytes) : Json → Bool
  | .object members => members.any fun m => m.1 == key
  | _ => false

/-- `operator[]` of a const value with a key: a missing key is a failed assertion. -/
def atKey (key : Bytes) : Json → Except Fault Json
  | .object members =>
    match members.find? fun m => m.1 == key with
    | some m => .ok m.2
    | none => .error (.undefined .nullPointer)
  | _ => .error (.throws .jsonTypeError)

/-- `operator[]` of a non-const value with an index: it grows an array, and makes one of null. -/
def atIndex (i : Nat) : Json → Except Fault Json
  | .array elements => .ok (elements.getD i .null)
  | .null => .ok .null
  | _ => .error (.throws .jsonTypeError)

def getString : Json → Except Fault Bytes
  | .string s => .ok s
  | _ => .error (.throws .jsonTypeError)

/-- `get<int>`: integers wrap, and a number out of range is undefined for a floating-point one. -/
def getInt : Json → Except Fault Int
  | .integer i => .ok (Int32.ofInt i).toInt
  | .boolean b => .ok (if b then 1 else 0)
  | .float i =>
    if -2^31 ≤ i ∧ i < 2^31 then .ok i else .error (.undefined .doubleToInt)
  | _ => .error (.throws .jsonTypeError)

end Json

def ascii (s : String) : Bytes := s.toList.map fun c => UInt8.ofNat c.toNat

def toDecimal (i : Int) : Bytes := ascii (toString i)

/-- What is relied on of `uuids::to_string` and `uuid::from_string`. -/
structure UuidText (tp : ThirdParty) : Prop where
  length : ∀ id, (tp.uuidToString id).length = 36
  inverts : ∀ id, tp.uuidFromString (tp.uuidToString id) = some id
  noUnderscore : ∀ id, (0x5F : UInt8) ∉ tp.uuidToString id

def unbraced : Bytes → Option Bytes
  | 0x7B :: rest => if rest.getLast? = some 0x7D then some rest.dropLast else none
  | str => some str

/-- Groups of four, two, two, two and six bytes. A text that is read may have other dashes, and braces. -/
def ThirdParty.textIds : ThirdParty :=
  { ThirdParty.storing with
    uuidToString := fun id => HexText.grouped [4,2,2,2] id.bytes
    uuidFromString := fun str => do
      let str ← unbraced str
      let bytes ← HexText.undigits (str.filter (· ≠ HexText.dash))
      if h : bytes.length = 16 then some ⟨bytes,h⟩ else none }

theorem unbraced_of_ne {str : Bytes} (h : ∀ c ∈ str, c ≠ 0x7B) : unbraced str = some str := by
  cases str with
  | nil => rfl
  | cons c str =>
    have hc := h c (by simp)
    unfold unbraced
    split
    · rename_i heq
      cases heq
      exact absurd rfl hc
    · rfl

theorem ThirdParty.textIds_uuidText : UuidText .textIds := by
  constructor
  · intro id
    simp [textIds,HexText.grouped,HexText.length_digits,id.size_eq]
  · intro id
    have hbrace := unbraced_of_ne fun c hc => (@HexText.mem_grouped [4,2,2,2] id.bytes c hc).2
    have hfilter := HexText.filter_grouped [4,2,2,2] id.bytes
    simp only [textIds,hbrace,hfilter,HexText.undigits_digits,Option.bind_eq_bind,Option.bind_some,id.size_eq,dite_true]
  · intro id h
    exact (@HexText.mem_grouped [4,2,2,2] id.bytes _ h).1 rfl

end CyrexMC
