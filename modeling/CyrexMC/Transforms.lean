import CyrexMC.Basic
import CyrexMC.Lib.Integers
import CyrexMC.Lib.Keystream
import CyrexMC.Protocol.Types
import CyrexMC.ThirdParty
set_option autoImplicit false

/-! `network/mcbe/compression` and `network/mcbe/encryption`. -/

namespace CyrexMC

inductive Compressor where
  | zlib | snappy
  deriving DecidableEq, Repr

def defaultThreshold : Nat := 256

def defaultMaxDecompressionSize : Nat := 8*1024*1024

/-- Both compressors keep the default `minCompressionSize`. -/
def Compressor.shouldCompress (_c : Compressor) (inputSize : Nat) : Bool := inputSize ≥ defaultThreshold

def getCompressor (algo : CompressionAlgorithm) : Option Compressor :=
  if algo = CompressionAlgorithm.ZLIB then some .zlib
  else if algo = CompressionAlgorithm.SNAPPY then some .snappy
  else none

def ZlibCompressor.compress (tp : ThirdParty) (input : Bytes) : Option Bytes :=
  let bound := tp.deflateCompressBound input.length
  let output := tp.deflateCompress input bound
  if output.length = 0 then none else some output

def ZlibCompressor.decompress (tp : ThirdParty) (input : Bytes) : Option Bytes :=
  (tp.deflateDecompress input defaultMaxDecompressionSize).map Subtype.val

def SnappyCompressor.compress (tp : ThirdParty) (input : Bytes) : Option Bytes :=
  some (tp.snappyRawCompress input)

def SnappyCompressor.decompress (tp : ThirdParty) (input : Bytes) : Option Bytes :=
  if tp.snappyIsValidCompressedBuffer input then
    match tp.snappyGetUncompressedLength input with
    | some actualSize => (tp.snappyRawUncompress input actualSize.toNat).map Subtype.val
    | none => none
  else none

def Compressor.compress (tp : ThirdParty) : Compressor → Bytes → Option Bytes
  | .zlib, input => ZlibCompressor.compress tp input
  | .snappy, input => SnappyCompressor.compress tp input

def Compressor.decompress (tp : ThirdParty) : Compressor → Bytes → Option Bytes
  | .zlib, input => ZlibCompressor.decompress tp input
  | .snappy, input => SnappyCompressor.decompress tp input

def hashSize : Nat := 8

def word32 (size : Nat) : Nat := size%2^32

/-- An `Aes` set up by `wc_AesSetKeyDirect`, with the position its stream has reached. -/
structure AesBlock where
  decryption : Bool
  iv : Bytes
  position : Nat
  counter : Int64
  deriving DecidableEq, Repr

structure AesEncryptor where
  encryptBlock : AesBlock
  decryptBlock : AesBlock
  key : Bytes
  deriving DecidableEq, Repr

def calculateChecksum (tp : ThirdParty) (blockCounter : Int64) (key input : Bytes) : Nat :=
  let hash := tp.sha256 (FixedWidth.toLE 8 blockCounter.toUInt64.toNat ++ input.take (word32 input.length) ++ key)
  FixedWidth.ofLE (hash.take hashSize)

/-- `wc_AesCtrEncrypt` into an output that is all zero. -/
def AesBlock.ctrEncrypt (tp : ThirdParty) (key : Bytes) (b : AesBlock) (input : Bytes) :
    Bytes × AesBlock :=
  let sz := word32 input.length
  (Keystream.xorFrom (tp.ctrKeystream b.decryption key b.iv) b.position (input.take sz) ++
     List.replicate (input.length-sz) 0,
   { b with position := b.position+sz })

namespace AesEncryptor

/-- The constructor once it has `key` and `iv`. The constructor of `AesBlock` leaves `counter` to
what the memory of the block holds; `encryptBlockCounter` and `decryptBlockCounter`, which start
at 0, are not used. -/
def init (key iv : Bytes) (encryptMemory decryptMemory : Int64) : AesEncryptor :=
  { encryptBlock := { decryption := false, iv, position := 0, counter := encryptMemory },
    decryptBlock := { decryption := true, iv, position := 0, counter := decryptMemory }, key }

def encrypt (tp : ThirdParty) (input : Bytes) (c : AesEncryptor) : Option Bytes × AesEncryptor :=
  let hash := calculateChecksum tp c.encryptBlock.counter c.key input
  let block := { c.encryptBlock with counter := c.encryptBlock.counter+1 }
  let (output,block) := block.ctrEncrypt tp c.key (input ++ FixedWidth.toLE hashSize hash)
  (some output,{ c with encryptBlock := block })

/-- The checksum is read from `hashSize` bytes before the end of the output, wherever that is. -/
def decrypt (tp : ThirdParty) (input : Bytes) (c : AesEncryptor) :
    Except Fault (Option Bytes × AesEncryptor) :=
  let (output,block) := c.decryptBlock.ctrEncrypt tp c.key input
  if input.length < hashSize then .error (.undefined .outOfBounds)
  else
    let receivedHash := FixedWidth.ofLE (output.drop (input.length-hashSize))
    let calculatedHash := calculateChecksum tp block.counter c.key (output.take (input.length-hashSize))
    let c := { c with decryptBlock := { block with counter := block.counter+1 } }
    if calculatedHash ≠ receivedHash then .ok (none,c)
    else .ok (some (output.take (input.length-hashSize)),c)

end AesEncryptor

end CyrexMC
