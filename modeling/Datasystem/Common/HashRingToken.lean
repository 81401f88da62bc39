import Datasystem.Common.Bytes

/-! Hash-ring tokens. A token is the 32-bit MurmurHash3 of
`address#index` or, for a later attempt, of `address#index#seed`. -/

namespace Datasystem.Common.HashRingToken

open Common

abbrev Token := Fin (2 ^ 32)

instance neZero_tokenSize : NeZero (2 ^ 32) := ⟨by decide⟩

instance lawfulBEq_token : LawfulBEq Token := inferInstance

def maxToken : Token := 4294967295

def maxHashRingTokenSeeds : Nat := 10000

def maxHashRingTokensPerMember : Nat := 4096

def balancedPlacementSeedCandidates : Nat := 1000

/-! ## MurmurHash3 -/

def c1 : BitVec 32 := 0xcc9e2d51#32

def c2 : BitVec 32 := 0x1b873593#32

def rotl (val : BitVec 32) (r : Nat) : BitVec 32 :=
  if val = 0#32 then val else (val <<< r) ||| (val >>> (32 - r))

def fmix (val : BitVec 32) : BitVec 32 :=
  let val := val ^^^ (val >>> 16)
  let val := val * 0x85ebca6b#32
  let val := val ^^^ (val >>> 13)
  let val := val * 0xc2b2ae35#32
  val ^^^ (val >>> 16)

/-- The little-endian value of at most four bytes. -/
def littleEndian : Bytes → BitVec 32
  | [] => 0#32
  | b :: rest => BitVec.ofNat 32 b.val ^^^ (littleEndian rest <<< 8)

/-- Scramble one block before it is mixed into the result. -/
def scramble (k : BitVec 32) : BitVec 32 := rotl (k * c1) 15 * c2

def mixBlock (result k : BitVec 32) : BitVec 32 :=
  rotl (result ^^^ scramble k) 13 * 5#32 + 0xe6546b64#32

/-- Mix the bytes block by block, then the up to three that remain. -/
def murmurBody (result : BitVec 32) : Bytes → BitVec 32
  | b0 :: b1 :: b2 :: b3 :: rest =>
    murmurBody (mixBlock result (littleEndian [b0, b1, b2, b3])) rest
  | [] => result
  | rest => result ^^^ scramble (littleEndian rest)

def murmurHash3 (data : Bytes) (seed : BitVec 32) : BitVec 32 :=
  fmix (murmurBody seed data ^^^ BitVec.ofNat 32 data.length)

/-! ## Token derivation -/

def tokenSeparator : Byte := 35

variable (address : Bytes)

/-- The text whose hash is the token. -/
def tokenInput (index seed : Nat) : Bytes :=
  address ++ tokenSeparator :: decimal index ++
    if seed > 0 then tokenSeparator :: decimal seed else []

def makeHashRingToken (index seed : Nat) : Token :=
  (murmurHash3 (tokenInput address index seed) 0#32).toFin

def makeHashRingTokens (seeds : List Nat) : List Token :=
  seeds.zipIdx.map fun (seed, index) => makeHashRingToken address index seed

/-- Tokens of the seeds below `candidateSeeds`, in seed order. -/
def makeHashRingTokenCandidates (index candidateSeeds : Nat) : List Token :=
  (List.range candidateSeeds).map (makeHashRingToken address index)

example : murmurHash3 (ascii "hello") 0#32 = 613153351#32 := by decide

end Datasystem.Common.HashRingToken
