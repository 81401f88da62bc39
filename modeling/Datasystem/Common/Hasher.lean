import Datasystem.Common.Bytes

/-! SHA-256 of the crypto library and its lower-case hex form. The digest function
is a parameter of the development; only its length is used. -/

namespace Datasystem.Common

def sha256DigestLength : Nat := 32

/-- A digest function whose digests have the length of SHA-256. -/
structure Sha256 where
  digest : Bytes → Bytes
  length_digest : ∀ data, (digest data).length = sha256DigestLength

namespace Hasher

/-- `%x` of a number below sixteen. -/
def hexDigit (n : Nat) : Byte := if n < 10 then Fin.ofNat 256 (48 + n) else Fin.ofNat 256 (87 + n)

def isLowerHex (value : Byte) : Bool :=
  (48 ≤ value.val && value.val ≤ 57) || (97 ≤ value.val && value.val ≤ 102)

variable (data : Bytes)

/-- `%02x` of every byte. -/
def hexEncode : Bytes :=
  data.flatMap fun b => [hexDigit (b.val / 16), hexDigit (b.val % 16)]

def getSha256Hex (sha256 : Sha256) (data : Bytes) : Bytes := hexEncode (sha256.digest data)

theorem isLowerHex_hexDigit {n : Nat} (h : n < 16) : isLowerHex (hexDigit n) := by
  interval_cases n <;> decide

theorem length_hexEncode : (hexEncode data).length = 2 * data.length := by
  induction data with
  | nil => rfl
  | cons b rest ih =>
    have hcons : hexEncode (b :: rest) =
        [hexDigit (b.val / 16), hexDigit (b.val % 16)] ++ hexEncode rest := rfl
    rw [hcons, List.length_append, ih, List.length_cons]
    simp
    omega

theorem isLowerHex_of_mem_hexEncode {data} {b} (h : b ∈ hexEncode data) :
    isLowerHex b := by
  obtain ⟨x, -, hb⟩ := List.mem_flatMap.mp h
  have hx := x.isLt
  simp only [List.mem_cons, List.not_mem_nil, or_false] at hb
  rcases hb with rfl | rfl
  · exact isLowerHex_hexDigit (by omega)
  · exact isLowerHex_hexDigit (by omega)

theorem length_getSha256Hex (sha256) (data) :
    (getSha256Hex sha256 data).length = 2 * sha256DigestLength := by
  rw [getSha256Hex, length_hexEncode, sha256.length_digest]

end Hasher

end Datasystem.Common
