import Datasystem.Common.Bytes

/-! Encoded sizes in the protobuf wire format. Every field number in use is below
sixteen, so a tag takes one byte, and scalar fields with their default value are
not written. -/

namespace Datasystem.Common.Protobuf

open Common List

/-- Bytes of a base-128 varint: one for each group of seven bits. -/
def varintSize (n : Nat) : Nat := 1 + (List.range 9).countP fun k => 2 ^ (7 * (k + 1)) ≤ n

/-- A length-delimited field of `n` content bytes. -/
def lengthDelimited (n : Nat) : Nat := 1 + varintSize n + n

def uintField (n : Nat) : Nat := if n = 0 then 0 else 1 + varintSize n

def boolField (b : Bool) : Nat := if b then 2 else 0

def stringField (s : Bytes) : Nat := if s = [] then 0 else lengthDelimited s.length

/-- Repeated entries and map entries are written even when empty. -/
def repeatedField (sizes : List Nat) : Nat := (sizes.map lengthDelimited).sum

/-! ## Bounds -/

theorem varintSize_le {n k : Nat} (hk : 0 < k) (h : n < 2 ^ (7 * k)) : varintSize n ≤ k := by
  have hsub : (List.range 9).filter (fun j => 2 ^ (7 * (j + 1)) ≤ n) ⊆ List.range (k - 1) := by
    intro j hj
    have hle := of_decide_eq_true (mem_filter.mp hj).2
    have hlt := (Nat.pow_lt_pow_iff_right (by decide)).mp (lt_of_le_of_lt hle h)
    rw [mem_range]
    omega
  have hlen := (nodup_range.filter _).length_le_of_subset hsub
  rw [length_range, ← countP_eq_length_filter] at hlen
  rw [varintSize]
  omega

theorem uintField_le {n k : Nat} (hk : 0 < k) (h : n < 2 ^ (7 * k)) : uintField n ≤ 1 + k := by
  rw [uintField]
  split
  · exact Nat.zero_le _
  · exact Nat.add_le_add_left (varintSize_le hk h) 1

theorem lengthDelimited_le {n b : Nat} (hn : n ≤ b) (hb : b < 2 ^ 14) :
    lengthDelimited n ≤ b + 3 := by
  have hsize : varintSize n ≤ 2 := varintSize_le (by decide) (lt_of_le_of_lt hn hb)
  rw [lengthDelimited]
  omega

theorem stringField_le {s} {b : Nat} (hs : s.length ≤ b) (hb : b < 2 ^ 14) :
    stringField s ≤ b + 3 := by
  rw [stringField]
  split
  · exact Nat.zero_le _
  · exact lengthDelimited_le hs hb

theorem le_stringField (s) : s.length ≤ stringField s := by
  rw [stringField]
  split
  · simp [*]
  · exact Nat.le_add_left _ _

theorem repeatedField_le {sizes} {b : Nat} (h : ∀ n ∈ sizes, n ≤ b) (hb : b < 2 ^ 14) :
    repeatedField sizes ≤ sizes.length * (b + 3) := by
  have hsum := sum_le_card_nsmul (sizes.map lengthDelimited) (b + 3)
    (forall_mem_map.mpr fun n hn => lengthDelimited_le (h n hn) hb)
  rwa [length_map] at hsum

/-! ## Bytes -/

/-- A varint of `fuel + 1` bytes at most, which is all of it for ten bytes. -/
def writeVarint : Nat → Nat → Bytes
  | 0, n => [Fin.ofNat 256 n]
  | fuel + 1, n =>
    if n < 128 then [Fin.ofNat 256 n]
    else Fin.ofNat 256 (n % 128 + 128) :: writeVarint fuel (n / 128)

def writeUint (tag : Byte) (n : Nat) : Bytes := if n = 0 then [] else tag :: writeVarint 9 n

def writeDelimited (tag : Byte) (content : Bytes) : Bytes :=
  tag :: writeVarint 9 content.length ++ content

theorem length_writeVarint (fuel n : Nat) : (writeVarint fuel n).length =
    1 + (range fuel).countP fun k => 2 ^ (7 * (k + 1)) ≤ n := by
  induction fuel generalizing n with
  | zero => simp [writeVarint]
  | succ fuel ih =>
    rw [range_succ_eq_map, countP_cons, countP_map]
    unfold writeVarint
    split
    · rename_i hlt
      have hzero : ∀ k, ¬2 ^ (7 * (k + 1)) ≤ n := by
        intro k hle
        have hpow := Nat.pow_le_pow_right (n := 2) (by decide) (show 7 ≤ 7 * (k + 1) by omega)
        omega
      simp [Function.comp_def, hzero, hlt]
    · rename_i hge
      have hshift : ∀ k, 2 ^ (7 * (k + 1 + 1)) ≤ n ↔ 2 ^ (7 * (k + 1)) ≤ n / 128 := by
        intro k
        rw [Nat.le_div_iff_mul_le (by decide), Nat.mul_add 7 (k + 1) 1, Nat.pow_add]
      simp [Function.comp_def, ih, hshift, not_lt.mp hge]
      omega

@[simp] theorem length_writeUint (tag) (n) : (writeUint tag n).length = uintField n := by
  unfold writeUint uintField
  split
  · rfl
  · rw [length_cons, length_writeVarint, varintSize, Nat.add_comm]

@[simp] theorem length_writeDelimited (tag) (content) :
    (writeDelimited tag content).length = lengthDelimited content.length := by
  rw [writeDelimited, length_append, length_cons, length_writeVarint, lengthDelimited, varintSize]
  omega

end Datasystem.Common.Protobuf
