import Mathlib

/-! Byte strings. `std::string` is a list of bytes ordered like `operator<` on
strings, and the numeric encodings below are the ones the code appends to them. -/

namespace Datasystem.Common

open List

abbrev Byte := Fin 256

abbrev Bytes := List Byte

-- shared by all definitions that write a byte or compare byte strings
instance neZero_byteSize : NeZero 256 := ⟨by decide⟩

instance lawfulBEq_byte : LawfulBEq Byte := inferInstance

instance lawfulBEq_bytes : LawfulBEq Bytes := inferInstance

/-- The separator of composite keys. -/
def underscore : Byte := 95

/-- The bytes of an ASCII literal. -/
def ascii (s : String) : Bytes := s.toList.map fun c => Fin.ofNat 256 c.toNat

/-- A byte string as part of a message, one character a byte. -/
def text (bytes : Bytes) : String := String.ofList (bytes.map fun b => Char.ofNat b.val)

/-- `std::to_string` and `std::to_chars` of an unsigned number. -/
def decimal (n : Nat) : Bytes := (Nat.toDigits 10 n).map fun c => Fin.ofNat 256 c.toNat

theorem mem_decimal {n : Nat} {b} (h : b ∈ decimal n) : 48 ≤ b.val ∧ b.val ≤ 57 := by
  obtain ⟨c, hc, rfl⟩ := mem_map.mp h
  have hdigit := Nat.isDigit_of_mem_toDigits (by decide) (by decide) hc
  rw [Char.isDigit, Bool.and_eq_true, decide_eq_true_eq, decide_eq_true_eq] at hdigit
  have hlo : 48 ≤ c.toNat := hdigit.1
  have hhi : c.toNat ≤ 57 := hdigit.2
  simp only [Fin.val_ofNat]
  omega

theorem decimal_ne_nil (n : Nat) : decimal n ≠ [] := by
  simp [decimal, Nat.toDigits_ne_nil]

theorem length_decimal_le {n k : Nat} (hk : 0 < k) (h : n < 10 ^ k) : (decimal n).length ≤ k := by
  rw [decimal, length_map]
  exact (Nat.length_toDigits_le_iff (by decide) hk).mpr h

theorem head_decimal {n : Nat} (h : 0 < n) :
    (decimal n).head?.any fun d => 49 ≤ d.val && d.val ≤ 57 := by
  induction n using Nat.strong_induction_on with
  | h n ih =>
    by_cases hlt : n < 10
    · have hdigit : ∀ k < 10, 0 < k →
          (decimal k).head?.any fun d => 49 ≤ d.val && d.val ≤ 57 := by decide
      exact hdigit n hlt h
    · have hrec := ih (n / 10) (by omega) (by omega)
      rw [decimal, Nat.toDigits_of_base_le (by decide) (by omega), map_append,
        head?_append, ← decimal]
      cases hhead : (decimal (n / 10)).head? with
      | none => simp [hhead] at hrec
      | some => simpa [hhead] using hrec

/-- The `k` low bytes of `n`, most significant byte first. -/
def bigEndian : Nat → Nat → Bytes
  | 0, _ => []
  | k + 1, n => Fin.ofNat 256 (n / 256 ^ k) :: bigEndian k n

@[simp] theorem length_bigEndian (k n : Nat) : (bigEndian k n).length = k := by
  induction k with
  | zero => rfl
  | succ _ ih => simp [bigEndian, ih]

theorem bigEndian_inj {k m n : Nat} (hm : m < 256 ^ k) (hn : n < 256 ^ k)
    (h : bigEndian k m = bigEndian k n) : m = n := by
  suffices hmod : m % 256 ^ k = n % 256 ^ k by
    rwa [Nat.mod_eq_of_lt hm, Nat.mod_eq_of_lt hn] at hmod
  clear hm hn
  induction k with
  | zero => simp [Nat.mod_one]
  | succ k ih =>
    simp only [bigEndian, List.cons.injEq] at h
    have hhead : m / 256 ^ k % 256 = n / 256 ^ k % 256 := by
      simpa using congrArg Fin.val h.1
    rw [Nat.pow_succ, Nat.mod_mul, Nat.mod_mul, ih h.2, hhead]

/-- Number and rest can be read back from a fixed-width encoding that comes first. -/
theorem bigEndian_append_inj {k m n : Nat} (hm : m < 256 ^ k) (hn : n < 256 ^ k) {x y}
    (h : bigEndian k m ++ x = bigEndian k n ++ y) : m = n ∧ x = y := by
  obtain ⟨hhead, htail⟩ := append_inj h (by simp)
  exact ⟨bigEndian_inj hm hn hhead, htail⟩

/-- Entries of one width can be told apart in a sequence of them. -/
theorem flatMap_inj_of_length {α : Type} {f : α → Bytes} {w : Nat} (hw : ∀ a, (f a).length = w)
    (hf : Function.Injective f) {l l' : List α} (hlen : l.length = l'.length)
    (h : l.flatMap f = l'.flatMap f) : l = l' := by
  induction l generalizing l' with
  | nil => exact (eq_nil_of_length_eq_zero hlen.symm).symm
  | cons _ _ ih =>
    cases l' with
    | nil => cases hlen
    | cons =>
      rw [flatMap_cons, flatMap_cons] at h
      obtain ⟨hhead, htail⟩ := append_inj h (by rw [hw, hw])
      rw [hf hhead, ih (Nat.succ.inj hlen) htail]

end Datasystem.Common
