import Datasystem.Common.HashRingToken

/-! Tokens of different seeds. MurmurHash3 is a bijection of its last block, so
seeds of one length that differ in that block only give different tokens. -/

namespace Datasystem.Common.HashRingToken

open List

/-! ## The steps of the hash are injective -/

theorem eq_zero_of_shift_eq {x : BitVec 32} {s : Nat} (hs : 0 < s) (h : x = x >>> s) :
    x = 0#32 := by
  have hiter : ∀ k : Nat, x = x >>> (s * k) := by
    intro k
    induction k with
    | zero => simp
    | succ k ih =>
      calc x = x >>> s := h
        _ = (x >>> (s * k)) >>> s := by rw [← ih]
        _ = x >>> (s * (k + 1)) := by rw [← BitVec.shiftRight_add, Nat.mul_succ]
  rw [hiter 32]
  exact BitVec.ushiftRight_eq_zero (by omega)

theorem xorShift_injective {s : Nat} (hs : 0 < s) :
    Function.Injective fun x : BitVec 32 => x ^^^ (x >>> s) := by
  intro x y h
  have h : x ^^^ (x >>> s) = y ^^^ (y >>> s) := h
  have hxor : x ^^^ y = (x ^^^ y) >>> s := by
    have hzero : (x ^^^ y) ^^^ ((x ^^^ y) >>> s) = (x ^^^ (x >>> s)) ^^^ (y ^^^ (y >>> s)) := by
      rw [BitVec.ushiftRight_xor_distrib]
      ac_rfl
    rw [h, BitVec.xor_self] at hzero
    exact BitVec.xor_eq_zero_iff.mp hzero
  exact BitVec.xor_eq_zero_iff.mp (eq_zero_of_shift_eq hs hxor)

theorem mul_injective {c c'} (h : c * c' = 1#32) :
    Function.Injective fun x : BitVec 32 => x * c := by
  intro x y hxy
  have hxy : x * c = y * c := hxy
  calc x = x * c * c' := by rw [BitVec.mul_assoc, h, BitVec.mul_one]
    _ = y * c * c' := by rw [hxy]
    _ = y := by rw [BitVec.mul_assoc, h, BitVec.mul_one]

theorem rotl_eq (x) (r : Nat) : rotl x r = (x <<< r) ||| (x >>> (32 - r)) := by
  unfold rotl
  split
  · rename_i hx
    simp [hx]
  · rfl

theorem rotl_injective {r : Nat} (hr : r < 32) : Function.Injective fun x => rotl x r := by
  intro x y h
  have h : rotl x r = rotl y r := h
  rw [rotl_eq, rotl_eq] at h
  ext i hi
  -- bit `i` has moved to position `i + r`, modulo the width
  by_cases hc : i + r < 32
  · have hbit := congrArg (fun z : BitVec 32 => z.getLsbD (i + r)) h
    have hlow : ¬i + r < r := by omega
    have hhigh : 32 ≤ 32 - r + (i + r) := by omega
    simpa [hi, hc, hlow, hhigh] using hbit
  · have hbit := congrArg (fun z : BitVec 32 => z.getLsbD (i + r - 32)) h
    have hlow : i + r - 32 < r := by omega
    have hsum : 32 - r + (i + r - 32) = i := by omega
    simpa [hi, hlow, hsum] using hbit

theorem fmix_injective : Function.Injective fmix := by
  have h1 : 0x85ebca6b#32 * 0xa5cb9243#32 = 1#32 := by decide
  have h2 : 0xc2b2ae35#32 * 0x7ed1b41d#32 = 1#32 := by decide
  intro x y h
  exact xorShift_injective (by decide) (mul_injective h1 (xorShift_injective (by decide)
    (mul_injective h2 (xorShift_injective (by decide) h))))

theorem scramble_injective : Function.Injective scramble := by
  have h1 : c1 * 0xdee13bb1#32 = 1#32 := by decide
  have h2 : c2 * 0x56ed309b#32 = 1#32 := by decide
  intro x y h
  exact mul_injective h1 (rotl_injective (by decide) (mul_injective h2 h))

/-! ## The last block -/

theorem murmurBody_block (result) (b0 b1 b2 b3) (rest) :
    murmurBody result (b0 :: b1 :: b2 :: b3 :: rest) =
      murmurBody (mixBlock result (littleEndian [b0, b1, b2, b3])) rest := by
  conv_lhs => unfold murmurBody

theorem murmurBody_block_append (result) {block} (h : block.length = 4) (rest) :
    murmurBody result (block ++ rest) = murmurBody (mixBlock result (littleEndian block)) rest := by
  match block, h with
  | [b0, b1, b2, b3], _ => exact murmurBody_block result b0 b1 b2 b3 rest

theorem murmurBody_append (result) (front tail) (h : front.length % 4 = 0) :
    murmurBody result (front ++ tail) = murmurBody (murmurBody result front) tail := by
  match front, h with
  | [], _ => rfl
  | b0 :: b1 :: b2 :: b3 :: rest, h =>
    have hrest : rest.length % 4 = 0 := by
      simp only [length_cons] at h
      omega
    simp only [cons_append, murmurBody_block]
    exact murmurBody_append _ rest tail hrest
  | [_], h => simp at h
  | [_, _], h => simp at h
  | [_, _, _], h => simp at h

theorem murmurBody_short (result) {tail} (hpos : 0 < tail.length) (hlen : tail.length < 4) :
    murmurBody result tail = result ^^^ scramble (littleEndian tail) := by
  match tail, hpos, hlen with
  | [_], _, _ => rfl
  | [_, _], _, _ => rfl
  | [_, _, _], _, _ => rfl

theorem toNat_littleEndian {l} (h4 : l.length ≤ 4) :
    (littleEndian l).toNat = Nat.ofDigits 256 (l.map Fin.val) := by
  induction l with
  | nil => rfl
  | cons b rest ih =>
    have hrest := ih (Nat.le_of_succ_le h4)
    have hlt : Nat.ofDigits 256 (rest.map Fin.val) < 256 ^ (rest.map Fin.val).length :=
      Nat.ofDigits_lt_base_pow_length' (by simp)
    have hle : 256 ^ (rest.map Fin.val).length ≤ 256 ^ 3 :=
      Nat.pow_le_pow_right (by decide) (by simpa using Nat.le_of_lt_succ h4)
    -- the byte and the shifted rest have no bit in common
    have hxor : b.val ^^^ 2 ^ 8 * (littleEndian rest).toNat =
        b.val + 2 ^ 8 * (littleEndian rest).toNat := by
      rw [← Nat.mod_add_div (b.val ^^^ _) (2 ^ 8), Nat.xor_mod_two_pow, Nat.xor_div_two_pow,
        Nat.mul_mod_right, Nat.mul_div_cancel_left _ (Nat.two_pow_pos 8), Nat.mod_eq_of_lt b.isLt,
        Nat.div_eq_of_lt b.isLt]
      simp
    rw [map_cons, Nat.ofDigits_cons, ← hrest, littleEndian, BitVec.toNat_xor, BitVec.toNat_ofNat,
      BitVec.toNat_shiftLeft, Nat.shiftLeft_eq, Nat.mod_eq_of_lt (by omega),
      Nat.mod_eq_of_lt (by omega), Nat.mul_comm]
    exact hxor

theorem littleEndian_inj {l l'} (hlen : l.length = l'.length) (h4 : l.length ≤ 4)
    (h : littleEndian l = littleEndian l') : l = l' := by
  have hdigits := congrArg BitVec.toNat h
  rw [toNat_littleEndian h4, toNat_littleEndian (hlen ▸ h4)] at hdigits
  exact map_injective_iff.mpr Fin.val_injective (Nat.ofDigits_inj_of_len_eq (by decide)
    (by simpa using hlen) (by simp) (by simp) hdigits)

/-- Equal hashes of equally long data go back to where the data differ. -/
theorem exists_body_of_hash {front tail tail'} (hfront : front.length % 4 = 0)
    (hlen : tail.length = tail'.length)
    {seed} (h : murmurHash3 (front ++ tail) seed = murmurHash3 (front ++ tail') seed) :
    ∃ result, murmurBody result tail = murmurBody result tail' := by
  have hbody := fmix_injective h
  rw [length_append, length_append, hlen, BitVec.xor_left_inj, murmurBody_append _ _ _ hfront,
    murmurBody_append _ _ _ hfront] at hbody
  exact ⟨_, hbody⟩

/-- Hashes of equally long data that differ in the last short block only are different. -/
theorem murmurHash3_inj {front tail tail'} (hfront : front.length % 4 = 0)
    (hlen : tail.length = tail'.length) (hpos : 0 < tail.length) (h4 : tail.length < 4)
    {seed} (h : murmurHash3 (front ++ tail) seed = murmurHash3 (front ++ tail') seed) :
    tail = tail' := by
  obtain ⟨_, hbody⟩ := exists_body_of_hash hfront hlen h
  rw [murmurBody_short _ hpos h4, murmurBody_short _ (hlen ▸ hpos) (hlen ▸ h4),
    BitVec.xor_right_inj] at hbody
  exact littleEndian_inj hlen (by omega) (scramble_injective hbody)

/-! ## A block in the middle -/

theorem xor_of_mixBlock {x y k k'} (h : mixBlock x k = mixBlock y k') :
    x ^^^ scramble k = y ^^^ scramble k' := by
  have h5 : 5#32 * 0xcccccccd#32 = 1#32 := by decide
  rw [mixBlock, mixBlock, BitVec.add_left_inj] at h
  exact rotl_injective (by decide) (mul_injective h5 h)

theorem murmurBody_injective {x y} {tail} (h : murmurBody x tail = murmurBody y tail) : x = y := by
  induction x, tail using murmurBody.induct generalizing y with
  | case1 x b0 b1 b2 b3 rest ih =>
    rw [murmurBody_block, murmurBody_block] at h
    exact (BitVec.xor_left_inj _).mp (xor_of_mixBlock (ih h))
  | case2 => exact h
  | case3 x rest hlong hne =>
    have hpos : 0 < rest.length := length_pos_iff.mpr hne
    have hshort : rest.length < 4 := by
      rcases rest with _ | ⟨_, _ | ⟨_, _ | ⟨_, _ | _⟩⟩⟩ <;> grind
    rw [murmurBody_short _ hpos hshort, murmurBody_short _ hpos hshort] at h
    exact (BitVec.xor_left_inj _).mp h

/-- Hashes of equally long data that differ in one block only are different. -/
theorem murmurHash3_block_inj {front block block' tail} (hfront : front.length % 4 = 0)
    (hb : block.length = 4) (hb' : block'.length = 4) {seed}
    (h : murmurHash3 (front ++ (block ++ tail)) seed =
      murmurHash3 (front ++ (block' ++ tail)) seed) :
    block = block' := by
  have hlen := hb.trans hb'.symm
  obtain ⟨_, hbody⟩ := exists_body_of_hash hfront (by simp [hlen]) h
  rw [murmurBody_block_append _ hb, murmurBody_block_append _ hb'] at hbody
  exact littleEndian_inj hlen (le_of_eq hb) (scramble_injective ((BitVec.xor_right_inj _).mp
    (xor_of_mixBlock (murmurBody_injective hbody))))

/-! ## Seeds of three digits -/

/-- The byte of a decimal digit. -/
def digit (n : Nat) : Byte := Fin.ofNat 256 (48 + n % 10)

theorem digit_inj {m n : Nat} (h : digit m = digit n) : m % 10 = n % 10 := by
  have hval := congrArg Fin.val h
  simp only [digit, Fin.val_ofNat] at hval
  omega

theorem decimal_of_lt_ten : ∀ n < 10, decimal n = [digit n] := by decide

theorem decimal_of_lt_hundred : ∀ n < 100, 10 ≤ n → decimal n = [digit (n / 10), digit n] := by
  decide +kernel

theorem decimal_hundred_add : ∀ k < 100, decimal (100 + k) = [49, digit (k / 10), digit k] := by
  decide +kernel

/-- The last one or two digits of a seed stand in the last block. -/
theorem tokenInput_split (address) {index : Nat} (hi : index < 100) :
    ∃ front tail : Bytes, front.length = address.length + 4 ∧ tail.length < 2 ∧
      ∀ k < 100, tokenInput address index (100 + k) =
        front ++ (tail ++ [digit (k / 10), digit k]) := by
  by_cases h10 : index < 10
  · refine ⟨address ++ [tokenSeparator, digit index, tokenSeparator, 49], [], by simp, by simp,
      fun k hk => ?_⟩
    simp [tokenInput, decimal_of_lt_ten index h10, decimal_hundred_add k hk]
  · refine ⟨address ++ [tokenSeparator, digit (index / 10), digit index, tokenSeparator], [49],
      by simp, by simp, fun k hk => ?_⟩
    simp [tokenInput, decimal_of_lt_hundred index hi (by omega), decimal_hundred_add k hk]

/-- A hundred seeds with pairwise different tokens. -/
theorem makeHashRingToken_inj {address} (ha : address.length % 4 = 0) {index : Nat}
    (hi : index < 100) {k k' : Nat} (hk : k < 100) (hk' : k' < 100)
    (h : makeHashRingToken address index (100 + k) = makeHashRingToken address index (100 + k')) :
    k = k' := by
  obtain ⟨front, tail, hfront, htail, hinput⟩ := tokenInput_split address hi
  have hhash : murmurHash3 (tokenInput address index (100 + k)) 0#32 =
      murmurHash3 (tokenInput address index (100 + k')) 0#32 := BitVec.toFin_inj.mp h
  rw [hinput k hk, hinput k' hk'] at hhash
  have heq := murmurHash3_inj (by omega) (by simp) (by simp) (by simp; omega) hhash
  simp only [append_cancel_left_eq, List.cons.injEq, and_true] at heq
  have htens := digit_inj heq.1
  have hones := digit_inj heq.2
  omega

/-- While fewer than a hundred tokens are taken, one of the hundred seeds gives a free one. -/
theorem exists_free_seed {address : Bytes} (ha : address.length % 4 = 0) {index : Nat}
    (hi : index < 100) {occupied : List Token} (ho : occupied.length < 100) :
    ∃ k < 100, makeHashRingToken address index (100 + k) ∉ occupied := by
  by_contra hall
  push Not at hall
  have hnodup :
      ((List.range 100).map fun k => makeHashRingToken address index (100 + k)).Nodup := by
    refine nodup_range.map_on fun k hk k' hk' h => ?_
    exact makeHashRingToken_inj ha hi (mem_range.mp hk) (mem_range.mp hk') h
  have hsub : ((List.range 100).map fun k => makeHashRingToken address index (100 + k)) ⊆
      occupied := by
    intro t ht
    obtain ⟨k, hk, rfl⟩ := mem_map.mp ht
    exact hall k (mem_range.mp hk)
  have hle := hnodup.length_le_of_subset hsub
  rw [length_map, length_range] at hle
  omega

end Datasystem.Common.HashRingToken
