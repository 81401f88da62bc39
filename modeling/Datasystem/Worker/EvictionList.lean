import Datasystem.Common.Bytes
import Datasystem.Common.Status

/-! The eviction list under the clock policy. The hand goes round the list, takes one off the
counter of each object it comes to, and stops at the first one whose counter is used up. -/

namespace Datasystem.Worker

open Common Lib.Checked List

structure ListNode where
  objectKey : Bytes
  curCounter : Nat
  maxCounter : Nat
deriving DecidableEq

/-- `list_`, cut where `oldest_` points. The index table has the keys of the list. -/
structure EvictionList where
  front : List ListNode := []
  back : List ListNode := []
deriving DecidableEq

namespace EvictionList

variable (s : EvictionList)

def keys : List Bytes := (s.front ++ s.back).map ListNode.objectKey

/-- The list as the hand goes through it. -/
def fromHand : List ListNode := s.back ++ s.front

/-- `++oldest_`, past a node that is put back. -/
def advance (node : ListNode) (rest : List ListNode) : EvictionList :=
  if rest = [] then ⟨[], s.front ++ [node]⟩ else ⟨s.front ++ [node], rest⟩

def lower (n : Nat) (node : ListNode) : ListNode := { node with curCounter := node.curCounter - n }

/-- The loop of `FindEvictCandidate`, with the keys that the hand comes to. -/
def sweep : Nat → EvictionList → Option (List Bytes × EvictionList)
  | 0, _ => none
  | fuel + 1, s =>
    match s.back with
    | [] => none
    | node :: rest =>
      if node.curCounter = 0 then some ([node.objectKey], s)
      else (sweep fuel (s.advance (lower 1 node) rest)).map fun (visited, s') =>
        (node.objectKey :: visited, s')

/-- The candidate is the last key that the hand comes to. -/
def findEvictCandidate : Result (List Bytes × EvictionList) :=
  match sweep ((s.fromHand.map ListNode.curCounter).sum + 1) s with
  | some found => .ok found
  | none => .error ⟨.kRuntimeError, "EvictionList is empty."⟩

/-! ## Selection -/

variable {s}

theorem advance_spec (s : EvictionList) (node) (rest) : (s.advance node rest).back ≠ [] ∧
    (s.advance node rest).fromHand = rest ++ s.front ++ [node] ∧
    (s.advance node rest).keys = (s.front ++ node :: rest).map ListNode.objectKey := by
  unfold advance
  split
  · simp_all [fromHand, keys]
  · simp_all [fromHand, keys]

/-- The hand goes past objects whose counters are not used up. -/
theorem sweep_past {pre tl} (hne : s.back ≠ []) (hhand : s.fromHand = pre ++ tl)
    (hpos : ∀ node ∈ pre, 0 < node.curCounter) (fuel : Nat) :
    ∃ s', s'.back ≠ [] ∧ s'.fromHand = tl ++ pre.map (lower 1) ∧ s'.keys = s.keys ∧
      sweep (fuel + pre.length) s = (sweep fuel s').map fun found =>
        (pre.map ListNode.objectKey ++ found.1, found.2) := by
  induction pre generalizing s tl with
  | nil => exact ⟨s, hne, by simpa using hhand, rfl, by simp⟩
  | cons node pre ih =>
    obtain ⟨hd, rest, hback⟩ := exists_cons_of_ne_nil hne
    rw [fromHand, hback, cons_append, cons_append] at hhand
    obtain ⟨rfl, hrest⟩ := cons.inj hhand
    obtain ⟨hne', hhand', hkeys'⟩ := advance_spec s (lower 1 hd) rest
    have hnode := hpos hd mem_cons_self
    obtain ⟨s', hback', hlast, hkeys, hsweep⟩ := ih hne'
      (by rw [hhand', hrest, append_assoc]) fun n hn => hpos n (mem_cons_of_mem _ hn)
    refine ⟨s', hback', by simpa using hlast, ?_, ?_⟩
    · simpa [keys, hback, lower] using hkeys.trans hkeys'
    · rw [length_cons, ← Nat.add_assoc, sweep, hback]
      simp [hnode.ne', hsweep, Function.comp_def]

/-- Whole rounds until the least counter is used up, and a last one up to its first object. -/
theorem sweep_spec (m : Nat) {pre node post} (hne : s.back ≠ [])
    (hhand : s.fromHand = pre ++ node :: post) (hpre : ∀ n ∈ pre, m < n.curCounter)
    (hnode : node.curCounter = m) (hpost : ∀ n ∈ post, m ≤ n.curCounter) (fuel : Nat) :
    ∃ visited s', sweep (fuel + 1 + pre.length + m * s.fromHand.length) s =
        some (visited ++ [node.objectKey], s') ∧ s'.keys = s.keys ∧ s'.back ≠ [] ∧
      s'.fromHand = (node :: post).map (lower m) ++ pre.map (lower (m + 1)) := by
  induction m generalizing s pre node post with
  | zero =>
    obtain ⟨s', hne', hhand', hkeys, hsweep⟩ := sweep_past hne hhand hpre (fuel + 1)
    obtain ⟨hd, rest, hback⟩ := exists_cons_of_ne_nil hne'
    obtain ⟨rfl, -⟩ : hd = node ∧ _ := by simpa [fromHand, hback] using hhand'
    have hstop : sweep (fuel + 1) s' = some ([hd.objectKey], s') := by simp [sweep, hback, hnode]
    have hid : lower 0 = id := rfl
    refine ⟨pre.map ListNode.objectKey, s', ?_, hkeys, hne', by rw [hid, map_id, hhand']⟩
    rw [Nat.zero_mul, Nat.add_zero, hsweep, hstop, Option.map_some]
  | succ m ih =>
    have hpos : ∀ n ∈ s.fromHand, 0 < n.curCounter := by
      simp only [hhand, mem_append, mem_cons]
      grind
    obtain ⟨s', hne', hhand', hkeys, hsweep⟩ := sweep_past hne (append_nil _).symm hpos
      (fuel + 1 + pre.length + m * s.fromHand.length)
    have hlen : s'.fromHand.length = s.fromHand.length := by rw [hhand', nil_append, length_map]
    rw [nil_append, hhand, map_append, map_cons] at hhand'
    obtain ⟨visited, s'', hfound, hkeys', hne'', hlast⟩ := ih hne' hhand'
      (by simp [lower]; grind) (by simp [lower, hnode]) (by simp [lower]; grind)
    rw [length_map, hlen] at hfound
    rw [Nat.succ_mul, ← Nat.add_assoc, hsweep, hfound, Option.map_some, ← append_assoc]
    refine ⟨_, s'', rfl, hkeys'.trans hkeys, hne'', ?_⟩
    have hlower : ∀ k, lower k ∘ lower 1 = lower (k + 1) := fun k => by
      funext node
      simp [lower, Nat.sub_sub, Nat.add_comm]
    rw [hlast, ← map_cons, map_map, map_map, hlower, hlower]

theorem exists_first_least {l : List ListNode} (h : l ≠ []) : ∃ pre node post,
    l = pre ++ node :: post ∧ (∀ n ∈ pre, node.curCounter < n.curCounter) ∧
      ∀ n ∈ post, node.curCounter ≤ n.curCounter := by
  induction l with
  | nil => exact absurd rfl h
  | cons hd rest ih =>
    by_cases hnil : rest = []
    · exact ⟨[], hd, [], by simp [hnil], by simp, by simp⟩
    obtain ⟨pre, node, post, rfl, hpre, hpost⟩ := ih hnil
    by_cases hle : hd.curCounter ≤ node.curCounter
    · exact ⟨[], hd, _, rfl, by simp, by grind⟩
    · exact ⟨hd :: pre, node, post, rfl, by grind, hpost⟩

/-- **The hand selects** the first object from it on with the least counter. The counters are
lowered by that one, and once more for the objects before it. -/
theorem clock_selects_first_least (h : s.back ≠ []) : ∃ pre node post visited s',
    s.fromHand = pre ++ node :: post ∧ (∀ n ∈ pre, node.curCounter < n.curCounter) ∧
    (∀ n ∈ post, node.curCounter ≤ n.curCounter) ∧
    s.findEvictCandidate = .ok (visited ++ [node.objectKey], s') ∧ s'.keys = s.keys ∧
    s'.back ≠ [] ∧ s'.fromHand = (node :: post).map (lower node.curCounter) ++
      pre.map (lower (node.curCounter + 1)) := by
  obtain ⟨pre, node, post, hhand, hpre, hpost⟩ := exists_first_least (l := s.fromHand)
    (by simp [fromHand, h])
  -- the loop runs once for each unit of the counters at most
  have hsum : pre.length + node.curCounter * s.fromHand.length ≤
      (s.fromHand.map ListNode.curCounter).sum := by
    have hlow := card_nsmul_le_sum (pre.map ListNode.curCounter) (node.curCounter + 1)
      (by simpa using hpre)
    have hhigh := card_nsmul_le_sum (post.map ListNode.curCounter) node.curCounter
      (by simpa using hpost)
    simp [hhand] at hlow hhigh ⊢
    nlinarith
  obtain ⟨k, hk⟩ := Nat.exists_eq_add_of_le hsum
  obtain ⟨visited, s', hsweep, hkeys, hback, hlast⟩ := sweep_spec _ h hhand hpre rfl hpost k
  refine ⟨pre, node, post, visited, s', hhand, hpre, hpost, ?_, hkeys, hback, hlast⟩
  have hfuel : (s.fromHand.map ListNode.curCounter).sum + 1 =
      k + 1 + pre.length + node.curCounter * s.fromHand.length := by omega
  rw [findEvictCandidate, hfuel, hsweep]

theorem clock_selects_of_two : ∃ visited key s',
    (⟨[⟨[1], 0, 1⟩], [⟨[2], 1, 1⟩]⟩ : EvictionList).findEvictCandidate =
      .ok (visited ++ [key], s') ∧
      s'.back ≠ [] := by
  obtain ⟨-, node, -, visited, s', -, -, -, hfind, -, hback, -⟩ :=
    clock_selects_first_least (s := ⟨[⟨[1], 0, 1⟩], [⟨[2], 1, 1⟩]⟩) (by decide)
  exact ⟨visited, node.objectKey, s', hfind, hback⟩

end EvictionList

end Datasystem.Worker
