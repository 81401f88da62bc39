import Datasystem.Lib.Marks
import Datasystem.Lib.StateMachine
import Datasystem.Master.OCMetadataManager

/-! Heavy operations. An operation on a causal object, or a delete that goes on in the pool, marks
its keys, and another one that finds a mark is told to retry. The marks are given back by a scope
guard, which a create or an update has whether it took a mark or not. -/

namespace Datasystem.Master

open Common Lib StateMachine List OrderedMap Option OrderedSet

/-! ## The marks -/

variable (heavyOps : OrderedSet Bytes)

/-- `AddHeavyOp` of one key. -/
def addHeavyOp (objectKey : Bytes) : Bool × OrderedSet Bytes :=
  (objectKey ∉ heavyOps, heavyOps.insert objectKey)

/-- The loop of `AddHeavyOp` of several keys, with those it has added. -/
def addHeavyOpLoop (heavyOps : OrderedSet Bytes) (added : List Bytes) :
    List Bytes → Bool × OrderedSet Bytes
  | [] => (true, heavyOps)
  | objectKey :: objectKeys =>
    let (inserted, heavyOps) := addHeavyOp heavyOps objectKey
    if inserted then addHeavyOpLoop heavyOps (added ++ [objectKey]) objectKeys
    else (false, added.foldl OrderedSet.erase heavyOps)

/-- `AddHeavyOp` of several keys, all or none. -/
def addHeavyOps (objectKeys : List Bytes) : Bool × OrderedSet Bytes :=
  addHeavyOpLoop heavyOps [] (OrderedSet.ofList objectKeys).elements

def removeHeavyOp (objectKeys : List Bytes) : OrderedSet Bytes :=
  (OrderedSet.ofList objectKeys).elements.foldl OrderedSet.erase heavyOps

/-! ## The operations -/

/-- An operation that is past `AddHeavyOp`, with the keys its guard gives back. -/
structure HeavyOperation where
  objectKeys : List Bytes
  /-- `AddHeavyOp` was called, and returned true. -/
  acquired : Bool
deriving DecidableEq

def isSupportedDataFormat (dataFormat : DataFormat) : Bool :=
  dataFormat = .binary || dataFormat = .hetero

structure HeavySystem where
  heavyOps : OrderedSet Bytes := .empty
  operations : OrderedMap Nat HeavyOperation := .empty

inductive HeavyAction
  | createMeta (id : Nat) (objectKey : Bytes) (config : ConfigPb)
  /-- With the entry the table has for the key, and whether it is `PENDING`. -/
  | updateMeta (id : Nat) (objectKey : Bytes) (entry : Option ObjectMeta) (pending : Bool)
  | transferSyncDeleteRequest (id : Nat) (objectKeys : List Bytes)
  /-- The operation returns, or its task in the pool ends, and its guard runs. -/
  | finish (id : Nat)

namespace HeavySystem

variable (s : HeavySystem)

/-- An operation on one key begins, and takes the mark if it is on a causal object. -/
def enter (id : Nat) (objectKey : Bytes) (consistencyType : ConsistencyType) : HeavySystem :=
  if consistencyType = .causal then
    let (added, heavyOps) := addHeavyOp s.heavyOps objectKey
    if added then
      { heavyOps := heavyOps, operations := s.operations.insert id ⟨[objectKey], true⟩ }
    else s
  else { s with operations := s.operations.insert id ⟨[objectKey], false⟩ }

/-- A delete is handed to the pool if it gets all of its marks. -/
def transfer (id : Nat) (objectKeys : List Bytes) : HeavySystem :=
  let result := addHeavyOps s.heavyOps objectKeys
  if result.1 then
    { heavyOps := result.2, operations := s.operations.insert id ⟨objectKeys, true⟩ }
  else { s with heavyOps := result.2 }

/-- A new operation has a number that is free. An operation that is refused leaves no trace. -/
def step : HeavyAction → Option HeavySystem
  | .createMeta id objectKey config =>
    if (s.operations.find? id).isSome then none
    else if isSupportedDataFormat config.dataFormat then
      some (s.enter id objectKey config.consistencyType)
    else some s
  | .updateMeta id objectKey entry pending =>
    if (s.operations.find? id).isSome then none
    else
      match entry with
      | none => some s
      | some entry =>
        if pending then some s else some (s.enter id objectKey entry.pb.config.consistencyType)
  | .transferSyncDeleteRequest id objectKeys =>
    if (s.operations.find? id).isSome then none
    else some (s.transfer id objectKeys)
  | .finish id =>
    (s.operations.find? id).map fun op =>
      { heavyOps := removeHeavyOp s.heavyOps op.objectKeys
        operations := s.operations.erase id }

/-- The keys whose mark an operation has taken. -/
def held (id : Nat) : Set Bytes :=
  { k | ∃ op, s.operations.find? id = some op ∧ op.acquired ∧ k ∈ op.objectKeys }

/-- The guard of an operation that took no mark does not run while another one has the mark. -/
def guarded : HeavyAction → Bool
  | .finish id =>
    (s.operations.find? id).all fun op => op.acquired ||
      op.objectKeys.all fun k =>
        !s.operations.any fun other => other.acquired && other.objectKeys.contains k
  | _ => true

/-! ## What the marks do -/

section Marks

variable {heavyOps : OrderedSet Bytes} {objectKeys : List Bytes} {k : Bytes}

theorem mem_foldl_erase {l : List Bytes} :
    k ∈ l.foldl OrderedSet.erase heavyOps ↔ k ∈ heavyOps ∧ k ∉ l := by
  induction l generalizing heavyOps with
  | nil => simp
  | cons a l ih =>
    rw [foldl_cons, ih, mem_erase]
    simp only [mem_cons, not_or]
    tauto

theorem mem_ofList {l} : k ∈ OrderedSet.ofList l ↔ k ∈ l := by
  rw [OrderedSet.ofList, mem_foldl_insert]
  simp

theorem mem_removeHeavyOp :
    k ∈ removeHeavyOp heavyOps objectKeys ↔ k ∈ heavyOps ∧ k ∉ objectKeys := by
  rw [removeHeavyOp, mem_foldl_erase, mem_elements, mem_ofList]

/-- The loop adds all of the keys, none of which was there, or it takes out what it added. -/
theorem addHeavyOpLoop_cases {added : List Bytes} :
    let result := addHeavyOpLoop heavyOps added objectKeys
    (result.1 = true ∧ (∀ k ∈ objectKeys, k ∉ heavyOps) ∧
        ∀ k, k ∈ result.2 ↔ k ∈ heavyOps ∨ k ∈ objectKeys) ∨
      (result.1 = false ∧ ∀ k, k ∈ result.2 ↔ k ∈ heavyOps ∧ k ∉ added) := by
  induction objectKeys generalizing heavyOps added with
  | nil => exact .inl ⟨rfl, by simp [addHeavyOpLoop]⟩
  | cons objectKey objectKeys ih =>
    unfold addHeavyOpLoop
    by_cases hmem : objectKey ∈ heavyOps
    · refine .inr ⟨by simp [addHeavyOp, hmem], fun k => ?_⟩
      simp only [addHeavyOp, hmem, not_true, decide_false, Bool.false_eq_true, if_false,
        mem_foldl_erase, mem_insert]
      refine and_congr_left fun _ => ⟨?_, .inr⟩
      rintro (rfl | hk)
      · exact hmem
      · exact hk
    · simp only [addHeavyOp, hmem, not_false_iff, decide_true, if_true]
      rcases @ih (heavyOps.insert objectKey) (added ++ [objectKey]) with
        ⟨hall, hfree, hresult⟩ | ⟨hnone, hresult⟩
      · refine .inl ⟨hall, fun k hk => ?_, fun k => ?_⟩
        · rcases mem_cons.mp hk with rfl | hk
          · exact hmem
          · exact fun hk' => hfree k hk (mem_insert.mpr (.inr hk'))
        · rw [hresult, mem_insert, mem_cons]
          tauto
      · refine .inr ⟨hnone, fun k => ?_⟩
        rw [hresult, mem_insert, mem_append, mem_singleton]
        refine ⟨fun hk => ⟨hk.1.resolve_left fun heq => hk.2 (.inr heq), fun ha => hk.2 (.inl ha)⟩,
          fun hk => ⟨.inr hk.1, ?_⟩⟩
        rintro (ha | rfl)
        · exact hk.2 ha
        · exact hmem hk.1

theorem addHeavyOps_cases :
    let result := addHeavyOps heavyOps objectKeys
    (result.1 = true ∧ (∀ k ∈ objectKeys, k ∉ heavyOps) ∧
        ∀ k, k ∈ result.2 ↔ k ∈ heavyOps ∨ k ∈ objectKeys) ∨
      (result.1 = false ∧ result.2 = heavyOps) := by
  rcases @addHeavyOpLoop_cases heavyOps (OrderedSet.ofList objectKeys).elements [] with
    ⟨hall, hfree, hresult⟩ | ⟨hnone, hresult⟩
  · simp only [mem_elements, mem_ofList] at hfree hresult
    exact .inl ⟨hall, hfree, hresult⟩
  · exact .inr ⟨hnone, OrderedSet.ext fun k => by simp [addHeavyOps, hresult]⟩

end Marks

/-! ## Runs -/

variable {s s' : HeavySystem} {a : HeavyAction}

/-- Every mark is held by one operation. -/
def Inv (s : HeavySystem) : Prop := Owned { k | k ∈ s.heavyOps } s.held

theorem held_insert_self {id : Nat} {op} :
    ({ s with operations := s.operations.insert id op } : HeavySystem).held id =
      { k | op.acquired ∧ k ∈ op.objectKeys } := by
  ext k
  simp [held, find?_insert]

variable {id : Nat} {objectKeys : List Bytes} {k : Bytes}

theorem held_insert_of_ne {j : Nat} {op} (h : j ≠ id) :
    ({ s with operations := s.operations.insert id op } : HeavySystem).held j = s.held j := by
  ext k
  simp [held, find?_insert, h]

theorem held_of_find?_eq_none (h : s.operations.find? id = none) : s.held id = ∅ := by
  ext k
  simp [held, h]

section

variable (h : Inv s) (hid : s.operations.find? id = none)

include h hid

/-- An operation with a free number takes free marks. -/
theorem Inv.acquire {heavyOps} (hfree : ∀ k ∈ objectKeys, k ∉ s.heavyOps)
    (hmarks : ∀ k, k ∈ heavyOps ↔ k ∈ s.heavyOps ∨ k ∈ objectKeys) :
    Inv { heavyOps := heavyOps, operations := s.operations.insert id ⟨objectKeys, true⟩ } := by
  have hself := @held_insert_self s id ⟨objectKeys, true⟩
  refine Owned.acquire h id { k | k ∈ objectKeys } (Set.ext hmarks) ?_
    (fun j hj => held_insert_of_ne hj) hfree
  rw [held_of_find?_eq_none hid, Set.empty_union]
  simpa [held] using hself

theorem Inv.begin : Inv { s with operations := s.operations.insert id ⟨objectKeys, false⟩ } := by
  refine Owned.acquire h id ∅ (Set.union_empty _).symm ?_
    (fun j hj => held_insert_of_ne hj) fun _ hk => nomatch hk
  rw [held_insert_self, held_of_find?_eq_none hid]
  simp

theorem Inv.enter {objectKey} {consistencyType} : Inv (s.enter id objectKey consistencyType) := by
  unfold HeavySystem.enter addHeavyOp
  dsimp only
  split
  · split
    · rename_i hadded
      refine h.acquire hid (by simpa using hadded) fun k => ?_
      simp [or_comm]
    · exact h
  · exact h.begin hid

theorem Inv.transfer : Inv (s.transfer id objectKeys) := by
  unfold HeavySystem.transfer
  rcases @addHeavyOps_cases s.heavyOps objectKeys with ⟨hall, hfree, hmarks⟩ | ⟨hnone, hsame⟩
  · simp only [hall, if_true]
    exact h.acquire hid hfree hmarks
  · simp only [hnone, Bool.false_eq_true, if_false, hsame]
    exact h

end

/-- What a guard gives back is marked by its own operation. -/
theorem Inv.own {op} (h : Inv s)
    (hop : s.operations.find? id = some op) (hcond : s.guarded (.finish id))
    (hk : k ∈ op.objectKeys) (hmark : k ∈ s.heavyOps) : k ∈ s.held id := by
  by_cases hacquired : op.acquired
  · exact ⟨op, hop, hacquired, hk⟩
  · obtain ⟨_, _, hother, hheld, hmem⟩ := (h.covers k).mp hmark
    simp only [guarded, hop, Option.all_some, hacquired, Bool.false_or, List.all_eq_true,
      Bool.not_eq_true'] at hcond
    have hnone := hcond k hk
    rw [OrderedMap.any_of_find? hother (by simp [hheld, hmem])] at hnone
    cases hnone

theorem Inv.finish {id : Nat} {op} (h : Inv s)
    (hop : s.operations.find? id = some op) (hcond : s.guarded (.finish id)) :
    Inv { heavyOps := removeHeavyOp s.heavyOps op.objectKeys
          operations := s.operations.erase id } := by
  refine Owned.release h id { k | k ∈ op.objectKeys } (Set.ext fun k => mem_removeHeavyOp) ?_
    (fun j hj => ?_) fun k hk hmark => ?_
  · ext k
    simp only [held, find?_erase, hop]
    simp +contextual
  · ext k
    simp [held, find?_erase, hj]
  · exact h.own hop hcond hk hmark

theorem Inv.step (h : Inv s) (hstep : restrict guarded step s a = some s') : Inv s' := by
  obtain ⟨hcond, hstep⟩ := restrict_eq_some.mp hstep
  cases a with
  | createMeta =>
    obtain ⟨hid, hstep⟩ := ite_none_left_eq_some.mp hstep
    rw [not_isSome_iff_eq_none] at hid
    split at hstep <;> cases hstep
    · exact h.enter hid
    · exact h
  | updateMeta _ _ entry =>
    obtain ⟨hid, hstep⟩ := ite_none_left_eq_some.mp hstep
    rw [not_isSome_iff_eq_none] at hid
    cases entry with
    | none =>
      cases hstep
      exact h
    | some =>
      dsimp only at hstep
      split at hstep <;> cases hstep
      · exact h
      · exact h.enter hid
  | transferSyncDeleteRequest =>
    obtain ⟨hid, hstep⟩ := ite_none_left_eq_some.mp hstep
    rw [not_isSome_iff_eq_none] at hid
    cases hstep
    exact h.transfer hid
  | finish =>
    obtain ⟨_, hop, hs'⟩ := map_eq_some_iff.mp hstep
    cases hs'
    exact h.finish hop hcond

theorem Inv.run (h : Reaches (restrict guarded HeavySystem.step) {} s) : Inv s := by
  refine h.invariant (I := Inv) ⟨fun k => ?_, fun i j k hi => ?_⟩ fun _ _ _ hstep h => h.step hstep
  · simp [held, find?_empty]
  · simp [held, find?_empty] at hi

theorem mem_heavyOps_enter {objectKey} {consistencyType}
    (h : k ∈ s.heavyOps) : k ∈ (s.enter id objectKey consistencyType).heavyOps := by
  unfold enter addHeavyOp
  dsimp only
  split
  · split
    · exact mem_insert.mpr (.inr h)
    · exact h
  · exact h

theorem mem_heavyOps_transfer (h : k ∈ s.heavyOps) : k ∈ (s.transfer id objectKeys).heavyOps := by
  unfold transfer
  rcases @addHeavyOps_cases s.heavyOps objectKeys with ⟨hall, -, hmarks⟩ | ⟨hnone, hsame⟩
  · simp only [hall, if_true]
    exact (hmarks k).mpr (.inl h)
  · simp only [hnone, Bool.false_eq_true, if_false, hsame]
    exact h

theorem gone_cases (hstep : step s a = some s') (hmark : k ∈ s.heavyOps) (hgone : k ∉ s'.heavyOps) :
    ∃ id op, a = .finish id ∧ s.operations.find? id = some op ∧ k ∈ op.objectKeys := by
  cases a with
  | createMeta =>
    obtain ⟨-, hstep⟩ := ite_none_left_eq_some.mp hstep
    split at hstep <;> cases hstep
    · exact absurd (mem_heavyOps_enter hmark) hgone
    · exact absurd hmark hgone
  | updateMeta _ _ entry =>
    obtain ⟨-, hstep⟩ := ite_none_left_eq_some.mp hstep
    cases entry with
    | none =>
      cases hstep
      exact absurd hmark hgone
    | some =>
      dsimp only at hstep
      split at hstep <;> cases hstep
      · exact absurd hmark hgone
      · exact absurd (mem_heavyOps_enter hmark) hgone
  | transferSyncDeleteRequest =>
    obtain ⟨-, hstep⟩ := ite_none_left_eq_some.mp hstep
    cases hstep
    exact absurd (mem_heavyOps_transfer hmark) hgone
  | finish id =>
    obtain ⟨op, hop, hs'⟩ := map_eq_some_iff.mp hstep
    cases hs'
    refine ⟨id, op, rfl, hop, ?_⟩
    by_contra hk
    exact hgone (mem_removeHeavyOp.mpr ⟨hmark, hk⟩)

/-- Two operations that have taken the mark of a key are the same one, and a mark is given back
by the operation that took it. -/
theorem heavy_operations_exclude_each_other (h : Reaches (restrict guarded step) {} s) :
    (∀ i j k, k ∈ s.held i → k ∈ s.held j → i = j) ∧
      ∀ a s' k, restrict guarded step s a = some s' → k ∈ s.heavyOps → k ∉ s'.heavyOps →
        ∃ id, a = .finish id ∧ k ∈ s.held id := by
  have hinv := Inv.run h
  refine ⟨hinv.unique, fun a s' k hstep hmark hgone => ?_⟩
  obtain ⟨hcond, hstep⟩ := restrict_eq_some.mp hstep
  obtain ⟨id, _, rfl, hop, hk⟩ := gone_cases hstep hmark hgone
  exact ⟨id, rfl, hinv.own hop hcond hk hmark⟩

/-- A causal create, a delete of other keys in the pool and a plain create of a third key. -/
theorem heavy_operations_exclude_each_other_of_three :
    ∃ s, Reaches (restrict guarded step) {} s ∧ [1] ∈ s.held 1 ∧ [2] ∈ s.held 2 ∧
      (∀ i j k, k ∈ s.held i → k ∈ s.held j → i = j) ∧
      ∀ a s' k, restrict guarded step s a = some s' → k ∈ s.heavyOps → k ∉ s'.heavyOps →
        ∃ id, a = .finish id ∧ k ∈ s.held id := by
  have hrun : (run (restrict guarded step) {} [.createMeta 1 [1] { consistencyType := .causal },
        .transferSyncDeleteRequest 2 [[2], [3]], .transferSyncDeleteRequest 3 [[4], [1]],
        .createMeta 4 [5] {}, .finish 4]).any fun s =>
      s.operations.find? 1 = some ⟨[[1]], true⟩ ∧
        s.operations.find? 2 = some ⟨[[2], [3]], true⟩ := by decide +kernel
  obtain ⟨s, hs, h1, h2⟩ := exists_reaches _ hrun
  exact ⟨s, hs, ⟨_, h1, rfl, by simp⟩, ⟨_, h2, rfl, by simp⟩,
    heavy_operations_exclude_each_other hs⟩

/-- The guard of a plain create gives back the mark of a causal create of the same key, and a
second causal create takes it while the first is under way. -/
theorem heavy_operations_overlap : ∃ s, Reaches step {} s ∧ [1] ∈ s.held 1 ∧ [1] ∈ s.held 3 ∧
      ∃ s₀ s₁, Reaches step {} s₀ ∧ step s₀ (.finish 2) = some s₁ ∧ [1] ∈ s₀.heavyOps ∧
        [1] ∉ s₁.heavyOps ∧ [1] ∉ s₀.held 2 := by
  have hrun : (run step {}
      [.createMeta 1 [1] { consistencyType := .causal }, .createMeta 2 [1] {}, .finish 2,
        .createMeta 3 [1] { consistencyType := .causal }]).any fun s =>
      s.operations.find? 1 = some ⟨[[1]], true⟩ ∧ s.operations.find? 3 = some ⟨[[1]], true⟩ := by
    decide +kernel
  have hrelease : (run step {}
      [.createMeta 1 [1] { consistencyType := .causal }, .createMeta 2 [1] {}]).any fun s₀ =>
      s₀.operations.find? 2 = some ⟨[[1]], false⟩ ∧ [1] ∈ s₀.heavyOps ∧
        (step s₀ (.finish 2)).any fun s₁ => [1] ∉ s₁.heavyOps := by
    decide +kernel
  obtain ⟨s, hs, h1, h3⟩ := exists_reaches _ hrun
  obtain ⟨s₀, hs₀, h2, hmark, hgone⟩ := exists_reaches _ hrelease
  obtain ⟨s₁, hstep, hs₁⟩ := (any_eq_true _ _).mp hgone
  refine ⟨s, hs, ⟨_, h1, rfl, by simp⟩, ⟨_, h3, rfl, by simp⟩, s₀, s₁, hs₀, hstep, hmark,
    of_decide_eq_true hs₁, ?_⟩
  rintro ⟨_, hop, hacquired, -⟩
  rw [h2] at hop
  cases hop
  cases hacquired

end HeavySystem

end Datasystem.Master
