import Datasystem.Lib.Marks
import Datasystem.Lib.OrderedMap
import Datasystem.Lib.StateMachine
import Datasystem.Common.Bytes

/-! The marks of objects that are being deleted. A delete marks each object it has walked to and
takes the marks off when `NotifyDeleteAndClearMeta` ends; the marks are one set for all deletes,
and a delete that the pool drops before that leaves them. What a walk comes to is an input, since
the tables may change under it. -/

namespace Datasystem.Master

open Common Lib StateMachine OrderedMap

/-- Where a delete comes from: `DeleteAllCopyMeta`, `GDecreaseRef` or a pass over expired keys. -/
inductive DeleteOrigin
  | request
  | decrease
  | expiry
deriving DecidableEq

/-- The section a delete is about to begin. -/
inductive DeleteStage
  /-- `GetAndClearAllUnKeepMetas` has these dead objects left. -/
  | marking (deadIds : List Bytes)
  /-- The rest is a task of the pool. -/
  | pooled
  /-- `NotifyDeleteAndClearMeta`, up to its guard. -/
  | clearing
  /-- The guard, which takes the lock anew for each object. -/
  | unmarking (rest : List Bytes)

structure DeleteCall where
  origin : DeleteOrigin
  /-- The keys of `sendAllDelObjs`. -/
  sendAllDelObjs : OrderedSet Bytes := .empty
  stage : DeleteStage

structure DeleteMarks where
  isDeletingObjs : OrderedSet Bytes := .empty
  calls : OrderedMap Nat DeleteCall := .empty

/-- What a delete learns at a section. -/
structure PoolAnswer where
  /-- A worker has to be notified, and the caller has a stream that can be answered later. -/
  transferred : Bool := false
  /-- `AddHeavyOp` finds the mark of another operation. -/
  refused : Bool := false
  /-- The task is begun when the time of its request has gone by. -/
  late : Bool := false

inductive MarkAction
  /-- The walk of a delete is over. -/
  | find (id : Nat) (origin : DeleteOrigin) (deadIds : List Bytes)
  | next (id : Nat) (answer : PoolAnswer)

namespace DeleteMarks

variable (s : DeleteMarks)

def put (id : Nat) (c : DeleteCall) : DeleteMarks :=
  { s with calls := s.calls.insert id c }

def finish (id : Nat) : DeleteMarks := { s with calls := s.calls.erase id }

def next (id : Nat) (c : DeleteCall) (answer : PoolAnswer) : DeleteMarks :=
  match c.stage with
  | .marking (deadId :: deadIds) =>
    { s with isDeletingObjs := s.isDeletingObjs.insert deadId }.put id { c with
      sendAllDelObjs := c.sendAllDelObjs.insert deadId
      stage := .marking deadIds }
  | .marking [] =>
    if answer.transferred && c.origin ≠ .expiry then
      -- `TransferSyncDeleteRequest` asks for the heavy operation marks, `AsyncNotifyWorkerGDec`
      -- does not.
      if answer.refused && c.origin = .request then s.finish id
      else s.put id { c with stage := .pooled }
    else s.put id { c with stage := .clearing }
  | .pooled => if answer.late then s.finish id else s.put id { c with stage := .clearing }
  | .clearing => s.put id { c with stage := .unmarking c.sendAllDelObjs.elements }
  | .unmarking (objectKey :: rest) =>
    { s with isDeletingObjs := s.isDeletingObjs.erase objectKey }.put id
      { c with stage := .unmarking rest }
  | .unmarking [] => s.finish id

def step : MarkAction → Option DeleteMarks
  | .find id origin deadIds =>
    if (s.calls.find? id).isSome then none
    else some (s.put id { origin := origin, stage := .marking deadIds })
  | .next id answer => (s.calls.find? id).map fun c => s.next id c answer

end DeleteMarks

namespace DeleteCall

/-- The objects a delete has marked and not taken the mark off. -/
def markedKeys (c : DeleteCall) : List Bytes :=
  match c.stage with
  | .unmarking rest => rest
  | _ => c.sendAllDelObjs.elements

/-- The delete ends before its guard. -/
def drops (c : DeleteCall) (answer : PoolAnswer) : Bool :=
  match c.stage with
  | .marking [] => answer.transferred && answer.refused && c.origin = .request
  | .pooled => answer.late
  | _ => false

end DeleteCall

namespace DeleteMarks

/-- No delete is dropped by the pool, and none marks an object that another one has marked. -/
def separate (s : DeleteMarks) : MarkAction → Bool
  | .next id answer => (s.calls.find? id).all fun c =>
    !c.drops answer &&
      match c.stage with
      | .marking (deadId :: _) => !(s.calls.erase id).any fun other => deadId ∈ other.markedKeys
      | _ => true
  | .find _ _ _ => true

/-- The objects that a delete has marked. -/
def held (s : DeleteMarks) (id : Nat) : Set Bytes :=
  { k | ∃ c, s.calls.find? id = some c ∧ k ∈ c.markedKeys }

/-- The marks are those of the deletes in progress, and each is taken off once. -/
structure Inv (s : DeleteMarks) : Prop where
  owned : Owned { k | k ∈ s.isDeletingObjs } s.held
  nodup : ∀ id c, s.calls.find? id = some c → c.markedKeys.Nodup

variable {s s' : DeleteMarks} {id j : Nat} {c c' : DeleteCall} {isDeletingObjs : OrderedSet Bytes}

theorem held_of_find? (h : s.calls.find? id = some c) : s.held id = { k | k ∈ c.markedKeys } := by
  ext k
  simp [held, h]

theorem held_put_of_ne (h : j ≠ id) : (s.put id c).held j = s.held j := by
  ext k
  simp [held, put, find?_insert, h]

theorem find?_put_self : (s.put id c).calls.find? id = some c := by
  simp [put, find?_insert]

/-- A section of a delete, given what it does to the marks. -/
theorem Inv.put (h : Inv s) (howned : Owned { k | k ∈ isDeletingObjs }
      ({ s with isDeletingObjs := isDeletingObjs }.put id c').held)
    (hnodup : c'.markedKeys.Nodup) :
    Inv ({ s with isDeletingObjs := isDeletingObjs }.put id c') := by
  refine ⟨howned, fun j c hc => ?_⟩
  rw [DeleteMarks.put, find?_insert] at hc
  split at hc
  · cases hc
    exact hnodup
  · exact h.nodup j c hc

theorem Inv.put_quiet (h : Inv s) (hheld : s.held id = { k | k ∈ c'.markedKeys })
    (hnodup : c'.markedKeys.Nodup) : Inv (s.put id c') := by
  refine h.put ?_ hnodup
  have hsame : (s.put id c').held = s.held := by
    funext j
    by_cases hj : j = id
    · subst hj
      rw [hheld, held_of_find? find?_put_self]
    · exact held_put_of_ne hj
  exact hsame ▸ h.owned

theorem Inv.mark {deadId} {deadIds} (h : Inv s)
    (hc : s.calls.find? id = some c) (hstage : c.stage = .marking (deadId :: deadIds))
    (hfree : ¬(s.calls.erase id).any fun other => deadId ∈ other.markedKeys) :
    Inv ({ s with isDeletingObjs := s.isDeletingObjs.insert deadId }.put id
      { c with sendAllDelObjs := c.sendAllDelObjs.insert deadId, stage := .marking deadIds }) := by
  have hheld : s.held id = { k | k ∈ c.sendAllDelObjs } := by
    rw [held_of_find? hc]
    ext k
    simp [DeleteCall.markedKeys, hstage, OrderedSet.mem_elements]
  -- a mark that is there is the delete's own
  have hown : deadId ∈ s.isDeletingObjs → deadId ∈ c.sendAllDelObjs := by
    intro hmark
    obtain ⟨j, c', hc', hk⟩ := (h.owned.covers deadId).mp hmark
    by_cases hj : j = id
    · subst hj
      have hself : deadId ∈ s.held j := ⟨c', hc', hk⟩
      rwa [hheld] at hself
    · refine absurd (any_of_find? (k := j) (v := c') ?_ (by simpa using hk)) hfree
      rw [find?_erase, if_neg hj, hc']
  have hmarked : deadId ∈ c.sendAllDelObjs → deadId ∈ s.isDeletingObjs := fun hk =>
    (h.owned.covers deadId).mpr ⟨id, hheld ▸ hk⟩
  refine h.put ?_ (keys_nodup _)
  refine h.owned.acquire id { k | k = deadId ∧ k ∉ c.sendAllDelObjs } ?_ ?_
    (fun j hj => held_put_of_ne hj) ?_
  · ext k
    simp only [OrderedSet.mem_insert, Set.mem_union, Set.mem_ofPred]
    by_cases hk : k = deadId
    · subst hk
      tauto
    · simp [hk]
  · rw [hheld, held_of_find? find?_put_self]
    ext k
    simp only [DeleteCall.markedKeys, OrderedSet.mem_elements, OrderedSet.mem_insert,
      Set.mem_union, Set.mem_ofPred]
    tauto
  · rintro k ⟨rfl, hk⟩ hmark
    exact hk (hown hmark)

theorem Inv.unmark {objectKey} {rest} (h : Inv s)
    (hc : s.calls.find? id = some c) (hstage : c.stage = .unmarking (objectKey :: rest)) :
    Inv ({ s with isDeletingObjs := s.isDeletingObjs.erase objectKey }.put id
      { c with stage := .unmarking rest }) := by
  have hkeys : c.markedKeys = objectKey :: rest := by simp [DeleteCall.markedKeys, hstage]
  obtain ⟨hnot, hrest⟩ := List.nodup_cons.mp (hkeys ▸ h.nodup id c hc)
  refine h.put ?_ hrest
  refine h.owned.release id {objectKey} ?_ ?_ (fun j hj => held_put_of_ne hj) ?_
  · ext k
    simp [and_comm]
  · rw [held_of_find? hc, held_of_find? find?_put_self, hkeys]
    ext k
    by_cases hk : k = objectKey
    · subst hk
      simpa [DeleteCall.markedKeys] using hnot
    · simp [DeleteCall.markedKeys, hk]
  · rintro k rfl _
    exact ⟨c, hc, hkeys ▸ List.mem_cons_self⟩

theorem Inv.finish (h : Inv s) (hnone : s.held id = ∅) : Inv (s.finish id) := by
  have hheld : (s.finish id).held = s.held := by
    funext j
    ext k
    by_cases hj : j = id
    · subst hj
      rw [hnone]
      simp [held, DeleteMarks.finish, find?_erase]
    · simp [held, DeleteMarks.finish, find?_erase, hj]
  refine ⟨hheld ▸ h.owned, fun j c hc => ?_⟩
  rw [DeleteMarks.finish, find?_erase] at hc
  split at hc
  · cases hc
  · exact h.nodup j c hc

theorem Inv.next {answer} (h : Inv s) (hc : s.calls.find? id = some c)
    (hcond : s.separate (.next id answer)) : Inv (s.next id c answer) := by
  simp only [separate, hc, Option.all_some, Bool.and_eq_true, Bool.not_eq_true'] at hcond
  obtain ⟨hdrops, hfree⟩ := hcond
  have hself := held_of_find? hc
  have hnodup := h.nodup id c hc
  unfold DeleteMarks.next
  split
  · rename_i deadId deadIds hstage
    rw [hstage] at hfree
    exact h.mark hc hstage (by simpa using hfree)
  all_goals
    rename_i hstage
    simp only [DeleteCall.markedKeys, hstage] at hself hnodup
    simp only [DeleteCall.drops, hstage] at hdrops
  · split
    · split
      · simp_all
      · exact h.put_quiet hself hnodup
    · exact h.put_quiet hself hnodup
  · rw [if_neg (by simp [hdrops])]
    exact h.put_quiet hself hnodup
  · exact h.put_quiet hself hnodup
  · exact h.unmark hc hstage
  · exact h.finish (by simpa using hself)

theorem Inv.step {action} (h : Inv s)
    (hstep : restrict separate DeleteMarks.step s action = some s') : Inv s' := by
  obtain ⟨hcond, hstep⟩ := restrict_eq_some.mp hstep
  cases action with
  | find id origin deadIds =>
    obtain ⟨hid, hstep⟩ := Option.ite_none_left_eq_some.mp hstep
    cases hstep
    refine h.put_quiet ?_ List.nodup_nil
    simp_all [held, DeleteCall.markedKeys]
  | next =>
    obtain ⟨_, hc, rfl⟩ := Option.map_eq_some_iff.mp hstep
    exact h.next hc hcond

theorem Inv.run (h : Reaches (restrict separate DeleteMarks.step) {} s) : Inv s := by
  refine h.invariant ⟨⟨fun k => ?_, ?_⟩, ?_⟩ fun _ _ _ hstep h => h.step hstep
  · simp [held]
  · simp [held]
  · simp

/-- In every run in which the pool drops no delete and no delete marks an object that another one
in progress has marked, the marks are those of the deletes in progress. -/
theorem marks_cover_deletes_in_progress (s : DeleteMarks)
    (h : Reaches (restrict separate DeleteMarks.step) {} s) :
    (∀ k, k ∈ s.isDeletingObjs ↔ ∃ id c, s.calls.find? id = some c ∧ k ∈ c.markedKeys) ∧
      ((∀ id, s.calls.find? id = none) → ∀ k, k ∉ s.isDeletingObjs) := by
  have hcovers := (Inv.run h).owned.covers
  refine ⟨hcovers, fun hnone k hk => ?_⟩
  obtain ⟨id, _, hc, -⟩ := (hcovers k).mp hk
  cases (hnone id).symm.trans hc

/-- A request has marked an object with one that is nested in it, and waits in the pool, and a
delete of another object is over. -/
theorem marks_cover_deletes_in_progress_of_two :
    ∃ s, Reaches (restrict separate DeleteMarks.step) {} s ∧ [1] ∈ s.isDeletingObjs ∧
      (∀ k, k ∈ s.isDeletingObjs ↔ ∃ id c, s.calls.find? id = some c ∧ k ∈ c.markedKeys) ∧
      ((∀ id, s.calls.find? id = none) → ∀ k, k ∉ s.isDeletingObjs) := by
  have hrun : (run (restrict separate DeleteMarks.step) {}
      ([.find 1 .request [[2], [1]], .find 2 .expiry [[3]], .next 1 {}, .next 2 {}, .next 1 {},
        .next 1 { transferred := true }] ++ List.replicate 4 (.next 2 {}))).any fun s =>
      [1] ∈ s.isDeletingObjs := by decide +kernel
  obtain ⟨s, hs, hp⟩ := exists_reaches _ hrun
  exact ⟨s, hs, hp, marks_cover_deletes_in_progress s hs⟩

/-- A request whose heavy operation is refused, and two deletes whose tasks come too late, leave
their marks, and the end of one delete takes off the mark of another of the same key. -/
theorem marks_outlive_deletes :
    (∃ s, Reaches DeleteMarks.step {} s ∧ s.calls.keys = [] ∧ [1] ∈ s.isDeletingObjs ∧
      [2] ∈ s.isDeletingObjs ∧ [3] ∈ s.isDeletingObjs) ∧
    ∃ s c, Reaches DeleteMarks.step {} s ∧ s.calls.find? 2 = some c ∧ [1] ∈ c.markedKeys ∧
      [1] ∉ s.isDeletingObjs := by
  have htwo : (run DeleteMarks.step {}
      ([.find 1 .request [[1]], .find 2 .expiry [[1]], .next 1 {}, .next 2 {}] ++
        List.replicate 3 (.next 1 {}))).any fun s =>
      (s.calls.find? 2).any ([1] ∈ ·.markedKeys) ∧ [1] ∉ s.isDeletingObjs := by decide +kernel
  refine ⟨exists_reaches [.find 1 .request [[1]], .next 1 {},
    .next 1 { transferred := true, refused := true }, .find 2 .request [[2]], .next 2 {},
    .next 2 { transferred := true }, .next 2 { late := true }, .find 3 .decrease [[3]], .next 3 {},
    .next 3 { transferred := true }, .next 3 { late := true }] (by decide +kernel), ?_⟩
  obtain ⟨s, hs, hmarks, hgone⟩ := exists_reaches _ htwo
  obtain ⟨c, hc, hmark⟩ := (Option.any_eq_true _ _).mp hmarks
  exact ⟨s, c, hs, hc, of_decide_eq_true hmark, hgone⟩

end DeleteMarks

end Datasystem.Master
