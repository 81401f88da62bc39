import Datasystem.Common.Status
import Datasystem.Lib.OrderedMap
import Datasystem.Lib.StateMachine

/-! Forced evictions beside an eviction task that runs. There is one task at a time: who sets
`isDone_` to false submits it. A forced need that comes second is merged into a slot, which a task
takes over when it starts, or submits again when it ends. -/

namespace Datasystem.Worker

open Lib StateMachine

/-- Where a thread is, before its next step on what the threads share. -/
inductive EvictStage
  | evicting (needSize : Nat) (forceEvict : Bool)
  /-- `Evict` has won the first exchange of `isDone_`. -/
  | claimed (needSize : Nat) (forceEvict : Bool)
  /-- `Evict` has lost it. -/
  | merging (needSize : Nat)
  | retrying (needSize : Nat)
  | submitting (needSize : Nat) (forceEvict : Bool)
  /-- `EvictionTask` in the pool, up to the merge of the pending need. -/
  | starting (needSize : Nat) (forceEvict : Bool)
  | running (needSize : Nat) (forceEvict : Bool)
  /-- `ResubmitPendingForceEviction` -/
  | taking
  | claiming (pendingNeed : Nat)
  | puttingBack (pendingNeed : Nat)
deriving DecidableEq

namespace EvictStage

/-- The task of this thread is claimed. -/
def claims : EvictStage → Bool
  | claimed _ _ | submitting _ _ | starting _ _ | running _ _ => true
  | _ => false

/-- The thread is going to look whether a task can be submitted. -/
def looks : EvictStage → Bool
  | retrying _ | taking => true
  | _ => false

/-- The thread hands on a forced need that is at least as large. -/
def carries (n : Nat) : EvictStage → Bool
  | evicting m force | claimed m force | submitting m force | starting m force => force ∧ n ≤ m
  | merging m | claiming m | puttingBack m => n ≤ m
  | retrying _ | running _ _ | taking => false

def putsBack : EvictStage → Bool
  | puttingBack _ => true
  | _ => false

def ends : EvictStage → Bool
  | running _ _ => true
  | _ => false

end EvictStage

/-- What a step meets. -/
structure EvictWorld where
  stable : Bool := true
  cancelled : Bool := false
  expired : Bool := false
  accepted : Bool := true
deriving DecidableEq

/-- The shared state and the threads, with the forced needs that no task has covered so far: no
task with `forceEvict` and at least their size has run since they came. -/
structure ForceEviction where
  isDone : Bool := true
  pendingForceNeed : Option Nat := none
  threads : OrderedMap Nat EvictStage := .empty
  uncovered : List Nat := []

inductive EvictAction
  | evict (id needSize : Nat) (forceEvict : Bool)
  | next (id : Nat) (world : EvictWorld)

namespace ForceEviction

variable (s : ForceEviction)

def put (id : Nat) : Option EvictStage → ForceEviction
  | some t => { s with threads := s.threads.insert id t }
  | none => { s with threads := s.threads.erase id }

def mergePendingForceNeed (needSize : Nat) : ForceEviction :=
  { s with pendingForceNeed := some ((s.pendingForceNeed.getD 0).max needSize) }

/-- The size and the force that a task runs with. -/
def mergePendingForceIntoTask (expired : Bool) (needSize : Nat) (forceEvict : Bool) : Nat × Bool :=
  match s.pendingForceNeed with
  | none => (needSize, forceEvict)
  | some need => if expired then (needSize, forceEvict) else (needSize.max need, true)

def runTask (needSize : Nat) (forceEvict : Bool) : ForceEviction :=
  { s with
    pendingForceNeed := none
    uncovered := if forceEvict then s.uncovered.filter (needSize < ·) else s.uncovered }

/-- A step of a thread, and where it goes on. -/
def advance (world : EvictWorld) : EvictStage → ForceEviction × Option EvictStage
  | .evicting needSize forceEvict =>
    if ¬world.stable then (s, none)
    else if s.isDone then ({ s with isDone := false }, some (.claimed needSize forceEvict))
    else if forceEvict then (s, some (.merging needSize))
    else (s, none)
  | .claimed needSize forceEvict =>
    if world.stable then (s, some (.submitting needSize forceEvict))
    else ({ s with isDone := true }, none)
  | .merging needSize => (s.mergePendingForceNeed needSize, some (.retrying needSize))
  | .retrying needSize =>
    if s.isDone then ({ s with isDone := false }, some (.submitting needSize true))
    else (s, none)
  | .submitting needSize forceEvict =>
    if world.accepted then (s, some (.starting needSize forceEvict))
    else ({ s with isDone := true }, none)
  | .starting needSize forceEvict =>
    if world.stable then
      let task := s.mergePendingForceIntoTask world.expired needSize forceEvict
      (s.runTask task.1 task.2, some (.running task.1 task.2))
    else ({ s with isDone := true }, some .taking)
  | .running _ _ => ({ s with isDone := true }, some .taking)
  | .taking =>
    if ¬world.stable ∨ world.cancelled then (s, none)
    else
      ({ s with pendingForceNeed := none },
        if world.expired then none else s.pendingForceNeed.map .claiming)
  | .claiming pendingNeed =>
    if s.isDone then ({ s with isDone := false }, some (.submitting pendingNeed true))
    else (s, some (.puttingBack pendingNeed))
  | .puttingBack pendingNeed => (s.mergePendingForceNeed pendingNeed, none)

def step : EvictAction → Option ForceEviction
  | .evict id needSize forceEvict =>
    if (s.threads.find? id).isNone then
      some ({ s with
        uncovered := if forceEvict then needSize :: s.uncovered else s.uncovered }.put id
          (some (.evicting needSize forceEvict)))
    else none
  | .next id world => (s.threads.find? id).map fun stage =>
      let next := s.advance world stage
      next.1.put id next.2

/-- The phase is stable, nothing is cancelled, expires or is refused, and no task ends while a
thread is about to put a need back. -/
def calm : EvictAction → Bool
  | .evict _ _ _ => true
  | .next id world => world = {} ∧
    ((s.threads.find? id).any (·.ends) → ¬s.threads.any (·.putsBack))

/-! ## The invariant -/

structure Inv (s : ForceEviction) : Prop where
  claimed : s.isDone = false ↔ ∃ id t, s.threads.find? id = some t ∧ t.claims
  sole : ∀ id id' t t', s.threads.find? id = some t → s.threads.find? id' = some t' → t.claims →
    t'.claims → id = id'
  looked : s.pendingForceNeed.isSome → s.isDone = false ∨
    ∃ id t, s.threads.find? id = some t ∧ t.looks
  back : ∀ id t, s.threads.find? id = some t → t.putsBack → s.isDone = false
  carried : ∀ n ∈ s.uncovered, (∃ m, s.pendingForceNeed = some m ∧ n ≤ m) ∨
    ∃ id t, s.threads.find? id = some t ∧ t.carries n

variable {s} {s' : ForceEviction} {id : Nat}

theorem find?_put {id' : Nat} {t : Option EvictStage} :
    (s.put id t).threads.find? id' = if id' = id then t else s.threads.find? id' := by
  cases t with
  | none => exact OrderedMap.find?_erase _ _ _
  | some => exact OrderedMap.find?_insert _ _ _ _

@[simp] theorem isDone_put {t} : (s.put id t).isDone = s.isDone := by cases t <;> rfl

@[simp] theorem pendingForceNeed_put {t} :
    (s.put id t).pendingForceNeed = s.pendingForceNeed := by cases t <;> rfl

@[simp] theorem uncovered_put {t} : (s.put id t).uncovered = s.uncovered := by cases t <;> rfl

attribute [local grind] EvictStage.claims EvictStage.looks EvictStage.carries EvictStage.putsBack

/-- The invariant after a step of a thread, with the table at that thread written out. -/
theorem inv_put {t : Option EvictStage} : Inv (s.put id t) ↔
    (s.isDone = false ↔ ∃ id' t', (if id' = id then t else s.threads.find? id') = some t' ∧
      t'.claims) ∧
    (∀ id₁ id₂ t₁ t₂, (if id₁ = id then t else s.threads.find? id₁) = some t₁ →
      (if id₂ = id then t else s.threads.find? id₂) = some t₂ → t₁.claims → t₂.claims → id₁ = id₂) ∧
    (s.pendingForceNeed.isSome → s.isDone = false ∨
      ∃ id' t', (if id' = id then t else s.threads.find? id') = some t' ∧ t'.looks) ∧
    (∀ id' t', (if id' = id then t else s.threads.find? id') = some t' → t'.putsBack →
      s.isDone = false) ∧
    ∀ n ∈ s.uncovered, (∃ m, s.pendingForceNeed = some m ∧ n ≤ m) ∨
      ∃ id' t', (if id' = id then t else s.threads.find? id') = some t' ∧ t'.carries n := by
  constructor
  · rintro ⟨hclaims, hsole, hlooks, hback, hcarried⟩
    simp only [find?_put, isDone_put, pendingForceNeed_put, uncovered_put] at *
    exact ⟨hclaims, hsole, hlooks, hback, hcarried⟩
  · rintro ⟨hclaims, hsole, hlooks, hback, hcarried⟩
    constructor <;> simpa only [find?_put, isDone_put, pendingForceNeed_put, uncovered_put]

/-- A task covers its own need, if it is forced, and the pending one. -/
theorem mergePendingForceIntoTask_covers (s : ForceEviction) (needSize forceEvict) :
    let task := s.mergePendingForceIntoTask false needSize forceEvict
    (forceEvict → task.2 ∧ needSize ≤ task.1) ∧
      ∀ need, s.pendingForceNeed = some need → task.2 ∧ need ≤ task.1 := by
  unfold mergePendingForceIntoTask
  split <;> simp_all

theorem Inv.advance {t} (h : Inv s) (ht : s.threads.find? id = some t)
    (hends : t.ends → ∀ id' t', s.threads.find? id' = some t' → ¬t'.putsBack) :
    Inv ((s.advance {} t).1.put id (s.advance {} t).2) := by
  obtain ⟨hclaimed, hsole, hlooked, hback, hcarried⟩ := h
  rw [inv_put]
  cases t with
  | evicting needSize forceEvict | claimed needSize forceEvict | retrying needSize
  | submitting needSize forceEvict | claiming pendingNeed =>
    simp only [ForceEviction.advance]
    grind
  | merging needSize | puttingBack pendingNeed =>
    simp only [ForceEviction.advance, mergePendingForceNeed]
    grind
  | starting needSize forceEvict =>
    have hcovers := s.mergePendingForceIntoTask_covers needSize forceEvict
    simp only [ForceEviction.advance, runTask]
    generalize s.mergePendingForceIntoTask false needSize forceEvict = task at *
    grind
  | running needSize forceEvict =>
    -- nobody puts a need back, so nobody relies on this task any more
    have hnobody := hends rfl
    simp only [ForceEviction.advance]
    grind
  | taking =>
    simp only [ForceEviction.advance]
    cases hpending : s.pendingForceNeed <;> grind

theorem Inv.evict {needSize : Nat} {forceEvict : Bool} (h : Inv s)
    (hid : s.threads.find? id = none) :
    Inv ({ s with uncovered := if forceEvict then needSize :: s.uncovered else s.uncovered }.put id
      (some (.evicting needSize forceEvict))) := by
  obtain ⟨hclaims, hsole, hlooked, hback, hcarried⟩ := h
  rw [inv_put]
  refine ⟨by grind, by grind, by grind, by grind, fun n hn => ?_⟩
  by_cases hn' : n ∈ s.uncovered
  · have := hcarried n hn'
    grind
  · exact .inr ⟨id, _, if_pos rfl, by grind⟩

theorem Inv.step {a} (h : Inv s) (hstep : restrict calm step s a = some s') : Inv s' := by
  obtain ⟨hcalm, hstep⟩ := restrict_eq_some.mp hstep
  cases a with
  | evict =>
    obtain ⟨hid, hstep⟩ := Option.ite_none_right_eq_some.mp hstep
    obtain rfl := Option.some.inj hstep
    exact h.evict (Option.isNone_iff_eq_none.mp hid)
  | next id =>
    obtain ⟨t, ht, rfl⟩ := Option.map_eq_some_iff.mp hstep
    obtain ⟨rfl, hends⟩ := of_decide_eq_true hcalm
    have hnext : Inv ((s.advance {} t).1.put id (s.advance {} t).2) := by
      refine h.advance ht fun hend id' t' ht' hback => ?_
      exact hends (by simp [ht, hend]) (OrderedMap.any_of_find? ht' hback)
    exact hnext

theorem inv_init : Inv {} := by constructor <;> simp

/-- In calm runs one task at a time is claimed, and once all calls and tasks are over no forced
need is pending or has not been covered. -/
theorem forced_need_not_stranded (h : Reaches (restrict calm step) {} s) :
    (∀ id id' t t', s.threads.find? id = some t → s.threads.find? id' = some t' → t.claims →
      t'.claims → id = id') ∧
    (s.isDone → s.threads.keys = [] → s.pendingForceNeed = none ∧ s.uncovered = []) := by
  have hinv : Inv s := h.invariant inv_init fun _ _ _ hstep h => h.step hstep
  refine ⟨hinv.sole, fun hdone hidle => ?_⟩
  have hnobody : ∀ id t, s.threads.find? id ≠ some t := by
    intro id t ht
    have hmem := OrderedMap.mem_keys_iff.mpr (Option.isSome_iff_exists.mpr ⟨t, ht⟩)
    simp [hidle] at hmem
  have hpending : s.pendingForceNeed = none := by
    by_contra hsome
    rcases hinv.looked (Option.isSome_iff_ne_none.mpr hsome) with hrunning | ⟨id, t, ht, -⟩
    · simp [hdone] at hrunning
    · exact hnobody id t ht
  refine ⟨hpending, List.eq_nil_iff_forall_not_mem.mpr fun n hn => ?_⟩
  rcases hinv.carried n hn with ⟨m, hm, -⟩ | ⟨id, t, ht, -⟩
  · simp [hpending] at hm
  · exact hnobody id t ht

/-- A forced need that comes while a task runs is submitted again when the task ends. -/
theorem forced_need_not_stranded_of_two : ∃ s, Reaches (restrict calm step) {} s ∧
    s.pendingForceNeed = none ∧ s.uncovered = [] := by
  have hrun : (run (restrict calm step) {} ([.evict 1 3 false, .next 1 {}, .next 1 {}, .next 1 {},
      .next 1 {}, .evict 2 5 true] ++ List.replicate 3 (.next 2 {}) ++
        List.replicate 7 (.next 1 {}))).any fun s =>
      s.isDone ∧ s.threads.keys = [] := by decide +kernel
  obtain ⟨s, hs, hdone, hidle⟩ := exists_reaches _ hrun
  exact ⟨s, hs, (forced_need_not_stranded hs).2 hdone hidle⟩

/-- A task that was submitted by another call begins and ends between the failed exchange of
`ResubmitPendingForceEviction` and its merge: the need is put back for nobody. -/
theorem forced_need_stranded : ∃ s, Reaches step {} s ∧ s.isDone ∧ s.threads.keys = [] ∧
    s.pendingForceNeed = some 5 ∧ s.uncovered = [5] := by
  exact exists_reaches ([.evict 1 3 false, .next 1 {}, .next 1 {}, .next 1 {}, .next 1 {},
    .evict 2 5 true] ++ List.replicate 3 (.next 2 {}) ++ [.next 1 {}, .next 1 {},
    .evict 3 1 false, .next 3 {}, .next 1 {}] ++ List.replicate 5 (.next 3 {}) ++ [.next 1 {}])
    (by decide +kernel)

end ForceEviction

end Datasystem.Worker
