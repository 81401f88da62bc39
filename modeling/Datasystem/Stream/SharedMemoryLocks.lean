import Datasystem.Lib.StateMachine

/-! `SafeShmLock` and `SharedMemViewLock` on one 32-bit word in shared memory. Bit 0 is the writer
bit, bits 1 to 15 count readers and registered waiters, and bits 16 to 31 hold the tagged lock id
of the holder. Each process adds its own share to the word, which is the sum of the shares. -/

namespace Datasystem.Stream

open Lib StateMachine Function Finset

/-! ## The lock word -/

def lockIdTag : Nat := 0x8000

def fetchAdd (word n : Nat) : Nat := (word + n) % 2 ^ 32

def fetchSub (word n : Nat) : Nat := (word + 2 ^ 32 - n) % 2 ^ 32

/-- `val & WAIT_MASK`: bits 1 to 15. -/
def waitPart (val : Nat) : Nat := val % 2 ^ 16 / 2 * 2

/-- `val & ~WAIT_MASK`: bit 0 and bits 16 to 31. -/
def contextPart (val : Nat) : Nat := val / 2 ^ 16 * 2 ^ 16 + val % 2

/-- `val & ~WRITER`. -/
def countPart (val : Nat) : Nat := val / 2 * 2

/-- `(lockId | LOCK_ID_TAG) << LOCK_ID_SHIFT | WRITE_FLAG`, for a lock id below the tag. -/
def expectedContext (lockId : Nat) : Nat := (lockId + lockIdTag) * 2 ^ 16 + 1

/-- The compare-and-swap of `UnlockImpl` succeeds on the value that it loaded. -/
def unlocks (lockId val word : Nat) : Bool := contextPart val = expectedContext lockId ∧ word = val

/-- The processes that share a word. The worker has lock id 0, the clients have lock ids up to
`max_client_num`, so all of them are below the tag. -/
structure Processes where
  count : Nat
  lockId : Fin count → Nat
  below : ∀ i, lockId i < lockIdTag
  distinct : Function.Injective lockId

/-- Where a process is, before its next atomic step. -/
inductive LockStage (n : Nat)
  | idle
  /-- `SafeShmLock::Lock` -/
  | lockLoad
  | lockSwap
  /-- `FutexWait` -/
  | waitLoad
  | waitAdd
  | waitSub
  /-- The section of a `SafeShmLock`, then `UnLock`. -/
  | held
  | unlockLoad
  | unlockSwap (val : Nat)
  /-- `ForceUnlock` for the lock id of a process. -/
  | forceLoad (target : Fin n)
  | forceSwap (target : Fin n) (val : Nat)
  /-- `LockExclusiveAndExec` -/
  | exclusiveLoad
  | exclusiveSwap (val : Nat)
  | exclusiveWait
  | exclusiveUndo
  | exclusive
  /-- `LockSharedAndExec` -/
  | sharedLoad
  | sharedAdd
  | sharedUndo
  | shared
deriving DecidableEq

namespace LockStage

variable {n : Nat}

/-- The process has taken a `SafeShmLock`. -/
def holds : LockStage n → Bool
  | held | unlockLoad | unlockSwap _ => true
  | _ => false

/-- The process has set the writer bit in a `SharedMemViewLock`. -/
def writes : LockStage n → Bool
  | exclusiveWait | exclusiveUndo | exclusive => true
  | _ => false

def owns (stage : LockStage n) : Bool := stage.holds || stage.writes

/-- The process is counted as a waiter or a reader. -/
def counted : LockStage n → Bool
  | waitSub | sharedUndo | shared => true
  | _ => false

/-- The process is in an exclusive section. -/
def excludes : LockStage n → Bool
  | held | exclusive => true
  | _ => false

/-- What the process has added to the word. -/
def share (lockId : Nat) (stage : LockStage n) : Nat :=
  if stage.holds then expectedContext lockId else if stage.writes then 1
  else if stage.counted then 2 else 0

/-- A step to the second stage leaves the word as it is, and enters no section. -/
def quiet (o t : LockStage n) : Bool :=
  t.holds = o.holds ∧ t.writes = o.writes ∧ t.counted = o.counted ∧
    (t.excludes → o.excludes) ∧ t ≠ shared

/-- The process whose lock id `ForceUnlock` was called for. -/
def target : LockStage n → Option (Fin n)
  | forceLoad t | forceSwap t _ => some t
  | _ => none

/-- A stage of `SharedMemViewLock`. -/
def ofView : LockStage n → Bool
  | exclusiveLoad | exclusiveSwap _ | exclusiveWait | exclusiveUndo | exclusive | sharedLoad
  | sharedAdd | sharedUndo | shared => true
  | _ => false

end LockStage

/-- How a loop goes on after a failed attempt; only `Lock` waits on the futex. -/
inductive Patience
  | again
  | timeout
  | wait

def Patience.timedOut : Patience → Bool
  | timeout => true
  | again | wait => false

inductive LockCall (n : Nat)
  | lock
  | lockExclusive
  | lockShared
  | forceUnlock (target : Fin n)

def LockCall.entry {n : Nat} : LockCall n → LockStage n
  | lock => .lockLoad
  | lockExclusive => .exclusiveLoad
  | lockShared => .sharedLoad
  | forceUnlock target => .forceLoad target

/-- One atomic step outside `ForceUnlock`: the next stage and the word. A weak compare-and-swap may
fail for no reason. -/
def nextStage {n : Nat} (lockId : Nat) (patience : Patience) (spurious : Bool) (word : Nat) :
    LockStage n → LockStage n × Nat
  | .lockLoad => (if word = 0 then .lockSwap else failed, word)
  | .lockSwap => if word = 0 then (.held, expectedContext lockId) else (failed, word)
  | .waitLoad =>
    (if word % 2 = 1 ∧ word / 2 ^ 31 % 2 = 1 then .waitAdd else .lockLoad, word)
  | .waitAdd => (.waitSub, fetchAdd word 2)
  | .waitSub => (.lockLoad, fetchSub word 2)
  | .held => (.unlockLoad, word)
  | .unlockLoad =>
    (if contextPart word = expectedContext lockId then .unlockSwap word else .idle, word)
  | .unlockSwap val =>
    if word = val then (.idle, waitPart val) else (.unlockLoad, word)
  | .exclusiveLoad => (.exclusiveSwap word, word)
  | .exclusiveSwap val =>
    if word = countPart val ∧ !spurious then
      (if countPart val = 0 then .exclusive else .exclusiveWait, countPart val + 1)
    else (if patience.timedOut then .idle else .exclusiveLoad, word)
  | .exclusiveWait =>
    (if patience.timedOut then .exclusiveUndo
      else if countPart word = 0 then .exclusive else .exclusiveWait, word)
  | .exclusiveUndo | .exclusive => (.idle, fetchSub word 1)
  | .sharedLoad =>
    (if word % 2 = 0 then .sharedAdd
      else if patience.timedOut then .idle else .sharedLoad, word)
  | .sharedAdd =>
    (if fetchAdd word 2 % 2 = 0 then .shared else .sharedUndo, fetchAdd word 2)
  | .sharedUndo => (if patience.timedOut then .idle else .sharedLoad, fetchSub word 2)
  | .shared => (.idle, fetchSub word 2)
  | stage => (stage, word)
where
  failed : LockStage n := match patience with
    | .again => .lockLoad
    | .timeout => .idle
    | .wait => .waitLoad

structure LockSystem (n : Nat) where
  word : Nat := 0
  /-- For a crashed process: what it has left in the word. -/
  stage : Fin n → LockStage n := fun _ => .idle
  crashed : Fin n → Bool := fun _ => false
  /-- `ForceUnlock` was called for the lock id of the crashed process, and has returned. -/
  reclaimed : Fin n → Bool := fun _ => false

inductive LockAction (n : Nat)
  | call (process : Fin n) (call : LockCall n)
  | move (process : Fin n) (patience : Patience) (spurious : Bool)
  | crash (process : Fin n)

namespace LockSystem

variable (p : Processes) (s : LockSystem p.count)

def put (i : Fin p.count) (stage : LockStage p.count) (word : Nat) : LockSystem p.count :=
  { s with stage := update s.stage i stage, word := word }

/-- `ForceUnlock` returns. -/
def reclaim (i target : Fin p.count) : LockSystem p.count :=
  { s.put p i .idle s.word with reclaimed := update s.reclaimed target true }

def move (i : Fin p.count) (patience : Patience) (spurious : Bool) : LockSystem p.count :=
  match s.stage i with
  | .forceLoad target =>
    if contextPart s.word = expectedContext (p.lockId target) then
      s.put p i (.forceSwap target s.word) s.word
    else s.reclaim p i target
  | .forceSwap target val =>
    if s.word = val then (s.put p target .idle (waitPart val)).reclaim p i target
    else s.put p i (.forceLoad target) s.word
  | stage =>
    let next := nextStage (p.lockId i) patience spurious s.word stage
    s.put p i next.1 next.2

/-- The worker calls `ForceUnlock` for processes that it has lost. -/
def step : LockAction p.count → Option (LockSystem p.count)
  | .call i call =>
    if !s.crashed i ∧ s.stage i = .idle ∧ call.entry.target.all s.crashed then
      some (s.put p i call.entry s.word)
    else none
  | .move i patience spurious => if s.crashed i then none else some (s.move p i patience spurious)
  | .crash i => some { s with crashed := update s.crashed i true }

end LockSystem

/-! ## The word is the sum of the shares -/

section

variable {p : Processes} {word w : Nat} {stage : Fin p.count → LockStage p.count} {i : Fin p.count}
  {o t : LockStage p.count}

structure LockInv (p : Processes) (word : Nat) (stage : Fin p.count → LockStage p.count) :
    Prop where
  word : word = ∑ i, (stage i).share (p.lockId i)
  single : ∀ i j, (stage i).owns → (stage j).owns → i = j
  apart : ∀ i j, (stage i).excludes → stage j ≠ .shared

theorem count_le_lockIdTag (p : Processes) : p.count ≤ lockIdTag := by
  have hcard := Fintype.card_le_of_injective (fun i => (⟨p.lockId i, p.below i⟩ : Fin lockIdTag))
    fun i j h => p.distinct (Fin.mk.inj h)
  rwa [Fintype.card_fin, Fintype.card_fin] at hcard

theorem share_of_not_owns {lockId : Nat} (h : ¬o.owns) : o.share lockId = 2 * o.counted.toNat := by
  cases o <;> simp_all [LockStage.owns, LockStage.holds, LockStage.writes, LockStage.share,
    LockStage.counted]

theorem share_of_owns (lockId : Nat) (h : o.owns) :
    o.share lockId = expectedContext lockId ∨ o.share lockId = 1 := by
  cases o <;> simp_all [LockStage.owns, LockStage.holds, LockStage.writes, LockStage.share]

theorem share_le {lockId : Nat} (hid : lockId < lockIdTag) :
    o.share lockId ≤ expectedContext (lockIdTag - 1) := by
  unfold LockStage.share expectedContext lockIdTag at *
  split
  · omega
  · split
    · omega
    · split <;> omega

theorem owns_of_excludes (h : o.excludes) : o.owns := by
  cases o <;> first | rfl | cases h

namespace LockInv

section

variable (h : LockInv p word stage)

include h

/-- Beside a process there are only counted ones, unless another one owns the lock. -/
theorem rest (hother : ∀ j, j ≠ i → ¬(stage j).owns) :
    ∃ k < lockIdTag, word = (stage i).share (p.lockId i) + 2 * k := by
  refine ⟨∑ j ∈ univ.erase i, (stage j).counted.toNat, ?_, ?_⟩
  · have hle : ∑ j ∈ univ.erase i, (stage j).counted.toNat ≤ (univ.erase i).card • 1 :=
      sum_le_card_nsmul _ _ _ fun j _ => Bool.toNat_le _
    rw [card_erase_of_mem (mem_univ i), card_univ, Fintype.card_fin] at hle
    have hpos := i.pos
    have hcount := count_le_lockIdTag p
    simp only [smul_eq_mul, mul_one] at hle
    omega
  · rw [h.word, ← add_sum_erase _ _ (mem_univ i), mul_sum]
    congr 1
    exact sum_congr rfl fun j hj => share_of_not_owns (hother j (ne_of_mem_erase hj))

theorem rest_of_owns (hi : (stage i).owns) :
    ∃ k < lockIdTag, word = (stage i).share (p.lockId i) + 2 * k :=
  h.rest fun _ hne hj => hne (h.single _ _ hj hi)

theorem exists_owner (hodd : word % 2 = 1) : ∃ i, (stage i).owns := by
  by_contra hnone
  have heven : 2 ∣ word := h.word ▸ dvd_sum fun j _ =>
    ⟨_, share_of_not_owns fun hj => hnone ⟨j, hj⟩⟩
  omega

/-- The context in the word is the one of the holder. -/
theorem eq_expectedContext (hi : (stage i).holds) :
    contextPart word = expectedContext (p.lockId i) ∧
      waitPart word + expectedContext (p.lockId i) = word := by
  obtain ⟨k, hk, hword⟩ := h.rest_of_owns (i := i) (by simp [LockStage.owns, hi])
  rw [LockStage.share, if_pos hi] at hword
  simp only [contextPart, waitPart, expectedContext, lockIdTag] at hk hword ⊢
  omega

/-- A lock id that is in the word is the one of the holder. -/
theorem holds_of_context {lockId : Nat} (hcontext : contextPart word = expectedContext lockId) :
    ∃ i, p.lockId i = lockId ∧ (stage i).holds := by
  have hodd : word % 2 = 1 := by
    simp only [contextPart, expectedContext] at hcontext
    omega
  obtain ⟨i, hi⟩ := h.exists_owner hodd
  cases hholds : (stage i).holds with
  | true =>
    refine ⟨i, ?_, hholds⟩
    have heq := (h.eq_expectedContext hholds).1
    simp only [hcontext, expectedContext] at heq
    omega
  | false =>
    -- a writer of the other lock leaves the upper bits empty
    obtain ⟨k, hk, hword⟩ := h.rest_of_owns hi
    have hwrites : (stage i).writes := by simpa [LockStage.owns, hholds] using hi
    rw [LockStage.share, hholds, hwrites] at hword
    simp only [contextPart, expectedContext, lockIdTag, if_true] at hk hword hcontext
    simp only [Bool.false_eq_true, if_false] at hword
    omega

theorem put (hword : w + (stage i).share (p.lockId i) = word + t.share (p.lockId i))
    (howns : t.owns → (stage i).owns ∨ ∀ j, ¬(stage j).owns)
    (hexcludes : t.excludes → (stage i).excludes ∨ ∀ j, stage j ≠ .shared)
    (hsha : t = .shared → ∀ j, ¬(stage j).excludes) :
    LockInv p w (update stage i t) where
  word := by
    have hold := h.word
    rw [← add_sum_erase _ _ (mem_univ i)] at hold ⊢
    rw [update_self]
    have hrest : ∑ j ∈ univ.erase i, (update stage i t j).share (p.lockId j) =
        ∑ j ∈ univ.erase i, (stage j).share (p.lockId j) :=
      sum_congr rfl fun j hj => by rw [update_of_ne (ne_of_mem_erase hj)]
    omega
  single := by
    have hsingle := h.single
    grind
  apart := by
    have hapart := h.apart
    have hnot : LockStage.excludes (n := p.count) .shared = false := rfl
    grind

theorem stay (hs : stage i = o) (ht : o.quiet t) : LockInv p word (update stage i t) := by
  obtain ⟨hholds, hwriter, hcount, hexclusive, hsha⟩ := of_decide_eq_true ht
  refine h.put ?_ (fun hown => .inl ?_) (fun hex => .inl ?_) fun heq => absurd heq hsha
  · rw [hs, LockStage.share, LockStage.share, hholds, hwriter, hcount]
  · rwa [hs, LockStage.owns, ← hholds, ← hwriter]
  · rw [hs]
    exact hexclusive hex

end

theorem share_eq_zero (h : LockInv p 0 stage) (j) : (stage j).share (p.lockId j) = 0 :=
  sum_eq_zero_iff.mp h.word.symm j (mem_univ j)

section

variable (h : LockInv p word stage)

include h

theorem odd_of_owns (hi : (stage i).owns) : word % 2 = 1 := by
  obtain ⟨k, -, hword⟩ := h.rest_of_owns hi
  have hshare := share_of_owns (p.lockId i) hi
  simp only [expectedContext] at hshare
  omega

theorem lt_wordSize (i : Fin p.count) : word < 2 ^ 32 := by
  have hlt {j} (hother : ∀ k, k ≠ j → ¬(stage k).owns) : word < 2 ^ 32 := by
    obtain ⟨k, hk, hword⟩ := h.rest hother
    have hshare := share_le (o := stage j) (p.below j)
    simp only [expectedContext, lockIdTag] at hk hshare
    omega
  by_cases howner : ∃ j, (stage j).owns
  · obtain ⟨j, hj⟩ := howner
    exact hlt fun k hne hk => hne (h.single _ _ hk hj)
  · exact hlt (j := i) fun k _ hk => howner ⟨k, hk⟩

/-- A process takes its share back. -/
theorem leave {c : Nat} (hc : (stage i).share (p.lockId i) = c)
    (howns : ¬t.owns) (hcount : ¬t.counted) :
    LockInv p (fetchSub word c) (update stage i t) := by
  have hle : (stage i).share (p.lockId i) ≤ word :=
    h.word ▸ single_le_sum (f := fun j => (stage j).share (p.lockId j))
      (fun _ _ => Nat.zero_le _) (mem_univ i)
  have hlt := h.lt_wordSize i
  refine h.put ?_ (fun ht => absurd ht howns) (fun ht => absurd (owns_of_excludes ht) howns) ?_
  · rw [share_of_not_owns howns, fetchSub, Bool.eq_false_iff.mpr hcount]
    simp only [Bool.toNat_false]
    omega
  · rintro rfl
    exact absurd rfl hcount

/-- A process that has no share yet is counted. -/
theorem enter (hi : (stage i).share (p.lockId i) = 0)
    (ht : t.share (p.lockId i) = 2) (howns : ¬t.owns)
    (hsha : t = .shared → ∀ j, ¬(stage j).excludes) :
    LockInv p (fetchAdd word 2) (update stage i t) := by
  have hput : LockInv p (word + 2) (update stage i t) :=
    h.put (by rw [hi, ht]) (fun hown => absurd hown howns)
      (fun hex => absurd (owns_of_excludes hex) howns) hsha
  rwa [fetchAdd, Nat.mod_eq_of_lt (hput.lt_wordSize i)]

theorem next (hs : stage i = o) (patience) (spurious) :
    LockInv p (nextStage (p.lockId i) patience spurious word o).2
      (update stage i (nextStage (p.lockId i) patience spurious word o).1) := by
  have hzero : word = 0 → ∀ j, ¬(stage j).owns ∧ stage j ≠ .shared := by
    rintro rfl j
    have hj := h.share_eq_zero j
    refine ⟨fun hown => ?_, fun heq => ?_⟩
    · have hshare := share_of_owns (p.lockId j) hown
      simp only [expectedContext] at hshare
      omega
    · rw [heq] at hj
      cases hj
  cases o with
  | idle | forceLoad | forceSwap | exclusiveLoad | held => exact h.stay hs rfl
  | lockLoad =>
    simp only [nextStage]
    split
    · exact h.stay hs rfl
    · cases patience <;> exact h.stay hs rfl
  | lockSwap =>
    simp only [nextStage]
    split
    · rename_i hfree
      refine h.put ?_ (fun _ => .inr fun j => (hzero hfree j).1)
        (fun _ => .inr fun j => (hzero hfree j).2) nofun
      rw [hs, hfree]
      exact Nat.add_comm _ _
    · cases patience <;> exact h.stay hs rfl
  | waitLoad =>
    simp only [nextStage]
    split <;> exact h.stay hs rfl
  | waitAdd => exact h.enter (by rw [hs]; rfl) rfl nofun nofun
  | waitSub | shared => exact h.leave (by rw [hs]; rfl) nofun nofun
  | exclusiveUndo | exclusive => exact h.leave (by rw [hs]; rfl) nofun nofun
  | unlockLoad =>
    have hmatch := (h.eq_expectedContext (i := i) (by rw [hs]; rfl)).1
    simp only [nextStage, if_pos hmatch]
    exact h.stay hs rfl
  | unlockSwap val =>
    simp only [nextStage]
    split
    · rename_i hval
      subst hval
      refine h.put ?_ nofun nofun nofun
      rw [hs]
      exact (h.eq_expectedContext (i := i) (by rw [hs]; rfl)).2
    · exact h.stay hs rfl
  | exclusiveSwap val =>
    simp only [nextStage]
    split
    · rename_i hswap
      have hnone : ∀ j, ¬(stage j).owns := by
        intro j hj
        have hodd := h.odd_of_owns hj
        have heven := hswap.1
        unfold countPart at heven
        omega
      rw [← hswap.1]
      split
      · rename_i hfree
        refine h.put (by rw [hs]; rfl) (fun _ => .inr hnone) (fun _ => .inr fun j =>
          (hzero hfree j).2)
          nofun
      · exact h.put (by rw [hs]; rfl) (fun _ => .inr hnone) nofun nofun
    · split <;> exact h.stay hs rfl
  | exclusiveWait =>
    simp only [nextStage]
    split
    · exact h.stay hs rfl
    · split
      · rename_i hdrained
        -- without the writer the word is 0, so nobody is counted
        have hodd := h.odd_of_owns (i := i) (by rw [hs]; rfl)
        have hleft : LockInv p 0 (update stage i .idle) := by
          refine h.put ?_ nofun nofun nofun
          rw [hs]
          unfold countPart at hdrained
          show 0 + 1 = word + 0
          omega
        refine h.put (by rw [hs]; rfl) (fun _ => .inl (by rw [hs]; rfl)) (fun _ => .inr ?_) nofun
        intro j hj
        have hshare := hleft.share_eq_zero j
        by_cases hji : j = i
        · rw [hji, hs] at hj
          cases hj
        · rw [update_of_ne hji, hj] at hshare
          cases hshare
      · exact h.stay hs rfl
  | sharedLoad =>
    simp only [nextStage]
    split
    · exact h.stay hs rfl
    · split <;> exact h.stay hs rfl
  | sharedAdd =>
    simp only [nextStage]
    split
    · rename_i heven
      refine h.enter (by rw [hs]; rfl) rfl nofun fun _ j hj => ?_
      have hodd := h.odd_of_owns (owns_of_excludes hj)
      unfold fetchAdd at heven
      omega
    · exact h.enter (by rw [hs]; rfl) rfl nofun nofun
  | sharedUndo =>
    simp only [nextStage]
    split <;> exact h.leave (by rw [hs]; rfl) nofun nofun

end

end LockInv

end

/-! ## Runs -/

theorem target_eq_none {n : Nat} {o : LockStage n} (hload : ∀ t, o ≠ .forceLoad t)
    (hswap : ∀ t val, o ≠ .forceSwap t val) : o.target = none := by
  cases o with
  | forceLoad t => exact absurd rfl (hload t)
  | forceSwap t val => exact absurd rfl (hswap t val)
  | _ => rfl

/-- A step outside `ForceUnlock` stays outside, and each lock keeps to its own stages. -/
theorem nextStage_stays {n : Nat} {o : LockStage n} (h : o.target = none) (lockId word : Nat)
    (patience : Patience) (spurious : Bool) :
    (nextStage lockId patience spurious word o).1.target = none ∧
      (¬o.ofView → ¬(nextStage lockId patience spurious word o).1.ofView) := by
  cases o with
  | forceLoad | forceSwap => cases h
  | lockLoad | lockSwap =>
    simp only [nextStage, nextStage.failed]
    split
    · exact ⟨rfl, nofun⟩
    · cases patience <;> exact ⟨rfl, nofun⟩
  | idle | waitAdd | waitSub | held => exact ⟨rfl, nofun⟩
  | waitLoad | unlockLoad | unlockSwap =>
    simp only [nextStage]
    split <;> exact ⟨rfl, nofun⟩
  | exclusiveLoad | exclusiveUndo | exclusive | shared => exact ⟨rfl, fun hview => absurd rfl hview⟩
  | exclusiveSwap | exclusiveWait | sharedLoad =>
    refine ⟨?_, fun hview => absurd rfl hview⟩
    simp only [nextStage]
    split
    · first | rfl | split <;> rfl
    · first | rfl | split <;> rfl
  | sharedAdd | sharedUndo =>
    refine ⟨?_, fun hview => absurd rfl hview⟩
    simp only [nextStage]
    split <;> rfl

namespace LockSystem

variable {p : Processes} {s s' : LockSystem p.count} {i t : Fin p.count} {w : Nat}
  {o : LockStage p.count}

structure Sound (p : Processes) (s : LockSystem p.count) : Prop where
  inv : LockInv p s.word s.stage
  matched : ∀ i t val, s.stage i = .forceSwap t val →
    contextPart val = expectedContext (p.lockId t)
  target : ∀ i t, (s.stage i).target = some t → s.crashed t
  reclaimed : ∀ i, s.reclaimed i → s.crashed i ∧ ¬(s.stage i).holds

theorem Sound.put (h : Sound p s) (hlive : ¬s.crashed i) (hinv : LockInv p w (update s.stage i o))
    (hmatch : ∀ t val, o = .forceSwap t val → contextPart val = expectedContext (p.lockId t))
    (htarget : ∀ t, o.target = some t → s.crashed t) : Sound p (s.put p i o w) := by
  obtain ⟨-, hmatch', htarget', hreclaim⟩ := h
  refine ⟨hinv, ?_, ?_, ?_⟩
  all_goals
    simp only [LockSystem.put, update_apply]
    grind

theorem Sound.reclaim (h : Sound p s) (hlive : ¬s.crashed i) (hi : (s.stage i).target = some t)
    (hfree : ¬(s.stage t).holds) : Sound p (s.reclaim p i t) := by
  have hcrashed := h.target i t hi
  have hshare : LockInv p s.word (update s.stage i .idle) := by
    cases hs : s.stage i with
    | forceLoad | forceSwap => exact h.inv.stay hs rfl
    | _ => rw [hs] at hi; cases hi
  have hput : Sound p (s.put p i .idle s.word) := h.put hlive hshare nofun nofun
  refine ⟨hput.inv, hput.matched, hput.target, fun j hj => ?_⟩
  have hold := hput.reclaimed j
  simp only [LockSystem.reclaim, LockSystem.put, update_apply] at hj hold ⊢
  grind

theorem Sound.move (h : Sound p s) (hlive : ¬s.crashed i) (patience) (spurious) :
    Sound p (s.move p i patience spurious) := by
  have hother (hnone : (s.stage i).target = none) :
      Sound p (s.put p i (nextStage (p.lockId i) patience spurious s.word (s.stage i)).1
        (nextStage (p.lockId i) patience spurious s.word (s.stage i)).2) := by
    have htarget := (nextStage_stays hnone (p.lockId i) s.word patience spurious).1
    refine h.put hlive (h.inv.next rfl patience spurious) (fun t val heq => ?_) fun t ht => ?_
    · rw [heq] at htarget
      cases htarget
    · rw [htarget] at ht
      cases ht
  unfold LockSystem.move
  split
  · rename_i t hs
    split
    · rename_i hmatch
      refine h.put hlive (h.inv.stay hs rfl) (fun t val heq => ?_)
        fun t ht => h.target i t (by rw [hs]; exact ht)
      cases heq
      exact hmatch
    · rename_i hmissed
      refine h.reclaim hlive (by rw [hs]; rfl) fun hholds => hmissed ?_
      exact (h.inv.eq_expectedContext hholds).1
  · rename_i t val hs
    have hcrashed := h.target i t (by rw [hs]; rfl)
    split
    · rename_i hval
      subst hval
      obtain ⟨j, hj, hholds⟩ := h.inv.holds_of_context (h.matched i t _ hs)
      cases p.distinct hj
      have hne : i ≠ t := by
        rintro rfl
        exact hlive hcrashed
      have hfreed : Sound p (s.put p t .idle (waitPart s.word)) := by
        refine ⟨h.inv.put ?_ nofun nofun nofun, ?_, ?_, ?_⟩
        · rw [LockStage.share, if_pos hholds]
          exact (h.inv.eq_expectedContext hholds).2
        all_goals
          obtain ⟨-, hmatched, htarget, hreclaim⟩ := h
          simp only [LockSystem.put, update_apply]
          grind [LockStage.target, LockStage.holds]
      refine hfreed.reclaim hlive ?_ ?_
      · show ((update s.stage t .idle) i).target = some t
        rw [update_of_ne hne, hs]
        rfl
      · show ¬((update s.stage t .idle) t).holds
        rw [update_self]
        nofun
    · exact h.put hlive (h.inv.stay hs rfl) nofun fun u hu => h.target i u (by rw [hs]; exact hu)
  · rename_i hload hswap
    exact hother (target_eq_none hload hswap)

theorem Sound.step {action} (h : Sound p s) (hs : s.step p action = some s') : Sound p s' := by
  cases action with
  | call i call =>
    obtain ⟨⟨hlive, hidle, htarget⟩, hs⟩ := Option.ite_none_right_eq_some.mp hs
    cases hs
    have hinv : LockInv p s.word (update s.stage i call.entry) := by
      cases call <;> exact h.inv.stay hidle rfl
    refine h.put (by simpa using hlive) hinv (fun t val heq => ?_) fun t ht => ?_
    · cases call <;> cases heq
    · rwa [ht] at htarget
  | move i patience spurious =>
    obtain ⟨hlive, hs⟩ := Option.ite_none_left_eq_some.mp hs
    cases hs
    exact h.move hlive patience spurious
  | crash i =>
    cases hs
    obtain ⟨hinv, hmatch, htarget, hreclaim⟩ := h
    refine ⟨hinv, hmatch, ?_, ?_⟩
    all_goals
      grind

theorem sound_of_reaches (h : Reaches (step p) {} s) : Sound p s :=
  h.invariant ⟨⟨by simp [LockStage.share, LockStage.holds, LockStage.writes, LockStage.counted],
    nofun, nofun⟩, nofun, nofun, nofun⟩ fun _ _ _ hs hi => hi.step hs

/-- In every run at most one process is in an exclusive section, none is in a shared section
beside it, only the holder's lock id unlocks the word, and the word is 0 when nobody uses it. -/
theorem exclusion_of_reaches (p : Processes) (s : LockSystem p.count) (h : Reaches (step p) {} s) :
    (∀ i j, (s.stage i).excludes → (s.stage j).excludes → i = j) ∧
      (∀ i j, (s.stage i).excludes → s.stage j ≠ .shared) ∧
      (∀ lockId < lockIdTag, ∀ val, unlocks lockId val s.word →
        ∃ i, p.lockId i = lockId ∧ (s.stage i).holds) ∧
      ((∀ i, s.stage i = .idle) → s.word = 0) := by
  have hinv := (sound_of_reaches h).inv
  refine ⟨fun i j hi hj => hinv.single i j (owns_of_excludes hi) (owns_of_excludes hj), hinv.apart,
    fun _ _ _ hunlocks => ?_, fun hidle => ?_⟩
  · obtain ⟨hcontext, rfl⟩ := of_decide_eq_true hunlocks
    exact hinv.holds_of_context hcontext
  · rw [hinv.word]
    refine sum_eq_zero fun i _ => ?_
    rw [hidle i]
    rfl

/-- The worker and a client. -/
abbrev workerAndClient : Processes := ⟨2, Fin.val, by decide, Fin.val_injective⟩

/-- One process takes the lock, and the other one registers as a waiter. -/
def holdAndWait (holder waiter : Fin 2) : List (LockAction 2) :=
  [.call holder .lock, .move holder .again false, .move holder .again false, .call waiter .lock,
    .move waiter .wait false, .move waiter .again false, .move waiter .again false]

theorem exclusion_of_holder_and_waiter :
    ∃ s, Reaches (step workerAndClient) {} s ∧ (s.stage 0 = .held ∧ s.stage 1 = .waitSub) ∧
      (∀ i, (s.stage i).excludes → i = 0) ∧ ∀ i, s.stage i ≠ .shared := by
  have hrun : (run (step workerAndClient) {} (holdAndWait 0 1)).any fun s =>
      s.stage 0 = .held ∧ s.stage 1 = .waitSub := by decide +kernel
  obtain ⟨s, hs, hstage⟩ := exists_reaches _ hrun
  obtain ⟨hsingle, hapart, -⟩ := exclusion_of_reaches workerAndClient s hs
  have hheld : (s.stage 0).excludes := by rw [hstage.1]; rfl
  exact ⟨s, hs, hstage, fun i hi => hsingle i 0 hi hheld, fun i => hapart 0 i hheld⟩

/-- In every run the word is the sum of what the processes put there, and bit 0 shows an owner. -/
theorem word_of_reaches (h : Reaches (step p) {} s) :
    s.word = ∑ i, (s.stage i).share (p.lockId i) ∧ (s.word % 2 = 1 ↔ ∃ j, (s.stage j).owns) := by
  have hinv := (sound_of_reaches h).inv
  refine ⟨hinv.word, hinv.exists_owner, ?_⟩
  rintro ⟨_, hj⟩
  exact hinv.odd_of_owns hj

theorem word_of_holder : ∃ s, Reaches (step workerAndClient) {} s ∧ ∃ j, (s.stage j).owns := by
  have hrun : (run (step workerAndClient) {} (holdAndWait 0 1)).any (·.word % 2 = 1) := by decide
  obtain ⟨s, hs, hodd⟩ := exists_reaches _ hrun
  exact ⟨s, hs, (word_of_reaches hs).2.mp hodd⟩

/-! ## Crashes -/

/-- Runs in which the processes use `SafeShmLock` only. -/
def usesSafeShmLock {n : Nat} : LockAction n → Bool
  | .call _ .lockExclusive | .call _ .lockShared => false
  | _ => true

/-- No process crashes in `FutexWait` between its two updates of the word. -/
def sparesWaiters {n : Nat} (s : LockSystem n) : LockAction n → Bool
  | .crash i => s.stage i ≠ .waitSub
  | _ => true

/-- `ForceUnlock` was called for every crashed process, and no other one holds the lock or waits. -/
def Settled {n : Nat} (s : LockSystem n) : Prop :=
  (∀ i, s.crashed i → s.reclaimed i) ∧
    ∀ i, ¬s.crashed i → ¬(s.stage i).holds ∧ s.stage i ≠ .waitSub

instance {n : Nat} (s : LockSystem n) : Decidable (Settled s) :=
  inferInstanceAs (Decidable (_ ∧ _))

/-- A waiter that crashes leaves its count in the word for good. -/
theorem exists_word_ne_zero_of_crash :
    ∃ s, Reaches (restrict (fun _ => usesSafeShmLock) (step workerAndClient)) {} s ∧
      Settled s ∧ s.word ≠ 0 := by
  exact exists_reaches (holdAndWait 0 1 ++ [.crash 1, .move 0 .again false, .move 0 .again false,
    .move 0 .again false, .call 0 (.forceUnlock 1), .move 0 .again false]) (by decide +kernel)

/-- What the restricted runs keep: no stage of the other lock, and no count of a crashed process. -/
def Tidy (s : LockSystem p.count) : Prop :=
  (∀ i, ¬(s.stage i).ofView) ∧ ∀ i, s.crashed i → s.stage i ≠ .waitSub

theorem Tidy.put (h : Tidy s) (hi : ¬s.crashed i ∨ o = .idle) (ho : ¬o.ofView) :
    Tidy (s.put p i o w) := by
  obtain ⟨hview, hcrashed⟩ := h
  constructor
  all_goals
    simp only [LockSystem.put, update_apply]
    grind

theorem Tidy.step {action} (h : Tidy s) (huses : usesSafeShmLock action)
    (hspared : sparesWaiters s action) (hs : s.step p action = some s') : Tidy s' := by
  cases action with
  | call i call =>
    obtain ⟨⟨hlive, -⟩, hs⟩ := Option.ite_none_right_eq_some.mp hs
    cases hs
    refine h.put (.inl (by simpa using hlive)) ?_
    cases call with
    | lock | forceUnlock => nofun
    | lockExclusive | lockShared => cases huses
  | move i patience spurious =>
    obtain ⟨hlive, hs⟩ := Option.ite_none_left_eq_some.mp hs
    cases hs
    unfold LockSystem.move
    split
    · split
      · exact h.put (.inl hlive) nofun
      · exact h.put (w := s.word) (.inl hlive) nofun
    · split
      · rename_i val _ _
        exact (h.put (.inr rfl) nofun).put (w := waitPart val) (.inl hlive) nofun
      · exact h.put (.inl hlive) nofun
    · rename_i hload hswap
      exact h.put (.inl hlive) ((nextStage_stays (target_eq_none hload hswap) _ _ _ _).2 (h.1 i))
  | crash i =>
    cases hs
    refine ⟨h.1, fun j hj => ?_⟩
    have hspares : s.stage i ≠ .waitSub := of_decide_eq_true hspared
    simp only [update_apply] at hj
    split at hj
    · rename_i heq
      rwa [heq]
    · exact h.2 j hj

/-- When no waiter crashes, the word is 0 again once every crash is dealt with, and a process that
calls `Lock` gets the lock. -/
theorem word_eq_zero_of_settled (p : Processes) (s : LockSystem p.count)
    (h : Reaches (restrict (fun s a => usesSafeShmLock a && sparesWaiters s a) (step p)) {} s)
    (hsettled : Settled s) :
    s.word = 0 ∧ ∀ i, ¬s.crashed i → s.stage i = .idle → ∃ s', run (step p) s
      [.call i .lock, .move i .again false, .move i .again false] = some s' ∧
        s'.stage i = .held := by
  have hboth : Sound p s ∧ Tidy s := by
    refine h.invariant (I := fun s => Sound p s ∧ Tidy s)
      ⟨sound_of_reaches .refl, nofun, nofun⟩ fun _ _ _ hs hi => ?_
    obtain ⟨hcond, hs⟩ := restrict_eq_some.mp hs
    obtain ⟨huses, hspares⟩ := Bool.and_eq_true_iff.mp hcond
    exact ⟨hi.1.step hs, hi.2.step huses hspares hs⟩
  obtain ⟨hsound, hview, hcrashed⟩ := hboth
  have hzero : s.word = 0 := by
    rw [hsound.inv.word]
    refine sum_eq_zero fun i _ => ?_
    have hi : ¬(s.stage i).holds ∧ s.stage i ≠ .waitSub := by
      by_cases hdown : s.crashed i
      · exact ⟨(hsound.reclaimed i (hsettled.1 i hdown)).2, hcrashed i hdown⟩
      · exact hsettled.2 i hdown
    have hnot := hview i
    cases hs : s.stage i <;> simp_all [LockStage.ofView, LockStage.holds, LockStage.share,
      LockStage.writes, LockStage.counted]
  refine ⟨hzero, fun i hlive hidle => ?_⟩
  simp [run, step, LockSystem.put, LockSystem.move, nextStage, LockCall.entry, LockStage.target,
    hlive, hidle, hzero]

/-- The client crashes as the holder; the worker stops waiting and unlocks for it. -/
theorem word_eq_zero_after_holder_crash :
    ∃ s, Reaches (restrict (fun s a => usesSafeShmLock a && sparesWaiters s a)
        (step workerAndClient)) {} s ∧ Settled s ∧ s.crashed 1 ∧ s.word = 0 := by
  have hrun : (run (restrict (fun s a => usesSafeShmLock a && sparesWaiters s a)
      (step workerAndClient)) {}
      (holdAndWait 1 0 ++ [.crash 1, .move 0 .again false, .move 0 .timeout false,
        .call 0 (.forceUnlock 1), .move 0 .again false, .move 0 .again false])).any fun s =>
      Settled s ∧ s.crashed 1 := by decide +kernel
  obtain ⟨s, hs, hsettled, hdown⟩ := exists_reaches _ hrun
  exact ⟨s, hs, hsettled, hdown, (word_eq_zero_of_settled workerAndClient s hs hsettled).1⟩

end LockSystem

end Datasystem.Stream
