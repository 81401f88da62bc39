import Datasystem.Common.Status
import Datasystem.Lib.StateMachine

/-! Updates of the eviction policy and their recovery. A transition is written to a file as an
intent before it begins, and as the last good state when it is committed; a worker that starts
again goes on from the file. A worker that stops inside of a call has written what a call that
fails there has written, so it stops between calls here. -/

namespace Datasystem.Worker

open Common Lib Checked StateMachine

inductive EvictionPolicy
  | clock
  | heat
deriving DecidableEq

inductive PolicyUpdatePhase
  | stable
  | draining
  | migrating
  | verifying
  | activating
deriving DecidableEq

structure PersistedPolicyState where
  activePolicy : EvictionPolicy := .clock
  activeEpoch : Nat := 0
  hasTransitionIntent : Bool := false
  targetPolicy : EvictionPolicy := .clock
  transitionEpoch : Nat := 0
deriving DecidableEq

/-- What an update reads and writes of the eviction manager. -/
structure PolicyManager where
  sourcePolicy : EvictionPolicy
  epoch : Nat
  targetPolicy : EvictionPolicy := .clock
  phase : PolicyUpdatePhase := .stable
  recoveredTransitionIntent : Bool := false
  recoveredTargetPolicy : EvictionPolicy := .clock
  recoveredTransitionEpoch : Nat := 0
deriving DecidableEq

/-- A worker and its state file. -/
structure PolicyWorker extends PolicyManager where
  file : PersistedPolicyState
deriving DecidableEq

/-- The answer of `AtomicWriteTextFile`. -/
inductive StoreAnswer
  | stored
  | failed (status : Status)
  /-- The file is renamed, and then its directory cannot be synced. -/
  | renamed (status : Status)

def StoreAnswer.reliable : StoreAnswer → Bool
  | .renamed _ => false
  | _ => true

/-- What a call of `HandlePolicyUpdate` learns from the file and the lists. -/
structure UpdateAnswers where
  intent : StoreAnswer := .stored
  drained : Result Unit := .ok ()
  /-- The inactive list is empty and the strategy of the target is made. -/
  created : Result Unit := .ok ()
  /-- `MigratePolicyBatch` leaves nothing in the source list. -/
  migrated : Result Bool := .ok true
  /-- The audit, and the checks of the two lists. -/
  audited : Result Unit := .ok ()
  lastGood : StoreAnswer := .stored

inductive PolicyAction
  | handlePolicyUpdate (targetPolicy : EvictionPolicy) (epoch : Nat) (answers : UpdateAnswers)
  | restart

namespace PolicyWorker

/-- `InitPolicyStateStore` with a file that is there. -/
def initPolicyStateStore (file : PersistedPolicyState) : Result PolicyWorker := do
  checkFailReturnStatus (file.hasTransitionIntent → file.activeEpoch < file.transitionEpoch)
    .kInvalid "Persisted eviction policy transition intent is invalid"
  return {
    sourcePolicy := file.activePolicy
    epoch := file.activeEpoch
    recoveredTransitionIntent := file.hasTransitionIntent
    recoveredTargetPolicy := file.targetPolicy
    recoveredTransitionEpoch := file.transitionEpoch
    file := file }

/-- The first start, which writes the policy that the worker is configured with. -/
def start (sourcePolicy : EvictionPolicy) : PolicyWorker where
  sourcePolicy := sourcePolicy
  epoch := 0
  file := { activePolicy := sourcePolicy }

/-- `RETURN_IF_NOT_OK`. -/
def returnIfNotOk (rc : PolicyWorker × Result Unit)
    (next : PolicyWorker → PolicyWorker × Result Unit) : PolicyWorker × Result Unit :=
  match rc.2 with
  | .error _ => rc
  | .ok _ => next rc.1

variable (w : PolicyWorker) (targetPolicy : EvictionPolicy)

variable (epoch : Nat) (answers : UpdateAnswers) (answer : StoreAnswer)

def persistPolicyState (state : PersistedPolicyState) : PolicyWorker × Result Unit :=
  match answer with
  | .stored => ({ w with file := state }, .ok ())
  | .failed status => (w, .error status)
  | .renamed status => ({ w with file := state }, .error status)

def persistTransitionIntent (targetPolicy : EvictionPolicy) (epoch : Nat) :
    PolicyWorker × Result Unit :=
  w.persistPolicyState answer ⟨w.sourcePolicy, w.epoch, true, targetPolicy, epoch⟩

def persistLastGood (activePolicy : EvictionPolicy) (epoch : Nat) : PolicyWorker × Result Unit :=
  w.persistPolicyState answer { activePolicy := activePolicy, activeEpoch := epoch }

/-- `PreparePolicyUpdate` once the phase is `DRAINING`. -/
def preparePolicyUpdate : PolicyWorker × Result Unit :=
  if w.recoveredTransitionIntent ∧
      (epoch ≠ w.recoveredTransitionEpoch ∨ targetPolicy ≠ w.recoveredTargetPolicy) then
    (w, .error ⟨.kInvalid, "A persisted eviction policy update must recover forward"⟩)
  else if ¬w.recoveredTransitionIntent ∧ epoch ≤ w.epoch then
    (w, .error ⟨.kInvalid, "Eviction policy update epoch is stale"⟩)
  else
    returnIfNotOk (w.persistTransitionIntent answer targetPolicy epoch) fun w =>
      ({ w with
        recoveredTransitionIntent := true
        recoveredTargetPolicy := targetPolicy
        recoveredTransitionEpoch := epoch }, .ok ())

def initializePolicyUpdateTarget : PolicyWorker × Result Unit :=
  if epoch ≤ w.epoch then (w, .error ⟨.kInvalid, "Eviction policy update epoch is stale"⟩)
  else if targetPolicy = w.sourcePolicy then
    returnIfNotOk (w.persistLastGood answers.lastGood targetPolicy epoch) fun w =>
      ({ w with
        recoveredTransitionIntent := false
        recoveredTransitionEpoch := 0
        epoch := epoch
        phase := .stable }, .ok ())
  else
    returnIfNotOk (w, answers.created) fun w =>
      ({ w with epoch := epoch, targetPolicy := targetPolicy, phase := .migrating }, .ok ())

def resetPolicyUpdatePhase : PolicyWorker := { w with phase := .stable }

def beginPolicyUpdate : PolicyWorker × Result Unit :=
  if w.phase ≠ .stable then
    (w, .error ⟨.kNotReady, "Another eviction policy update is in progress"⟩)
  else
    let rc := returnIfNotOk
      ({ w with phase := .draining }.preparePolicyUpdate targetPolicy epoch answers.intent)
      fun w => returnIfNotOk (w, answers.drained)
        fun w => w.initializePolicyUpdateTarget targetPolicy epoch answers
    if rc.2.toBool then rc else (rc.1.resetPolicyUpdatePhase, rc.2)

/-- `MigratePolicyBatch`, if the phase is `MIGRATING`. -/
def migratePolicyBatch (migrated : Result Bool) : PolicyWorker × Result Unit :=
  match w.phase, migrated with
  | .migrating, .error status => (w, .error status)
  | .migrating, .ok true => ({ w with phase := .verifying }, .ok ())
  | _, _ => (w, .ok ())

def commitPolicyUpdate : PolicyWorker × Result Unit :=
  returnIfNotOk (w, answers.audited) fun w =>
    if epoch ≠ w.epoch then (w, .error ⟨.kInvalid, "Eviction policy update epoch mismatch"⟩)
    else
      let rc :=
        { w with phase := .activating }.persistLastGood answers.lastGood w.targetPolicy epoch
      if rc.2.toBool then
        ({ rc.1 with
          recoveredTransitionIntent := false
          recoveredTransitionEpoch := 0
          sourcePolicy := w.targetPolicy
          phase := .stable }, .ok ())
      else ({ rc.1 with phase := .verifying }, rc.2)

/-- What `HandlePolicyUpdate` does in a transition. -/
def migrateAndCommit : PolicyWorker × Result Unit :=
  returnIfNotOk (w.migratePolicyBatch answers.migrated) fun w =>
    if w.phase = .verifying then w.commitPolicyUpdate epoch answers else (w, .ok ())

def handlePolicyUpdate : PolicyWorker × Result Unit :=
  if w.phase ≠ .stable then
    if epoch = w.epoch ∧ targetPolicy = w.targetPolicy then w.migrateAndCommit epoch answers
    else (w, .error ⟨.kInvalid, "Eviction policy update does not match the active transition"⟩)
  else if w.sourcePolicy = targetPolicy then
    if w.epoch < epoch then w.beginPolicyUpdate targetPolicy epoch answers else (w, .ok ())
  else
    returnIfNotOk (w.beginPolicyUpdate targetPolicy epoch answers) fun w =>
      w.migrateAndCommit epoch answers

def step : PolicyAction → Option PolicyWorker
  | .handlePolicyUpdate targetPolicy epoch answers =>
    some (w.handlePolicyUpdate targetPolicy epoch answers).1
  | .restart => (initPolicyStateStore w.file).toOption

/-- A store that reports a failure has left the file as it was. -/
def reliable (_ : PolicyWorker) : PolicyAction → Bool
  | .handlePolicyUpdate _ _ answers => answers.intent.reliable && answers.lastGood.reliable
  | .restart => true

/-! ## The invariant -/

/-- Between two calls the memory of a worker agrees with its file. -/
structure Inv (w : PolicyWorker) : Prop where
  active : w.file.activePolicy = w.sourcePolicy
  intent : w.file.hasTransitionIntent = w.recoveredTransitionIntent
  recovered : w.recoveredTransitionIntent → w.file.targetPolicy = w.recoveredTargetPolicy ∧
    w.file.transitionEpoch = w.recoveredTransitionEpoch ∧
      w.file.activeEpoch < w.recoveredTransitionEpoch
  epoch : match w.phase with
    | .stable => w.file.activeEpoch = w.epoch
    | .migrating | .verifying => w.recoveredTransitionIntent ∧
      w.recoveredTransitionEpoch = w.epoch ∧ w.recoveredTargetPolicy = w.targetPolicy
    | .draining | .activating => False

/-- What a call for one target and epoch may write: the intent, unless there is another one, and
the commit. -/
inductive Writes (target : EvictionPolicy) (e : Nat) (f : PersistedPolicyState) :
    PersistedPolicyState → Prop
  | nothing : Writes target e f f
  | intent (hepoch : f.activeEpoch < e)
      (hkept : f.hasTransitionIntent → f.targetPolicy = target ∧ f.transitionEpoch = e) :
      Writes target e f ⟨f.activePolicy, f.activeEpoch, true, target, e⟩
  | commit (hepoch : f.activeEpoch < e)
      (hkept : f.hasTransitionIntent → f.targetPolicy = target ∧ f.transitionEpoch = e) :
      Writes target e f { activePolicy := target, activeEpoch := e }

/-- A call, or a part of one, that leaves a worker whose memory agrees with its file. -/
structure Keeps (target : EvictionPolicy) (e : Nat) (w w' : PolicyWorker) : Prop where
  inv : w'.Inv
  writes : Writes target e w.file w'.file

/-- A part of a call that changes nothing, or succeeds. -/
def FailsOr (Q : PolicyWorker → Prop) (rc : PolicyWorker × Result Unit) : Prop :=
  (∃ status, rc = (w, .error status)) ∨ ∃ w', rc = (w', .ok ()) ∧ Q w'

section

variable {w w' : PolicyWorker} {target : EvictionPolicy} {e : Nat} {answers : UpdateAnswers}
  {answer : StoreAnswer} {f f' f'' : PersistedPolicyState}

theorem Writes.trans (h : Writes target e f f') (h' : Writes target e f' f'') :
    Writes target e f f'' := by
  cases h with
  | nothing => exact h'
  | intent hepoch hkept =>
    cases h' with
    | nothing | intent => exact .intent hepoch hkept
    | commit => exact .commit hepoch hkept
  | commit hepoch hkept =>
    cases h' with
    | nothing => exact .commit hepoch hkept
    | intent hlt | commit hlt => exact absurd hlt (Nat.lt_irrefl _)

theorem Writes.advances (h : Writes target e f f') : f.activeEpoch ≤ f'.activeEpoch ∧
    (f'.activePolicy ≠ f.activePolicy → f.activeEpoch < f'.activeEpoch) := by
  cases h with
  | nothing => simp
  | intent => simp
  | commit hepoch => exact ⟨Nat.le_of_lt hepoch, fun _ => hepoch⟩

/-- An intent stays as it is until it is committed. -/
theorem Writes.keeps_intent (h : Writes target e f f') (hintent : f.hasTransitionIntent) :
    (f'.hasTransitionIntent ∧ f'.targetPolicy = f.targetPolicy ∧
        f'.transitionEpoch = f.transitionEpoch) ∨
      f' = { activePolicy := f.targetPolicy, activeEpoch := f.transitionEpoch } := by
  cases h with
  | nothing => exact .inl ⟨hintent, rfl, rfl⟩
  | intent _ hkept =>
    obtain ⟨rfl, rfl⟩ := hkept hintent
    exact .inl ⟨rfl, rfl, rfl⟩
  | commit _ hkept =>
    obtain ⟨rfl, rfl⟩ := hkept hintent
    exact .inr rfl

theorem Keeps.trans {w''} (h : Keeps target e w w') (h' : Keeps target e w' w'') :
    Keeps target e w w'' :=
  ⟨h'.inv, h.writes.trans h'.writes⟩

theorem Inv.keeps (h : w.Inv) : Keeps target e w w := ⟨h, .nothing⟩

theorem persistPolicyState_failsOr (hreliable : answer.reliable) :
    FailsOr w (· = { w with file := f }) (w.persistPolicyState answer f) := by
  cases answer with
  | stored => exact .inr ⟨_, rfl, rfl⟩
  | failed status => exact .inl ⟨status, rfl⟩
  | renamed => cases hreliable

/-- A prepared worker has written its intent. -/
theorem preparePolicyUpdate_failsOr (target : EvictionPolicy) (e : Nat)
    (hreliable : answer.reliable) (h : w.resetPolicyUpdatePhase.Inv) :
    FailsOr w (fun w' => Keeps target e w.resetPolicyUpdatePhase w'.resetPolicyUpdatePhase ∧
        w'.recoveredTransitionIntent ∧ w'.recoveredTargetPolicy = target ∧
          w'.recoveredTransitionEpoch = e)
      (w.preparePolicyUpdate target e answer) := by
  unfold preparePolicyUpdate
  split
  · exact .inl ⟨_, rfl⟩
  split
  · exact .inl ⟨_, rfl⟩
  obtain ⟨status, hfailed⟩ | ⟨_, hstored, rfl⟩ := persistPolicyState_failsOr (w := w)
    (f := ⟨w.sourcePolicy, w.epoch, true, target, e⟩) hreliable
  · exact .inl ⟨status, by simp [returnIfNotOk, persistTransitionIntent, hfailed]⟩
  have hactive : w.file.activeEpoch = w.epoch := h.epoch
  have hsource : w.file.activePolicy = w.sourcePolicy := h.active
  have hrecorded := h.recovered
  have hintent := h.intent
  simp only [resetPolicyUpdatePhase] at hrecorded hintent
  have hlt : w.file.activeEpoch < e := by grind
  refine .inr ⟨_, by simp [returnIfNotOk, persistTransitionIntent, hstored]; rfl, ?_, rfl, rfl,
    rfl⟩
  refine ⟨⟨rfl, rfl, fun _ => ⟨rfl, rfl, hactive ▸ hlt⟩, rfl⟩, ?_⟩
  show Writes _ _ w.file ⟨w.sourcePolicy, w.epoch, true, target, e⟩
  rw [← hactive, ← hsource]
  exact .intent hlt fun hpending => by grind

/-- The last good state commits the intent that the file has. -/
theorem Inv.commit (h : w.Inv) (hintent : w.recoveredTransitionIntent) :
    Writes w.recoveredTargetPolicy w.recoveredTransitionEpoch w.file
      { activePolicy := w.recoveredTargetPolicy, activeEpoch := w.recoveredTransitionEpoch } := by
  obtain ⟨htarget, hepoch, hlt⟩ := h.recovered hintent
  exact .commit hlt fun _ => ⟨htarget, hepoch⟩

theorem initializePolicyUpdateTarget_failsOr (hreliable : answers.lastGood.reliable)
    (h : w.resetPolicyUpdatePhase.Inv) (hintent : w.recoveredTransitionIntent) :
    FailsOr w (fun w' =>
        Keeps w.recoveredTargetPolicy w.recoveredTransitionEpoch w.resetPolicyUpdatePhase w' ∧
          (w'.phase = .stable ∨ w'.targetPolicy = w.recoveredTargetPolicy))
      (w.initializePolicyUpdateTarget w.recoveredTargetPolicy w.recoveredTransitionEpoch
        answers) := by
  unfold initializePolicyUpdateTarget
  split
  · exact .inl ⟨_, rfl⟩
  split
  · rename_i hsource
    obtain ⟨status, hfailed⟩ | ⟨_, hstored, rfl⟩ := persistPolicyState_failsOr (w := w)
      (f := { activePolicy := w.recoveredTargetPolicy, activeEpoch := w.recoveredTransitionEpoch })
      hreliable
    · exact .inl ⟨status, by simp [returnIfNotOk, persistLastGood, hfailed]⟩
    · refine .inr ⟨_, by simp [returnIfNotOk, persistLastGood, hstored]; rfl, ?_, .inl rfl⟩
      exact ⟨⟨hsource, rfl, nofun, rfl⟩, h.commit hintent⟩
  · cases answers.created with
    | error status => exact .inl ⟨status, rfl⟩
    | ok =>
      exact .inr ⟨_, rfl, ⟨⟨h.active, h.intent, h.recovered, hintent, rfl, rfl⟩, .nothing⟩,
        .inr rfl⟩

theorem Inv.beginPolicyUpdate (hintent : answers.intent.reliable)
    (hlastGood : answers.lastGood.reliable) (h : w.Inv) {rc}
    (hrc : w.beginPolicyUpdate target e answers = rc) : Keeps target e w rc.1 ∧
      (rc.2 = .ok () → rc.1.phase = .stable ∨ rc.1.targetPolicy = target) := by
  subst hrc
  unfold PolicyWorker.beginPolicyUpdate
  split
  · exact ⟨h.keeps, nofun⟩
  rename_i hphase
  have hstable : { w with phase := .draining }.resetPolicyUpdatePhase = w := by
    rw [resetPolicyUpdatePhase, ← not_ne_iff.mp hphase]
  obtain ⟨status, hfailed⟩ | ⟨w', hprepare, hkeeps, hrecorded, rfl, rfl⟩ :=
    preparePolicyUpdate_failsOr (w := { w with phase := .draining }) target e hintent (hstable ▸ h)
  · simp only [hfailed, returnIfNotOk]
    exact ⟨hstable.symm ▸ h.keeps, nofun⟩
  rw [hstable] at hkeeps
  simp only [hprepare, returnIfNotOk]
  cases answers.drained with
  | error => exact ⟨hkeeps, nofun⟩
  | ok =>
    obtain ⟨status, hfailed⟩ | ⟨w'', hinit, hkept', hphase⟩ :=
      initializePolicyUpdateTarget_failsOr hlastGood hkeeps.inv hrecorded
    · simp only [hfailed]
      exact ⟨hkeeps, nofun⟩
    · simp only [hinit]
      exact ⟨hkeeps.trans hkept', fun _ => hphase⟩

theorem Inv.commitPolicyUpdate (hlastGood : answers.lastGood.reliable) (h : w.Inv)
    (hphase : w.phase = .verifying) :
    Keeps w.targetPolicy e w (w.commitPolicyUpdate e answers).1 := by
  have hepoch := h.epoch
  simp only [hphase] at hepoch
  obtain ⟨hintent, hepoch, htarget⟩ := hepoch
  unfold PolicyWorker.commitPolicyUpdate
  cases answers.audited with
  | error => exact h.keeps
  | ok =>
    simp only [returnIfNotOk]
    split
    · exact h.keeps
    rename_i hsame
    obtain rfl : e = w.epoch := not_ne_iff.mp hsame
    obtain ⟨status, hfailed⟩ | ⟨_, hstored, rfl⟩ := persistPolicyState_failsOr
      (w := { w with phase := .activating })
      (f := { activePolicy := w.targetPolicy, activeEpoch := w.epoch }) hlastGood
    · simp only [persistLastGood, hfailed]
      have hback : { w with phase := .verifying } = w := by rw [← hphase]
      exact hback.symm ▸ h.keeps
    · simp only [persistLastGood, hstored]
      exact ⟨⟨rfl, rfl, nofun, rfl⟩, htarget ▸ hepoch ▸ h.commit hintent⟩

theorem Inv.migratePolicyBatch (h : w.Inv) {migrated rc}
    (hrc : w.migratePolicyBatch migrated = rc) :
    rc.1.Inv ∧ rc.1.file = w.file ∧
      (rc.1.phase = .verifying → w.phase ≠ .stable ∧ rc.1.targetPolicy = w.targetPolicy) := by
  subst hrc
  unfold PolicyWorker.migratePolicyBatch
  split
  · exact ⟨h, rfl, by simp_all⟩
  · rename_i hphase
    exact ⟨⟨h.active, h.intent, h.recovered, by simpa only [hphase] using h.epoch⟩, rfl,
      by simp_all⟩
  · exact ⟨h, rfl, by simp +contextual⟩

theorem Inv.migrateAndCommit (hlastGood : answers.lastGood.reliable) (h : w.Inv)
    (hphase : w.phase = .stable ∨ w.targetPolicy = target) :
    Keeps target e w (w.migrateAndCommit e answers).1 := by
  unfold PolicyWorker.migrateAndCommit returnIfNotOk
  generalize hmigrate : w.migratePolicyBatch answers.migrated = rc
  obtain ⟨hinv, hfile, htarget⟩ := h.migratePolicyBatch hmigrate
  have hkeeps : Keeps target e w rc.1 := ⟨hinv, hfile ▸ .nothing⟩
  split
  · exact hkeeps
  dsimp only
  split
  · rename_i hversion
    obtain ⟨hmoved, hsame⟩ := htarget hversion
    rw [← hphase.resolve_left hmoved, ← hsame] at hkeeps ⊢
    exact hkeeps.trans (hinv.commitPolicyUpdate hlastGood hversion)
  · exact hkeeps

theorem Inv.handlePolicyUpdate (hintent : answers.intent.reliable)
    (hlastGood : answers.lastGood.reliable) (h : w.Inv) :
    Keeps target e w (w.handlePolicyUpdate target e answers).1 := by
  unfold PolicyWorker.handlePolicyUpdate
  generalize hbegin : w.beginPolicyUpdate target e answers = rc
  obtain ⟨hkeeps, hphase⟩ := h.beginPolicyUpdate hintent hlastGood hbegin
  split
  · split
    · rename_i hsame
      exact h.migrateAndCommit hlastGood (.inr hsame.2.symm)
    · exact h.keeps
  split
  · split
    · exact hkeeps
    · exact h.keeps
  unfold returnIfNotOk
  split
  · exact hkeeps
  · rename_i hok
    exact hkeeps.trans (hkeeps.inv.migrateAndCommit hlastGood (hphase hok))

/-- A call for another target or epoch than the intent's is refused, unless it asks for what is
active. -/
theorem Inv.refuses (h : w.Inv) (hintent : w.file.hasTransitionIntent)
    (hother : ¬(target = w.file.targetPolicy ∧ e = w.file.transitionEpoch)) :
    (∃ status, w.handlePolicyUpdate target e answers = (w, .error status)) ∨
      (target = w.file.activePolicy ∧ e ≤ w.file.activeEpoch ∧
        w.handlePolicyUpdate target e answers = (w, .ok ())) := by
  have hrecorded : w.recoveredTransitionIntent := h.intent ▸ hintent
  obtain ⟨htarget, hepoch, hlt⟩ := h.recovered hrecorded
  have hactive := h.epoch
  unfold PolicyWorker.handlePolicyUpdate
  split
  · have : ¬(e = w.epoch ∧ target = w.targetPolicy) := by
      cases hphase : w.phase <;> simp only [hphase] at hactive <;> grind
    exact .inl ⟨_, if_neg this⟩
  rename_i hstable
  rw [not_ne_iff] at hstable
  simp only [hstable] at hactive
  have hprepare : { w with phase := .draining }.preparePolicyUpdate target e answers.intent =
      ({ w with phase := .draining },
        .error ⟨.kInvalid, "A persisted eviction policy update must recover forward"⟩) :=
    if_pos ⟨hrecorded, by grind⟩
  have hback : { w with phase := .stable } = w := by rw [← hstable]
  have hbegin : ∃ status, w.beginPolicyUpdate target e answers = (w, .error status) := by
    unfold PolicyWorker.beginPolicyUpdate
    rw [if_neg (not_ne_iff.mpr hstable), hprepare]
    exact ⟨_, congrArg (·, _) hback⟩
  obtain ⟨status, hbegin⟩ := hbegin
  rw [hbegin]
  split
  · split
    · exact .inl ⟨_, rfl⟩
    · rename_i hsource hle
      exact .inr ⟨hsource ▸ h.active.symm, by omega, rfl⟩
  · exact .inl ⟨_, rfl⟩

end

/-! ## Runs -/

theorem Inv.start (sourcePolicy : EvictionPolicy) : (start sourcePolicy).Inv :=
  ⟨rfl, rfl, nofun, rfl⟩

theorem Inv.step {w w' action} (h : w.Inv)
    (hstep : restrict reliable PolicyWorker.step w action = some w') :
    ∃ target e, Keeps target e w w' := by
  obtain ⟨hreliable, hstep⟩ := restrict_eq_some.mp hstep
  cases action with
  | handlePolicyUpdate =>
    obtain rfl := Option.some.inj hstep
    obtain ⟨hintent, hlastGood⟩ := Bool.and_eq_true_iff.mp hreliable
    exact ⟨_, _, h.handlePolicyUpdate hintent hlastGood⟩
  | restart =>
    have hinit : initPolicyStateStore w.file = .ok w' := by
      simp only [PolicyWorker.step] at hstep
      cases hinit : initPolicyStateStore w.file <;> simp_all [Except.toOption]
    simp only [initPolicyStateStore, bind_eq_ok, check_eq_ok, pure_eq_ok] at hinit
    obtain ⟨-, hvalid, rfl⟩ := hinit
    exact ⟨.clock, 0, ⟨rfl, rfl, fun hintent => ⟨rfl, rfl, hvalid hintent⟩, rfl⟩, .nothing⟩

theorem Inv.reaches {w w'} (h : Reaches (restrict reliable PolicyWorker.step) w w') (hinv : w.Inv) :
    w'.Inv :=
  h.invariant hinv fun _ _ _ hstep hinv =>
    have ⟨_, _, hkeeps⟩ := hinv.step hstep
    hkeeps.inv

/-- With stores that leave the file as it was when they fail, the active epoch never decreases and
another policy becomes active with a greater one only; an intent stays until it is committed, and
until then a call for another target or epoch changes nothing. -/
theorem policy_update_recovers_forward {sourcePolicy : EvictionPolicy} {s₀ s : PolicyWorker}
    (h₀ : Reaches (restrict reliable step) (start sourcePolicy) s₀)
    (h : Reaches (restrict reliable step) s₀ s) :
    (s.sourcePolicy = s.file.activePolicy ∧ (s.phase = .stable → s.epoch = s.file.activeEpoch)) ∧
    (s₀.file.activeEpoch ≤ s.file.activeEpoch ∧
      (s.file.activePolicy ≠ s₀.file.activePolicy → s₀.file.activeEpoch < s.file.activeEpoch)) ∧
    (s₀.file.hasTransitionIntent →
      (s.file.hasTransitionIntent ∧ s.file.targetPolicy = s₀.file.targetPolicy ∧
        s.file.transitionEpoch = s₀.file.transitionEpoch) ∨
      ∃ m, Reaches (restrict reliable step) s₀ m ∧ Reaches (restrict reliable step) m s ∧
        m.file = { activePolicy := s₀.file.targetPolicy,
                   activeEpoch := s₀.file.transitionEpoch }) ∧
    ∀ target e answers, s.file.hasTransitionIntent →
      ¬(target = s.file.targetPolicy ∧ e = s.file.transitionEpoch) →
      (∃ status, s.handlePolicyUpdate target e answers = (s, .error status)) ∨
        (target = s.file.activePolicy ∧ e ≤ s.file.activeEpoch ∧
          s.handlePolicyUpdate target e answers = (s, .ok ())) := by
  have hinv₀ := (Inv.start sourcePolicy).reaches h₀
  have hinv := hinv₀.reaches h
  refine ⟨⟨hinv.active.symm, fun hstable => ?_⟩, ?_, ?_, fun _ _ _ => hinv.refuses⟩
  · have hepoch := hinv.epoch
    rw [hstable] at hepoch
    exact hepoch.symm
  · clear hinv
    induction h with
    | refl => simp
    | next a h hstep ih =>
      obtain ⟨_, _, hkeeps⟩ := (hinv₀.reaches h).step hstep
      obtain ⟨hle, hlt⟩ := hkeeps.writes.advances
      grind
  · intro hintent
    clear hinv
    induction h with
    | refl => exact .inl ⟨hintent, rfl, rfl⟩
    | next a h hstep ih =>
      rcases ih with ⟨hkept, htarget, hepoch⟩ | ⟨m, hm, hms, hcommitted⟩
      · obtain ⟨_, _, hkeeps⟩ := (hinv₀.reaches h).step hstep
        rw [← htarget, ← hepoch]
        exact (hkeeps.writes.keeps_intent hkept).imp_right fun hcommit =>
          ⟨_, .next a h hstep, .refl, hcommit⟩
      · exact .inr ⟨m, hm, .next a hms hstep, hcommitted⟩

/-- An intent that is kept by a worker that could not drain and started again, and is then
committed. -/
theorem policy_update_recovers_forward_of_two :
    ∃ s₀ s, Reaches (restrict reliable step) (start .clock) s₀ ∧ s₀.file.hasTransitionIntent ∧
      Reaches (restrict reliable step) s₀ s ∧ s.file.activePolicy ≠ s₀.file.activePolicy ∧
      s₀.file.activeEpoch < s.file.activeEpoch := by
  have hintent : (run (restrict reliable step) (start .clock) [.handlePolicyUpdate .heat 6
      { drained := .error ⟨.kTryAgain, "Timed out waiting for eviction to drain"⟩ },
      .restart]).any fun s => s.file = ⟨.clock, 0, true, .heat, 6⟩ ∧
        (run (restrict reliable step) s [.handlePolicyUpdate .heat 6 {}]).any fun s' =>
          s'.file.activePolicy = .heat := by decide +kernel
  obtain ⟨s₀, h₀, hfile, hrun⟩ := exists_reaches _ hintent
  obtain ⟨s, h, hp⟩ := exists_reaches _ hrun
  have hne : s.file.activePolicy ≠ s₀.file.activePolicy := by
    rw [hfile, hp]
    nofun
  exact ⟨s₀, s, h₀, by rw [hfile], h, hne, (policy_update_recovers_forward h₀ h).2.1.2 hne⟩

/-- The intent of the first call is in the file when its directory cannot be synced, and the next
call is accepted with another epoch; in the same way the end of an update of the epoch alone is in
the file, and its second try writes the epoch before it again. -/
theorem intent_replaced_after_failed_sync :
    (∃ s₀ s, Reaches step (start .clock) s₀ ∧ s₀.file = ⟨.clock, 0, true, .heat, 6⟩ ∧
      step s₀ (.handlePolicyUpdate .heat 7 {}) = some s ∧ s.file = ⟨.heat, 7, false, .clock, 0⟩) ∧
    ∃ s₀ s, Reaches step (start .clock) s₀ ∧ s₀.file.activeEpoch = 6 ∧
      step s₀ (.handlePolicyUpdate .clock 6 { drained := .error ⟨.kTryAgain, ""⟩ }) = some s ∧
      s.file.activeEpoch = 0 :=
  let failed : StoreAnswer := .renamed ⟨.kRuntimeError, "open dir failed"⟩
  ⟨⟨_, _, .next (.handlePolicyUpdate .heat 6 { intent := failed }) .refl rfl, rfl, rfl, rfl⟩,
    _, _, .next (.handlePolicyUpdate .clock 6 { lastGood := failed }) .refl rfl, rfl, rfl, rfl⟩

end PolicyWorker

end Datasystem.Worker
