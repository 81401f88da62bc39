import Datasystem.Coordinator.MemoryKvStore
import Datasystem.Lib.StateMachine

/-! Compare-and-swap on top of the store. A call reads the key, computes the next
value and puts it under the version it has read; between the two store calls any
other client may write or delete the key. -/

namespace Datasystem.Coordinator

open Common Lib Checked StateMachine MemoryKvStore

/-! ## Calls -/

/-- What a process function makes of the current value: an error, or the value to write, if
any. -/
inductive ProcessOutcome
  | failed (status : Status) (retry : Bool)
  | next (value : Option Bytes)
deriving DecidableEq

abbrev ProcessFunction := Bytes → ProcessOutcome

/-- The process-function form, with the revision fence of `CASAtRevision` or none, and the form
that compares with an old value. -/
inductive CasForm
  | process (f : ProcessFunction) (expectedRevision : Int)
  | compare (oldValue newValue : Bytes)

structure CasCall where
  physicalKey : Bytes
  form : CasForm

namespace CoordinatorStoreBackend

def maxCasAttempts : Nat := 16

def buildPhysicalKey (tableName key : Bytes) : Bytes := tableName ++ ascii "/" ++ key

/-- The checks before the store is called. -/
def prepareCas (tableName key : Bytes) (form : CasForm) : Result CasCall := do
  checkFailReturnStatus (tableName ≠ []) .kInvalid "Coordinator table name is empty"
  pure ⟨buildPhysicalKey tableName key, form⟩

def isRetryableCasConflict (status : Status) : Bool :=
  status.code = .kTryAgain || isCoordinatorCasConflict status

def retryLimitError : Status := ⟨.kTryAgain, "Coordinator CAS exceeded retry limit"⟩

variable (current : Option ValueEntry)

/-- An absent key has the empty value. -/
def currentValue : Bytes := current.elim [] ValueEntry.value

/-- An absent key has the version that stands for absence. -/
def currentVersion : Int :=
  current.elim coordinatorKeyNotExistsVersion fun e => e.version

/-- Where a call stands between its store calls. -/
inductive CasPhase
  | reading (attempt : Nat) (lastError : Status)
  | writing (attempt : Nat) (current : Option ValueEntry) (value : Bytes)
  | done (result : Result KeyValueEntry)

def retryCas (attempt : Nat) (lastError : Status) : CasPhase :=
  if attempt + 1 < maxCasAttempts then .reading (attempt + 1) lastError
  else .done (.error lastError)

/-- The read of an attempt, with everything up to the put. -/
def readCas (call : CasCall) (attempt : Nat) (current : Option ValueEntry) : CasPhase :=
  match call.form with
  | .process f _ =>
    match f (currentValue current) with
    | .failed status retry => if retry then retryCas attempt status else .done (.error status)
    | .next none =>
      .done (.ok ((current.getD ⟨[], 0, 0, 0, 0, 0⟩).toKeyValue call.physicalKey))
    | .next (some value) => .writing attempt current value
  | .compare oldValue newValue =>
    match current with
    | some e =>
      if e.value = oldValue then .writing attempt current newValue
      else .done (.error ⟨.kTryAgain, "Coordinator compare value failed"⟩)
    | none => .writing attempt none newValue

def expectedRevision (call : CasCall) : Int :=
  match call.form with
  | .process _ expectedRevision => expectedRevision
  | .compare _ _ => coordinatorNoGlobalRevisionCheck

def casRequest (call : CasCall) (current : Option ValueEntry) (value : Bytes) :
    MemoryKvStore.PutRequest :=
  { key := call.physicalKey
    value := value
    ttlMs := 0
    expectedVersion := currentVersion current
    expectedGlobalRevision := expectedRevision call }

/-- What follows a put that was refused. -/
def refusedCas (call : CasCall) (attempt : Nat) (status : Status) : CasPhase :=
  match call.form with
  | .process _ expectedRevision =>
    if expectedRevision ≠ coordinatorNoGlobalRevisionCheck ∧ status.code = .kDataInconsistency then
      .done (.error status)
    else if isRetryableCasConflict status then retryCas attempt status
    else .done (.error status)
  | .compare _ _ => .done (.error status)

end CoordinatorStoreBackend

open CoordinatorStoreBackend

/-! ## Concurrent calls -/

/-- A put of a compare-and-swap, with what it replaced. -/
structure CasWrite where
  id : Nat
  call : CasCall
  before : Option ValueEntry
  value : Bytes

structure CasReturn where
  id : Nat
  call : CasCall
  result : Result KeyValueEntry

/-- A call that has not returned. -/
structure PendingCas where
  id : Nat
  call : CasCall
  phase : CasPhase

/-- The store, the calls in progress, and the history of writes and returns. -/
structure CasSystem (Client : Type) where
  store : MemoryKvStore
  pending : Client → Option PendingCas
  nextId : Nat
  writes : List CasWrite
  returns : List CasReturn

inductive CasAction (Client : Type)
  | put (req : MemoryKvStore.PutRequest)
  | delete (req : MemoryKvStore.DeleteRequest)
  | expire (key : Bytes) (revision ttlGeneration : Nat)
  | keepAlive (key : Bytes) (expectedModRevision : Int)
  | start (c : Client) (tableName key : Bytes) (form : CasForm)
  | read (c : Client)
  | write (c : Client)
  | return (c : Client)

namespace CasSystem

variable {Client : Type}

def init : CasSystem Client := ⟨{}, fun _ => none, 0, [], []⟩

def setPending [DecidableEq Client] (s : CasSystem Client) (c : Client) (p : Option PendingCas) :
    CasSystem Client :=
  { s with pending := Function.update s.pending c p }

/-- One step: a store operation of somebody, or the next store call of a compare-and-swap. -/
def step [DecidableEq Client] (s : CasSystem Client) : CasAction Client → Option (CasSystem Client)
  | .put req => (s.store.put req).toOption.map fun r => { s with store := r.2 }
  | .delete req => (s.store.delete req).toOption.map fun r => { s with store := r.2 }
  | .expire key revision ttlGeneration =>
    (s.store.deleteIfTtlExpired key revision ttlGeneration).map fun r => { s with store := r.2 }
  | .keepAlive key expected =>
    (s.store.keepAlive key expected).toOption.map fun r => { s with store := r.2 }
  | .start c tableName key form =>
    match s.pending c, prepareCas tableName key form with
    | none, .ok call =>
      some { s.setPending c (some ⟨s.nextId, call, .reading 0 retryLimitError⟩) with
        nextId := s.nextId + 1 }
    | _, _ => none
  | .read c =>
    match s.pending c with
    | some ⟨id, call, .reading attempt _⟩ =>
      some (s.setPending c
        (some ⟨id, call, readCas call attempt (s.store.data.find? call.physicalKey)⟩))
    | _ => none
  | .write c =>
    match s.pending c with
    | some ⟨id, call, .writing attempt current value⟩ =>
      match s.store.put (casRequest call current value) with
      | .ok (r, store) =>
        some { s.setPending c (some ⟨id, call, .done (.ok r.event.entry)⟩) with
          store := store
          writes := ⟨id, call, s.store.data.find? call.physicalKey, value⟩ :: s.writes }
      | .error status => some (s.setPending c (some ⟨id, call, refusedCas call attempt status⟩))
    | _ => none
  | .return c =>
    match s.pending c with
    | some ⟨id, call, .done result⟩ =>
      some { s.setPending c none with returns := ⟨id, call, result⟩ :: s.returns }
    | _ => none

/-! ## Atomicity -/

/-- The value that was written is computed from the value that it replaced. -/
def Atomic (w : CasWrite) : Prop :=
  match w.call.form with
  | .process f _ => f (currentValue w.before) = .next (some w.value)
  | .compare oldValue newValue => currentValue w.before = oldValue ∧ w.value = newValue

instance (w : CasWrite) : Decidable (Atomic w) :=
  match w with
  | ⟨_, ⟨_, .process _ _⟩, _, _⟩ => inferInstanceAs (Decidable (_ = _))
  | ⟨_, ⟨_, .compare _ _⟩, _, _⟩ => inferInstanceAs (Decidable (_ ∧ _))

/-- When a call puts, the key has not been created anew since it was read, and an old value is
not compared with a key that is absent. -/
def unreplaced (s : CasSystem Client) : CasAction Client → Bool
  | .write c =>
    match s.pending c with
    | some ⟨_, call, .writing _ current _⟩ =>
      (match current, s.store.data.find? call.physicalKey with
        | some e, some e' => e.createRevision == e'.createRevision
        | _, _ => true) &&
      (match call.form, current with
        | .compare oldValue _, none => oldValue == []
        | _, _ => true)
    | _ => true
  | _ => true

/-- The put of a call is computed from what it has read, and as long as the incarnation is the
same the store holds a later state of it. -/
structure Ready (store : MemoryKvStore) (call : CasCall) (current : Option ValueEntry)
    (value : Bytes) : Prop where
  computed : match call.form with
    | .process f _ => f (currentValue current) = .next (some value)
    | .compare oldValue newValue => value = newValue ∧ ∀ e ∈ current, e.value = oldValue
  read : ∀ e ∈ current, 0 < e.version ∧ e.createRevision ≤ store.revision ∧
    ∀ e', store.data.find? call.physicalKey = some e' → e'.createRevision = e.createRevision →
      MemoryKvStore.Later e e'

/-- What the writes say about a call in some phase: only a call that has succeeded has written,
and what it returns is what it wrote. -/
def Accounts (writes : List CasWrite) (id : Nat) (call : CasCall) : CasPhase → Prop
  | .done (.ok r) => ∀ w ∈ writes, w.id = id → w.call = call ∧ w.value = r.value
  | _ => ∀ w ∈ writes, w.id ≠ id

structure WellFormed (s : CasSystem Client) : Prop where
  entries : ∀ key e, s.store.data.find? key = some e →
    e.createRevision ≤ s.store.revision ∧ 0 < e.version
  ready : ∀ c p attempt current value, s.pending c = some p →
    p.phase = .writing attempt current value → Ready s.store p.call current value
  atomic : ∀ w ∈ s.writes, Atomic w
  writeIds : ∀ w ∈ s.writes, w.id < s.nextId
  pendingIds : ∀ c p, s.pending c = some p → p.id < s.nextId
  distinct : ∀ c c' p p', s.pending c = some p → s.pending c' = some p' → p.id = p'.id → c = c'
  accounts : ∀ c p, s.pending c = some p → Accounts s.writes p.id p.call p.phase
  returned : ∀ r ∈ s.returns, r.id < s.nextId ∧ (∀ c p, s.pending c = some p → p.id ≠ r.id) ∧
    Accounts s.writes r.id r.call (.done r.result)

theorem wellFormed_init : WellFormed (init : CasSystem Client) := by
  constructor <;> intros <;> simp_all [init]

section

variable {s s' : CasSystem Client}

variable {store : MemoryKvStore} {call : CasCall} {current : Option ValueEntry} {value : Bytes}
  {c : Client} {id attempt : Nat}

theorem Ready.advances {store'} (h : Ready store call current value)
    (ha : MemoryKvStore.Advances store store') : Ready store' call current value where
  computed := h.computed
  read e he := by
    obtain ⟨hversion, hcreated, hlater⟩ := h.read e he
    refine ⟨hversion, le_trans hcreated ha.revision, fun e' he' hsame => ?_⟩
    rcases ha.entry _ e' he' with ⟨hnew, -⟩ | ⟨e₀, he₀, hl⟩
    · omega
    · exact (hlater e₀ he₀ (hl.created.trans hsame)).trans hl

theorem WellFormed.advances (h : WellFormed s)
    (ha : MemoryKvStore.Advances s.store store) : WellFormed { s with store := store } where
  entries key e he := by
    rcases ha.entry key e he with ⟨-, hle, hpos⟩ | ⟨e₀, he₀, hl⟩
    · exact ⟨hle, hpos⟩
    · obtain ⟨hle, hpos⟩ := h.entries key e₀ he₀
      have hrev := ha.revision
      have hversion := hl.version
      have hcreated := hl.created
      exact ⟨by dsimp only; omega, by omega⟩
  ready c p attempt current value hp hphase :=
    (h.ready c p attempt current value hp hphase).advances ha
  atomic := h.atomic
  writeIds := h.writeIds
  pendingIds := h.pendingIds
  distinct := h.distinct
  accounts := h.accounts
  returned := h.returned

/-- The conditions on a put, written out. -/
theorem unreplaced_write (hp : s.pending c = some ⟨id, call, .writing attempt current value⟩)
    (h : unreplaced s (.write c)) :
    (∀ e ∈ current, ∀ e', s.store.data.find? call.physicalKey = some e' →
      e'.createRevision = e.createRevision) ∧
    (∀ oldValue newValue, call.form = .compare oldValue newValue → current = none →
      oldValue = []) := by
  simp only [unreplaced, hp, Bool.and_eq_true] at h
  obtain ⟨hsame, hempty⟩ := h
  constructor
  · intro e he e' he'
    cases he
    rw [he'] at hsame
    exact (eq_of_beq hsame).symm
  · intro oldValue newValue hform hnone
    subst hnone
    rw [hform] at hempty
    exact eq_of_beq hempty

theorem WellFormed.id_ne (h : WellFormed s) {p} (hp : s.pending c = some p) (c' p') (hc : c' ≠ c)
    (hp' : s.pending c' = some p') : p'.id ≠ p.id :=
  fun hid => hc (h.distinct c' c p' p hp' hp hid)

variable [DecidableEq Client]

theorem setPending_eq_some {c'} {q} {p} : (s.setPending c q).pending c' = some p ↔
      (c' = c ∧ q = some p) ∨ (c' ≠ c ∧ s.pending c' = some p) := by
  by_cases hc : c' = c
  · subst hc
    simp [setPending]
  · simp [setPending, hc]

/-- What holds of the call in hand and of the calls of the other clients. -/
theorem forall_setPending {q} {P : Client → PendingCas → Prop} (hself : P c q)
    (hother : ∀ c' p, c' ≠ c → s.pending c' = some p → P c' p) :
    ∀ c' p, (s.setPending c (some q)).pending c' = some p → P c' p := by
  intro c' p hp
  rcases setPending_eq_some.mp hp with ⟨rfl, hq⟩ | ⟨hc, hold⟩
  · cases hq
    exact hself
  · exact hother c' p hc hold

theorem WellFormed.distinct_setPending (h : WellFormed s) {q}
    (hother : ∀ c' p, c' ≠ c → s.pending c' = some p → p.id ≠ q.id) (c₁ c₂ p₁ p₂)
    (hp₁ : (s.setPending c (some q)).pending c₁ = some p₁)
    (hp₂ : (s.setPending c (some q)).pending c₂ = some p₂) (hid : p₁.id = p₂.id) : c₁ = c₂ := by
  rcases setPending_eq_some.mp hp₁ with ⟨hc₁, hq₁⟩ | ⟨hc₁, hold₁⟩ <;>
    rcases setPending_eq_some.mp hp₂ with ⟨hc₂, hq₂⟩ | ⟨hc₂, hold₂⟩
  · exact hc₁.trans hc₂.symm
  · cases hq₁
    exact absurd hid.symm (hother c₂ p₂ hc₂ hold₂)
  · cases hq₂
    exact absurd hid (hother c₁ p₁ hc₁ hold₁)
  · exact h.distinct c₁ c₂ p₁ p₂ hold₁ hold₂ hid

/-- A call goes on to a phase that is as accounted for as the one before. -/
theorem WellFormed.proceed (h : WellFormed s) {p} (hp : s.pending c = some p) {phase}
    (hready : ∀ attempt current value, phase = .writing attempt current value →
      Ready s.store p.call current value) (haccounts : Accounts s.writes p.id p.call phase) :
    WellFormed (s.setPending c (some ⟨p.id, p.call, phase⟩)) where
  entries := h.entries
  ready c' p' attempt current value hp' hphase := by
    rcases setPending_eq_some.mp hp' with ⟨-, hq⟩ | ⟨-, hold⟩
    · cases hq
      exact hready attempt current value hphase
    · exact h.ready c' p' attempt current value hold hphase
  atomic := h.atomic
  writeIds := h.writeIds
  pendingIds := forall_setPending (h.pendingIds c p hp) fun c' p' _ => h.pendingIds c' p'
  distinct := h.distinct_setPending (h.id_ne (p := p) hp)
  accounts := forall_setPending haccounts fun c' p' _ => h.accounts c' p'
  returned r hr := by
    obtain ⟨hlt, hne, hr⟩ := h.returned r hr
    exact ⟨hlt, forall_setPending (hne c p hp) fun c' p' _ => hne c' p', hr⟩

/-- What a call puts after its read is computed from the read, and it has not written yet. -/
theorem readCas_spec {writes} (hnone : ∀ w ∈ writes, w.id ≠ id) :
    Accounts writes id call (readCas call attempt current) ∧
      ∀ attempt' current' value, readCas call attempt current = .writing attempt' current' value →
        current' = current ∧ match call.form with
          | .process f _ => f (currentValue current) = .next (some value)
          | .compare oldValue newValue => value = newValue ∧ ∀ e ∈ current, e.value = oldValue := by
  have hretry : ∀ lastError, Accounts writes id call (retryCas attempt lastError) ∧
      ∀ attempt' current' value, retryCas attempt lastError ≠ .writing attempt' current' value := by
    intro lastError
    unfold retryCas
    split
    · exact ⟨hnone, nofun⟩
    · exact ⟨hnone, nofun⟩
  unfold readCas
  cases hform : call.form with
  | process f =>
    dsimp only
    cases hf : f (currentValue current) with
    | failed status retry =>
      cases retry with
      | false => exact ⟨hnone, nofun⟩
      | true => exact ⟨(hretry status).1, fun _ _ _ h => absurd h ((hretry status).2 _ _ _)⟩
    | next value =>
      cases value with
      | none => exact ⟨fun w hw hid => absurd hid (hnone w hw), nofun⟩
      | some =>
        refine ⟨hnone, fun attempt' current' value' h => ?_⟩
        cases h
        exact ⟨rfl, rfl⟩
  | compare oldValue newValue =>
    cases current with
    | none =>
      refine ⟨hnone, fun attempt' current' value' h => ?_⟩
      cases h
      exact ⟨rfl, rfl, nofun⟩
    | some e =>
      dsimp only
      split
      · rename_i heq
        refine ⟨hnone, fun attempt' current' value' h => ?_⟩
        cases h
        refine ⟨rfl, rfl, fun e' he' => ?_⟩
        cases he'
        exact heq
      · exact ⟨hnone, nofun⟩

theorem refusedCas_spec {status} {writes} (hnone : ∀ w ∈ writes, w.id ≠ id) :
    Accounts writes id call (refusedCas call attempt status) ∧
      ∀ attempt' current value, refusedCas call attempt status ≠
        .writing attempt' current value := by
  unfold refusedCas
  cases call.form with
  | process =>
    dsimp only
    split
    · exact ⟨hnone, nofun⟩
    · split
      · unfold retryCas
        split <;> exact ⟨hnone, nofun⟩
      · exact ⟨hnone, nofun⟩
  | compare => exact ⟨hnone, nofun⟩

/-- A put that passes the version fence replaces the value that the call has read. -/
theorem Ready.atomic {store'} {r} (h : Ready store call current value)
    (hput : store.put (casRequest call current value) = .ok (r, store'))
    (hsame : ∀ e ∈ current, ∀ e', store.data.find? call.physicalKey = some e' →
      e'.createRevision = e.createRevision)
    (hempty : ∀ oldValue newValue, call.form = .compare oldValue newValue → current = none →
      oldValue = []) (id : Nat) :
    Atomic ⟨id, call, store.data.find? call.physicalKey, value⟩ := by
  obtain ⟨hcheck, -, -⟩ := put_eq_ok.mp hput
  obtain ⟨hnew, hold⟩ := checkPut_version hcheck
  have hbefore : currentValue (store.data.find? call.physicalKey) = currentValue current := by
    cases current with
    | none =>
      have hnone : store.data.find? call.physicalKey = none := hnew rfl
      rw [hnone]
    | some e =>
      obtain ⟨hpos, -, hlater⟩ := h.read e rfl
      obtain ⟨e', he', hversion⟩ := hold (by
          change (e.version : Int) ≠ 0
          omega) (by
          change (e.version : Int) ≠ -1
          omega)
      have hversion : e'.version = e.version := Int.ofNat.inj hversion
      have he' : store.data.find? call.physicalKey = some e' := he'
      have hl := hlater e' he' (hsame e rfl e' he')
      rw [he']
      exact (hl.value hversion.symm).symm
  have hcomputed := h.computed
  unfold Atomic
  rw [hbefore]
  cases hform : call.form with
  | process =>
    rw [hform] at hcomputed
    exact hcomputed
  | compare oldValue newValue =>
    rw [hform] at hcomputed
    obtain ⟨hvalue, hread⟩ := hcomputed
    refine ⟨?_, hvalue⟩
    cases current with
    | none => exact (hempty oldValue newValue hform rfl).symm
    | some e => exact hread e rfl

/-- A call that puts adds a write of its own. -/
theorem WellFormed.write (h : WellFormed s)
    (hp : s.pending c = some ⟨id, call, .writing attempt current value⟩)
    (hcond : unreplaced s (.write c)) {r}
    (hput : s.store.put (casRequest call current value) = .ok (r, store)) :
    WellFormed { s.setPending c (some ⟨id, call, .done (.ok r.event.entry)⟩) with
      store := store
      writes := ⟨id, call, s.store.data.find? call.physicalKey, value⟩ :: s.writes } := by
  obtain ⟨hsame, hempty⟩ := unreplaced_write hp hcond
  have hready := h.ready c _ attempt current value hp rfl
  have hatomic := hready.atomic hput hsame hempty id
  have hvalue : r.event.entry.value = value := by
    obtain ⟨-, hr, -⟩ := put_eq_ok.mp hput
    rw [hr]
    cases hfind : s.store.data.find? (casRequest call current value).key <;> rfl
  have hadvances := h.advances (put_advances hput)
  have hnone : ∀ w ∈ s.writes, w.id ≠ id := h.accounts c _ hp
  have hlt : id < s.nextId := h.pendingIds c _ hp
  have hother := h.id_ne hp
  -- calls of other clients have other ids, so the new write says nothing about them
  have hweak : ∀ {id' call' phase}, id' ≠ id → Accounts s.writes id' call' phase →
      Accounts (⟨id, call, s.store.data.find? call.physicalKey, value⟩ :: s.writes) id' call'
        phase := by
    intro id' call' phase hid haccounts
    unfold Accounts at haccounts ⊢
    split at haccounts
    · refine List.forall_mem_cons.mpr ⟨fun heq => absurd heq.symm hid, haccounts⟩
    · refine List.forall_mem_cons.mpr ⟨fun heq => hid heq.symm, haccounts⟩
  refine
    { entries := hadvances.entries
      ready := ?_
      atomic := List.forall_mem_cons.mpr ⟨hatomic, h.atomic⟩
      writeIds := List.forall_mem_cons.mpr ⟨hlt, h.writeIds⟩
      pendingIds := forall_setPending hlt fun c' p' _ => h.pendingIds c' p'
      distinct := h.distinct_setPending hother
      accounts := forall_setPending ?_ fun c' p' hc hold =>
        hweak (hother c' p' hc hold) (h.accounts c' p' hold)
      returned := ?_ }
  · intro c' p' attempt' current' value' hp' hphase
    rcases setPending_eq_some.mp hp' with ⟨-, hq⟩ | ⟨-, hold⟩
    · cases hq
      cases hphase
    · exact hadvances.ready c' p' attempt' current' value' hold hphase
  · exact List.forall_mem_cons.mpr ⟨fun _ => ⟨rfl, hvalue.symm⟩,
      fun w hw hid => absurd hid (hnone w hw)⟩
  · intro r' hr'
    obtain ⟨hlt', hne, haccounts⟩ := h.returned r' hr'
    have hid : id ≠ r'.id := hne c _ hp
    exact ⟨hlt', forall_setPending hid fun c' p' _ => hne c' p', hweak hid.symm haccounts⟩

theorem WellFormed.start (h : WellFormed s) (c) (call) (lastError) :
    WellFormed { s.setPending c (some ⟨s.nextId, call, .reading 0 lastError⟩) with
      nextId := s.nextId + 1 } where
  entries := h.entries
  ready c' p' attempt current value hp' hphase := by
    rcases setPending_eq_some.mp hp' with ⟨-, hq⟩ | ⟨-, hold⟩
    · cases hq
      cases hphase
    · exact h.ready c' p' attempt current value hold hphase
  atomic := h.atomic
  writeIds w hw := Nat.lt_succ_of_lt (h.writeIds w hw)
  pendingIds := forall_setPending (Nat.lt_succ_self _)
    fun c' p' _ hold => Nat.lt_succ_of_lt (h.pendingIds c' p' hold)
  distinct := h.distinct_setPending fun c' p' _ hold => Nat.ne_of_lt (h.pendingIds c' p' hold)
  accounts := forall_setPending (fun w hw => Nat.ne_of_lt (h.writeIds w hw))
    fun c' p' _ => h.accounts c' p'
  returned r hr := by
    obtain ⟨hlt, hne, haccounts⟩ := h.returned r hr
    exact ⟨Nat.lt_succ_of_lt hlt, forall_setPending (Nat.ne_of_gt hlt) fun c' p' _ => hne c' p',
      haccounts⟩

theorem WellFormed.return (h : WellFormed s)
    {result} (hp : s.pending c = some ⟨id, call, .done result⟩) :
    WellFormed { s.setPending c none with returns := ⟨id, call, result⟩ :: s.returns } := by
  have hkept : ∀ {c' p'}, (s.setPending c none).pending c' = some p' →
      c' ≠ c ∧ s.pending c' = some p' := by
    intro c' p' hp'
    rcases setPending_eq_some.mp hp' with ⟨-, hq⟩ | hold
    · cases hq
    · exact hold
  exact
    { entries := h.entries
      ready := fun c' p' attempt current value hp' hphase =>
        h.ready c' p' attempt current value (hkept hp').2 hphase
      atomic := h.atomic
      writeIds := h.writeIds
      pendingIds := fun c' p' hp' => h.pendingIds c' p' (hkept hp').2
      distinct := fun c₁ c₂ p₁ p₂ hp₁ hp₂ hid =>
        h.distinct c₁ c₂ p₁ p₂ (hkept hp₁).2 (hkept hp₂).2 hid
      accounts := fun c' p' hp' => h.accounts c' p' (hkept hp').2
      returned := List.forall_mem_cons.mpr ⟨⟨h.pendingIds c _ hp, fun c' p' hp' hid =>
            (hkept hp').1 (h.distinct c' c p' _ (hkept hp').2 hp hid), h.accounts c _ hp⟩,
          fun r hr => by
            obtain ⟨hlt, hne, haccounts⟩ := h.returned r hr
            exact ⟨hlt, fun c' p' hp' => hne c' p' (hkept hp').2, haccounts⟩⟩ }

theorem step_wellFormed {a} (hcond : unreplaced s a) (hstep : step s a = some s')
    (h : WellFormed s) : WellFormed s' := by
  cases a with
  | put =>
    obtain ⟨⟨_, _⟩, hput, rfl⟩ := toOption_map_eq_some.mp hstep
    exact h.advances (put_advances hput)
  | delete =>
    obtain ⟨⟨_, _⟩, hdel, rfl⟩ := toOption_map_eq_some.mp hstep
    exact h.advances (delete_advances hdel)
  | expire =>
    obtain ⟨⟨_, _⟩, hexpired, rfl⟩ := Option.map_eq_some_iff.mp hstep
    obtain ⟨hrev, hkeys⟩ := deleteIfTtlExpired_sub hexpired
    exact h.advances (.of_sub hrev fun k e he => (hkeys k e he).2)
  | keepAlive =>
    obtain ⟨⟨_, _⟩, hkeep, rfl⟩ := toOption_map_eq_some.mp hstep
    obtain ⟨e, he, -, -, rfl⟩ := keepAlive_eq_ok hkeep
    exact h.advances (.of_find (le_refl _) rfl (.inr ⟨e, he, rfl, le_refl _, fun _ => rfl⟩))
  | start c tableName key form =>
    simp only [step] at hstep
    split at hstep
    · rename_i call _ _
      cases hstep
      exact h.start c call retryLimitError
    · cases hstep
  | read c =>
    simp only [step] at hstep
    split at hstep
    · rename_i id call attempt lastError hp
      cases hstep
      obtain ⟨haccounts, hwrite⟩ := readCas_spec (h.accounts c _ hp)
      refine h.proceed hp (fun attempt' current value hphase => ?_) haccounts
      obtain ⟨rfl, hcommitted⟩ := hwrite attempt' current value hphase
      refine ⟨hcommitted, fun e he => ?_⟩
      obtain ⟨hle, hpos⟩ := h.entries _ e he
      refine ⟨hpos, hle, fun e' he' _ => ?_⟩
      rw [Option.mem_def.mp he] at he'
      cases he'
      exact MemoryKvStore.Later.refl e
    · cases hstep
  | write c =>
    simp only [step] at hstep
    split at hstep
    · rename_i id call attempt current value hp
      split at hstep
      · rename_i r store hput
        cases hstep
        exact h.write hp hcond hput
      · cases hstep
        obtain ⟨haccounts, hwrite⟩ := refusedCas_spec (h.accounts c _ hp)
        exact h.proceed hp (fun _ _ _ hphase => absurd hphase (hwrite _ _ _)) haccounts
    · cases hstep
  | «return» c =>
    simp only [step] at hstep
    split at hstep
    · rename_i id call result hp
      cases hstep
      exact h.return hp
    · cases hstep

end

/-- **Compare-and-swap is atomic between re-creations of its key.** In every run in which no call
puts to a key that was deleted and created anew since it read it, and none compares an old value
with an absent key, what a call has written is computed from the value it replaced, a call that
returns the written value has returned it, and a call that returns an error has not written. -/
theorem cas_atomic [DecidableEq Client] {s : CasSystem Client}
    (h : Reaches (restrict unreplaced step) init s) :
    (∀ w ∈ s.writes, Atomic w) ∧
    (∀ r ∈ s.returns, ∀ result, r.result = .ok result → ∀ w ∈ s.writes, w.id = r.id →
      w.call = r.call ∧ w.value = result.value) ∧
    (∀ r ∈ s.returns, ∀ status, r.result = .error status → ∀ w ∈ s.writes, w.id ≠ r.id) := by
  have hwell : WellFormed s := by
    refine h.invariant wellFormed_init fun s s' a hstep hs => ?_
    obtain ⟨hcond, hstep⟩ := restrict_eq_some.mp hstep
    exact step_wellFormed hcond hstep hs
  refine ⟨hwell.atomic, fun r hr result hresult => ?_, fun r hr status hresult => ?_⟩
  · have haccepted := (hwell.returned r hr).2.2
    rw [hresult] at haccepted
    exact haccepted
  · have haccepted := (hwell.returned r hr).2.2
    rw [hresult] at haccepted
    exact haccepted

/-- Append one byte to the value. -/
def appendByte (b : Byte) : CasForm := .process (fun value => .next (some (value ++ [b]))) 0

def sampleTable : Bytes := ascii "t"

def sampleKey : Bytes := ascii "k"

def samplePut (value : Bytes) : CasAction Unit :=
  .put ⟨buildPhysicalKey sampleTable sampleKey, value, 0, coordinatorNoVersionCheck, 0, 0⟩

/-- One call appends a byte to a value that another client has put. -/
theorem cas_appends : ∃ s : CasSystem Unit, Reaches (restrict unreplaced step) init s ∧
    s.returns.any (fun r => r.result.isOk) ∧
    (s.writes.any fun w => w.value = [1, 7]) ∧ ∀ w ∈ s.writes, Atomic w := by
  have hrun : ∃ s : CasSystem Unit, Reaches (restrict unreplaced step) init s ∧
      (s.returns.any (fun r => r.result.isOk) && s.writes.any fun w => w.value = [1, 7]) :=
    exists_of_run [samplePut [1], .start () sampleTable sampleKey (appendByte 7), .read (),
      .write (), .return ()] (by decide +kernel)
  obtain ⟨s, hs, hwrites⟩ := hrun
  rw [Bool.and_eq_true] at hwrites
  exact ⟨s, hs, hwrites.1, hwrites.2, (cas_atomic hs).1⟩

/-- A key that is deleted and created anew counts its versions from one again, so a call that read
the first incarnation overwrites the second. And a call that is to replace an old value creates a
key that does not exist. -/
theorem cas_overwrites_recreated_key :
    (∃ s : CasSystem Unit, Reaches step init s ∧ s.writes.any fun w =>
      currentValue w.before = [2] && w.value = [1, 7] && !decide (Atomic w)) ∧
    (∃ s : CasSystem Unit, Reaches step init s ∧ s.writes.any fun w =>
      w.before = none && w.value = [2] && !decide (Atomic w)) := by
  constructor
  · exact exists_of_run [samplePut [1], .start () sampleTable sampleKey (appendByte 7), .read (),
      .delete ⟨buildPhysicalKey sampleTable sampleKey, [], 0⟩, samplePut [2], .write ()]
      (by decide +kernel)
  · exact exists_of_run [.start () sampleTable sampleKey (.compare [1] [2]), .read (), .write ()]
      (by decide +kernel)

end CasSystem

end Datasystem.Coordinator
