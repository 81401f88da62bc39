import Datasystem.Lib.StateMachine
import Datasystem.Master.OCNestedManager

/-! What a restart makes of nested objects. The store has a row for each child of each parent
and one for each count, but not every operation keeps both up to date, and a row only shows its
parent if the key of the child has no underscore. -/

namespace Datasystem.Master.OCNestedManager

open Common Lib Checked StateMachine List OrderedMap OrderedSet ObjectRefInfo

inductive Operation
  | increaseNestedRefCnt (parentObjectKey : Bytes) (nestedObjectKeys : OrderedSet Bytes)
  | increaseNestedRefCntBy (nestedObjectKey : Bytes) (ref : Nat)
  | decreaseNestedRefCnt (nestedObjectKey : Bytes)
  | decreaseNestedRefCntOf (parentObjectKey : Bytes)
  | removeNestIdsRef (nestedKeys : List Bytes)
  | removeRelationshipData (parentObjectKey : Bytes)
  | removeMigratedRefCount (key : Bytes)

variable (m : OCNestedManager)

def perform : Operation → OCNestedManager
  | .increaseNestedRefCnt parentObjectKey nestedObjectKeys =>
    m.increaseNestedRefCnt parentObjectKey nestedObjectKeys
  | .increaseNestedRefCntBy nestedObjectKey ref => (m.increaseNestedRefCntBy nestedObjectKey ref).2
  | .decreaseNestedRefCnt nestedObjectKey => (m.decreaseNestedRefCnt nestedObjectKey).2
  | .decreaseNestedRefCntOf parentObjectKey => (m.decreaseNestedRefCntOf parentObjectKey).2
  | .removeNestIdsRef nestedKeys => m.removeNestIdsRef nestedKeys
  | .removeRelationshipData parentObjectKey => m.removeRelationshipData parentObjectKey
  | .removeMigratedRefCount key => m.removeMigratedRefCount key

def step (op : Operation) : Option OCNestedManager := some (m.perform op)

/-- The children of a parent. -/
def children (parentObjectKey : Bytes) : List Bytes :=
  ((m.dependencyTable.find? parentObjectKey).map OrderedSet.elements).getD []

/-- What an operation leaves in the store can be read back: a parent keeps the children it has
and has some, their keys have no underscore, counts stay in the range of an `int`, and counts
do not change by the operations that forget their row. -/
def keepsRows : Operation → Bool
  | .increaseNestedRefCnt parentObjectKey nestedObjectKeys =>
    nestedObjectKeys.elements ≠ [] ∧ (∀ id ∈ nestedObjectKeys.elements, underscore ∉ id) ∧
      ∀ id ∈ m.children parentObjectKey, id ∈ nestedObjectKeys
  | .increaseNestedRefCntBy nestedObjectKey ref =>
    m.nestedRef.getRefCount nestedObjectKey + ref < 2 ^ 31
  | .decreaseNestedRefCnt nestedObjectKey =>
    m.nestedRef.objectKeys.find? nestedObjectKey ≠ some 0
  | .decreaseNestedRefCntOf parentObjectKey =>
    ∀ id ∈ m.children parentObjectKey, m.nestedRef.objectKeys.find? id = none
  | .removeNestIdsRef nestedKeys =>
    ∀ id ∈ nestedKeys, m.nestedRef.objectKeys.find? id = none ∨
      m.nestedRef.objectKeys.find? id = some 1
  | .removeRelationshipData _ | .removeMigratedRefCount _ => true

/-! ## The rows of relationships -/

variable {m : OCNestedManager} {parent key id : Bytes}

/-- The children of each parent are in the store, and no others. -/
structure Related (m : OCNestedManager) : Prop where
  rows : ∀ key id, m.relationships.find? key = some id ↔
    ∃ parent nested, m.dependencyTable.find? parent = some nested ∧ id ∈ nested ∧
      key = relationshipKey parent id
  some_child : ∀ parent nested, m.dependencyTable.find? parent = some nested →
    ∃ id, id ∈ nested
  plain : ∀ parent nested, m.dependencyTable.find? parent = some nested →
    ∀ id ∈ nested, underscore ∉ id

theorem relationshipKey_inj {parent' id'} (h : underscore ∉ id) (h' : underscore ∉ id') :
    relationshipKey parent id = relationshipKey parent' id' ↔ parent = parent' ∧ id = id' :=
  CompositeKey.join_inj_last h h'

variable (l : List Bytes)

theorem foldl_addNestedRelationship :
    l.foldl (fun m id => m.addNestedRelationship parent id) m =
      { m with relationships :=
        l.foldl (fun rows id => rows.insert (relationshipKey parent id) id) m.relationships } := by
  induction l generalizing m with
  | nil => rfl
  | cons _ _ ih => exact ih

theorem foldl_removeNestedRelationship :
    l.foldl (fun m id => m.removeNestedRelationship parent id) m =
      { m with relationships :=
        l.foldl (fun rows id => rows.erase (relationshipKey parent id)) m.relationships } := by
  induction l generalizing m with
  | nil => rfl
  | cons _ _ ih => exact ih

theorem find?_foldl_insert {l : List Bytes} (h : ∀ id ∈ l, underscore ∉ id)
    (rows : OrderedMap Bytes Bytes) :
    (l.foldl (fun rows id => rows.insert (relationshipKey parent id) id) rows).find? key = some id ↔
      (id ∈ l ∧ key = relationshipKey parent id) ∨
        (∀ id ∈ l, key ≠ relationshipKey parent id) ∧ rows.find? key = some id := by
  induction l using List.reverseRecOn with
  | nil => simp
  | append_singleton l last ih =>
    have hl : ∀ id ∈ l, underscore ∉ id := fun id hid => h id (by simp [hid])
    have hlast : underscore ∉ last := h last (by simp)
    rw [foldl_append, foldl_cons, foldl_nil, find?_insert]
    by_cases hkey : key = relationshipKey parent last
    · rw [if_pos hkey]
      constructor
      · intro hid
        cases hid
        exact .inl ⟨by simp, hkey⟩
      · intro hid
        rcases hid with ⟨hmem, hid⟩ | ⟨hne, -⟩
        · have hplain : underscore ∉ id := h id hmem
          rw [hkey, relationshipKey_inj hlast hplain] at hid
          rw [hid.2]
        · exact absurd hkey (hne last (by simp))
    · rw [if_neg hkey, ih hl]
      simp only [mem_append, mem_singleton]
      constructor
      · intro hid
        rcases hid with ⟨hmem, hid⟩ | ⟨hne, hrow⟩
        · exact .inl ⟨.inl hmem, hid⟩
        · exact .inr ⟨fun id hmem => hmem.elim (hne id) fun heq => heq ▸ hkey, hrow⟩
      · intro hid
        rcases hid with ⟨hmem | rfl, hid⟩ | ⟨hne, hrow⟩
        · exact .inl ⟨hmem, hid⟩
        · exact absurd hid hkey
        · exact .inr ⟨fun id hmem => hne id (.inl hmem), hrow⟩

theorem find?_foldl_erase (rows : OrderedMap Bytes Bytes) :
    (l.foldl (fun rows id => rows.erase (relationshipKey parent id)) rows).find? key =
      if ∃ id ∈ l, key = relationshipKey parent id then none else rows.find? key := by
  induction l generalizing rows with
  | nil => simp
  | cons id _ ih =>
    rw [foldl_cons, ih, find?_erase]
    by_cases hkey : key = relationshipKey parent id <;> simp [hkey]

variable {nested : OrderedSet Bytes} {m' : OCNestedManager} {ref : Nat}

theorem related_increaseNestedRefCnt (h : Related m)
    (hsome : nested.elements ≠ []) (hplain : ∀ id ∈ nested.elements, underscore ∉ id)
    (hkept : ∀ id ∈ m.children parent, id ∈ nested) :
    Related (m.increaseNestedRefCnt parent nested) := by
  have hfind : ∀ q, (m.increaseNestedRefCnt parent nested).dependencyTable.find? q =
      if q = parent then some nested else m.dependencyTable.find? q := by
    intro q
    rw [increaseNestedRefCnt, foldl_addNestedRelationship]
    rw [find?_insert]
    by_cases hq : q = parent <;> simp [hq]
  have hrows : (m.increaseNestedRefCnt parent nested).relationships =
      nested.elements.foldl (fun rows id => rows.insert (relationshipKey parent id) id)
        m.relationships := by
    rw [increaseNestedRefCnt, foldl_addNestedRelationship]
  refine ⟨fun key id => ?_, fun q s hq => ?_, fun q s hq => ?_⟩
  · rw [hrows, find?_foldl_insert hplain, h.rows]
    constructor
    · intro hrow
      rcases hrow with ⟨hid, hkey⟩ | ⟨hne, q, s, hq, hid, hkey⟩
      · exact ⟨parent, nested, by rw [hfind, if_pos rfl], mem_elements.mp hid, hkey⟩
      · -- A child that the parent had is among the new ones, and its row was just written.
        have hother : q ≠ parent := by
          intro heq
          subst heq
          have hchild : id ∈ m.children q := by simpa [children, hq] using hid
          exact hne id (mem_elements.mpr (hkept id hchild)) hkey
        exact ⟨q, s, by rw [hfind, if_neg hother, hq], hid, hkey⟩
    · intro hrow
      obtain ⟨q, s, hq, hid, hkey⟩ := hrow
      rw [hfind] at hq
      by_cases hqp : q = parent
      · rw [if_pos hqp] at hq
        cases hq
        exact .inl ⟨mem_elements.mpr hid, hqp ▸ hkey⟩
      · rw [if_neg hqp] at hq
        refine .inr ⟨fun id' hid' heq => ?_, q, s, hq, hid, hkey⟩
        rw [hkey, relationshipKey_inj (h.plain q s hq id hid) (hplain id' hid')] at heq
        exact hqp heq.1
  · rw [hfind] at hq
    split at hq
    · cases hq
      obtain ⟨id, hid⟩ := exists_mem_of_ne_nil _ hsome
      exact ⟨id, mem_elements.mp hid⟩
    · exact h.some_child q s hq
  · rw [hfind] at hq
    split at hq
    · cases hq
      exact fun id hid => hplain id (mem_elements.mpr hid)
    · exact h.plain q s hq

/-- A parent goes with the rows of its children. -/
theorem Related.erase (h : Related m) (hparent : m.dependencyTable.find? parent = some nested)
    (htable : m'.dependencyTable = m.dependencyTable.erase parent)
    (hrows : m'.relationships = nested.elements.foldl
      (fun rows id => rows.erase (relationshipKey parent id)) m.relationships) : Related m' := by
  have hfind : ∀ q s, m'.dependencyTable.find? q = some s ↔
      q ≠ parent ∧ m.dependencyTable.find? q = some s := by
    intro q s
    rw [htable, find?_erase]
    split <;> simp_all
  refine ⟨fun key id => ?_, fun q s hq => h.some_child q s ((hfind q s).mp hq).2,
    fun q s hq => h.plain q s ((hfind q s).mp hq).2⟩
  rw [hrows, find?_foldl_erase]
  constructor
  · intro hrow
    split at hrow
    · cases hrow
    · rename_i hnone
      obtain ⟨q, s, hq, hid, hkey⟩ := (h.rows key id).mp hrow
      refine ⟨q, s, (hfind q s).mpr ⟨fun heq => hnone ⟨id, ?_, heq ▸ hkey⟩, hq⟩, hid, hkey⟩
      rw [heq, hparent] at hq
      cases hq
      exact mem_elements.mpr hid
  · intro hrow
    obtain ⟨q, s, hq, hid, hkey⟩ := hrow
    obtain ⟨hne, hq⟩ := (hfind q s).mp hq
    rw [if_neg, h.rows]
    · exact ⟨q, s, hq, hid, hkey⟩
    · intro hsome
      obtain ⟨id', hid', heq⟩ := hsome
      rw [hkey, relationshipKey_inj (h.plain q s hq id hid)
        (h.plain parent nested hparent id' (mem_elements.mp hid'))] at heq
      exact hne heq.1

theorem related_removeRelationshipData (h : Related m) :
    Related (m.removeRelationshipData parent) := by
  unfold removeRelationshipData
  split
  · exact h
  · rename_i nested hparent
    refine h.erase hparent ?_ ?_
    all_goals
      rw [foldl_removeNestedRelationship]

theorem foldl_decreaseChild (zeroRefIds) :
    let m' := (l.foldl (decreaseChild parent) (zeroRefIds, m)).2
    m'.dependencyTable = m.dependencyTable ∧ m'.counts = m.counts ∧
      m'.relationships =
        l.foldl (fun rows id => rows.erase (relationshipKey parent id)) m.relationships := by
  induction l generalizing m zeroRefIds with
  | nil => exact ⟨rfl, rfl, rfl⟩
  | cons _ _ ih => exact ih _

theorem related_decreaseNestedRefCntOf (h : Related m) :
    Related (m.decreaseNestedRefCntOf parent).2 := by
  unfold decreaseNestedRefCntOf
  split
  · exact h
  · rename_i nested hparent
    obtain ⟨htable, -, hrows⟩ := foldl_decreaseChild (m := m) nested.elements []
    refine h.erase hparent ?_ hrows
    dsimp only
    rw [htable]

theorem Related.of_eq (h : Related m) (htable : m'.dependencyTable = m.dependencyTable)
    (hrows : m'.relationships = m.relationships) : Related m' := by
  refine ⟨?_, ?_, ?_⟩
  · rw [htable, hrows]
    exact h.rows
  · rw [htable]
    exact h.some_child
  · rw [htable]
    exact h.plain

/-! ## The rows of counts -/

/-- Each count is in the store, and can be read as an `int`. -/
structure Counted (m : OCNestedManager) : Prop where
  plural : m.nestedRef.isUniqueCnt = false
  counts : m.counts = m.nestedRef.objectKeys
  small : ∀ id count, m.counts.find? id = some count → count < 2 ^ 31

theorem addRef_eq {info : ObjectRefInfo} (hplural : info.isUniqueCnt = false)
    (h : info.getRefCount id + ref < 2 ^ 31) :
    info.addRef id ref = (true,
      { info with objectKeys := info.objectKeys.insert id (info.getRefCount id + ref) }) := by
  unfold getRefCount at h ⊢
  unfold addRef
  cases hfind : info.objectKeys.find? id with
  | none =>
    have hwrap : uint32 ref = ref := Nat.mod_eq_of_lt (by omega)
    simp [hwrap]
  | some count =>
    rw [hfind, Option.getD_some] at h
    have hwrap : uint32 (count + ref) = count + ref := Nat.mod_eq_of_lt (by omega)
    simp [hwrap, hplural]

theorem removeRef_of_none {info : ObjectRefInfo} (h : info.objectKeys.find? id = none) :
    info.removeRef id = (false, info) := by
  simp [removeRef, h]

theorem removeRef_of_some {info : ObjectRefInfo} {count : Nat}
    (hplural : info.isUniqueCnt = false) (h : info.objectKeys.find? id = some (count + 1))
    (hsmall : count + 1 < 2 ^ 31) :
    info.removeRef id =
      (true, { info with objectKeys :=
        if count = 0 then info.objectKeys.erase id else info.objectKeys.insert id count }) := by
  have hwrap : uint32 (count + 1 + (2 ^ 32 - 1)) = count := by
    unfold uint32
    omega
  simp only [removeRef, h, hwrap, hplural, Bool.false_eq_true, false_or]
  split <;> rfl

theorem counted_increaseNestedRefCntBy (h : Counted m)
    (hsmall : m.nestedRef.getRefCount id + ref < 2 ^ 31) :
    Counted (m.increaseNestedRefCntBy id ref).2 := by
  have hadd := addRef_eq h.plural hsmall
  have hcount :
      (m.nestedRef.addRef id ref).2.getRefCount id = m.nestedRef.getRefCount id + ref := by
    rw [hadd, getRefCount, find?_insert, if_pos rfl, Option.getD_some]
  unfold increaseNestedRefCntBy updateNestedRefCount
  simp only [hcount]
  rw [hadd]
  refine ⟨h.plural, ?_, fun id' count hid' => ?_⟩
  · simp [h.counts]
  · simp only [if_true] at hid'
    rw [find?_insert] at hid'
    split at hid'
    · cases hid'
      exact hsmall
    · exact h.small id' count hid'

/-- A count goes down by one together with its row, or goes away with it. -/
theorem Counted.remove {m'} {count : Nat} (h : Counted m)
    (hcount : count + 1 < 2 ^ 31) (hplural : m'.nestedRef.isUniqueCnt = false)
    (hkeys : m'.nestedRef.objectKeys =
      if count = 0 then m.nestedRef.objectKeys.erase id
      else m.nestedRef.objectKeys.insert id count)
    (hrows : m'.counts = if count = 0 then m.counts.erase id else m.counts.insert id count) :
    Counted m' := by
  refine ⟨hplural, by rw [hkeys, hrows, h.counts], fun id' c hid' => ?_⟩
  rw [hrows] at hid'
  split at hid'
  · rw [find?_erase] at hid'
    split at hid'
    · cases hid'
    · exact h.small id' c hid'
  · rw [find?_insert] at hid'
    split at hid'
    · cases hid'
      omega
    · exact h.small id' c hid'

theorem counted_decreaseNestedRefCnt (h : Counted m)
    (hpos : m.nestedRef.objectKeys.find? id ≠ some 0) : Counted (m.decreaseNestedRefCnt id).2 := by
  cases hfind : m.nestedRef.objectKeys.find? id with
  | none =>
    simp only [decreaseNestedRefCnt, removeRef_of_none hfind]
    exact h
  | some count =>
    have hne : count ≠ 0 := fun hzero => hpos (by rw [hfind, hzero])
    obtain ⟨count, rfl⟩ := Nat.exists_eq_succ_of_ne_zero hne
    have hsmall : count + 1 < 2 ^ 31 := h.small id _ (by rw [h.counts, hfind])
    have hremove := removeRef_of_some h.plural hfind hsmall
    have hcount : (m.nestedRef.removeRef id).2.getRefCount id = count := by
      rw [hremove, getRefCount]
      split
      · rename_i hzero
        rw [find?_erase, if_pos rfl, Option.getD_none, hzero]
      · rw [find?_insert, if_pos rfl, Option.getD_some]
    unfold decreaseNestedRefCnt
    simp only [hcount]
    rw [hremove]
    refine @Counted.remove _ id _ count h hsmall ?_ ?_ ?_
    · cases count <;> exact h.plural
    · cases count <;> rfl
    · cases count <;> rfl

theorem counted_removeNestIdRef (h : Counted m)
    (hlast : m.nestedRef.objectKeys.find? id = none ∨ m.nestedRef.objectKeys.find? id = some 1) :
    Counted (m.removeNestIdRef id) ∧
      (m.removeNestIdRef id).nestedRef.objectKeys = m.nestedRef.objectKeys.erase id := by
  rcases hlast with hfind | hfind
  · simp only [removeNestIdRef, removeRef_of_none hfind]
    exact ⟨h, (erase_of_find?_eq_none hfind).symm⟩
  · have hremove := @removeRef_of_some id _ 0 h.plural hfind (by decide)
    simp only [removeNestIdRef, hremove]
    exact ⟨@Counted.remove _ id _ 0 h (by decide) h.plural rfl rfl, rfl⟩

theorem counted_removeNestIdsRef {nestedKeys} (h : Counted m)
    (hlast : ∀ id ∈ nestedKeys, m.nestedRef.objectKeys.find? id = none ∨
      m.nestedRef.objectKeys.find? id = some 1) : Counted (m.removeNestIdsRef nestedKeys) := by
  induction nestedKeys generalizing m with
  | nil => exact h
  | cons _ _ ih =>
    obtain ⟨hid, hrest⟩ := forall_mem_cons.mp hlast
    obtain ⟨hm, hkeys⟩ := counted_removeNestIdRef h hid
    refine ih hm fun id' hid' => ?_
    rw [hkeys, find?_erase]
    split
    · exact .inl rfl
    · exact hrest id' hid'

theorem counted_removeMigratedRefCount (h : Counted m) :
    Counted (m.removeMigratedRefCount key) := by
  unfold removeMigratedRefCount removeAllRefs
  cases hfind : m.nestedRef.objectKeys.find? key with
  | none =>
    refine ⟨h.plural, ?_, h.small⟩
    rw [erase_of_find?_eq_none hfind]
    exact h.counts
  | some =>
    refine ⟨h.plural, ?_, fun id c hid => ?_⟩
    · exact congrArg (OrderedMap.erase · key) h.counts
    · have hfound : (m.counts.erase key).find? id = some c := hid
      rw [find?_erase] at hfound
      split at hfound
      · cases hfound
      · exact h.small id c hfound

theorem nestedRef_foldl_decreaseChild {l : List Bytes} (zeroRefIds)
    (h : ∀ id ∈ l, m.nestedRef.objectKeys.find? id = none) :
    (l.foldl (decreaseChild parent) (zeroRefIds, m)).2.nestedRef = m.nestedRef := by
  induction l generalizing m zeroRefIds with
  | nil => rfl
  | cons id _ ih =>
    obtain ⟨hid, hl⟩ := forall_mem_cons.mp h
    have hchild : (decreaseChild parent (zeroRefIds, m) id).2.nestedRef = m.nestedRef := by
      simp only [decreaseChild, removeRef_of_none hid, removeNestedRelationship]
    refine (ih _ fun id' hid' => ?_).trans hchild
    exact (congrArg (fun info => info.objectKeys.find? id') hchild).trans (hl id' hid')

theorem counted_decreaseNestedRefCntOf (h : Counted m)
    (hnone : ∀ id ∈ m.children parent, m.nestedRef.objectKeys.find? id = none) :
    Counted (m.decreaseNestedRefCntOf parent).2 := by
  unfold decreaseNestedRefCntOf
  split
  · exact h
  · rename_i nested hparent
    obtain ⟨-, hcounts, -⟩ := @foldl_decreaseChild m parent nested.elements []
    have hnested := @nestedRef_foldl_decreaseChild m parent nested.elements
      [] fun id hid => hnone id (by simpa [children, hparent] using hid)
    exact ⟨hnested ▸ h.plural, hcounts.trans (h.counts.trans (congrArg _ hnested.symm)),
      hcounts.symm ▸ h.small⟩

theorem Counted.of_eq (h : Counted m) (hrefs : m'.nestedRef = m.nestedRef)
    (hcounts : m'.counts = m.counts) : Counted m' := by
  refine ⟨?_, ?_, ?_⟩
  · rw [hrefs]
    exact h.plural
  · rw [hrefs, hcounts]
    exact h.counts
  · rw [hcounts]
    exact h.small

/-! ## Runs -/

theorem related_decreaseNestedRefCnt (h : Related m) : Related (m.decreaseNestedRefCnt id).2 := by
  unfold decreaseNestedRefCnt
  dsimp only
  split
  · split <;> exact h.of_eq rfl rfl
  · exact h.of_eq rfl rfl

theorem related_removeNestIdsRef {nestedKeys} (h : Related m) :
    Related (m.removeNestIdsRef nestedKeys) := by
  induction nestedKeys generalizing m with
  | nil => exact h
  | cons _ _ ih =>
    refine ih ?_
    unfold removeNestIdRef
    dsimp only
    split <;> exact h.of_eq rfl rfl

theorem related_removeMigratedRefCount (h : Related m) :
    Related (m.removeMigratedRefCount key) := by
  unfold removeMigratedRefCount
  dsimp only
  split <;> exact h.of_eq rfl rfl

theorem counted_increaseNestedRefCnt (h : Counted m) :
    Counted (m.increaseNestedRefCnt parent nested) := by
  unfold increaseNestedRefCnt
  rw [foldl_addNestedRelationship]
  exact h.of_eq rfl rfl

theorem counted_removeRelationshipData (h : Counted m) :
    Counted (m.removeRelationshipData parent) := by
  unfold removeRelationshipData
  split
  · exact h
  · rw [foldl_removeNestedRelationship]
    exact h.of_eq rfl rfl

theorem keeps_step {op}
    (hstep : restrict keepsRows step m op = some m') (h : Related m ∧ Counted m) :
    Related m' ∧ Counted m' := by
  obtain ⟨hcond, hop⟩ := restrict_eq_some.mp hstep
  cases hop
  obtain ⟨hrelated, hcounted⟩ := h
  cases op with
  | increaseNestedRefCnt =>
    obtain ⟨hne, hplain, hkept⟩ := of_decide_eq_true hcond
    exact ⟨related_increaseNestedRefCnt hrelated hne hplain hkept,
      counted_increaseNestedRefCnt hcounted⟩
  | increaseNestedRefCntBy =>
    refine ⟨?_, counted_increaseNestedRefCntBy hcounted (of_decide_eq_true hcond)⟩
    show Related (increaseNestedRefCntBy _ _ _).2
    unfold increaseNestedRefCntBy
    dsimp only
    split <;> exact hrelated.of_eq rfl rfl
  | decreaseNestedRefCnt =>
    exact ⟨related_decreaseNestedRefCnt hrelated,
      counted_decreaseNestedRefCnt hcounted (of_decide_eq_true hcond)⟩
  | decreaseNestedRefCntOf =>
    exact ⟨related_decreaseNestedRefCntOf hrelated,
      counted_decreaseNestedRefCntOf hcounted (of_decide_eq_true hcond)⟩
  | removeNestIdsRef =>
    exact ⟨related_removeNestIdsRef hrelated,
      counted_removeNestIdsRef hcounted (of_decide_eq_true hcond)⟩
  | removeRelationshipData =>
    exact ⟨related_removeRelationshipData hrelated, counted_removeRelationshipData hcounted⟩
  | removeMigratedRefCount =>
    exact ⟨related_removeMigratedRefCount hrelated, counted_removeMigratedRefCount hcounted⟩

theorem keeps_run (h : Reaches (restrict keepsRows step) {} m) : Related m ∧ Counted m :=
  h.invariant (I := fun m => Related m ∧ Counted m)
    ⟨⟨by simp, by simp, by simp⟩, ⟨rfl, rfl, by simp⟩⟩
    fun _ _ _ hstep hm => keeps_step hstep hm

/-! ## Recovery -/

theorem mem_children : id ∈ m.children parent ↔
    ∃ nested, m.dependencyTable.find? parent = some nested ∧ id ∈ nested := by
  unfold children
  cases m.dependencyTable.find? parent <;> simp

/-- A row gives its parent one more child. -/
theorem recoverRelationship_relationshipKey (h : underscore ∉ id) :
    m.recoverRelationship (relationshipKey parent id, id) =
      .ok { m with dependencyTable :=
        m.dependencyTable.alter parent fun nested => (nested.getD .empty).insert id } := by
  simp only [recoverRelationship, relationshipKey, CompositeKey.splitLast_join h]
  rfl

theorem mem_children_alter {parent' id'} :
    id' ∈ children { m with dependencyTable :=
        m.dependencyTable.alter parent fun nested => (nested.getD .empty).insert id } parent' ↔
      id' ∈ m.children parent' ∨ parent' = parent ∧ id' = id := by
  rw [mem_children, mem_children]
  rw [find?_alter]
  by_cases hparent : parent' = parent
  · subst hparent
    cases hfind : m.dependencyTable.find? parent' <;> simp [or_comm]
  · simp [hparent]

theorem foldlM_recoverRelationship {rows : List (Bytes × Bytes)}
    (hrows : ∀ row ∈ rows, ∃ parent id, row = (relationshipKey parent id, id) ∧ underscore ∉ id)
    (hsome : ∀ parent nested, m.dependencyTable.find? parent = some nested → ∃ id, id ∈ nested) :
    ∃ table, rows.foldlM recoverRelationship m = .ok { m with dependencyTable := table } ∧
      (∀ parent nested, table.find? parent = some nested → ∃ id, id ∈ nested) ∧
      ∀ parent id, id ∈ children { m with dependencyTable := table } parent ↔
        id ∈ m.children parent ∨ underscore ∉ id ∧ (relationshipKey parent id, id) ∈ rows := by
  induction rows generalizing m with
  | nil => exact ⟨m.dependencyTable, rfl, hsome, by simp⟩
  | cons row rows ih =>
    obtain ⟨⟨parent, id, rfl, hid⟩, hrest⟩ := List.forall_mem_cons.mp hrows
    obtain ⟨table, hfold, htable, hchildren⟩ := ih
      (m := { m with dependencyTable :=
        m.dependencyTable.alter parent fun nested => (nested.getD .empty).insert id })
      hrest fun parent' nested' hfind => by
        rw [find?_alter] at hfind
        split at hfind
        · cases hfind
          exact ⟨id, by simp⟩
        · exact hsome parent' nested' hfind
    refine ⟨table, ?_, htable, fun parent' id' => ?_⟩
    · rw [List.foldlM_cons, recoverRelationship_relationshipKey hid, ok_bind, hfold]
    · rw [hchildren parent' id', mem_children_alter, List.mem_cons, Prod.mk.injEq, or_assoc]
      by_cases hid' : underscore ∉ id'
      · rw [relationshipKey_inj hid' hid]
        grind
      · have hne : id' ≠ id := fun heq => hid' (heq ▸ hid)
        simp [hid', hne]

theorem dependencyTable_eq_of_children
    (hsome : ∀ parent nested, m.dependencyTable.find? parent = some nested → ∃ id, id ∈ nested)
    (hsome' : ∀ parent nested, m'.dependencyTable.find? parent = some nested → ∃ id, id ∈ nested)
    (h : ∀ parent id, id ∈ m'.children parent ↔ id ∈ m.children parent) :
    m'.dependencyTable = m.dependencyTable := by
  refine OrderedMap.ext fun parent => ?_
  have hparent := h parent
  simp only [mem_children] at hparent
  cases hfind : m.dependencyTable.find? parent with
  | none =>
    refine Option.eq_none_iff_forall_ne_some.mpr fun nested hnested => ?_
    obtain ⟨id, hid⟩ := hsome' parent nested hnested
    simpa [hfind] using (hparent id).mp ⟨nested, hnested, hid⟩
  | some nested =>
    obtain ⟨id, hid⟩ := hsome parent nested hfind
    obtain ⟨nested', hnested', -⟩ := (hparent id).mpr ⟨nested, hfind, hid⟩
    rw [hnested']
    refine congrArg _ (OrderedSet.ext fun id' => ?_)
    simpa [hfind, hnested'] using hparent id'

/-- Recovered counts are the rows, in their order. -/
theorem foldlM_recoverCount {rows : List (Bytes × Nat)} (hplural : m.nestedRef.isUniqueCnt = false)
    (hsmall : ∀ row ∈ rows, row.2 < 2 ^ 31) :
    rows.foldlM recoverCount m =
      .ok { m with nestedRef := { m.nestedRef with
        objectKeys := rows.foldl (fun keys row => keys.insert row.1 row.2)
          m.nestedRef.objectKeys } } := by
  induction rows generalizing m with
  | nil => rfl
  | cons row _ ih =>
    obtain ⟨hrow, hrest⟩ := forall_mem_cons.mp hsmall
    have hone : m.recoverCount row = .ok { m with nestedRef := { m.nestedRef with
        objectKeys := m.nestedRef.objectKeys.insert row.1 row.2 } } := by
      rw [recoverCount, check_of hrow, ok_bind]
      simp [updateRefCount, hplural]
    rw [foldlM_cons, hone, ok_bind]
    exact ih hplural hrest

theorem Related.recover (h : Related m) :
    m.relationships.entries.foldlM recoverRelationship
        { relationships := m.relationships, counts := m.counts } =
      .ok { dependencyTable := m.dependencyTable, relationships := m.relationships,
            counts := m.counts } := by
  have hrows : ∀ row ∈ m.relationships.entries,
      ∃ parent id, row = (relationshipKey parent id, id) ∧ underscore ∉ id := by
    intro (key, id) hrow
    obtain ⟨parent, nested, hparent, hid, rfl⟩ :=
      (h.rows key id).mp (mem_entries_iff.mp hrow)
    exact ⟨parent, id, rfl, h.plain parent nested hparent id hid⟩
  obtain ⟨table, hfold, hsome, hchildren⟩ := foldlM_recoverRelationship
    (m := { relationships := m.relationships, counts := m.counts }) hrows (by simp)
  have htable : (⟨table, { isUniqueCnt := false }, m.relationships, m.counts⟩ :
      OCNestedManager).dependencyTable = m.dependencyTable := by
    refine dependencyTable_eq_of_children h.some_child hsome fun parent id => ?_
    rw [hchildren parent id, mem_entries_iff, h.rows, mem_children, mem_children]
    constructor
    · intro hid
      obtain ⟨nested, hparent, -⟩ | ⟨hplain, parent', nested, hparent, hid', hkey⟩ := hid
      · cases hparent
      · obtain ⟨rfl, -⟩ := (relationshipKey_inj hplain hplain).mp hkey
        exact ⟨nested, hparent, hid'⟩
    · intro hid
      obtain ⟨nested, hparent, hmem⟩ := hid
      exact .inr ⟨h.plain parent nested hparent id hmem, parent, nested, hparent, hmem, rfl⟩
  rw [hfold]
  exact congrArg (fun table => Except.ok (OCNestedManager.mk table _ _ _)) htable

theorem Counted.recover (h : Counted m) :
    m.counts.entries.foldlM recoverCount
        { dependencyTable := m.dependencyTable, relationships := m.relationships,
          counts := m.counts } = .ok m := by
  have hsmall : ∀ row ∈ m.counts.entries, row.2 < 2 ^ 31 := fun (id, count) hrow =>
    h.small id count (mem_entries_iff.mp hrow)
  have hrefs : m.nestedRef = { isUniqueCnt := false, objectKeys := m.counts } := by
    rw [← h.plural, h.counts]
  rw [foldlM_recoverCount rfl hsmall, foldl_insert_entries, ← hrefs]

/-- A restart after operations that keep the rows gives back the children of each parent and
the count of each child. -/
theorem nested_references_survive_restart (h : Reaches (restrict keepsRows step) {} m) :
    m.recoverRelationshipData = .ok m := by
  obtain ⟨hrelationship, hcounts⟩ := keeps_run h
  rw [recoverRelationshipData, hrelationship.recover, ok_bind, hcounts.recover]

/-- Two parents of one child, of which one goes. -/
theorem nested_references_survive_restart_of_run :
    ∃ m, Reaches (restrict keepsRows step) {} m ∧ m.children [1] = [[3]] ∧
      m.nestedRef.getRefCount [3] = 1 ∧ m.recoverRelationshipData = .ok m := by
  have hrun : (run (restrict keepsRows step) {}
      [.increaseNestedRefCnt [1] (.ofList [[3]]), .increaseNestedRefCntBy [3] 1,
        .increaseNestedRefCnt [2] (.ofList [[3], [4]]), .increaseNestedRefCntBy [3] 1,
        .removeRelationshipData [2], .decreaseNestedRefCnt [3]]).any fun m =>
      m.children [1] = [[3]] ∧ m.nestedRef.getRefCount [3] = 1 := by decide +kernel
  obtain ⟨m, hm, hchildren, hcount⟩ := exists_reaches _ hrun
  exact ⟨m, hm, hchildren, hcount, nested_references_survive_restart hm⟩

/-- A delete of the parent lowers the count of its child in memory only. -/
theorem nested_count_returns_at_restart :
    ∃ m m', Reaches step {} m ∧ m.recoverRelationshipData = .ok m' ∧
      m.nestedRef.getRefCount [3] = 1 ∧ m'.nestedRef.getRefCount [3] = 2 := by
  have hrun : (run step {}
      [.increaseNestedRefCnt [1] (.ofList [[3]]), .increaseNestedRefCntBy [3] 1,
        .increaseNestedRefCnt [2] (.ofList [[3]]), .increaseNestedRefCntBy [3] 1,
        .decreaseNestedRefCntOf [2]]).any fun m =>
      m.nestedRef.getRefCount [3] = 1 ∧ (m.recoverRelationshipData.toOption.any fun m' =>
        m'.nestedRef.getRefCount [3] = 2) := by decide +kernel
  obtain ⟨m, hm, hcount, hrecovers⟩ := exists_reaches _ hrun
  cases hm' : m.recoverRelationshipData with
  | error => simp [hm', Except.toOption] at hrecovers
  | ok m' => exact ⟨m, m', hm, hm', hcount, by simpa [hm', Except.toOption] using hrecovers⟩

end Datasystem.Master.OCNestedManager
