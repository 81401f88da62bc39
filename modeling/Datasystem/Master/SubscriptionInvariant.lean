import Datasystem.Master.Subscriptions

/-! The invariant of subscriptions in orderly runs. What a request still waits for is owed to it by
a thread that has yet to take the key, and moves from there into a list of notifications. The
steps of `UpdateSubscribeCache` keep it. -/

namespace Datasystem.Master.Subscriptions

open Common Lib StateMachine List OrderedMap Option SubscribeCache Thread

variable {s s' : Subscriptions} {r r' k k' : Bytes} {id : Nat} {t t' : Thread}

/-- A request is to be notified of a key: it is registered, has not timed out, and its subscriber
has never been the primary of the object. -/
structure Awaited (s : Subscriptions) (r : Bytes) (q : SubscribeMeta) (k : Bytes) : Prop where
  request : s.requests.find? r = some q
  listed : k ∈ q.objects
  added : ¬s.threads.any (·.adds r)
  inTime : r ∉ s.timedOut
  notPrimary : (k, q.address) ∉ s.primaries

/-- A request that its update has gone past waits for the key no more. -/
def Scanned (s : Subscriptions) (u : SubscribeUpdate) : Prop :=
  match u.phase with
  | .looking reqIds => ∀ r, s.cache.Enters r u.objectKey → r ∈ reqIds ∨
      (¬s.threads.any (·.adds r) ∧ ¬s.cache.Lists r u.objectKey)
  | .striking reqId reqIds =>
    ((s.requests.find? reqId).isSome ∧ ¬s.threads.any (·.adds reqId) ∧
      ∀ q, s.Awaited reqId q u.objectKey → ⟨reqId, q.address⟩ ∈ u.toNotify) ∧
    ∀ r, s.cache.Enters r u.objectKey → r ∈ reqIds ∨ r = reqId ∨
      (¬s.threads.any (·.adds r) ∧ ¬s.cache.Lists r u.objectKey)
  | .finding => u.toNotify = []
  | .notifying => True

/-- A request that is being added is entered under the keys its call has gone through. One that is
being removed does not come back. -/
def CallFits (s : Subscriptions) : Call → Prop
  | .adding reqId subMeta objectKeys =>
    s.requests.find? reqId = some subMeta ∧ s.cache.request2SubMeta.find? reqId = none ∧
      objectKeys ⊆ subMeta.objects ∧
      ∀ k ∈ subMeta.objects, k ∈ objectKeys ∨ s.cache.Enters reqId k
  | .removing reqId _ =>
    (s.requests.find? reqId).isSome ∧ s.cache.request2SubMeta.find? reqId = none ∧
      ¬s.threads.any (·.adds reqId)
  | .rechecking _ _ | .creating _ => True

structure Fits (s : Subscriptions) (t : Thread) : Prop where
  call : s.CallFits t.call
  primary : ∀ u, t.update = some u → (u.objectKey, u.primaryAddress) ∈ s.primaries
  scanned : ∀ u, t.update = some u → s.Scanned u

/-- What a request waits for is owed to it, on its way to it, or with it. -/
def Owed (s : Subscriptions) (r : Bytes) (q : SubscribeMeta) (k : Bytes) : Prop :=
  (s.cache.Lists r k ∧ ((s.metaTable.find? k).isSome →
    s.threads.any (·.seeks r k) ∨ s.threads.any (·.rechecks r k))) ∨
  s.threads.any (·.informs ⟨r, q.address⟩ k) ∨ ⟨r, q.address, k⟩ ∈ s.notified

structure Inv (s : Subscriptions) : Prop where
  entered : ∀ r k, s.cache.Lists r k → s.cache.Enters r k
  waits : ∀ r k, s.cache.Enters r k → s.threads.any (·.adds r) ∨ s.cache.Lists r k ∨
    s.threads.any (·.removes r k) ∨ s.threads.any (·.holds k)
  known : ∀ r k, s.cache.Enters r k → ∃ q, s.requests.find? r = some q ∧ k ∈ q.objects
  subMeta : ∀ r subMeta, s.cache.request2SubMeta.find? r = some subMeta →
    ∃ q, s.requests.find? r = some q ∧ subMeta.address = q.address
  fits : ∀ id t, s.threads.find? id = some t → s.Fits t
  sole : ∀ id id' t t' r, s.threads.find? id = some t → s.threads.find? id' = some t' →
    t.adds r → t'.adds r → id = id'
  primary : ∀ k entry, s.metaTable.find? k = some entry →
    (k, entry.pb.primaryAddress) ∈ s.primaries
  owed : ∀ r q k, s.Awaited r q k → s.Owed r q k
  done : ∀ r q k, s.Awaited r q k → ¬s.threads.any (·.subscribes r) →
    (s.metaTable.find? k).isSome → ¬s.threads.any (·.creates k) →
    ⟨r, q.address, k⟩ ∈ s.notified

theorem inv_start (metaTable) : Inv (start metaTable) where
  entered := by simp [start, SubscribeCache.Lists]
  waits := by simp [start, enters_iff]
  known := by simp [start, enters_iff]
  subMeta := by simp [start]
  fits := by simp [start]
  sole := by simp [start]
  primary := fun k entry hentry =>
    mem_map.mpr ⟨(k, entry), mem_entries_iff.mpr hentry, rfl⟩
  owed := fun r q k h => by simpa [start] using h.request
  done := fun r q k h => by simpa [start] using h.request

/-! ## Threads that do not move -/

/-- What a step of a thread leaves to the others. -/
structure Quiet (id : Nat) (s s' : Subscriptions) : Prop where
  requests : ∀ r q, s.requests.find? r = some q → s'.requests.find? r = some q
  adds : ∀ r, (s.requests.find? r).isSome → s'.threads.any (·.adds r) → s.threads.any (·.adds r)
  timedOut : s.timedOut ⊆ s'.timedOut
  primaries : s.primaries ⊆ s'.primaries
  /-- Nothing is entered under a key that is held. -/
  entered : ∀ r k, s.threads.any (·.holds k) → s'.cache.Enters r k → s.cache.Enters r k
  /-- A request that is being added stays entered. -/
  kept : ∀ r k, s.threads.any (·.adds r) → s.cache.Enters r k → s'.cache.Enters r k
  /-- Only a request that is being added comes to list a key. -/
  lists : ∀ r k, ¬s.threads.any (·.adds r) → s'.cache.Lists r k → s.cache.Lists r k
  /-- Only its own thread emplaces a request. -/
  absent : ∀ r, s.cache.request2SubMeta.find? r = none →
    s'.cache.request2SubMeta.find? r = none ∨ ∃ t, s.threads.find? id = some t ∧ t.adds r

theorem Quiet.awaited {q} (h : Quiet id s s') (hadds : ¬s.threads.any (·.adds r))
    (hknown : (s.requests.find? r).isSome) (ha : s'.Awaited r q k) : s.Awaited r q k := by
  obtain ⟨q', hq'⟩ := isSome_iff_exists.mp hknown
  cases (h.requests r q' hq').symm.trans ha.request
  exact ⟨hq', ha.listed, hadds, fun hin => ha.inTime (h.timedOut hin),
    fun hin => ha.notPrimary (h.primaries hin)⟩

theorem Quiet.isSome_requests (h : Quiet id s s') (hr : (s.requests.find? r).isSome) :
    (s'.requests.find? r).isSome := by
  obtain ⟨q, hq⟩ := isSome_iff_exists.mp hr
  exact isSome_iff_exists.mpr ⟨q, h.requests r q hq⟩

theorem Quiet.scanned {u} (hq : Quiet id s s') (h : Inv s)
    (hheld : u.phase.scans → s.threads.any (·.holds u.objectKey)) (hu : s.Scanned u) :
    s'.Scanned u := by
  -- a request that is past stays past
  have hpast : s.threads.any (·.holds u.objectKey) → ∀ r, s'.cache.Enters r u.objectKey →
      (¬s.threads.any (·.adds r) ∧ ¬s.cache.Lists r u.objectKey) →
      ¬s'.threads.any (·.adds r) ∧ ¬s'.cache.Lists r u.objectKey := by
    intro hholds r hr hpast
    obtain ⟨q, hq', -⟩ := h.known r _ (hq.entered r _ hholds hr)
    have hknown := isSome_iff_exists.mpr ⟨q, hq'⟩
    exact ⟨fun ha => hpast.1 (hq.adds r hknown ha), fun hl => hpast.2 (hq.lists r _ hpast.1 hl)⟩
  unfold Scanned at hu ⊢
  cases hphase : u.phase with
  | finding =>
    rw [hphase] at hu
    exact hu
  | notifying => trivial
  | looking =>
    have hholds := hheld (by rw [hphase]; rfl)
    rw [hphase] at hu
    intro r hr
    exact (hu r (hq.entered r _ hholds hr)).imp_right (hpast hholds r hr)
  | striking =>
    have hholds := hheld (by rw [hphase]; rfl)
    rw [hphase] at hu
    obtain ⟨⟨hknown, hadds, hawaited⟩, hu⟩ := hu
    refine ⟨⟨hq.isSome_requests hknown, fun ha => hadds (hq.adds _ hknown ha),
      fun q ha => hawaited q (hq.awaited hadds hknown ha)⟩, fun r hr => ?_⟩
    exact (hu r (hq.entered r _ hholds hr)).imp_right (Or.imp_right (hpast hholds r hr))

theorem adds_of_call {subMeta} {objectKeys}
    (hcall : t.call = .adding r subMeta objectKeys) : t.adds r := by
  simp [adds, hcall]

theorem CallFits.mono (h : s.CallFits t.call) (hq : Quiet id s s')
    (habsent : ∀ r, t.adds r ∨ ¬s.threads.any (·.adds r) →
      s.cache.request2SubMeta.find? r = none → s'.cache.request2SubMeta.find? r = none)
    (hadds : ∀ r, t.adds r → s.threads.any (·.adds r)) : s'.CallFits t.call := by
  cases hcall : t.call with
  | adding =>
    rw [hcall] at h
    obtain ⟨hreq, hnone, hsubs, hkeys⟩ := h
    have hadd := adds_of_call hcall
    exact ⟨hq.requests _ _ hreq, habsent _ (.inl hadd) hnone, hsubs,
      fun k hk => (hkeys k hk).imp_right (hq.kept _ _ (hadds _ hadd))⟩
  | rechecking reqId objectKeys => trivial
  | creating objectKey => trivial
  | removing =>
    rw [hcall] at h
    obtain ⟨hreq, hnone, hnot⟩ := h
    exact ⟨hq.isSome_requests hreq, habsent _ (.inr hnot) hnone, fun hin =>
      hnot (hq.adds _ hreq hin)⟩

theorem Quiet.fits {id' : Nat} (hq : Quiet id s s') (h : Inv s) (hne : id' ≠ id)
    (ht : s.threads.find? id' = some t) : s'.Fits t := by
  have hfits := h.fits id' t ht
  refine ⟨hfits.call.mono hq (fun r hr hnone => ?_) (fun r hr => any_of_find? ht hr),
    fun u hu => hq.primaries (hfits.primary u hu),
    fun u hu => hq.scanned h (fun hscans => any_of_find? ht (by simp [holds, hu, hscans]))
      (hfits.scanned u hu)⟩
  rcases hq.absent r hnone with hnone | ⟨t', ht', hadds'⟩
  · exact hnone
  · rcases hr with hadds | hnot
    · exact absurd (h.sole id' id t t' r ht ht' hadds hadds') hne
    · exact absurd (any_of_find? ht' hadds') hnot

/-! ## Steps of a thread -/

/-- A request that is entered under a key is being added, lists it, is being removed from it, or
is being gone past. -/
def Waits (s : Subscriptions) (r k : Bytes) : Prop :=
  s.threads.any (·.adds r) ∨ s.cache.Lists r k ∨ s.threads.any (·.removes r k) ∨
    s.threads.any (·.holds k)

/-- What thread `t` does for a request is done after its step as well. -/
structure GoesOn (t : Thread) (s s' : Subscriptions) (r : Bytes) (q : SubscribeMeta) (k : Bytes) :
    Prop where
  adds : t.adds r → s'.threads.any (·.adds r)
  looks : (s.metaTable.find? k).isSome → t.seeks r k ∨ t.rechecks r k → s'.cache.Lists r k →
    s'.threads.any (·.seeks r k) ∨ s'.threads.any (·.rechecks r k)
  informs : t.informs ⟨r, q.address⟩ k →
    s'.threads.any (·.informs ⟨r, q.address⟩ k) ∨ ⟨r, q.address, k⟩ ∈ s'.notified
  /-- A call returns when nothing is owed any more. -/
  returns : s.Awaited r q k → t.subscribes r ∨ t.creates k →
    s'.threads.any (·.subscribes r) ∨ s'.threads.any (·.creates k) ∨
      ((s'.metaTable.find? k).isSome → ⟨r, q.address, k⟩ ∈ s'.notified)

/-- What the step of a thread leaves of a key that a request waits for. -/
structure Carries (id : Nat) (s s' : Subscriptions) (r : Bytes) (q : SubscribeMeta) (k : Bytes) :
    Prop where
  request : s.requests.find? r = some q
  lists : s.Awaited r q k → s.cache.Lists r k →
    s'.cache.Lists r k ∨ s'.threads.any (·.informs ⟨r, q.address⟩ k)
  table : (s'.metaTable.find? k).isSome → (s.metaTable.find? k).isSome ∨
    s'.threads.any (·.seeks r k) ∧ s'.threads.any (·.creates k)
  notified : s.notified ⊆ s'.notified
  moved : ∀ t, s.threads.find? id = some t → GoesOn t s s' r q k

section

variable (hthreads : ∀ id', id' ≠ id → s'.threads.find? id' = s.threads.find? id')

include hthreads

theorem Carries.awaited {q} (hc : Carries id s s' r q k) (hq : Quiet id s s')
    (ha : s'.Awaited r q k) : s.Awaited r q k := by
  refine ⟨hc.request, ha.listed, fun hin => ?_, fun hin => ha.inTime (hq.timedOut hin),
    fun hin => ha.notPrimary (hq.primaries hin)⟩
  obtain ⟨t, ht, hadds⟩ := (any_moved hthreads hin).resolve_left ha.added
  exact ha.added ((hc.moved t ht).adds hadds)

theorem Carries.owed {q} (hc : Carries id s s' r q k) (ha : s.Awaited r q k)
    (howed : s.Owed r q k) : s'.Owed r q k := by
  rcases howed with ⟨hl, hsought⟩ | hinforms | hin
  · rcases hc.lists ha hl with hl' | hinforms
    · refine .inl ⟨hl', fun htable => ?_⟩
      rcases hc.table htable with htable | ⟨hseeks, -⟩
      · rcases hsought htable with hseek | hrechecks
        · rcases any_moved hthreads hseek with hseek | ⟨t, ht, hseek⟩
          · exact .inl hseek
          · exact (hc.moved t ht).looks htable (.inl hseek) hl'
        · rcases any_moved hthreads hrechecks with hrechecks | ⟨t, ht, hrechecks⟩
          · exact .inr hrechecks
          · exact (hc.moved t ht).looks htable (.inr hrechecks) hl'
      · exact .inl hseeks
    · exact .inr (.inl hinforms)
  · rcases any_moved hthreads hinforms with hinforms | ⟨t, ht, hinforms⟩
    · exact .inr (.inl hinforms)
    · exact .inr ((hc.moved t ht).informs hinforms)
  · exact .inr (.inr (hc.notified hin))

end

/-- The invariant after a step of one thread: the others fit as before, and what it carries on
is as it was. -/
theorem Inv.of_quiet (h : Inv s) (hq : Quiet id s s')
    (hthreads : ∀ id', id' ≠ id → s'.threads.find? id' = s.threads.find? id')
    (hnew : ∀ t', s'.threads.find? id = some t' → s'.Fits t' ∧ ∀ r, t'.adds r →
      s.requests.find? r = none ∨ ∃ t, s.threads.find? id = some t ∧ t.adds r)
    (henters : ∀ r k, s'.cache.Lists r k → s'.cache.Enters r k)
    (hwaits : ∀ r k, s'.cache.Enters r k → s'.Waits r k ∨ s.cache.Enters r k ∧
      (s.cache.Lists r k → s'.Waits r k) ∧ ∀ t, s.threads.find? id = some t →
        t.adds r ∨ t.removes r k ∨ t.holds k → s'.Waits r k)
    (hknown : ∀ r k, s'.cache.Enters r k → ∃ q, s'.requests.find? r = some q ∧ k ∈ q.objects)
    (hsubMeta : ∀ r subMeta, s'.cache.request2SubMeta.find? r = some subMeta →
      ∃ q, s'.requests.find? r = some q ∧ subMeta.address = q.address)
    (hprimary : ∀ k entry, s'.metaTable.find? k = some entry →
      (k, entry.pb.primaryAddress) ∈ s'.primaries)
    (hcarry : ∀ r q k, s'.Awaited r q k → Carries id s s' r q k ∨
      s'.Owed r q k ∧ s'.threads.any (·.subscribes r)) : Inv s' := by
  -- no other thread adds a request that this one adds
  have hother : ∀ id' t t' r, id' ≠ id → s.threads.find? id' = some t → t.adds r →
      s'.threads.find? id = some t' → ¬t'.adds r := by
    intro id' t t' r hne ht hadd ht' hadd'
    rcases (hnew t' ht').2 r hadd' with hnone | ⟨told, hold, hadds₀⟩
    · have hfit := (h.fits id' t ht).call
      unfold adds at hadd
      split at hadd
      · rename_i reqId subMeta objectKeys hcall
        cases of_decide_eq_true hadd
        rw [hcall] at hfit
        cases hnone.symm.trans hfit.1
      · cases hadd
    · exact hne (h.sole id' id t told r ht hold hadd hadds₀)
  refine ⟨henters, fun r k hr => ?_, hknown, hsubMeta, fun id' t ht => ?_, ?_, hprimary, ?_, ?_⟩
  · rcases hwaits r k hr with hwaits | ⟨hr, hlists, hmoved⟩
    · exact hwaits
    · rcases h.waits r k hr with hadds | hl | hremoves | hholds
      · rcases any_moved hthreads hadds with hadds | ⟨t, ht, hadds⟩
        · exact .inl hadds
        · exact hmoved t ht (.inl hadds)
      · exact hlists hl
      · rcases any_moved hthreads hremoves with hremoves | ⟨t, ht, hremoves⟩
        · exact .inr (.inr (.inl hremoves))
        · exact hmoved t ht (.inr (.inl hremoves))
      · rcases any_moved hthreads hholds with hholds | ⟨t, ht, hholds⟩
        · exact .inr (.inr (.inr hholds))
        · exact hmoved t ht (.inr (.inr hholds))
  · by_cases hid : id' = id
    · subst hid
      exact (hnew t ht).1
    · exact hq.fits h hid ((hthreads id' hid).symm.trans ht)
  · intro id₁ id₂ t₁ t₂ r ht₁ ht₂ hadd₁ hadd₂
    by_cases hid₁ : id₁ = id
    · subst hid₁
      by_contra hne
      have hne' : id₂ ≠ id₁ := fun heq => hne heq.symm
      exact hother id₂ t₂ t₁ r hne' ((hthreads id₂ hne').symm.trans ht₂) hadd₂ ht₁ hadd₁
    · have hold₁ := (hthreads id₁ hid₁).symm.trans ht₁
      by_cases hid₂ : id₂ = id
      · subst hid₂
        exact absurd hadd₂ (hother id₁ t₁ t₂ r hid₁ hold₁ hadd₁ ht₂)
      · exact h.sole id₁ id₂ t₁ t₂ r hold₁ ((hthreads id₂ hid₂).symm.trans ht₂) hadd₁ hadd₂
  · intro r q k ha
    rcases hcarry r q k ha with hc | ⟨howed, -⟩
    · have hawaited := hc.awaited hthreads hq ha
      exact hc.owed hthreads hawaited (h.owed r q k hawaited)
    · exact howed
  · intro r q k ha hsubs htable hcreates
    rcases hcarry r q k ha with hc | ⟨-, hin⟩
    · have hawaited := hc.awaited hthreads hq ha
      have hreturns : ∀ t, s.threads.find? id = some t → t.subscribes r ∨ t.creates k →
          ⟨r, q.address, k⟩ ∈ s'.notified := fun t ht hor =>
        (((hc.moved t ht).returns hawaited hor).resolve_left hsubs).resolve_left hcreates htable
      have htable := (hc.table htable).resolve_right fun hin => hcreates hin.2
      by_cases hsub : s.threads.any (·.subscribes r)
      · obtain ⟨t, ht, hp⟩ := (any_moved hthreads hsub).resolve_left hsubs
        exact hreturns t ht (.inl hp)
      · by_cases hcreate : s.threads.any (·.creates k)
        · obtain ⟨t, ht, hp⟩ := (any_moved hthreads hcreate).resolve_left hcreates
          exact hreturns t ht (.inr hp)
        · exact hc.notified (h.done r q k hawaited hsub htable hcreate)
    · exact absurd hin hsubs

/-! ## Updates -/

theorem find?_putThread_of_ne {id' : Nat} (hne : id' ≠ id) :
    (s.threads.insert id t).find? id' = s.threads.find? id' :=
  (find?_insert _ _ _ _).trans (if_neg hne)

theorem eq_of_find?_putThread (h : (s.threads.insert id t).find? id = some t') : t' = t := by
  rw [find?_insert, if_pos rfl] at h
  exact (Option.some.inj h).symm

theorem adds_insert (ht : s.threads.find? id = some t) (hadds : t'.adds r = t.adds r) :
    (s.threads.insert id t').any (·.adds r) ↔ s.threads.any (·.adds r) := by
  constructor
  · intro h
    rcases of_any_insert h with h | h
    · exact any_of_find? ht (hadds ▸ h)
    · exact h
  · intro h
    rcases any_moved (fun _ => find?_putThread_of_ne) h with h | ⟨_, hold, h⟩
    · exact h
    · cases ht.symm.trans hold
      exact any_insert_self (hadds.trans h)

theorem adds_putThread {u} (ht : s.threads.find? id = some t) :
    (s.putThread id { t with update := u }).threads.any (·.adds r) ↔ s.threads.any (·.adds r) :=
  adds_insert ht rfl

/-- A step of `UpdateSubscribeCache`: requests may lose the key and be put on the list. -/
theorem Inv.putUpdate {c} {notified} {u} (h : Inv s) (ht : s.threads.find? id = some t)
    (hs' : s' = { s with cache := c, notified := notified }.putThread id { t with update := u })
    (hlists : ∀ r k, c.Lists r k → s.cache.Lists r k)
    (henters : ∀ r k, c.Enters r k → s.cache.Enters r k)
    (hlisted : ∀ r k, c.Lists r k → c.Enters r k)
    (hkept : ∀ r k, s.threads.any (·.adds r) → s.cache.Enters r k → c.Enters r k)
    (hsubMeta : ∀ r subMeta, c.request2SubMeta.find? r = some subMeta →
      ∃ old, s.cache.request2SubMeta.find? r = some old ∧ subMeta.address = old.address)
    (hwaits : ∀ r k, c.Enters r k → s.cache.Lists r k ∨ t.holds k →
      c.Lists r k ∨ holds { t with update := u } k)
    (hprimary : ∀ v, u = some v → (v.objectKey, v.primaryAddress) ∈ s.primaries)
    (hscanned : ∀ v, u = some v → s'.Scanned v)
    (hseeks : ∀ r k, t.seeks r k → seeks { t with update := u } r k ∨ ¬c.Lists r k)
    (hinfo : ∀ item k, t.informs item k → informs { t with update := u } item k ∨
      ⟨item.reqId, item.address, k⟩ ∈ notified)
    (hstruck : ∀ r q k, s.Awaited r q k → s.cache.Lists r k → ¬c.Lists r k →
      informs { t with update := u } ⟨r, q.address⟩ k)
    (hnotified : s.notified ⊆ notified) : Inv s' := by
  subst hs'
  have habsent : ∀ r, s.cache.request2SubMeta.find? r = none →
      c.request2SubMeta.find? r = none := by
    intro r hnone
    cases hfind : c.request2SubMeta.find? r with
    | none => rfl
    | some subMeta =>
      obtain ⟨_, hold, -⟩ := hsubMeta r subMeta hfind
      cases hnone.symm.trans hold
  have hquiet : Quiet id s ({ s with cache := c, notified := notified }.putThread id
      { t with update := u }) :=
    ⟨fun _ _ hr => hr, fun _ _ => (adds_putThread ht).mp, List.Subset.refl _,
      List.Subset.refl _, fun r k _ => henters r k, hkept, fun r k _ => hlists r k,
      fun r hnone => .inl (habsent r hnone)⟩
  refine h.of_quiet hquiet (fun _ => find?_putThread_of_ne) ?_ hlisted ?_ ?_ ?_ h.primary ?_
  · intro t' ht'
    cases eq_of_find?_putThread ht'
    have hfits := h.fits id t ht
    exact ⟨⟨hfits.call.mono hquiet (fun r _ => habsent r) fun r hr => any_of_find? ht hr,
      hprimary, hscanned⟩, fun r hadds => .inr ⟨t, ht, hadds⟩⟩
  · intro r k hr
    have hmoved : s.cache.Lists r k ∨ t.holds k → Waits ({ s with
        cache := c, notified := notified }.putThread id { t with update := u }) r k := fun hor =>
      .inr ((hwaits r k hr hor).imp_right fun hk => .inr (any_insert_self hk))
    refine .inr ⟨henters r k hr, fun hl => hmoved (.inl hl), fun _ hold hor => ?_⟩
    cases ht.symm.trans hold
    rcases hor with hadds | hremoves | hholds
    · exact .inl (any_insert_self hadds)
    · exact .inr (.inr (.inl (any_insert_self hremoves)))
    · exact hmoved (.inr hholds)
  · exact fun r k hr => h.known r k (henters r k hr)
  · intro r subMeta hfind
    obtain ⟨old, hold, haddr⟩ := hsubMeta r subMeta hfind
    obtain ⟨q, hq, heq⟩ := h.subMeta r old hold
    exact ⟨q, hq, haddr.trans heq⟩
  · intro r q k ha
    refine .inl ⟨ha.request, fun ha hl => ?_, .inl, hnotified, fun _ hold => ?_⟩
    · by_cases hl' : c.Lists r k
      · exact .inl hl'
      · exact .inr (any_insert_self (hstruck r q k ha hl hl'))
    · cases ht.symm.trans hold
      refine ⟨fun hadds => any_insert_self hadds, fun _ hor hl => ?_,
        fun hinforms => (hinfo _ k hinforms).imp_left any_insert_self,
        fun _ => Or.imp (fun hsub => any_insert_self hsub)
          fun hcreate => .inl (any_insert_self hcreate)⟩
      rcases hor with hseek | hrechecks
      · exact .inl (any_insert_self ((hseeks r k hseek).resolve_right fun hnone => hnone hl))
      · exact .inr (any_insert_self hrechecks)

section

variable {u : SubscribeUpdate}

theorem holds_iff (hu : t.update = some u) : t.holds k ↔ u.objectKey = k ∧ u.phase.scans := by
  simp [holds, hu]

theorem seeks_iff (hu : t.update = some u) : t.seeks r k ↔
    (t.subscribes r ∨ t.creates k) ∧ u.objectKey = k ∧ u.phase.seeks := by
  simp [seeks, hu]

theorem informs_iff {item} (hu : t.update = some u) :
    t.informs item k ↔ u.objectKey = k ∧ item ∈ u.toNotify := by
  simp [informs, hu]

/-- A step that leaves the tables and takes only the notified off the list. -/
theorem Inv.setUpdate {v} {notified} (h : Inv s) (ht : s.threads.find? id = some t)
    (hu : t.update = some u) (hkey : v.objectKey = u.objectKey)
    (hprimary : v.primaryAddress = u.primaryAddress)
    (hsub : ∀ item ∈ u.toNotify, item ∈ v.toNotify ∨
      ⟨item.reqId, item.address, u.objectKey⟩ ∈ notified) (hnotified : s.notified ⊆ notified)
    (hscans : u.phase.scans → v.phase.scans) (hseeks : u.phase.seeks → v.phase.seeks)
    (hscanned : Scanned ({ s with notified := notified }.putThread id { t with update := some v })
      v) :
    Inv ({ s with notified := notified }.putThread id { t with update := some v }) := by
  refine h.putUpdate ht rfl (fun _ _ hl => hl) (fun _ _ he => he) h.entered (fun _ _ _ he => he)
    (fun r subMeta hfind => ⟨subMeta, hfind, rfl⟩) ?_ ?_ ?_ ?_ ?_
    (fun _ _ _ _ hl hn => absurd hl hn) hnotified
  · intro r k _ hr
    refine hr.imp_right fun hholds => ?_
    rw [holds_iff hu] at hholds
    exact (holds_iff rfl).mpr ⟨hkey.trans hholds.1, hscans hholds.2⟩
  · intro v' hv'
    cases hv'
    rw [hkey, hprimary]
    exact (h.fits id t ht).primary u hu
  · intro v' hv'
    cases hv'
    exact hscanned
  · intro r k hk
    obtain ⟨hown, rfl, hphase⟩ := (seeks_iff hu).mp hk
    exact .inl ((seeks_iff rfl).mpr ⟨hown, hkey, hseeks hphase⟩)
  · intro item k hitem
    obtain ⟨rfl, hmem⟩ := (informs_iff hu).mp hitem
    exact (hsub item hmem).imp_left fun hmem => (informs_iff rfl).mpr ⟨hkey, hmem⟩

/-- A call that ends with nobody left to notify and nobody waiting. -/
theorem Inv.endUpdate (h : Inv s) (ht : s.threads.find? id = some t) (hu : t.update = some u)
    (hempty : u.toNotify = []) (hscans : ¬u.phase.scans)
    (hnone : u.phase.seeks → ∀ r, ¬s.cache.Lists r u.objectKey) :
    Inv (s.putThread id { t with update := none }) := by
  refine h.putUpdate ht rfl (fun _ _ hl => hl) (fun _ _ he => he) h.entered (fun _ _ _ he => he)
    (fun r subMeta hfind => ⟨subMeta, hfind, rfl⟩) ?_ (fun _ hv => nomatch hv)
    (fun _ hv => nomatch hv) ?_ ?_ (fun _ _ _ _ hl hn => absurd hl hn) (List.Subset.refl _)
  · intro r k _ hr
    rcases hr with hl | hholds
    · exact .inl hl
    · exact absurd ((holds_iff hu).mp hholds).2 hscans
  · intro r k hk
    obtain ⟨-, rfl, hseeks⟩ := (seeks_iff hu).mp hk
    exact .inr (hnone hseeks r)
  · intro item k hitem
    rw [informs_iff hu, hempty] at hitem
    cases hitem.2

section

variable (h : Inv s) (ht : s.threads.find? id = some t) (hu : t.update = some u)

include h ht hu

theorem Inv.find {reqIds} (hphase : u.phase = .finding)
    (hreqIds : s.cache.reqIdsOf u.objectKey = reqIds) :
    Inv (s.putThread id { t with update := some { u with phase := .looking reqIds } }) := by
  refine h.setUpdate ht hu rfl rfl (fun _ => .inl) (List.Subset.refl _)
    (by simp [hphase, UpdatePhase.scans]) (fun _ => rfl) ?_
  intro r hr
  exact .inl (hreqIds ▸ hr)

theorem Inv.skip {reqIds} (hphase : u.phase = .looking (r :: reqIds))
    (hadds : ¬s.threads.any (·.adds r)) (hnone : s.cache.request2SubMeta.find? r = none) :
    Inv (s.putThread id { t with update := some { u with phase := .looking reqIds } }) := by
  have hscanned := (h.fits id t ht).scanned u hu
  rw [Scanned, hphase] at hscanned
  refine h.setUpdate ht hu rfl rfl (fun _ => .inl) (List.Subset.refl _) (fun _ => rfl)
    (fun _ => rfl) ?_
  intro r' hr'
  rw [adds_putThread ht]
  rcases hscanned r' hr' with hin | hpast
  · rcases mem_cons.mp hin with rfl | hin
    · refine .inr ⟨hadds, fun hl => ?_⟩
      obtain ⟨_, hfind, -⟩ := hl
      cases hnone.symm.trans hfind
    · exact .inl hin
  · exact .inr hpast

theorem Inv.look {reqIds} {subMeta}
    (hphase : u.phase = .looking (r :: reqIds)) (hadds : ¬s.threads.any (·.adds r))
    (hfind : s.cache.request2SubMeta.find? r = some subMeta) :
    Inv (s.putThread id { t with update := some (looked u r reqIds subMeta) }) := by
  have hscanned := (h.fits id t ht).scanned u hu
  rw [Scanned, hphase] at hscanned
  obtain ⟨q, hq, haddr⟩ := h.subMeta r subMeta hfind
  refine h.setUpdate ht hu rfl rfl (fun item hitem => .inl ?_) (List.Subset.refl _)
    (fun _ => rfl) (fun _ => rfl) ⟨⟨?_, ?_, ?_⟩, ?_⟩
  · unfold looked
    split
    · exact mem_append_left _ hitem
    · exact hitem
  · exact isSome_iff_exists.mpr ⟨q, hq⟩
  · rwa [adds_putThread ht]
  · intro q' ha
    cases hq.symm.trans ha.request
    -- the subscriber is not the primary that the update has in hand
    have hne : subMeta.address ≠ u.primaryAddress := by
      intro heq
      refine ha.notPrimary ?_
      show (u.objectKey, q.address) ∈ s.primaries
      rw [← haddr, heq]
      exact (h.fits id t ht).primary u hu
    show _ ∈ if subMeta.address ≠ u.primaryAddress then _ else _
    rw [if_pos hne, haddr]
    simp
  · intro r' hr'
    rw [adds_putThread ht]
    rcases hscanned r' hr' with hin | hpast
    · rcases mem_cons.mp hin with rfl | hin
      · exact .inr (.inl rfl)
      · exact .inl hin
    · exact .inr (.inr hpast)

theorem Inv.strike {reqIds} (hphase : u.phase = .striking r reqIds) :
    Inv ({ s with cache := s.cache.strike r u.objectKey }.putThread id
      { t with update := some { u with phase := .looking reqIds } }) := by
  have hscanned := (h.fits id t ht).scanned u hu
  rw [Scanned, hphase] at hscanned
  obtain ⟨⟨-, hadds, hawaited⟩, hscanned⟩ := hscanned
  have hv : update { t with update := some { u with phase := .looking reqIds } } =
      some { u with phase := .looking reqIds } := rfl
  have hlists : ∀ r' k', (s.cache.strike r u.objectKey).Lists r' k' → s.cache.Lists r' k' :=
    fun _ _ hl => (lists_strike.mp hl).2
  refine h.putUpdate ht rfl hlists (fun _ _ => enters_strike.mp)
    (fun r' k' hl => enters_strike.mpr (h.entered r' k' (hlists r' k' hl)))
    (fun _ _ _ => enters_strike.mpr) ?_ ?_ ?_ ?_ ?_ ?_ ?_ (List.Subset.refl _)
  · intro r' subMeta hfind
    rw [find?_strike] at hfind
    split at hfind
    · rename_i heq
      subst heq
      obtain ⟨old, hold, hstruck⟩ := bind_eq_some_iff.mp hfind
      unfold struck at hstruck
      dsimp only at hstruck
      split at hstruck
      · cases hstruck
      · cases hstruck
        exact ⟨old, hold, rfl⟩
    · exact ⟨subMeta, hfind, rfl⟩
  · intro r' k' _ hr'
    by_cases hsame : r' = r ∧ k' = u.objectKey
    · exact .inr ((holds_iff hv).mpr ⟨hsame.2.symm, rfl⟩)
    · rcases hr' with hl | hholds
      · exact .inl (lists_strike.mpr ⟨hsame, hl⟩)
      · exact .inr ((holds_iff hv).mpr ⟨((holds_iff hu).mp hholds).1, rfl⟩)
  · intro v heq
    cases heq
    exact (h.fits id t ht).primary u hu
  · intro v heq
    cases heq
    intro r' hr'
    show _ ∨ ¬(s.putThread id _).threads.any _ ∧ _
    rw [adds_putThread ht]
    rcases hscanned r' (enters_strike.mp hr') with hin | rfl | hpast
    · exact .inl hin
    · exact .inr ⟨hadds, fun hl => (lists_strike.mp hl).1 ⟨rfl, rfl⟩⟩
    · exact .inr ⟨hpast.1, fun hl => hpast.2 (hlists _ _ hl)⟩
  · intro r' k' hk'
    obtain ⟨hown, hkey, -⟩ := (seeks_iff hu).mp hk'
    exact .inl ((seeks_iff hv).mpr ⟨hown, hkey, rfl⟩)
  · intro item k' hitem
    exact .inl ((informs_iff hv).mpr ((informs_iff hu).mp hitem))
  · intro r' q k' ha hl hstruck
    have hsame : r' = r ∧ k' = u.objectKey := by
      by_contra hne
      exact hstruck (lists_strike.mpr ⟨hne, hl⟩)
    obtain ⟨rfl, rfl⟩ := hsame
    exact (informs_iff hv).mpr ⟨rfl, hawaited q ha⟩

theorem Inv.eraseKey (hphase : u.phase = .looking []) :
    Inv ({ s with cache := s.cache.eraseKey u.objectKey }.putThread id
      { t with update := some { u with phase := .notifying } }) := by
  have hscanned := (h.fits id t ht).scanned u hu
  rw [Scanned, hphase] at hscanned
  have hv : update { t with update := some { u with phase := .notifying } } =
      some { u with phase := .notifying } := rfl
  -- all that is entered under the key has been gone past
  have hpast : ∀ r, s.cache.Enters r u.objectKey →
      ¬s.threads.any (·.adds r) ∧ ¬s.cache.Lists r u.objectKey :=
    fun r hr => (hscanned r hr).resolve_left (not_mem_nil)
  have hnone : ∀ r, ¬s.cache.Lists r u.objectKey := fun r hl => (hpast r (h.entered r _ hl)).2 hl
  refine h.putUpdate ht rfl (fun _ _ hl => hl) (fun _ _ he => (enters_eraseKey.mp he).2) ?_ ?_
    (fun r subMeta hfind => ⟨subMeta, hfind, rfl⟩) ?_ ?_ ?_ ?_ ?_
    (fun _ _ _ _ hl hn => absurd hl hn) (List.Subset.refl _)
  · intro r k hl
    refine enters_eraseKey.mpr ⟨?_, h.entered r k hl⟩
    intro heq
    exact hnone r (heq ▸ hl)
  · intro r k hadds hr
    refine enters_eraseKey.mpr ⟨?_, hr⟩
    intro heq
    exact (hpast r (heq ▸ hr)).1 hadds
  · intro r k hr hor
    rcases hor with hl | hholds
    · exact .inl hl
    · exact absurd ((holds_iff hu).mp hholds).1.symm (enters_eraseKey.mp hr).1
  · intro v heq
    cases heq
    exact (h.fits id t ht).primary u hu
  · intro v heq
    cases heq
    trivial
  · intro r k hk
    obtain ⟨-, rfl, -⟩ := (seeks_iff hu).mp hk
    exact .inr (hnone r)
  · intro item k hitem
    exact .inl ((informs_iff hv).mpr ((informs_iff hu).mp hitem))

theorem Inv.notify {item} {rest} (hphase : u.phase = .notifying)
    (hitems : u.toNotify = item :: rest) :
    Inv ({ s with notified := ⟨item.reqId, item.address, u.objectKey⟩ :: s.notified }.putThread id
      { t with update := some { u with toNotify := rest } }) := by
  refine h.setUpdate ht hu rfl rfl (fun item' hitem => ?_) (subset_cons_self _ _) (fun hs => hs)
    (fun hs => hs) ?_
  · rw [hitems] at hitem
    rcases mem_cons.mp hitem with rfl | hmem
    · exact .inr mem_cons_self
    · exact .inl hmem
  · rw [hphase]
    trivial

theorem Inv.stepUpdate {next} (hcond : s.orderlyNext t) (hstep : s.stepUpdate u = some next) :
    Inv (next.1.putThread id { t with update := next.2 }) := by
  have hscanned := (h.fits id t ht).scanned u hu
  unfold Subscriptions.stepUpdate at hstep
  split at hstep
  · rename_i hphase
    rw [Scanned, hphase] at hscanned
    split at hstep
    · cases hstep
    · split at hstep
      · rename_i hempty
        cases hstep
        refine h.endUpdate ht hu hscanned (by simp [hphase, UpdatePhase.scans]) fun _ r hl => ?_
        have hr := h.entered r _ hl
        rw [SubscribeCache.Enters, isEmpty_iff.mp hempty] at hr
        cases hr
      · cases hstep
        exact h.find ht hu hphase rfl
  · rename_i reqId reqIds hphase
    have hadds : ¬s.threads.any (·.adds reqId) := by
      simpa [orderlyNext, hu, hphase] using hcond
    split at hstep
    · rename_i hnone
      cases hstep
      exact h.skip ht hu hphase hadds hnone
    · rename_i subMeta hfind
      cases hstep
      exact h.look ht hu hphase hadds hfind
  · rename_i reqId reqIds hphase
    cases hstep
    exact h.strike ht hu hphase
  · rename_i hphase
    cases hstep
    exact h.eraseKey ht hu hphase
  · rename_i hphase
    split at hstep
    · rename_i hempty
      cases hstep
      exact h.endUpdate ht hu hempty (by simp [hphase, UpdatePhase.scans])
        (by simp [hphase, UpdatePhase.seeks])
    · rename_i item rest hitems
      cases hstep
      exact h.notify ht hu hphase hitems

end

end

end Datasystem.Master.Subscriptions
