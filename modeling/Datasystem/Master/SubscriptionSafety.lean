import Datasystem.Master.SubscriptionInvariant

/-! No subscription is lost in orderly runs: the steps of the calls keep the invariant. -/

namespace Datasystem.Master.Subscriptions

open Common Lib StateMachine List OrderedMap Option SubscribeCache Thread

variable {s s' : Subscriptions} {r r' k k' : Bytes} {id : Nat} {t t' : Thread}

/-! ## Calls -/

/-- A thread that is out of `UpdateSubscribeCache` has no part in any update. -/
theorem not_updating (hu : t.update = none) :
    (∀ k, ¬t.holds k) ∧ (∀ r k, ¬t.seeks r k) ∧ ∀ item k, ¬t.informs item k := by
  simp [holds, seeks, informs, hu]

theorem notifies_of_informs {item} (h : t.informs item k) : t.notifies k := by
  cases hu : t.update with
  | none => simp [informs, hu] at h
  | some u =>
    obtain ⟨rfl, hin⟩ := (informs_iff hu).mp h
    simp [notifies, hu, ne_nil_of_mem hin]

theorem subscribes_of_adds (h : t.adds r) : t.subscribes r := by
  unfold adds at h
  unfold subscribes
  cases hcall : t.call <;> simp_all

theorem subscribes_of_rechecks (h : t.rechecks r k) : t.subscribes r := by
  unfold rechecks at h
  unfold subscribes
  cases hcall : t.call <;> simp_all

/-- With nothing to send for the key and nobody who looks for it, nothing is owed any more. -/
theorem Inv.notified_of_idle {q} (h : Inv s) (ha : s.Awaited r q k)
    (htable : (s.metaTable.find? k).isSome) (hidle : ¬s.threads.any (·.notifies k))
    (hlook : ¬s.threads.any (·.seeks r k)) (hrechecks : ¬s.threads.any (·.rechecks r k)) :
    ⟨r, q.address, k⟩ ∈ s.notified := by
  rcases h.owed r q k ha with ⟨-, hsought⟩ | hinforms | hin
  · exact absurd (hsought htable) (not_or.mpr ⟨hlook, hrechecks⟩)
  · exact absurd (any_mono hinforms fun _ => notifies_of_informs) hidle
  · exact hin

/-- A call returns once nothing is left to send for its keys. -/
theorem Inv.endThread (h : Inv s) (ht : s.threads.find? id = some t) (hu : t.update = none)
    (hadds : ∀ r, ¬t.adds r) (hremoves : ∀ r k, ¬t.removes r k) (hrechecks : ∀ r k, ¬t.rechecks r k)
    (hidle : ∀ r q k, s.Awaited r q k → t.subscribes r ∨ t.creates k →
      ¬s.threads.any (·.notifies k)) : Inv (s.endThread id) := by
  obtain ⟨hholds, hseeks, hinforms⟩ := not_updating hu
  have hthread : ∀ id', id' ≠ id → (s.endThread id).threads.find? id' = s.threads.find? id' :=
    fun _ hne => (find?_erase _ _ _).trans (if_neg hne)
  have hself : (s.endThread id).threads.find? id = none := (find?_erase _ _ _).trans (if_pos rfl)
  have hquiet : Quiet id s (s.endThread id) := by
    refine ⟨fun _ _ hr => hr, fun r _ hin => ?_, List.Subset.refl _, List.Subset.refl _,
      fun _ _ _ he => he, fun _ _ _ he => he, fun _ _ _ hl => hl, fun _ hnone => .inl hnone⟩
    refine (any_moved (fun id' hne => (hthread id' hne).symm) hin).resolve_right ?_
    simp [hself]
  refine h.of_quiet hquiet hthread (by simp [hself]) h.entered ?_ h.known h.subMeta h.primary ?_
  · intro r k hr
    refine .inr ⟨hr, fun hl => .inr (.inl hl), fun _ hold hor => ?_⟩
    cases ht.symm.trans hold
    simp [hadds, hremoves, hholds] at hor
  · intro r q k ha
    refine .inl ⟨ha.request, fun _ => .inl, .inl, List.Subset.refl _, fun _ hold => ?_⟩
    cases ht.symm.trans hold
    refine ⟨fun hin => absurd hin (hadds r), by simp [hseeks, hrechecks],
      fun hin => absurd hin (hinforms _ k), fun ha hor => ?_⟩
    by_cases hin : s.threads.any (·.rechecks r k)
    · rcases any_moved hthread hin with hin | ⟨_, hold, hin⟩
      · exact .inl (any_mono hin fun _ => subscribes_of_rechecks)
      · cases ht.symm.trans hold
        exact absurd hin (hrechecks r k)
    by_cases hlook : s.threads.any (·.seeks r k)
    · rcases any_moved hthread hlook with hlook | ⟨_, hold, hlook⟩
      · obtain ⟨_, _, hfind, hlook⟩ := any_iff.mp hlook
        have hown := (of_decide_eq_true hlook).1
        exact hown.imp (any_of_find? hfind) fun hcreates => .inl (any_of_find? hfind hcreates)
      · cases ht.symm.trans hold
        exact absurd hlook (hseeks r k)
    · exact .inr (.inr fun htable => h.notified_of_idle ha htable (hidle r q k ha hor) hlook hin)

theorem Inv.endRecheck (h : Inv s) (ht : s.threads.find? id = some ⟨.rechecking r [], none⟩)
    (hcond : s.orderlyNext ⟨.rechecking r [], none⟩) : Inv (s.endThread id) := by
  refine h.endThread ht rfl (by simp [adds]) (by simp [removes]) (by simp [rechecks]) ?_
  intro r' q k ha hor
  obtain rfl : r = r' := by simpa [subscribes, creates] using hor
  have hidle : ∀ k ∈ q.objects, ¬s.threads.any (·.notifies k) := by
    simpa [orderlyNext, ha.request] using hcond
  exact hidle k ha.listed

theorem Inv.endCreate (h : Inv s) (ht : s.threads.find? id = some ⟨.creating k, none⟩)
    (hcond : s.orderlyNext ⟨.creating k, none⟩) : Inv (s.endThread id) := by
  refine h.endThread ht rfl (by simp [adds]) (by simp [removes]) (by simp [rechecks]) ?_
  intro r q k' ha hor
  obtain rfl : k = k' := by simpa [subscribes, creates] using hor
  simpa [orderlyNext] using hcond

/-- A step of a loop that leaves the requests as they are. -/
theorem Inv.putCall {c} (h : Inv s) (ht : s.threads.find? id = some t)
    (hu : t.update = none) (hs' : s' = { s with cache := c }.putThread id t')
    (hreq : c.request2SubMeta = s.cache.request2SubMeta)
    (hadds : ∀ r, t'.adds r = t.adds r) (hsubs : ∀ r, t'.subscribes r = t.subscribes r)
    (hcreates : ∀ k, t'.creates k = t.creates k)
    (henters : ∀ r k, s.threads.any (·.holds k) → c.Enters r k → s.cache.Enters r k)
    (hkept : ∀ r k, s.threads.any (·.adds r) ∨ s.cache.Lists r k → s.cache.Enters r k →
      c.Enters r k)
    (hwaits : ∀ r k, c.Enters r k → t.adds r ∨
      (s.cache.Enters r k ∧ (t.removes r k → t'.removes r k)))
    (hknown : ∀ r k, c.Enters r k → ∃ q, s.requests.find? r = some q ∧ k ∈ q.objects)
    (hcall : s'.CallFits t'.call)
    (hupdate : ∀ u, t'.update = some u → (u.objectKey, u.primaryAddress) ∈ s.primaries ∧
      u.toNotify = [] ∧ u.phase = .finding)
    (hrechecks : ∀ r k, (s.metaTable.find? k).isSome → t.rechecks r k →
      t'.rechecks r k ∨ t'.seeks r k) : Inv s' := by
  subst hs'
  obtain ⟨hholds, hseeks, hinforms⟩ := not_updating hu
  have hlists : ∀ r k, c.Lists r k ↔ s.cache.Lists r k := by
    intro r k
    rw [SubscribeCache.Lists, hreq]
    rfl
  have hquiet : Quiet id s ({ s with cache := c }.putThread id t') :=
    ⟨fun _ _ hr => hr, fun r _ => (adds_insert ht (hadds r)).mp, List.Subset.refl _,
      List.Subset.refl _, henters, fun r k hr => hkept r k (.inl hr), fun r k _ => (hlists r k).mp,
      fun r hnone => .inl (by rw [← hnone, ← hreq]; rfl)⟩
  refine h.of_quiet hquiet (fun _ => find?_putThread_of_ne) ?_ ?_ ?_ hknown ?_ h.primary ?_
  · intro t'' ht''
    cases eq_of_find?_putThread ht''
    refine ⟨⟨hcall, fun u hu => (hupdate u hu).1, fun u hu => ?_⟩,
      fun r hadd => .inr ⟨t, ht, (hadds r).symm.trans hadd⟩⟩
    rw [Scanned, (hupdate u hu).2.2]
    exact (hupdate u hu).2.1
  · intro r k hl
    have hl := (hlists r k).mp hl
    exact hkept r k (.inr hl) (h.entered r k hl)
  · intro r k hr
    have hadd : t.adds r → Waits ({ s with cache := c }.putThread id t') r k :=
      fun hadd => .inl (any_insert_self ((hadds r).trans hadd))
    rcases hwaits r k hr with hadds | ⟨hr, hremoving⟩
    · exact .inl (hadd hadds)
    · refine .inr ⟨hr, fun hl => .inr (.inl ((hlists r k).mpr hl)), fun _ hold hor => ?_⟩
      cases ht.symm.trans hold
      rcases hor with hadds | hremoves | hin
      · exact hadd hadds
      · exact .inr (.inr (.inl (any_insert_self (hremoving hremoves))))
      · exact absurd hin (hholds k)
  · intro r subMeta hfind
    exact h.subMeta r subMeta (hreq ▸ hfind)
  · intro r q k ha
    refine .inl ⟨ha.request, fun _ hl => .inl ((hlists r k).mpr hl), .inl, List.Subset.refl _,
      fun _ hold => ?_⟩
    cases ht.symm.trans hold
    refine ⟨fun hadd => any_insert_self ((hadds r).trans hadd), fun htable hor _ => ?_,
      fun hin => absurd hin (hinforms _ k),
      fun _ => Or.imp (fun hp => any_insert_self ((hsubs r).trans hp))
        fun hp => .inl (any_insert_self ((hcreates k).trans hp))⟩
    rcases hrechecks r k htable (hor.resolve_left (hseeks r k)) with hrt | hseek
    · exact .inr (any_insert_self hrt)
    · exact .inl (any_insert_self hseek)

section

variable {subMeta : SubscribeMeta} {rest : List Bytes}

theorem Inv.addKey (h : Inv s)
    (ht : s.threads.find? id = some ⟨.adding r subMeta (k :: rest), none⟩)
    (hfree : ¬s.held k) :
    Inv ({ s with cache := s.cache.addKey r k }.putThread id ⟨.adding r subMeta rest, none⟩) := by
  obtain ⟨hrequest, hnone, hsubset, hkeys⟩ := (h.fits id _ ht).call
  have hin : ∀ {r' k'}, s.cache.Enters r' k' → (s.cache.addKey r k).Enters r' k' :=
    fun he => enters_addKey.mpr (.inr he)
  refine h.putCall ht rfl rfl rfl (fun _ => rfl) (fun _ => rfl) (fun _ => rfl) ?_
    (fun _ _ _ => hin) ?_ ?_ ⟨hrequest, hnone, ?_, ?_⟩ (fun _ hu => nomatch hu) ?_
  · intro r' k' hholds hr'
    rcases enters_addKey.mp hr' with ⟨-, rfl⟩ | hr'
    · exact absurd hholds hfree
    · exact hr'
  · intro r' k' hr'
    rcases enters_addKey.mp hr' with ⟨rfl, -⟩ | hr'
    · exact .inl (adds_of_call rfl)
    · exact .inr ⟨hr', fun hremoves => nomatch hremoves⟩
  · intro r' k' hr'
    rcases enters_addKey.mp hr' with ⟨rfl, rfl⟩ | hr'
    · exact ⟨subMeta, hrequest, hsubset mem_cons_self⟩
    · exact h.known r' k' hr'
  · exact fun k' hk' => hsubset (mem_cons_of_mem _ hk')
  · intro k' hk'
    rcases hkeys k' hk' with hmem | hr'
    · rcases mem_cons.mp hmem with rfl | hmem
      · exact .inr (enters_addKey.mpr (.inl ⟨rfl, rfl⟩))
      · exact .inl hmem
    · exact .inr (hin hr')
  · exact fun _ _ _ hrechecks => nomatch hrechecks

theorem Inv.recheck (h : Inv s) (ht : s.threads.find? id = some ⟨.rechecking r (k :: rest), none⟩) :
    Inv (s.putThread id ⟨.rechecking r rest, (s.metaTable.find? k).map fun entry =>
      { objectKey := k, primaryAddress := entry.pb.primaryAddress }⟩) := by
  refine h.putCall ht rfl rfl rfl (fun _ => rfl) (fun _ => rfl) (fun _ => rfl) (fun _ _ _ he => he)
    (fun _ _ _ he => he) (fun _ _ he => .inr ⟨he, fun hremoves => nomatch hremoves⟩) h.known trivial
    ?_ ?_
  · intro u hu
    obtain ⟨entry, hentry, rfl⟩ := map_eq_some_iff.mp hu
    exact ⟨h.primary k entry hentry, rfl, rfl⟩
  · intro r' k' htable hrechecks
    obtain ⟨rfl, hmem⟩ : r = r' ∧ k' ∈ k :: rest := by simpa [rechecks] using hrechecks
    rcases mem_cons.mp hmem with rfl | hmem
    · obtain ⟨_, hentry⟩ := isSome_iff_exists.mp htable
      right
      simp [seeks, subscribes, hentry, UpdatePhase.seeks]
    · left
      simp [rechecks, hmem]

theorem Inv.removeKey (h : Inv s) (ht : s.threads.find? id = some ⟨.removing r (k :: rest), none⟩) :
    Inv ({ s with cache := s.cache.removeKey r k }.putThread id ⟨.removing r rest, none⟩) := by
  obtain ⟨hrequest, hnone, hadds⟩ := (h.fits id _ ht).call
  have hout : ∀ {r' k'}, (s.cache.removeKey r k).Enters r' k' → s.cache.Enters r' k' :=
    fun he => (enters_removeKey.mp he).2
  refine h.putCall ht rfl rfl request2SubMeta_removeKey (fun _ => rfl) (fun _ => rfl)
    (fun _ => rfl) (fun _ _ _ => hout) ?_ ?_ (fun r' k' he => h.known r' k' (hout he)) ?_
    (fun _ hu => nomatch hu) (fun _ _ _ hrechecks => nomatch hrechecks)
  · intro r' k' hor hr'
    refine enters_removeKey.mpr ⟨fun hsame => ?_, hr'⟩
    obtain ⟨rfl, rfl⟩ := hsame
    -- a request that is being removed is not being added and lists nothing
    rcases hor with hadd | ⟨subMeta, hfind, -⟩
    · exact hadds hadd
    · cases hnone.symm.trans hfind
  · intro r' k' hr'
    obtain ⟨hne, hr'⟩ := enters_removeKey.mp hr'
    refine .inr ⟨hr', fun hremoves => ?_⟩
    obtain ⟨rfl, hmem⟩ : r = r' ∧ k' ∈ k :: rest := by simpa [removes] using hremoves
    rcases mem_cons.mp hmem with rfl | hmem
    · exact absurd ⟨rfl, rfl⟩ hne
    · simp [removes, hmem]
  · refine ⟨hrequest, ?_, fun hin => hadds ?_⟩
    · show (s.cache.removeKey r k).request2SubMeta.find? r = none
      rwa [request2SubMeta_removeKey]
    · rcases of_any_insert hin with hself | hin
      · cases hself
      · exact hin

theorem Inv.emplace (h : Inv s) (ht : s.threads.find? id = some ⟨.adding r subMeta [], none⟩) :
    Inv ({ s with cache := s.cache.emplace r subMeta }.putThread id
      ⟨.rechecking r subMeta.objects, none⟩) := by
  obtain ⟨hrequest, hnone, -, hkeys⟩ := (h.fits id _ ht).call
  have hadd : s.threads.any (·.adds r) := any_of_find? ht (adds_of_call rfl)
  have hquiet : Quiet id s ({ s with cache := s.cache.emplace r subMeta }.putThread id
      ⟨.rechecking r subMeta.objects, none⟩) := by
    refine ⟨fun _ _ hr => hr, fun r' _ hin => (of_any_insert hin).resolve_left (by simp [adds]),
      List.Subset.refl _, List.Subset.refl _, fun _ _ _ => enters_emplace.mp,
      fun _ _ _ => enters_emplace.mpr, fun r' k' hnot hl => ?_, fun r' hr' => ?_⟩
    · rcases (lists_emplace hnone).mp hl with ⟨rfl, -⟩ | hl
      · exact absurd hadd hnot
      · exact hl
    · by_cases hr : r' = r
      · exact .inr ⟨_, ht, by simp [adds, hr]⟩
      · exact .inl ((find?_emplace hnone).trans ((if_neg hr).trans hr'))
  refine h.of_quiet hquiet (fun _ => find?_putThread_of_ne) ?_ ?_ ?_ (fun r' k' he => ?_) ?_
    h.primary ?_
  · intro t' ht'
    cases eq_of_find?_putThread ht'
    exact ⟨⟨trivial, by simp, by simp⟩, by simp [adds]⟩
  · intro r' k' hl
    refine enters_emplace.mpr ?_
    rcases (lists_emplace hnone).mp hl with ⟨rfl, hk'⟩ | hl
    · exact (hkeys k' hk').resolve_left not_mem_nil
    · exact h.entered r' k' hl
  · intro r' k' henters
    have he := enters_emplace.mp henters
    by_cases hr : r' = r
    · subst hr
      obtain ⟨_, hq, hk'⟩ := h.known r' k' he
      cases hrequest.symm.trans hq
      exact .inl (.inr (.inl ((lists_emplace hnone).mpr (.inl ⟨rfl, hk'⟩))))
    · refine .inr ⟨he, fun hl => .inr (.inl ((lists_emplace hnone).mpr (.inr hl))), ?_⟩
      intro _ hold hor
      cases ht.symm.trans hold
      simp [adds, removes, holds, Ne.symm hr] at hor
  · exact h.known r' k' (enters_emplace.mp he)
  · intro r' subMeta' hfind
    have hfind := (find?_emplace hnone).symm.trans hfind
    split at hfind
    · rename_i heq
      cases hfind
      exact ⟨subMeta, heq ▸ hrequest, rfl⟩
    · exact h.subMeta r' subMeta' hfind
  · intro r' q k' ha
    by_cases hr : r' = r
    · -- the thread goes from adding the request to looking again
      subst hr
      cases hrequest.symm.trans ha.request
      refine .inr ⟨.inl ⟨(lists_emplace hnone).mpr (.inl ⟨rfl, ha.listed⟩), fun _ => .inr ?_⟩, ?_⟩
      · exact any_insert_self (by simp [rechecks, ha.listed])
      · exact any_insert_self (by simp [subscribes])
    · refine .inl ⟨ha.request, fun _ hl => .inl ((lists_emplace hnone).mpr (.inr hl)), .inl,
        List.Subset.refl _, fun _ hold => ?_⟩
      cases ht.symm.trans hold
      constructor <;> simp [adds, seeks, rechecks, informs, subscribes, creates, Ne.symm hr]

end

/-! ## New calls -/

section

variable {subMeta : SubscribeMeta}

theorem Inv.subscribe (h : Inv s) (hid : s.threads.find? id = none)
    (hfresh : s.requests.find? r = none) :
    Inv ({ s with requests := s.requests.insert r subMeta }.putThread id
      ⟨.adding r subMeta subMeta.objects, none⟩) := by
  have hnew : (s.requests.insert r subMeta).find? r = some subMeta :=
    (find?_insert _ _ _ _).trans (if_pos rfl)
  have hold : ∀ {r'}, r' ≠ r → (s.requests.insert r subMeta).find? r' = s.requests.find? r' :=
    fun hne => (find?_insert _ _ _ _).trans (if_neg hne)
  have hreq : ∀ r' q, s.requests.find? r' = some q →
      (s.requests.insert r subMeta).find? r' = some q := by
    intro r' q hq
    rwa [hold]
    intro heq
    cases hfresh.symm.trans (heq ▸ hq)
  have hadds : ∀ {r'}, r' ≠ r → (s.threads.insert id ⟨.adding r subMeta subMeta.objects, none⟩).any
      (·.adds r') → s.threads.any (·.adds r') :=
    fun hne hin => (of_any_insert hin).resolve_left (by simp [adds, Ne.symm hne])
  have hquiet : Quiet id s ({ s with requests := s.requests.insert r subMeta }.putThread id
      ⟨.adding r subMeta subMeta.objects, none⟩) := by
    refine ⟨hreq, fun r' hr' hin => ?_, List.Subset.refl _, List.Subset.refl _,
      fun _ _ _ he => he, fun _ _ _ he => he, fun _ _ _ hl => hl, fun _ hnone => .inl hnone⟩
    refine hadds (fun heq => ?_) hin
    rw [heq, hfresh] at hr'
    cases hr'
  refine h.of_quiet hquiet (fun _ => find?_putThread_of_ne) ?_ h.entered
    (fun r' k he => .inr ⟨he, fun hl => .inr (.inl hl), by simp [hid]⟩) ?_ ?_ h.primary ?_
  · intro t' ht'
    cases eq_of_find?_putThread ht'
    refine ⟨⟨⟨hnew, ?_, List.Subset.refl _, fun k hk => .inl hk⟩, by simp, by simp⟩,
      fun r' hadd => .inl (of_decide_eq_true hadd ▸ hfresh)⟩
    show s.cache.request2SubMeta.find? r = none
    cases hfind : s.cache.request2SubMeta.find? r with
    | none => rfl
    | some subMeta' =>
      obtain ⟨_, hq, -⟩ := h.subMeta r subMeta' hfind
      cases hfresh.symm.trans hq
  · intro r' k he
    obtain ⟨q, hq, hk⟩ := h.known r' k he
    exact ⟨q, hreq r' q hq, hk⟩
  · intro r' subMeta' hfind
    obtain ⟨q, hq, heq⟩ := h.subMeta r' subMeta' hfind
    exact ⟨q, hreq r' q hq, heq⟩
  · intro r' q k ha
    have hne : r' ≠ r := fun heq => ha.added (heq ▸ any_insert_self (adds_of_call rfl))
    exact .inl ⟨(hold hne).symm.trans ha.request, fun _ => .inl, .inl, List.Subset.refl _,
      by simp [hid]⟩

theorem find?_putMeta {entry} : (s.putMeta k entry).metaTable.find? k' =
    if k' = k then some entry else s.metaTable.find? k' :=
  (find?_insert _ _ _ _).trans (by congr)

theorem primary_putMeta {entry} (h : Inv s) :
    ∀ k' entry', (s.putMeta k entry).metaTable.find? k' = some entry' →
      (k', entry'.pb.primaryAddress) ∈ (s.putMeta k entry).primaries := by
  intro k' entry' hentry
  rw [find?_putMeta] at hentry
  split at hentry
  · rename_i heq
    cases hentry
    exact heq ▸ mem_cons_self
  · exact mem_cons_of_mem _ (h.primary k' entry' hentry)

theorem Inv.createMeta {entry} (h : Inv s) (hid : s.threads.find? id = none) :
    Inv ((s.putMeta k entry).putThread id ⟨.creating k,
      some { objectKey := k, primaryAddress := entry.pb.primaryAddress }⟩) := by
  refine h.of_quiet ⟨fun _ _ hr => hr, fun _ _ hin => (of_any_insert hin).resolve_left
      (by simp [adds]), List.Subset.refl _, subset_cons_self _ _, fun _ _ _ he => he,
      fun _ _ _ he => he, fun _ _ _ hl => hl, fun _ hnone => .inl hnone⟩
    (fun _ => find?_putThread_of_ne) ?_ h.entered
    (fun r k he => .inr ⟨he, fun hl => .inr (.inl hl), by simp [hid]⟩) h.known h.subMeta
    (primary_putMeta h) ?_
  · intro t' ht'
    cases eq_of_find?_putThread ht'
    refine ⟨⟨trivial, fun u hu => ?_, fun u hu => ?_⟩, by simp [adds]⟩
    · cases hu
      exact mem_cons_self
    · cases hu
      rfl
  · intro r q k' ha
    refine .inl ⟨ha.request, fun _ => .inl, fun htable => ?_, List.Subset.refl _, by simp [hid]⟩
    by_cases hk : k' = k
    · exact .inr ⟨any_insert_self (by simp [seeks, creates, hk, UpdatePhase.seeks]),
        any_insert_self (by simp [creates, hk])⟩
    · have hsame : (s.putMeta k entry).metaTable.find? k' = s.metaTable.find? k' :=
        find?_putMeta.trans (if_neg hk)
      exact .inl (hsame ▸ htable)

/-- A step that neither touches the tables nor a thread, and after which no more is awaited. -/
theorem Inv.of_awaited (h : Inv s) (hcache : s'.cache = s.cache) (hthreads : s'.threads = s.threads)
    (hreq : s'.requests = s.requests) (hnotified : s'.notified = s.notified)
    (htimedOut : s.timedOut ⊆ s'.timedOut) (hprimaries : s.primaries ⊆ s'.primaries)
    (htable : ∀ k, (s'.metaTable.find? k).isSome → (s.metaTable.find? k).isSome)
    (hprimary : ∀ k entry, s'.metaTable.find? k = some entry →
      (k, entry.pb.primaryAddress) ∈ s'.primaries) : Inv s' := by
  have hawaited : ∀ {r q k}, s'.Awaited r q k → s.Awaited r q k :=
    fun ha => ⟨hreq ▸ ha.request, ha.listed, hthreads ▸ ha.added,
      fun hin => ha.inTime (htimedOut hin), fun hin => ha.notPrimary (hprimaries hin)⟩
  have hquiet : ∀ id, Quiet id s s' := fun id =>
    ⟨fun _ _ hr => hreq ▸ hr, fun _ _ hin => hthreads ▸ hin, htimedOut, hprimaries,
      fun _ _ _ he => hcache ▸ he, fun _ _ _ he => hcache ▸ he, fun _ _ _ hl => hcache ▸ hl,
      fun _ hnone => .inl (hcache ▸ hnone)⟩
  refine ⟨?_, ?_, ?_, ?_, fun id t ht => ?_, ?_, hprimary, fun r q k ha => ?_, ?_⟩
  · rw [hcache]
    exact h.entered
  · rw [hcache, hthreads]
    exact h.waits
  · rw [hcache, hreq]
    exact h.known
  · rw [hcache, hreq]
    exact h.subMeta
  · exact (hquiet (id + 1)).fits h (Nat.ne_of_lt (Nat.lt_succ_self id)) (hthreads ▸ ht)
  · rw [hthreads]
    exact h.sole
  · unfold Owed
    rw [hcache, hthreads, hnotified]
    exact (h.owed r q k (hawaited ha)).imp_left fun hl => ⟨hl.1, fun hin => hl.2 (htable k hin)⟩
  · intro r q k ha hsubs hin hcreates
    rw [hnotified]
    exact h.done r q k (hawaited ha) (hthreads ▸ hsubs) (htable k hin) (hthreads ▸ hcreates)

theorem Inv.overwrite {entry} (h : Inv s) (hin : (s.metaTable.find? k).isSome) :
    Inv (s.putMeta k entry) := by
  refine h.of_awaited rfl rfl rfl rfl (List.Subset.refl _) (subset_cons_self _ _) ?_
    (primary_putMeta h)
  intro k' hk'
  rw [find?_putMeta] at hk'
  split at hk'
  · rename_i heq
    exact heq ▸ hin
  · exact hk'

/-- The request of a timer that has fired is taken out of its table. -/
theorem Inv.eraseRequest (h : Inv s) (hid : s.threads.find? id = none)
    (hfind : s.cache.request2SubMeta.find? r = some subMeta) (htimedOut : r ∈ s.timedOut) :
    Inv ({ s with cache := s.cache.eraseRequest r }.putThread id
      ⟨.removing r subMeta.objects, none⟩) := by
  have hlists : ∀ {r' k}, (s.cache.eraseRequest r).Lists r' k → s.cache.Lists r' k :=
    fun hl => (lists_eraseRequest.mp hl).2
  have herase : ∀ r', (s.cache.eraseRequest r).request2SubMeta.find? r' =
      if r' = r then none else s.cache.request2SubMeta.find? r' :=
    fun r' => (find?_erase _ _ _).trans (by congr)
  -- a request in the table is not being added
  have hnotAdding : ¬s.threads.any (·.adds r) := by
    intro hin
    obtain ⟨id', t', ht', hadd⟩ := any_iff.mp hin
    have hfits := (h.fits id' t' ht').call
    unfold adds at hadd
    split at hadd
    · rename_i hcall
      cases of_decide_eq_true hadd
      rw [hcall] at hfits
      cases hfits.2.1.symm.trans hfind
    · cases hadd
  have hadds : ∀ {r'}, (s.threads.insert id ⟨.removing r subMeta.objects, none⟩).any (·.adds r') →
      s.threads.any (·.adds r') :=
    fun hin => (of_any_insert hin).resolve_left (by simp [adds])
  have hquiet : Quiet id s ({ s with cache := s.cache.eraseRequest r }.putThread id
      ⟨.removing r subMeta.objects, none⟩) := by
    refine ⟨fun _ _ hr => hr, fun _ _ => hadds, List.Subset.refl _, List.Subset.refl _,
      fun _ _ _ he => he, fun _ _ _ he => he, fun _ _ _ => hlists, fun r' hnone => .inl ?_⟩
    refine (herase r').trans ?_
    split
    · rfl
    · exact hnone
  refine h.of_quiet hquiet (fun _ => find?_putThread_of_ne) ?_
    (fun r' k hl => h.entered r' k (hlists hl)) ?_ h.known ?_ h.primary ?_
  · intro t' ht'
    cases eq_of_find?_putThread ht'
    obtain ⟨q, hq, -⟩ := h.subMeta r subMeta hfind
    exact ⟨⟨⟨isSome_iff_exists.mpr ⟨q, hq⟩, (herase r).trans (if_pos rfl),
      fun hin => hnotAdding (hadds hin)⟩, by simp, by simp⟩, by simp [adds]⟩
  · intro r' k he
    refine .inr ⟨he, fun hl => ?_, by simp [hid]⟩
    by_cases hr : r' = r
    · subst hr
      obtain ⟨_, hfind', hk⟩ := hl
      cases hfind.symm.trans hfind'
      exact .inr (.inr (.inl (any_insert_self (by simp [removes, hk]))))
    · exact .inr (.inl (lists_eraseRequest.mpr ⟨hr, hl⟩))
  · intro r' subMeta' hfind'
    have hfind' := (herase r').symm.trans hfind'
    split at hfind'
    · cases hfind'
    · exact h.subMeta r' subMeta' hfind'
  · intro r' q k ha
    have hne : r' ≠ r := fun heq => ha.inTime (heq ▸ htimedOut)
    exact .inl ⟨ha.request, fun _ hl => .inl (lists_eraseRequest.mpr ⟨hne, hl⟩), .inl,
      List.Subset.refl _, by simp [hid]⟩

theorem Inv.timeout (h : Inv s) (hid : s.threads.find? id = none) : Inv (s.timeout id r) := by
  have htimedOut : Inv { s with timedOut := r :: s.timedOut } :=
    h.of_awaited rfl rfl rfl rfl (subset_cons_self _ _) (List.Subset.refl _)
      (fun _ hin => hin) h.primary
  unfold Subscriptions.timeout
  dsimp only
  split
  · exact htimedOut
  · rename_i subMeta hfind
    exact htimedOut.eraseRequest hid hfind mem_cons_self

end

/-! ## Runs -/

theorem Inv.stepCall (h : Inv s) (ht : s.threads.find? id = some t) (hu : t.update = none)
    (hcond : s.orderlyNext t) (hstep : s.stepCall id t.call = some s') : Inv s' := by
  obtain ⟨_, _⟩ := t
  cases hu
  unfold Subscriptions.stepCall at hstep
  dsimp only at hstep
  split at hstep
  · obtain ⟨hfree, hstep⟩ := ite_none_left_eq_some.mp hstep
    cases hstep
    exact h.addKey ht hfree
  · cases hstep
    exact h.emplace ht
  · cases hstep
    exact h.recheck ht
  · obtain ⟨-, hstep⟩ := ite_none_left_eq_some.mp hstep
    cases hstep
    exact h.removeKey ht
  · cases hstep
    exact h.endRecheck ht hcond
  · cases hstep
    exact h.endCreate ht hcond
  · cases hstep
    exact h.endThread ht rfl (by simp [adds]) (by simp [removes]) (by simp [rechecks])
      (by simp [subscribes, creates])

theorem Inv.step {a} (h : Inv s) (hstep : restrict orderly step s a = some s') : Inv s' := by
  obtain ⟨hcond, hstep⟩ := restrict_eq_some.mp hstep
  cases a with
  | subscribe =>
    obtain ⟨hid, hstep⟩ := ite_none_right_eq_some.mp hstep
    cases hstep
    exact h.subscribe (isNone_iff_eq_none.mp hid) (isNone_iff_eq_none.mp hcond)
  | createMeta =>
    obtain ⟨hid, hstep⟩ := ite_none_right_eq_some.mp hstep
    cases hstep
    exact h.createMeta (isNone_iff_eq_none.mp hid.1)
  | overwrite =>
    obtain ⟨entry, hentry, rfl⟩ := map_eq_some_iff.mp hstep
    exact h.overwrite (isSome_iff_exists.mpr ⟨entry, hentry⟩)
  | timeout =>
    obtain ⟨hid, hstep⟩ := ite_none_right_eq_some.mp hstep
    cases hstep
    exact h.timeout (isNone_iff_eq_none.mp hid.1)
  | next id =>
    obtain ⟨t, ht, hstep⟩ := bind_eq_some_iff.mp hstep
    have hcond : s.orderlyNext t := by simpa [orderly, ht] using hcond
    unfold stepThread at hstep
    split at hstep
    · rename_i u hu
      obtain ⟨_, hnext, rfl⟩ := map_eq_some_iff.mp hstep
      exact h.stepUpdate ht hu hcond hnext
    · rename_i hu
      exact h.stepCall ht hu hcond hstep

theorem inv_run {metaTable} (h : Reaches (restrict orderly step) (start metaTable) s) : Inv s :=
  h.invariant (I := Inv) (inv_start metaTable) fun _ _ _ hstep h => h.step hstep

/-- Once a call has subscribed to a key and the key has been created, the subscriber has been
notified, unless it was primary of the object or timed out. Outside of the calls that change them
the two tables agree. -/
theorem no_lost_subscription {metaTable : OrderedMap Bytes ObjectMeta}
    (h : Reaches (restrict orderly step) (start metaTable) s) :
    (∀ r q k, s.requests.find? r = some q → k ∈ q.objects → ¬s.threads.any (·.subscribes r) →
      (s.metaTable.find? k).isSome → ¬s.threads.any (·.creates k) → r ∉ s.timedOut →
      (k, q.address) ∉ s.primaries → ⟨r, q.address, k⟩ ∈ s.notified) ∧
    ∀ r k, ¬s.threads.any (·.adds r) → ¬s.threads.any (·.removes r k) → ¬s.held k →
      (s.cache.Enters r k ↔ s.cache.Lists r k) := by
  have hinv := inv_run h
  refine ⟨fun r q k hrequests hk hsubs htable hcreates hinTime hprimary => ?_,
    fun r k hadds hremoving hheld => ⟨fun he => ?_, hinv.entered r k⟩⟩
  · have hadds : ¬s.threads.any (·.adds r) := fun hin =>
      hsubs (any_mono hin fun _ => subscribes_of_adds)
    exact hinv.done r q k ⟨hrequests, hk, hadds, hinTime, hprimary⟩ hsubs htable hcreates
  · rcases hinv.waits r k he with hadd | hl | hremoves | hhold
    · exact absurd hadd hadds
    · exact hl
    · exact absurd hremoves hremoving
    · exact absurd hhold hheld

/-- A worker at address 5 that subscribes to object 9. -/
def oneObject : SubscribeMeta := ⟨[[9]], [5]⟩

theorem no_lost_subscription_of_create : ∃ s, Reaches (restrict orderly step) (start .empty) s ∧
    ⟨[1], [5], [9]⟩ ∈ s.notified ∧ (s.cache.Enters [1] [9] ↔ s.cache.Lists [1] [9]) := by
  have hrun : (run (restrict orderly step) (start .empty)
      ([.subscribe 0 [1] oneObject, .next 0, .next 0, .next 0, .next 0,
        .createMeta 1 [9] {} [6] 1] ++ List.replicate 7 (.next 1))).any fun s =>
          s.requests.find? [1] = some oneObject ∧ ¬s.threads.any (·.subscribes [1]) ∧
            (s.metaTable.find? [9]).isSome ∧ ¬s.threads.any (·.creates [9]) ∧ [1] ∉ s.timedOut ∧
            ([9], [5]) ∉ s.primaries ∧ ¬s.threads.any (·.adds [1]) ∧
            ¬s.threads.any (·.removes [1] [9]) ∧ ¬s.held [9] := by
    decide +kernel
  obtain ⟨s, hs, hrequests, hsubs, htable, hcreate, hinTime, hprimary, hadds, hremoves,
    hheld⟩ := exists_reaches _ hrun
  have hkept := no_lost_subscription hs
  exact ⟨s, hs, hkept.1 [1] oneObject [9] hrequests (by decide) hsubs htable hcreate hinTime
    hprimary, hkept.2 [1] [9] hadds hremoves hheld⟩

/-- A create between the two steps of `AddSubscribeCache` skips the request and clears its key:
both calls return, nobody is notified, and the request lists a key it is not entered under. -/
theorem subscription_lost_beside_create : ∃ s, Reaches step (start .empty) s ∧
    s.requests.find? [1] = some oneObject ∧ ¬s.threads.any (·.subscribes [1]) ∧
    (s.metaTable.find? [9]).isSome ∧ ¬s.threads.any (·.creates [9]) ∧ [1] ∉ s.timedOut ∧
    ([9], [5]) ∉ s.primaries ∧ ⟨[1], [5], [9]⟩ ∉ s.notified ∧
    ¬s.threads.any (·.adds [1]) ∧ ¬s.threads.any (·.removes [1] [9]) ∧ ¬s.held [9] ∧
    s.cache.Lists [1] [9] ∧ ¬s.cache.Enters [1] [9] := by
  exact exists_reaches ([.subscribe 0 [1] oneObject, .next 0, .createMeta 1 [9] {} [6] 1] ++
    List.replicate 5 (.next 1) ++ List.replicate 4 (.next 0)) (by decide +kernel)

end Datasystem.Master.Subscriptions
