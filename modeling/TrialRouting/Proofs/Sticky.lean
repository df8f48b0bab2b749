import TrialRouting.Proofs.Drafts

/-!
# TrialRouting.Proofs.Sticky

Which trial sticky routing gives a caller, and what that depends on.  The
buckets of an experiment are its trials besides the default one in the order of
their texts, so they depend on the set of these trials only
(`TrialKey.sort_eq_of_mem_iff`).  A definition that has been built has at least
one bucket (`Draft.Builds.exists_buckets`), so each identity falls into one.

The main theorem, `resolve_eq_of_same_others`, compares two experiments that may
differ in all but their contract, the name of their routing and that set.
-/

namespace TrialRouting

/-! ## Keys in order -/

namespace TrialKey

theorem pairwise_sort (keys : List TrialKey) : (sort keys).Pairwise fun a b => a.le b = true :=
  (pairwise_mergeSort_text text keys).imp fun h => decide_eq_true h

theorem sort_perm (keys : List TrialKey) : (sort keys).Perm keys :=
  List.mergeSort_perm keys le

theorem mem_sort {keys : List TrialKey} {key : TrialKey} : key ∈ sort keys ↔ key ∈ keys :=
  (sort_perm keys).mem_iff

theorem eq_of_le_of_le {a b : TrialKey} (hab : a.le b = true) (hba : b.le a = true) : a = b := by
  simp only [le, decide_eq_true_iff] at hab hba
  have htext : a.text = b.text := String.le_antisymm hab hba
  cases a
  exact congrArg TrialKey.mk htext

/-- The order in which distinct keys are listed does not matter. -/
theorem sort_eq_of_mem_iff {keys keys' : List TrialKey} (hnodup : keys.Nodup)
    (hnodup' : keys'.Nodup) (hmem : ∀ key, key ∈ keys ↔ key ∈ keys') : sort keys = sort keys' := by
  have hperm : keys.Perm keys' := (List.perm_ext_iff_of_nodup hnodup hnodup').mpr hmem
  refine List.Perm.eq_of_pairwise (fun _ _ _ _ => eq_of_le_of_le) (pairwise_sort keys)
    (pairwise_sort keys') ?_
  exact (sort_perm keys).trans (hperm.trans (sort_perm keys').symm)

end TrialKey

/-! ## Buckets -/

/-- An identity is assigned the trial at the index of its bucket. -/
theorem Sticky.getElem?_bucket (salt : String) {buckets : List TrialKey} (h : buckets ≠ [])
    (identity : String) :
    buckets[bucket salt identity buckets.length]? = some (assign salt buckets h identity) :=
  List.getElem?_eq_getElem _

/-- The remainder of words is that of numbers, as long as the number of buckets is a word. -/
theorem Sticky.toNat_leadingWord_mod (salt identity : String) {buckets : Nat}
    (h : buckets < UInt64.size) :
    (Sha256.leadingWord (hashInput salt identity) % UInt64.ofNat buckets).toNat =
      bucket salt identity buckets := by
  rw [UInt64.toNat_mod, UInt64.toNat_ofNat_of_lt' h, bucket]

/-! ## The routing of a definition -/

variable {σ τ : Type}

theorem Draft.builds_of_build {a : Draft σ} {d : Definition σ} (h : a.build = .ok d) :
    a.Builds d := by
  obtain ⟨e, he, -⟩ | ⟨d', hd', hbuilds⟩ := a.build_cases
  · cases h.symm.trans he
  · obtain rfl := Except.ok.inj (h.symm.trans hd')
    exact hbuilds

/-- The buckets of a definition are its trials besides the default one, of which there are some. -/
theorem Draft.Builds.exists_buckets {a : Draft σ} {d : Definition σ} {name : String}
    (h : a.Builds d) (hmode : a.selection = some (.stickyRouting name)) :
    ∃ hsome, d.strategy = .stickyRouting name (Sticky.salt a.contract name)
      (TrialKey.sort d.trials.nonDefaultKeys) hsome := by
  obtain ⟨mode, hmode', hbind⟩ := h.strategy
  obtain rfl := Option.some.inj (hmode.symm.trans hmode')
  simp only [SelectionMode.bind] at hbind
  split at hbind
  · cases hbind
  · next hsome => exact ⟨hsome, (Except.ok.inj hbind).symm⟩

/-- How a sticky routing answers: by the bucket of the caller's identity, or with an error if the
caller has none. -/
theorem Strategy.resolve_stickyRouting (name salt : String) (buckets : List TrialKey)
    (hsome : buckets ≠ []) (ctx : Context) :
    (stickyRouting name salt buckets hsome : Strategy σ).resolve ctx =
      .done (match ctx.identity with
        | none => .error (.missingIdentity name)
        | some identity => .ok (Sticky.assign salt buckets hsome identity)) := by
  rw [resolve]
  cases ctx.identity <;> rfl

/-- **Sticky assignments** depend on the contract of an experiment, the name of its routing, the set of
its trials besides the default one, and the identity of the caller; on nothing else.  Two definitions
that have been built and agree in the first three route two callers of one identity to the same trial,
and refuse callers without an identity alike.

The trial is registered with both definitions and is the default of neither.  It is found at the
index of its bucket, which is always within the list of buckets, also when it is computed in words. -/
theorem resolve_eq_of_same_others {a : Draft σ} {b : Draft τ} {d : Definition σ}
    {e : Definition τ} {name : String} (hd : a.build = .ok d) (he : b.build = .ok e)
    (ha : a.selection = some (.stickyRouting name))
    (hb : b.selection = some (.stickyRouting name)) (hcontract : a.contract = b.contract)
    (hothers : ∀ key, key ∈ d.trials.nonDefaultKeys ↔ key ∈ e.trials.nonDefaultKeys)
    (ctx ctx' : Context) (hidentity : ctx.identity = ctx'.identity) :
    let buckets := TrialKey.sort d.trials.nonDefaultKeys
    let salt := Sticky.salt a.contract name
    d.strategy.candidates = buckets ∧ e.strategy.candidates = buckets ∧ 0 < buckets.length ∧
    (ctx.identity = none →
      d.strategy.resolve ctx = .done (.error (.missingIdentity name)) ∧
      e.strategy.resolve ctx' = .done (.error (.missingIdentity name))) ∧
    ∀ identity, ctx.identity = some identity → ∃ key,
      d.strategy.resolve ctx = .done (.ok key) ∧ e.strategy.resolve ctx' = .done (.ok key) ∧
      key ∈ d.trials.nonDefaultKeys ∧ key ∈ e.trials.nonDefaultKeys ∧
      key ≠ d.trials.defaultKey ∧ key ≠ e.trials.defaultKey ∧
      Sticky.bucket salt identity buckets.length < buckets.length ∧
      buckets[Sticky.bucket salt identity buckets.length]? = some key ∧
      (buckets.length < UInt64.size →
        (Sha256.leadingWord (Sticky.hashInput salt identity) % UInt64.ofNat buckets.length).toNat =
          Sticky.bucket salt identity buckets.length) := by
  intro buckets salt
  obtain ⟨hsome, hstrategy⟩ := (Draft.builds_of_build hd).exists_buckets ha
  obtain ⟨hsome', hstrategy'⟩ := (Draft.builds_of_build he).exists_buckets hb
  have hbuckets : TrialKey.sort e.trials.nonDefaultKeys = buckets :=
    TrialKey.sort_eq_of_mem_iff e.trials.nonDefaultKeys_nodup d.trials.nonDefaultKeys_nodup
      fun key => (hothers key).symm
  simp only [hbuckets, ← hcontract] at hstrategy'
  have hpos : 0 < buckets.length := List.length_pos_iff.mpr hsome
  rw [hstrategy, hstrategy', Strategy.resolve_stickyRouting, Strategy.resolve_stickyRouting,
    ← hidentity]
  refine ⟨rfl, rfl, hpos, fun hnone => by simp [hnone], fun identity hidentity => ?_⟩
  have hkey : Sticky.assign salt buckets hsome identity ∈ d.trials.nonDefaultKeys :=
    TrialKey.mem_sort.mp (Sticky.assign_mem salt buckets hsome identity)
  have hkey' := (hothers _).mp hkey
  refine ⟨Sticky.assign salt buckets hsome identity, by rw [hidentity], by rw [hidentity], hkey, hkey',
    ?_, ?_, Sticky.bucket_lt salt identity hpos, Sticky.getElem?_bucket salt hsome identity,
    Sticky.toNat_leadingWord_mod salt identity⟩
  · rintro heq
    exact d.trials.defaultKey_notMem_nonDefaultKeys (heq ▸ hkey)
  · rintro heq
    exact e.trials.defaultKey_notMem_nonDefaultKeys (heq ▸ hkey')

/-- A ranker with three variants. -/
def ranker : Draft Unit where
  contract := ⟨"search"⟩
  trials := [⟨⟨"control"⟩, true, ⟨"ranker::control"⟩⟩, ⟨⟨"blue"⟩, false, ⟨"ranker::blue"⟩⟩,
    ⟨⟨"green"⟩, false, ⟨"ranker::green"⟩⟩, ⟨⟨"red"⟩, false, ⟨"ranker::red"⟩⟩]
  selection := some (.stickyRouting "ranker")
  policy := .throw
  timeout := none
  decorators := []

/-- The same variants in another order and with other implementations, another default trial, and
other reactions to failures. -/
def rerankedRanker : Draft Bool where
  contract := ⟨"search"⟩
  trials := [⟨⟨"red"⟩, false, ⟨"second::red"⟩⟩, ⟨⟨"green"⟩, false, ⟨"second::green"⟩⟩,
    ⟨⟨"blue"⟩, false, ⟨"second::blue"⟩⟩, ⟨⟨"amber"⟩, true, ⟨"second::amber"⟩⟩]
  selection := some (.stickyRouting "ranker")
  policy := .replayOrdered [⟨"blue"⟩, ⟨"amber"⟩]
  timeout := some ⟨.ofMillis 50, .fallbackToDefault⟩
  decorators := [timing none, errorLogging]

/-- One identity is sent to the same variant by both, whatever it calls and wherever. -/
theorem resolve_eq_ranker :
    ∃ d e, ranker.build = .ok d ∧ rerankedRanker.build = .ok e ∧
      (∀ key, key ∈ d.trials.nonDefaultKeys ↔ key ∈ e.trials.nonDefaultKeys) ∧
      d.strategy.resolve ⟨⟨"search"⟩, "rank", ⟨"req-1"⟩, some "user-42"⟩ =
        .done (.ok ⟨"green"⟩) ∧
      e.strategy.resolve ⟨⟨"billing"⟩, "charge", ⟨"req-2"⟩, some "user-42"⟩ =
        .done (.ok ⟨"green"⟩) := by
  have hsound : ranker.Sound := {
    nodup := by decide
    default := rfl
    nonempty := nofun
    mode := ⟨_, rfl, Nat.zero_lt_succ 2⟩
    policy := nofun }
  have hsound' : rerankedRanker.Sound := {
    nodup := by decide
    default := rfl
    nonempty := nofun
    mode := ⟨_, rfl, Nat.zero_lt_succ 2⟩
    policy := by decide }
  obtain ⟨d, hd, hbuilds⟩ := hsound.exists_definition
  obtain ⟨e, he, hbuilds'⟩ := hsound'.exists_definition
  have hkeys : d.trials.nonDefaultKeys = [⟨"blue"⟩, ⟨"green"⟩, ⟨"red"⟩] :=
    Draft.others_eq hbuilds.trials
  have hkeys' : e.trials.nonDefaultKeys = [⟨"red"⟩, ⟨"green"⟩, ⟨"blue"⟩] :=
    Draft.others_eq hbuilds'.trials
  have hothers : ∀ key, key ∈ d.trials.nonDefaultKeys ↔ key ∈ e.trials.nonDefaultKeys := by
    intro key
    rw [hkeys, hkeys']
    simp only [List.mem_cons, List.not_mem_nil, or_false]
    tauto
  obtain ⟨-, -, -, -, hassigned⟩ := resolve_eq_of_same_others hd he rfl rfl rfl hothers
    ⟨⟨"search"⟩, "rank", ⟨"req-1"⟩, some "user-42"⟩
    ⟨⟨"billing"⟩, "charge", ⟨"req-2"⟩, some "user-42"⟩ rfl
  obtain ⟨key, hkey, hkey', -, -, -, -, -, hindex, -⟩ := hassigned "user-42" rfl
  have hsorted : TrialKey.sort [⟨"blue"⟩, ⟨"green"⟩, ⟨"red"⟩] = [⟨"blue"⟩, ⟨"green"⟩, ⟨"red"⟩] :=
    List.mergeSort_of_pairwise (by decide +kernel)
  have hbucket : Sticky.bucket (Sticky.salt ranker.contract "ranker") "user-42" 3 = 1 := by
    decide +kernel
  rw [hkeys, hsorted] at hindex
  simp only [List.length_cons, List.length_nil, hbucket] at hindex
  obtain rfl := Option.some.inj hindex
  exact ⟨d, e, hd, he, hothers, hkey, hkey'⟩

end TrialRouting
