import TrialRouting.Registry
import Mathlib.Data.List.Nodup

/-!
# TrialRouting.Proofs.Drafts

What is checked of a draft, and what has been checked of a definition.  A draft
is `Sound` if nothing is wrong with it.  Its `Fault` is the first thing that is
wrong, in the order of the checks: each constructor says that the checks before
it have passed, and names what it is that fails.  A definition is what its
draft says (`Builds`), with the views of its trials that the rest of the
library takes: the default, the keys, the other keys, and the candidates of its
strategy.

* `repeatedKey?_eq_some_iff` — the first repeated key;
* `SelectionMode.bind_eq_error_iff`, `SelectionMode.exists_bind_iff` — which
  modes fit;
* `Fault.build`, `build_cases` — a draft is refused for its fault, or built;
* `build_exact` — the main theorem.
-/

namespace TrialRouting

variable {σ : Type}

/-! ## Repeated keys -/

theorem repeatedKey?_eq_none_of_nodup {seen ks : List TrialKey} (hnodup : ks.Nodup)
    (hseen : ∀ k ∈ ks, k ∉ seen) : repeatedKey? seen ks = none := by
  induction ks generalizing seen with
  | nil => rfl
  | cons k ks ih =>
      obtain ⟨hk, hks⟩ := List.nodup_cons.mp hnodup
      rw [repeatedKey?, if_neg (hseen k List.mem_cons_self)]
      refine ih hks fun x hx => ?_
      have hne : x ≠ k := fun heq => hk (heq ▸ hx)
      simp [hne, hseen x (List.mem_cons_of_mem k hx)]

/-- The repeated key that is found is the first one: nothing before it is repeated. -/
theorem repeatedKey?_eq_some_iff {seen ks : List TrialKey} {key : TrialKey} :
    repeatedKey? seen ks = some key ↔ ∃ before after, ks = before ++ key :: after ∧
      before.Nodup ∧ (∀ k ∈ before, k ∉ seen) ∧ (key ∈ before ∨ key ∈ seen) := by
  induction ks generalizing seen with
  | nil => simp [repeatedKey?]
  | cons k ks ih =>
      rw [repeatedKey?]
      split
      · next hk =>
          constructor
          · rintro ⟨⟩
            exact ⟨[], ks, rfl, .nil, by simp, .inr hk⟩
          · rintro ⟨before, after, heq, -, hnew, hkey⟩
            cases before with
            | nil => exact congrArg some (List.cons.inj heq).1
            | cons x before =>
                obtain rfl : k = x := (List.cons.inj heq).1
                exact absurd hk (hnew k List.mem_cons_self)
      · next hk =>
          rw [ih]
          constructor
          · rintro ⟨before, after, rfl, hnodup, hnew, hkey⟩
            refine ⟨k :: before, after, rfl, ?_, ?_, ?_⟩
            · exact List.nodup_cons.mpr ⟨fun hmem => hnew k hmem List.mem_cons_self, hnodup⟩
            · exact List.forall_mem_cons.mpr
                ⟨hk, fun x hx hseen => hnew x hx (List.mem_cons_of_mem k hseen)⟩
            · simp only [List.mem_cons] at hkey ⊢
              tauto
          · rintro ⟨before, after, heq, hnodup, hnew, hkey⟩
            cases before with
            | nil =>
                obtain rfl : k = key := (List.cons.inj heq).1
                simp [hk] at hkey
            | cons x before =>
                obtain ⟨rfl, rfl⟩ := List.cons.inj heq
                obtain ⟨hx, hnodup⟩ := List.nodup_cons.mp hnodup
                refine ⟨before, after, rfl, hnodup, fun y hy hseen => ?_, ?_⟩
                · obtain rfl | hseen := List.mem_cons.mp hseen
                  · exact hx hy
                  · exact hnew y (List.mem_cons_of_mem k hy) hseen
                · simp only [List.mem_cons] at hkey ⊢
                  tauto

/-! ## Modes that fit -/

theorem TrialKey.sort_eq_nil_iff {keys : List TrialKey} : TrialKey.sort keys = [] ↔ keys = [] := by
  rw [← List.length_eq_zero_iff, ← List.length_eq_zero_iff, TrialKey.sort, List.length_mergeSort]

namespace SelectionMode

/-- A mode fits so many trials besides the default one. -/
def Fits (others : Nat) : SelectionMode σ → Prop
  | .booleanFlag .. => others = 1
  | .stickyRouting _ => 0 < others
  | _ => True

/-- Why a mode does not fit; nothing is said of the modes that always do. -/
def complaint (others : Nat) : SelectionMode σ → String
  | .booleanFlag name _ =>
    if others = 0 then s!"boolean flag '{name}' needs one non-default trial, found none"
    else s!"boolean flag '{name}' is ambiguous with {others} non-default trials"
  | .stickyRouting name => s!"sticky routing '{name}' needs at least one non-default trial"
  | _ => ""

variable {m : SelectionMode σ} {contract : ContractId} {s : TrialSet}

/-- A mode is bound just if it fits. -/
theorem exists_bind_iff :
    (∃ strategy, m.bind contract s = .ok strategy) ↔ m.Fits s.nonDefaultKeys.length := by
  cases m with
  | booleanFlag name source =>
      match h : s.nonDefaultKeys with
      | [] => simp [bind, Fits, h]
      | [on] => simp [bind, Fits, h]
      | _ :: _ :: _ => simp [bind, Fits, h]
  | stickyRouting name =>
      by_cases h : s.nonDefaultKeys = []
      · simp [bind, Fits, TrialKey.sort_eq_nil_iff, h]
      · simp [bind, Fits, TrialKey.sort_eq_nil_iff, h, List.length_pos_iff]
  | _ => simp [bind, Fits]

/-- A mode that does not fit is refused with its complaint. -/
theorem bind_eq_error_iff {reason : String} :
    m.bind contract s = .error reason ↔
      ¬ m.Fits s.nonDefaultKeys.length ∧ reason = m.complaint s.nonDefaultKeys.length := by
  cases m with
  | booleanFlag name source =>
      match h : s.nonDefaultKeys with
      | [] =>
          simp only [bind, Fits, h, Except.error.injEq]
          exact ⟨fun heq => ⟨Nat.zero_ne_one, heq.symm⟩, fun heq => heq.2.symm⟩
      | [on] => simp [bind, Fits, h]
      | _ :: _ :: _ =>
          simp only [bind, Fits, h, Except.error.injEq, List.length_cons]
          exact ⟨fun heq => ⟨by omega, heq.symm⟩, fun heq => heq.2.symm⟩
  | stickyRouting name =>
      by_cases h : s.nonDefaultKeys = []
      · have hfits : ¬ (stickyRouting name : SelectionMode σ).Fits s.nonDefaultKeys.length := by
          simp [Fits, h]
        simp only [bind, TrialKey.sort_eq_nil_iff, h, dite_true, Except.error.injEq]
        exact ⟨fun heq => ⟨h ▸ hfits, heq.symm⟩, fun heq => heq.2.symm⟩
      · simp [bind, Fits, TrialKey.sort_eq_nil_iff, h, List.length_pos_iff]
  | _ => simp [bind, Fits]

end SelectionMode

/-! ## The views of the trials -/

namespace TrialSet

variable (s : TrialSet)

theorem nonDefaultKeys_nodup : s.nonDefaultKeys.Nodup :=
  s.nodup.sublist (List.filter_sublist.map Trial.key)

/-- The keys are the default key and the others, and no key is both. -/
theorem defaultKey_cons_nonDefaultKeys_perm :
    (s.defaultKey :: s.nonDefaultKeys).Perm s.keys := by
  have hperm := (List.filter_append_perm Trial.isDefault s.trials).map Trial.key
  rwa [s.filter_isDefault] at hperm

/-- The default trial is where its index says. -/
theorem getElem?_defaultIndex : s.trials[s.defaultIndex]? = some s.default := by
  have hlt : s.defaultIndex < s.trials.length :=
    List.findIdx_lt_length_of_exists ⟨s.default, s.default_mem, s.isDefault_default⟩
  rw [List.getElem?_eq_getElem hlt]
  exact congrArg some (eq_default_of_isDefault (List.getElem_mem hlt) List.findIdx_getElem)

/-- Trials make up no more than one set. -/
theorem eq_of_trials_eq {s s' : TrialSet} (h : s.trials = s'.trials) : s = s' := by
  obtain ⟨trials, default, nodup, hdefault⟩ := s
  obtain ⟨trials', default', nodup', hdefault'⟩ := s'
  obtain rfl : trials = trials' := h
  obtain rfl : default = default' := (List.cons.inj (hdefault.symm.trans hdefault')).1
  rfl

end TrialSet

/-- The candidates of a bound mode are listed once. -/
theorem SelectionMode.candidates_nodup {m : SelectionMode σ} {contract : ContractId}
    {s : TrialSet} {strategy : Strategy σ} (h : m.bind contract s = .ok strategy) :
    strategy.candidates.Nodup := by
  cases m with
  | booleanFlag name source =>
      simp only [bind] at h
      split at h
      · cases h
      · next on hon =>
          cases h
          have hne : s.defaultKey ≠ on := by
            rintro rfl
            exact s.defaultKey_notMem_nonDefaultKeys (by simp [hon])
          simpa [Strategy.candidates] using hne
      · cases h
  | stickyRouting name =>
      simp only [bind] at h
      split at h
      · cases h
      · cases h
        exact (List.mergeSort_perm _ _).nodup_iff.mpr s.nonDefaultKeys_nodup
  | _ =>
      cases h
      exact s.keys_nodup

namespace Draft

variable {d : Draft σ} {s : TrialSet} {e : DefinitionError} {x : Definition σ}

/-! ## Sound drafts and faults -/

def keys (d : Draft σ) : List TrialKey :=
  d.trials.map Trial.key

/-- The keys of the trials that are marked as default. -/
def defaults (d : Draft σ) : List TrialKey :=
  (d.trials.filter Trial.isDefault).map Trial.key

/-- The keys of the trials that are not marked as default. -/
def others (d : Draft σ) : List TrialKey :=
  (d.trials.filter (!·.isDefault)).map Trial.key

/-- No two trials of the draft have the same key, and exactly one is marked as default. -/
structure SoundTrials (d : Draft σ) : Prop where
  nodup : d.keys.Nodup
  default : d.defaults.length = 1

/-- Nothing is wrong with the draft. -/
structure Sound (d : Draft σ) : Prop extends SoundTrials d where
  nonempty : d.trials ≠ []
  mode : ∃ m, d.selection = some m ∧ m.Fits d.others.length
  policy : ∀ key ∈ d.policy.referencedKeys, key ∈ d.keys

/-- The first thing that is wrong with a draft. -/
inductive Fault (d : Draft σ) : DefinitionError → Prop where
  | noTrials : d.trials = [] → Fault d (.noTrials d.contract)
  | duplicateTrialKey {key : TrialKey} {before after : List TrialKey} :
    d.keys = before ++ key :: after → before.Nodup → key ∈ before →
    Fault d (.duplicateTrialKey d.contract key)
  | noDefaultTrial : d.trials ≠ [] → d.keys.Nodup → d.defaults = [] →
    Fault d (.noDefaultTrial d.contract)
  | multipleDefaultTrials : d.keys.Nodup → 1 < d.defaults.length →
    Fault d (.multipleDefaultTrials d.contract d.defaults)
  | missingSelectionMode : d.SoundTrials → d.selection = none →
    Fault d (.missingSelectionMode d.contract)
  | invalidSelectionMode {m : SelectionMode σ} : d.SoundTrials → d.selection = some m →
    ¬ m.Fits d.others.length →
    Fault d (.invalidSelectionMode d.contract (m.complaint d.others.length))
  | unknownPolicyTrial {m : SelectionMode σ} {key : TrialKey} {before after : List TrialKey} :
    d.SoundTrials → d.selection = some m → m.Fits d.others.length →
    d.policy.referencedKeys = before ++ key :: after → (∀ k ∈ before, k ∈ d.keys) →
    key ∉ d.keys →
    Fault d (.unknownPolicyTrial d.contract key)

/-- The definition is what the draft says. -/
structure Builds (d : Draft σ) (x : Definition σ) : Prop where
  contract : x.contract = d.contract
  policy : x.policy = d.policy
  timeout : x.timeout = d.timeout
  decorators : x.decorators = d.decorators
  trials : x.trials.trials = d.trials
  strategy : ∃ m, d.selection = some m ∧ m.bind d.contract x.trials = .ok x.strategy

theorem Fault.not_sound (h : d.Fault e) : ¬ d.Sound := by
  intro hsound
  cases h with
  | noTrials hnone => exact hsound.nonempty hnone
  | duplicateTrialKey hkeys _ hkey =>
      have hnodup := hsound.nodup
      rw [hkeys, List.nodup_append] at hnodup
      exact hnodup.2.2 _ hkey _ List.mem_cons_self rfl
  | noDefaultTrial _ _ hnone => simpa [hnone] using hsound.default
  | multipleDefaultTrials _ hmany => exact absurd hsound.default (Nat.ne_of_gt hmany)
  | missingSelectionMode _ hnone =>
      obtain ⟨m, hm, -⟩ := hsound.mode
      rw [hnone] at hm
      cases hm
  | invalidSelectionMode _ hm hfits =>
      obtain ⟨m', hm', hfits'⟩ := hsound.mode
      obtain rfl := Option.some.inj (hm.symm.trans hm')
      exact hfits hfits'
  | unknownPolicyTrial _ _ _ hkeys _ hkey => exact hkey (hsound.policy _ (by simp [hkeys]))

/-! ## The trials -/

theorem others_eq (h : s.trials = d.trials) : s.nonDefaultKeys = d.others := by
  unfold TrialSet.nonDefaultKeys others
  rw [h]

theorem keys_eq (h : s.trials = d.trials) : s.keys = d.keys := by
  unfold TrialSet.keys keys
  rw [h]

theorem defaults_eq (h : s.trials = d.trials) : d.defaults = [s.defaultKey] := by
  unfold defaults
  rw [← h, s.filter_isDefault]
  rfl

theorem SoundTrials.exists_trialSet (h : d.SoundTrials) : ∃ s : TrialSet, s.trials = d.trials := by
  have hlength : (d.trials.filter Trial.isDefault).length = 1 := by
    simpa [defaults] using h.default
  obtain ⟨default, hdefault⟩ := List.length_eq_one_iff.mp hlength
  exact ⟨⟨d.trials, default, h.nodup, hdefault⟩, rfl⟩

theorem soundTrials_of_trials (h : s.trials = d.trials) : d.SoundTrials :=
  ⟨keys_eq h ▸ s.keys_nodup, by rw [defaults_eq h]; rfl⟩

/-- The trials of a set make up that set. -/
theorem trialSet_of_trials (h : s.trials = d.trials) : trialSet d.contract d.trials = .ok s := by
  have hnonempty : d.trials.isEmpty = false := by
    rw [← h]
    exact List.isEmpty_eq_false_iff_exists_mem.mpr ⟨s.default, s.default_mem⟩
  have hnodup : repeatedKey? [] (d.trials.map Trial.key) = none :=
    repeatedKey?_eq_none_of_nodup (h ▸ s.nodup) (by simp)
  have hdefault : d.trials.filter Trial.isDefault = [s.default] := h ▸ s.filter_isDefault
  unfold trialSet
  rw [if_neg (by simp [hnonempty])]
  split
  · next key hkey =>
      rw [hnodup] at hkey
      cases hkey
  · split
    · next hnone =>
        rw [hdefault] at hnone
        cases hnone
    · exact congrArg Except.ok (TrialSet.eq_of_trials_eq h.symm)
    · next _ hmany => exact (hmany s.default hdefault).elim

theorem trialSet_of_empty (h : d.trials = []) :
    trialSet d.contract d.trials = .error (.noTrials d.contract) := by
  simp [trialSet, h]

theorem trialSet_of_repeated {key : TrialKey} (h : repeatedKey? [] d.keys = some key) :
    trialSet d.contract d.trials = .error (.duplicateTrialKey d.contract key) := by
  have hnonempty : ¬ d.trials.isEmpty := by
    intro hempty
    simp [keys, List.isEmpty_iff.mp hempty, repeatedKey?] at h
  unfold trialSet
  rw [if_neg hnonempty]
  split
  · next key' hkey =>
      obtain rfl := Option.some.inj (h.symm.trans hkey)
      rfl
  · next hnone => cases h.symm.trans hnone

theorem trialSet_of_defaults (hnonempty : d.trials ≠ []) (hnodup : d.keys.Nodup)
    (h : d.defaults.length ≠ 1) :
    trialSet d.contract d.trials = .error (if d.defaults = [] then .noDefaultTrial d.contract
      else .multipleDefaultTrials d.contract d.defaults) := by
  have hnone : repeatedKey? [] (d.trials.map Trial.key) = none :=
    repeatedKey?_eq_none_of_nodup hnodup (by simp)
  unfold trialSet
  rw [if_neg (by simpa using hnonempty)]
  split
  · next key hkey => cases hnone.symm.trans hkey
  · unfold defaults at h ⊢
    split
    · next hdefault => simp [hdefault]
    · next default hdefault => simp [hdefault] at h
    · next hsome _ => rw [if_neg (by simpa using hsome)]

/-- The trials of a draft make up a set, or have a fault. -/
theorem trialSet_cases (d : Draft σ) :
    (∃ e, trialSet d.contract d.trials = .error e ∧ d.Fault e) ∨
      ∃ s : TrialSet, s.trials = d.trials := by
  by_cases hempty : d.trials = []
  · exact .inl ⟨_, trialSet_of_empty hempty, .noTrials hempty⟩
  cases hkey : repeatedKey? [] d.keys with
  | some key =>
      obtain ⟨before, after, hkeys, hnodup, -, hmem⟩ := repeatedKey?_eq_some_iff.mp hkey
      exact .inl ⟨_, trialSet_of_repeated hkey,
        .duplicateTrialKey hkeys hnodup (hmem.resolve_right List.not_mem_nil)⟩
  | none =>
      have hnodup := (nodup_of_repeatedKey?_eq_none hkey).1
      by_cases hone : d.defaults.length = 1
      · exact .inr (SoundTrials.exists_trialSet ⟨hnodup, hone⟩)
      · refine .inl ⟨_, trialSet_of_defaults hempty hnodup hone, ?_⟩
        split
        · next hnone => exact .noDefaultTrial hempty hnodup hnone
        · next hsome =>
            have hpos := List.length_pos_iff.mpr hsome
            exact .multipleDefaultTrials hnodup (by omega)

/-! ## Building -/

section

variable (hs : s.trials = d.trials)
include hs

theorem build_of_selection_none (h : d.selection = none) :
    d.build = .error (.missingSelectionMode d.contract) := by
  simp [build, trialSet_of_trials hs, h, bind, Except.bind]

variable {m : SelectionMode σ} (hm : d.selection = some m)
include hm

theorem build_of_bind_error {reason : String} (h : m.bind d.contract s = .error reason) :
    d.build = .error (.invalidSelectionMode d.contract reason) := by
  simp [build, trialSet_of_trials hs, hm, h, bind, Except.bind]

variable {strategy : Strategy σ} (hbind : m.bind d.contract s = .ok strategy)
include hbind

theorem build_of_unknown {key : TrialKey}
    (h : d.policy.referencedKeys.find? (fun k => !decide (k ∈ s.keys)) = some key) :
    d.build = .error (.unknownPolicyTrial d.contract key) := by
  unfold build
  rw [trialSet_of_trials hs]
  simp only [bind, Except.bind, hm, hbind]
  split
  · next key' hkey =>
      obtain rfl := Option.some.inj (h.symm.trans hkey)
      rfl
  · next hnone => cases h.symm.trans hnone

theorem exists_build (h : d.policy.referencedKeys.find? (fun k => !decide (k ∈ s.keys)) = none) :
    ∃ x, d.build = .ok x ∧ d.Builds x := by
  unfold build
  rw [trialSet_of_trials hs]
  simp only [bind, Except.bind, hm, hbind]
  split
  · next key hkey => cases h.symm.trans hkey
  · exact ⟨_, rfl, rfl, rfl, rfl, rfl, hs, m, hm, hbind⟩

end

/-- **A draft is built, or refused for its fault.** -/
theorem build_cases (d : Draft σ) :
    (∃ e, d.build = .error e ∧ d.Fault e) ∨ ∃ x, d.build = .ok x ∧ d.Builds x := by
  obtain ⟨e, he, hfault⟩ | ⟨s, hs⟩ := d.trialSet_cases
  · exact .inl ⟨e, by simp [build, he, bind, Except.bind], hfault⟩
  have hsound := soundTrials_of_trials hs
  have hothers := others_eq hs
  cases hm : d.selection with
  | none => exact .inl ⟨_, build_of_selection_none hs hm, .missingSelectionMode hsound hm⟩
  | some m =>
      cases hbind : m.bind d.contract s with
      | error reason =>
          obtain ⟨hfits, rfl⟩ := SelectionMode.bind_eq_error_iff.mp hbind
          rw [hothers] at hfits hbind
          exact .inl ⟨_, build_of_bind_error hs hm hbind, .invalidSelectionMode hsound hm hfits⟩
      | ok strategy =>
          have hfits := SelectionMode.exists_bind_iff.mp ⟨strategy, hbind⟩
          rw [hothers] at hfits
          cases hkey : d.policy.referencedKeys.find? (fun k => !decide (k ∈ s.keys)) with
          | none => exact .inr (exists_build hs hm hbind hkey)
          | some key =>
              refine .inl ⟨_, build_of_unknown hs hm hbind hkey, ?_⟩
              obtain ⟨hnew, before, after, hkeys, hold⟩ := List.find?_eq_some_iff_append.mp hkey
              rw [keys_eq hs] at hnew hold
              exact .unknownPolicyTrial hsound hm hfits hkeys (by simpa using hold)
                (by simpa using hnew)

/-- A draft that has a fault is refused for it. -/
theorem Fault.build (h : d.Fault e) : d.build = .error e := by
  cases h with
  | noTrials hempty => simp [Draft.build, trialSet_of_empty hempty, bind, Except.bind]
  | duplicateTrialKey hkeys hnodup hkey =>
      have hrepeated := repeatedKey?_eq_some_iff.mpr
        ⟨_, _, hkeys, hnodup, fun _ _ => List.not_mem_nil, .inl hkey⟩
      simp [Draft.build, trialSet_of_repeated hrepeated, bind, Except.bind]
  | noDefaultTrial hnonempty hnodup hnone =>
      have htrials := trialSet_of_defaults hnonempty hnodup (by simp [hnone])
      simp [Draft.build, htrials, hnone, bind, Except.bind]
  | multipleDefaultTrials hnodup hmany =>
      have hsome : d.defaults ≠ [] := by
        intro hnone
        simp [hnone] at hmany
      have hnonempty : d.trials ≠ [] := by
        intro hempty
        simp [defaults, hempty] at hsome
      have htrials := trialSet_of_defaults hnonempty hnodup (by omega)
      simp [Draft.build, htrials, hsome, bind, Except.bind]
  | missingSelectionMode hsound hm =>
      obtain ⟨s, hs⟩ := hsound.exists_trialSet
      exact build_of_selection_none hs hm
  | @invalidSelectionMode m hsound hm hfits =>
      obtain ⟨s, hs⟩ := hsound.exists_trialSet
      rw [← others_eq hs] at hfits ⊢
      exact build_of_bind_error hs hm (SelectionMode.bind_eq_error_iff.mpr ⟨hfits, rfl⟩)
  | @unknownPolicyTrial m key before after hsound hm hfits hkeys hold hnew =>
      obtain ⟨s, hs⟩ := hsound.exists_trialSet
      rw [← others_eq hs] at hfits
      rw [← keys_eq hs] at hold hnew
      obtain ⟨strategy, hbind⟩ := SelectionMode.exists_bind_iff.mpr hfits
      refine build_of_unknown hs hm hbind (List.find?_eq_some_iff_append.mpr ?_)
      exact ⟨by simpa using hnew, before, after, hkeys, by simpa using hold⟩

theorem Builds.sound (h : d.Builds x) : d.Sound := by
  have hsound := soundTrials_of_trials h.trials
  obtain ⟨m, hm, hbind⟩ := h.strategy
  refine ⟨hsound, ?_, ⟨m, hm, ?_⟩, ?_⟩
  · intro hempty
    have hmem := x.trials.default_mem
    simp [h.trials, hempty] at hmem
  · rw [← others_eq h.trials]
    exact SelectionMode.exists_bind_iff.mp ⟨_, hbind⟩
  · rw [← h.policy, ← keys_eq h.trials]
    exact x.policy_registered

theorem Sound.exists_definition (h : d.Sound) : ∃ x, d.build = .ok x ∧ d.Builds x := by
  obtain ⟨e, -, hfault⟩ | hbuilt := d.build_cases
  · exact absurd h hfault.not_sound
  · exact hbuilt

/-- **What the views of a definition show**, which has been built of the draft. -/
structure Views (d : Draft σ) (x : Definition σ) : Prop where
  default : d.defaults = [x.trials.defaultKey]
  defaultIndex : d.trials[x.trials.defaultIndex]? = some x.trials.default
  keys : x.trials.keys = d.keys
  keys_nodup : x.trials.keys.Nodup
  split : (x.trials.defaultKey :: x.trials.nonDefaultKeys).Perm x.trials.keys
  get? : ∀ key t, x.trials.get? key = some t ↔ t ∈ d.trials ∧ t.key = key
  contains : ∀ key, x.trials.contains key = true ↔ key ∈ d.keys
  candidates_nodup : x.strategy.candidates.Nodup
  candidates_subset : x.strategy.candidates ⊆ d.keys

theorem Builds.views (h : d.Builds x) : d.Views x := by
  obtain ⟨m, -, hbind⟩ := h.strategy
  have hkeys := keys_eq h.trials
  exact {
    default := defaults_eq h.trials
    defaultIndex := h.trials ▸ x.trials.getElem?_defaultIndex
    keys := hkeys
    keys_nodup := x.trials.keys_nodup
    split := x.trials.defaultKey_cons_nonDefaultKeys_perm
    get? := fun key t => h.trials ▸ TrialSet.get?_eq_some_iff
    contains := fun key => hkeys ▸ TrialSet.contains_iff
    candidates_nodup := SelectionMode.candidates_nodup hbind
    candidates_subset := hkeys ▸ SelectionMode.candidates_subset_keys hbind }

/-- **Drafts are checked exactly.**  A draft is built just if nothing is wrong with it; it is refused
with an error just if that is its fault, the first thing that is wrong; and the definition that is
built of it is what it says, and all views of its trials agree. -/
theorem build_exact (d : Draft σ) :
    ((∃ x, d.build = .ok x) ↔ d.Sound) ∧ (∀ e, d.build = .error e ↔ d.Fault e) ∧
      ∀ x, d.build = .ok x → d.Builds x ∧ d.Views x := by
  have hbuilds (x : Definition σ) (hx : d.build = .ok x) : d.Builds x := by
    obtain ⟨e, he, -⟩ | ⟨x', hx', hbuilds⟩ := d.build_cases
    · cases hx.symm.trans he
    · obtain rfl := Except.ok.inj (hx.symm.trans hx')
      exact hbuilds
  refine ⟨⟨?_, fun hsound => ?_⟩, fun e => ⟨fun he => ?_, Fault.build⟩,
    fun x hx => ⟨hbuilds x hx, (hbuilds x hx).views⟩⟩
  · rintro ⟨x, hx⟩
    exact (hbuilds x hx).sound
  · obtain ⟨x, hx, -⟩ := hsound.exists_definition
    exact ⟨x, hx⟩
  · obtain ⟨e', he', hfault⟩ | ⟨x, hx, -⟩ := d.build_cases
    · obtain rfl := Except.error.inj (he.symm.trans he')
      exact hfault
    · cases he.symm.trans hx

end Draft

/-- The first experiment of a registry is found there. -/
theorem Registry.exists_register_empty (x : Definition σ) :
    ∃ r : Registry σ, Registry.empty.register x = .ok r ∧ r.get? x.contract = some x :=
  ⟨⟨[x], List.nodup_singleton _⟩, rfl, by simp [get?]⟩

end TrialRouting
