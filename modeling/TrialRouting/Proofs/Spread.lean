import TrialRouting.Proofs.Instant
import TrialRouting.Proofs.Sticky
import TrialRouting.Proofs.Sticky.HashInput
import TrialRouting.Proofs.Tally
import TrialRouting.Spread
import Mathlib.Data.List.Sort

/-!
# TrialRouting.Proofs.Spread

A spread of identities over variants gives each identity the variant of its
bucket, in both passes (`run_exact`).

The names of the variants are distinct, so the experiment can be built whatever
their number (`sound_draft`).  Its buckets are the trials in the order of their
texts.  The names are ASCII, and ASCII texts are in the order of their bytes
(`utf8_lt_iff`); so the buckets are the variants in that order, where
variant-10 comes before variant-2 (`map_sortedVariants`).

An invocation within a new scope goes one way only: nothing is kept for the
scope, the selection takes no time, and the first attempt answers
(`Stage.run_invoke`).  When the scope ends, its decision is the only one that is
dropped, and no other is left (`endScope_keep`).  So every routing starts as the
first one did (`Stage.route_eq`), and the passes follow by induction
(`Stage.assign_eq`, `Stage.confirm_eq`).
-/

namespace TrialRouting

theorem ImplementationTable.get?_insert (t : ImplementationTable) (contract : ContractId)
    (key : TrialKey) (i : Implementation) (key' : TrialKey) :
    (t.insert contract key i).get? contract key' =
      if key' = key then some i else t.get? contract key' := by
  unfold get? insert
  rw [List.find?_append, Register.find?_filter_ne]
  by_cases hk : key' = key
  · simp [hk]
  · have hne : key ≠ key' := fun h => hk h.symm
    simp [hk, hne]

/-! ## Texts in the order of their bytes -/

/-- The text is made of ASCII characters. -/
def Ascii (s : String) : Prop :=
  ∀ c ∈ s.toList, c.toNat < 128

theorem utf8_of_ascii {s : String} (hs : Ascii s) :
    Sticky.utf8 s = s.toList.map Char.toUInt8 := by
  have hencode (l : List Char) (hl : ∀ c ∈ l, c.toNat < 128) :
      l.flatMap String.utf8EncodeChar = l.map Char.toUInt8 := by
    induction l with
    | nil => rfl
    | cons c l ih =>
        obtain ⟨hc, hl⟩ := List.forall_mem_cons.mp hl
        have hsize : c.utf8Size = 1 :=
          Char.utf8Size_eq_one_iff.mpr (UInt32.le_iff_toNat_le.mpr (Nat.le_of_lt_succ hc))
        rw [List.flatMap_cons, String.utf8EncodeChar_eq_singleton hsize, ih hl]
        rfl
  have hbytes : s.toByteArray.data.toList = s.toList.flatMap String.utf8EncodeChar := by
    rw [← String.utf8Encode_toList, List.utf8Encode, List.toList_data_toByteArray]
  rw [Sticky.utf8_eq, hbytes, hencode _ hs]

theorem utf8_lt_iff {a b : String} (ha : Ascii a) (hb : Ascii b) :
    Sticky.utf8 a < Sticky.utf8 b ↔ a < b := by
  have hbyte {c : Char} (hc : c.toNat < 128) : c.toUInt8.toNat = c.toNat :=
    Nat.mod_eq_of_lt (Nat.lt_trans hc (by decide))
  have hlist (l m : List Char) (hl : ∀ c ∈ l, c.toNat < 128) (hm : ∀ c ∈ m, c.toNat < 128) :
      l.map Char.toUInt8 < m.map Char.toUInt8 ↔ l < m := by
    induction l generalizing m with
    | nil => cases m <;> simp
    | cons c l ih =>
        cases m with
        | nil => simp
        | cons d m =>
            obtain ⟨hc, hl⟩ := List.forall_mem_cons.mp hl
            obtain ⟨hd, hm⟩ := List.forall_mem_cons.mp hm
            have hlt : c.toUInt8 < d.toUInt8 ↔ c < d := by
              rw [UInt8.lt_iff_toNat_lt, hbyte hc, hbyte hd]
              exact UInt32.lt_iff_toNat_lt.symm
            have heq : c.toUInt8 = d.toUInt8 ↔ c = d := by
              rw [← UInt8.toNat_inj, hbyte hc, hbyte hd]
              exact Char.toNat_inj
            rw [List.map_cons, List.map_cons, List.cons_lt_cons_iff, List.cons_lt_cons_iff, hlt, heq,
              ih m hl hm]
  rw [utf8_of_ascii ha, utf8_of_ascii hb, hlist _ _ ha hb, String.lt_iff_toList_lt]

namespace Spread

/-! ## The variants -/

theorem toList_variantName (n : Nat) :
    s!"variant-{n}".toList = "variant-".toList ++ Nat.toDigits 10 n := by
  rw [String.toList_append, Nat.toString_eq_ofList_toDigits, String.toList_ofList]
  rfl

theorem mem_variantNames {variants : Nat} {name : String} :
    name ∈ variantNames variants ↔ ∃ i, 1 ≤ i ∧ i ≤ variants ∧ name = s!"variant-{i}" := by
  constructor
  · intro h
    obtain ⟨i, hi, rfl⟩ := List.mem_map.mp h
    exact ⟨i + 1, Nat.succ_pos i, List.mem_range.mp hi, rfl⟩
  · rintro ⟨i, hpositive, hle, rfl⟩
    refine List.mem_map.mpr ⟨i - 1, List.mem_range.mpr (by omega), ?_⟩
    rw [Nat.sub_add_cancel hpositive]

theorem ascii_of_mem_variantNames {variants : Nat} {name : String}
    (h : name ∈ variantNames variants) : Ascii name := by
  obtain ⟨i, -, rfl⟩ := List.mem_map.mp h
  have hprefix : ∀ c ∈ "variant-".toList, c.toNat < 128 := by
    simp
  intro c hc
  rw [toList_variantName] at hc
  obtain hc | hc := List.mem_append.mp hc
  · exact hprefix c hc
  · have hdigit := Nat.isDigit_of_mem_toDigits (by decide) (Nat.le_refl 10) hc
    rw [Char.isDigit, Bool.and_eq_true, decide_eq_true_iff, decide_eq_true_iff] at hdigit
    exact Nat.lt_of_le_of_lt hdigit.2 (by decide)

theorem nodup_variantNames (variants : Nat) : (variantNames variants).Nodup := by
  refine List.Nodup.map (fun i j h => ?_) List.nodup_range
  have hdigits := congrArg String.toList h
  rw [toList_variantName, toList_variantName, List.append_cancel_left_eq] at hdigits
  have hnumber := congrArg (Nat.ofDigitChars 10 · 0) hdigits
  simpa [Nat.ofDigitChars_ten_toDigits] using hnumber

theorem baseline_notMem_variantNames (variants : Nat) : "baseline" ∉ variantNames variants := by
  intro h
  obtain ⟨i, -, heq⟩ := List.mem_map.mp h
  have hfirst := congrArg (fun s : String => s.toList.head?) heq
  rw [toList_variantName] at hfirst
  cases hfirst

/-- The variants, sorted by their bytes. -/
def sortedVariants (variants : Nat) : List String :=
  (variantNames variants).mergeSort fun a b => decide (Sticky.utf8 a ≤ Sticky.utf8 b)

theorem sortedVariants_perm (variants : Nat) :
    (sortedVariants variants).Perm (variantNames variants) :=
  List.mergeSort_perm _ _

theorem length_sortedVariants (variants : Nat) : (sortedVariants variants).length = variants := by
  simp [(sortedVariants_perm variants).length_eq, variantNames]

/-- The trials are sorted as their bytes are. -/
theorem map_sortedVariants (variants : Nat) :
    (sortedVariants variants).map TrialKey.mk =
      TrialKey.sort ((variantNames variants).map TrialKey.mk) := by
  refine List.map_mergeSort fun a ha b hb => ?_
  have hlt := utf8_lt_iff (ascii_of_mem_variantNames hb) (ascii_of_mem_variantNames ha)
  exact decide_eq_decide.mpr (not_congr hlt)

theorem pairwise_sortedVariants (variants : Nat) :
    (sortedVariants variants).Pairwise (· < ·) := by
  have hsorted := TrialKey.pairwise_sort ((variantNames variants).map TrialKey.mk)
  rw [← map_sortedVariants, List.pairwise_map] at hsorted
  have hnodup := (sortedVariants_perm variants).nodup_iff.mpr (nodup_variantNames variants)
  refine (hsorted.and hnodup).imp fun hab => ?_
  exact lt_of_le_of_ne (of_decide_eq_true hab.1) hab.2

/-! ## The experiment -/

theorem keys_draft (variants : Nat) :
    (draft variants).keys = ("baseline" :: variantNames variants).map TrialKey.mk := by
  simp [Draft.keys, draft, Function.comp_def]

theorem others_draft (variants : Nat) :
    (draft variants).others = (variantNames variants).map TrialKey.mk := by
  simp [Draft.others, draft, List.filter_map, Function.comp_def]

theorem sound_draft {variants : Nat} (hv : 1 ≤ variants) : (draft variants).Sound where
  nodup := by
    rw [keys_draft]
    refine List.Nodup.map (fun a b h => congrArg TrialKey.text h) ?_
    exact List.nodup_cons.mpr
      ⟨baseline_notMem_variantNames variants, nodup_variantNames variants⟩
  default := by
    simp [Draft.defaults, draft]
  nonempty := nofun
  mode := by
    refine ⟨.stickyRouting "sticky.route", rfl, ?_⟩
    rw [SelectionMode.Fits, others_draft, List.length_map, variantNames, List.length_map,
      List.length_range]
    exact hv
  policy := nofun

/-- The dispatcher of a spread, and its experiment. -/
structure Stage (variants : Nat) (disp : Dispatcher Unit) (d : Definition Unit) : Prop where
  get? : disp.registry.get? contract = some d
  builds : (draft variants).Builds d
  resolver : disp.resolver = fun contract trial _ => (implementations variants).resolve contract trial
  board : disp.board = .allOn

theorem exists_dispatcher {variants : Nat} (hv : 1 ≤ variants) :
    ∃ disp d, dispatcher variants = .ok disp ∧ Stage variants disp d := by
  obtain ⟨d, hd, hbuilds⟩ := (sound_draft hv).exists_definition
  obtain ⟨registry, hregistry, hget⟩ := Registry.exists_register_empty d
  have hcontract : d.contract = contract := hbuilds.contract
  refine ⟨⟨registry, fun contract trial _ => (implementations variants).resolve contract trial,
    .allOn, {}⟩, d, ?_, ⟨hcontract ▸ hget, hbuilds, rfl, rfl⟩⟩
  simp only [dispatcher, hd, Except.mapError, bind, Except.bind, hregistry]
  rfl

/-- Names that are implemented one after the other are implemented by themselves. -/
theorem get?_foldl_insert (names : List String) (t : ImplementationTable) (name : String) :
    (names.foldl (fun t name => t.insert contract ⟨name⟩ (.text name)) t).get? contract ⟨name⟩ =
      if name ∈ names then some (.text name) else t.get? contract ⟨name⟩ := by
  induction names generalizing t with
  | nil => simp
  | cons first names ih =>
      rw [List.foldl_cons, ih, ImplementationTable.get?_insert]
      by_cases hname : name = first
      · subst hname
        simp
      · simp [hname]

namespace Stage

variable {variants : Nat} {disp : Dispatcher Unit} {d : Definition Unit}

theorem contract_eq (h : Stage variants disp d) : d.contract = contract := h.builds.contract

theorem decorators_eq (h : Stage variants disp d) : d.decorators = [] := h.builds.decorators

theorem keys_eq (h : Stage variants disp d) :
    d.trials.keys = ("baseline" :: variantNames variants).map TrialKey.mk :=
  h.builds.views.keys.trans (keys_draft variants)

/-- The experiment routes by the hash of its callers' identities. -/
theorem strategy_eq (h : Stage variants disp d) :
    ∃ hsome, d.strategy = .stickyRouting "sticky.route" "sticky/sticky.route"
      ((sortedVariants variants).map TrialKey.mk) hsome := by
  obtain ⟨hsome, hstrategy⟩ := h.builds.exists_buckets rfl
  have hbuckets : TrialKey.sort d.trials.nonDefaultKeys =
      (sortedVariants variants).map TrialKey.mk := by
    rw [map_sortedVariants, Draft.others_eq h.builds.trials, others_draft]
  simp only [hbuckets] at hstrategy
  exact ⟨hbuckets ▸ hsome, hstrategy⟩

/-- Every trial is implemented by its name. -/
theorem resolve_eq (h : Stage variants disp d) {trial : Trial} (hkey : trial.key ∈ d.trials.keys)
    (u : Unit) : disp.resolver d.contract trial u = .ok (.text trial.key.text) := by
  rw [h.keys_eq] at hkey
  obtain ⟨name, hname, hkey⟩ := List.mem_map.mp hkey
  obtain ⟨key, isDefault, implementation⟩ := trial
  obtain rfl : ⟨name⟩ = key := hkey
  simp only [h.resolver, h.contract_eq, ImplementationTable.resolve, implementations,
    get?_foldl_insert, hname, if_true]

end Stage

/-! ## One routing -/

/-- When a scope ends, the only decision of it is dropped. -/
theorem endScope_keep (capacity : Nat) (key : DecisionKey) (decision : Decision) :
    (((DecisionCache.empty capacity).insert key decision).track key).endScope key.scope =
      .empty capacity := by
  simp [DecisionCache.empty, DecisionCache.insert, DecisionCache.track, DecisionCache.contracts,
    DecisionCache.setContracts, DecisionCache.endScope, DecisionCache.detach,
    DecisionCache.invalidateAll, DecisionCache.invalidate]

/-- The variant of an identity. -/
def variantOf (variants i : Nat) : String :=
  (sortedVariants variants).getD
    (Sticky.bucket "sticky/sticky.route" s!"identity-{i}" variants) ""

theorem getElem?_variantOf {variants : Nat} (hv : 1 ≤ variants) (i : Nat) :
    (sortedVariants variants)[Sticky.bucket "sticky/sticky.route" s!"identity-{i}" variants]? =
      some (variantOf variants i) := by
  have hlt : Sticky.bucket "sticky/sticky.route" s!"identity-{i}" variants <
      (sortedVariants variants).length := by
    rw [length_sortedVariants]
    exact Sticky.bucket_lt _ _ hv
  rw [variantOf, List.getD_eq_getElem?_getD, List.getElem?_eq_getElem hlt]
  rfl

theorem variantOf_mem {variants : Nat} (hv : 1 ≤ variants) (i : Nat) :
    variantOf variants i ∈ variantNames variants :=
  (sortedVariants_perm variants).mem_iff.mp (List.mem_of_getElem? (getElem?_variantOf hv i))

/-- Between two routings: no decision is kept, and so many scopes were named. -/
def idle (capacity scopes : Nat) : Progress :=
  ⟨⟨0, .empty capacity, ()⟩, scopes⟩

namespace Stage

variable {variants : Nat} {disp : Dispatcher Unit} {d : Definition Unit}

theorem mem_keys (h : Stage variants disp d) (hv : 1 ≤ variants) (i : Nat) :
    ⟨variantOf variants i⟩ ∈ d.trials.keys := by
  rw [h.keys_eq]
  exact List.mem_map_of_mem (List.mem_cons_of_mem _ (variantOf_mem hv i))

/-- A caller is routed to its variant at once. -/
theorem select_eq (h : Stage variants disp d) (hv : 1 ≤ variants) {ctx : Context} {i : Nat}
    (hidentity : ctx.identity = some s!"identity-{i}") :
    d.select ctx = .remark (.event (.trialSelected d.contract ctx.scope ⟨variantOf variants i⟩))
      (.done (.selected ⟨variantOf variants i⟩ d.strategy.candidates)) := by
  obtain ⟨hsome, hstrategy⟩ := h.strategy_eq
  have hassign : Sticky.assign "sticky/sticky.route" ((sortedVariants variants).map TrialKey.mk)
      hsome s!"identity-{i}" = ⟨variantOf variants i⟩ := by
    have hget := Sticky.getElem?_bucket "sticky/sticky.route" hsome s!"identity-{i}"
    rw [List.length_map, length_sortedVariants, List.getElem?_map, getElem?_variantOf hv] at hget
    exact (Option.some.inj hget).symm
  have hcontains := TrialSet.contains_iff.mpr (h.mem_keys hv i)
  have hresolve : d.strategy.resolve ctx = .done (.ok ⟨variantOf variants i⟩) := by
    rw [hstrategy, Strategy.resolve, hidentity]
    simp only [hassign]
  simp only [Definition.select, hresolve, hcontains, if_true, Work.bind_eq, Work.done_bind]
  rfl

/-- A trial that is called answers with its name. -/
theorem run_attempt (h : Stage variants disp d) (ctx : Context) {key : TrialKey}
    (hkey : key ∈ d.trials.keys) (number : Nat) (session : Session Unit) :
    ∃ notes, (disp.attempt .text serve d ctx [] key number).run .live session =
      ⟨.success key.text, .live, session, notes⟩ := by
  obtain ⟨trial, htrial⟩ := Option.isSome_iff_exists.mp (TrialSet.get?_isSome_iff.mpr hkey)
  obtain ⟨_, rfl⟩ := TrialSet.get?_eq_some_iff.mp htrial
  exact ⟨_, Dispatcher.run_attempt_of_instant (t := .live) htrial
    (h.resolve_eq hkey session.state) (Implementation.as?_type _) trivial rfl⟩

/-- The first attempt is the last one. -/
theorem run_replay (h : Stage variants disp d) (ctx : Context) {key : TrialKey}
    (hkey : key ∈ d.trials.keys) (session : Session Unit) :
    ∃ notes, (d.replay disp.board (disp.attempt .text serve d ctx []) [] key).run .live session =
      ⟨.ok key.text, .live, session, notes⟩ := by
  obtain ⟨notes, hrun⟩ := h.run_attempt ctx hkey 1 session
  refine ⟨.attempting key 1 :: notes, ?_⟩
  rw [Definition.run_replay]
  simp only [List.nil_append, List.length_singleton, hrun]
  rfl

/-- A caller whom nobody has decided for is decided for its variant. -/
theorem run_decide (h : Stage variants disp d) (hv : 1 ≤ variants) (ctx : Context) {i : Nat}
    (hidentity : ctx.identity = some s!"identity-{i}") {session : Session Unit}
    (hnone : session.cache.get? ⟨d.contract, ctx.scope⟩ = none) :
    let key : DecisionKey := ⟨d.contract, ctx.scope⟩
    let decision : Decision := .selected ⟨variantOf variants i⟩ d.strategy.candidates
    ∃ notes, (disp.decide d ctx).run .live session =
      ⟨some decision, .live, { session with cache := (session.cache.insert key decision).track key },
        notes⟩ := by
  have hselect := h.select_eq hv hidentity
  have hinstant : (d.select ctx).Instant := by
    rw [hselect]
    trivial
  have hrun := Dispatcher.run_decide_of_instant (t := .live) h.board rfl hnone hinstant
  rw [hselect] at hrun
  exact ⟨_, hrun⟩

/-- An invocation for such a caller is served by its variant, and keeps the decision. -/
theorem run_invoke (h : Stage variants disp d) (hv : 1 ≤ variants) (ctx : Context) {i : Nat}
    (hcontract : ctx.contract = contract) (hidentity : ctx.identity = some s!"identity-{i}")
    (session : Session Unit) (hnone : session.cache.get? ⟨d.contract, ctx.scope⟩ = none) :
    let key : DecisionKey := ⟨d.contract, ctx.scope⟩
    ∃ decision notes, (disp.invoke .text serve ctx).run .live session =
      ⟨.ok (variantOf variants i), .live,
        { session with cache := (session.cache.insert key decision).track key }, notes⟩ := by
  obtain ⟨decided, hdecide⟩ := h.run_decide hv ctx hidentity hnone
  have hreplay := h.run_replay ctx (h.mem_keys hv i)
    ((disp.decide d ctx).run .live session).session
  have hget : disp.registry.get? ctx.contract = some d := hcontract ▸ h.get?
  have hmade (s : Session Unit) : (Dispatcher.createDecorators ctx d.decorators).run .live s =
      ⟨[], .live, s, []⟩ := by
    rw [h.decorators_eq]
    rfl
  rw [hdecide] at hreplay
  obtain ⟨tried, hreplay⟩ := hreplay
  rw [Dispatcher.run_invoke_of_get? hget, hdecide]
  simp only [Decision.selected] at hreplay
  simp only [Dispatcher.run_invokeDecided, hmade, Decision.selected, hreplay]
  exact ⟨_, _, rfl⟩

/-- **One routing** gives a caller its variant, and leaves nothing behind. -/
theorem route_eq (h : Stage variants disp d) (hv : 1 ≤ variants) (capacity scopes i : Nat) :
    route disp (idle capacity scopes) i =
      (.ok (variantOf variants i), idle capacity (scopes + 1)) := by
  obtain ⟨decision, notes, hrun⟩ := h.run_invoke hv
    ⟨contract, "route", .generated scopes, some s!"identity-{i}"⟩ rfl rfl
    ⟨0, .empty capacity, ()⟩ rfl
  have hended := endScope_keep capacity ⟨d.contract, .generated scopes⟩ decision
  simp only [route, idle, hrun, hended]

/-! ## The passes -/

theorem assign_eq (h : Stage variants disp d) (hv : 1 ≤ variants) (capacity n scopes i : Nat)
    (got : List String) :
    assign disp n i got (idle capacity scopes) =
      .ok (got.reverse ++ (List.range' i n).map (variantOf variants),
        idle capacity (scopes + n)) := by
  induction n generalizing scopes i got with
  | zero => simp [assign]
  | succ n ih =>
      rw [assign, h.route_eq hv]
      simp only [ih, List.reverse_cons, List.append_assoc, List.singleton_append,
        List.range'_succ, List.map_cons, Nat.add_assoc, Nat.add_comm 1 n]

theorem confirm_eq (h : Stage variants disp d) (hv : 1 ≤ variants) (capacity n scopes i : Nat) :
    confirm disp i ((List.range' i n).map (variantOf variants)) (idle capacity scopes) =
      .ok (true, idle capacity (scopes + n)) := by
  induction n generalizing scopes i with
  | zero => rfl
  | succ n ih =>
      rw [List.range'_succ, List.map_cons, confirm, h.route_eq hv]
      simp only [if_true, ih, Nat.add_assoc, Nat.add_comm 1 n]

end Stage

/-! ## The counts -/

/-- What is counted of so many identities. -/
def countsOf (identities variants : Nat) : Tally :=
  (Tally.addEach 0 [] (variantNames variants)).addAll
    ((List.range identities).map (variantOf variants))

theorem ascending_countsOf (identities variants : Nat) :
    (countsOf identities variants).Ascending :=
  (Tally.ascending_nil.addEach 0 _).addAll _

/-- The variants are counted, even those that no identity gets, and nothing else. -/
theorem names_countsOf (identities : Nat) {variants : Nat} (hv : 1 ≤ variants) :
    (countsOf identities variants).map Prod.fst = sortedVariants variants := by
  have hascending : ((countsOf identities variants).map Prod.fst).Pairwise (· < ·) :=
    List.pairwise_map.mpr (ascending_countsOf identities variants)
  refine hascending.eq_of_mem_iff (pairwise_sortedVariants variants) fun name => ?_
  rw [(sortedVariants_perm variants).mem_iff, countsOf, Tally.addAll_eq_addEach,
    Tally.mem_names_addEach, Tally.mem_names_addEach]
  constructor
  · rintro (hname | hname | hname)
    · obtain ⟨i, -, rfl⟩ := List.mem_map.mp hname
      exact variantOf_mem hv i
    · exact hname
    · cases hname
  · intro hname
    exact .inr (.inl hname)

theorem total_countsOf (identities variants : Nat) :
    (countsOf identities variants).total = identities := by
  simp [countsOf, Tally.total_addAll, Tally.total_addEach, Tally.total]

/-- A variant is counted for the identities that fall into its bucket. -/
theorem count_countsOf (identities : Nat) {variants : Nat} (hv : 1 ≤ variants) (name : String) :
    (countsOf identities variants).count name = (List.range identities).countP fun i =>
      (sortedVariants variants)[Sticky.bucket "sticky/sticky.route" s!"identity-{i}" variants]? ==
        some name := by
  have hnone : Tally.count [] name = 0 := rfl
  rw [countsOf, Tally.count_addAll (Tally.ascending_nil.addEach 0 _),
    Tally.count_addEach Tally.ascending_nil, hnone, Nat.zero_mul, Nat.zero_add, List.count,
    List.countP_map]
  refine List.countP_congr fun i _ => ?_
  rw [getElem?_variantOf hv]
  simp

/-! ## The spread -/

theorem run_eq (identities : Nat) {variants : Nat} (hv : 1 ≤ variants) :
    run identities variants = .ok ⟨identities, countsOf identities variants,
      maxSkewOf identities variants (countsOf identities variants), true, 0⟩ := by
  obtain ⟨disp, d, hdisp, h⟩ := exists_dispatcher hv
  have hpositive : variants ≠ 0 := Nat.pos_iff_ne_zero.mp hv
  have hstart : ⟨⟨0, disp.newCache, ()⟩, 0⟩ = idle disp.config.decisionCache.capacity.toNat 0 := rfl
  have hassign := h.assign_eq hv disp.config.decisionCache.capacity.toNat identities 0 0 []
  have hconfirm := h.confirm_eq hv disp.config.decisionCache.capacity.toNat identities identities 0
  rw [← List.range_eq_range', Nat.zero_add, List.reverse_nil, List.nil_append] at hassign
  rw [← List.range_eq_range'] at hconfirm
  simp only [run, if_neg hpositive, hdisp, hstart, hassign, hconfirm, bind, Except.bind]
  rfl

/-- **A spread** of any number of identities over any positive number of variants comes about, so
no routing is ever refused.  Both passes agree, and no scope is left open.  The variants are counted
in the order of their bytes, each once and for the identities that fall into its bucket; the default
trial is not counted, and the counts add up to the identities. -/
theorem run_exact (identities : Nat) {variants : Nat} (hv : 1 ≤ variants) :
    ∃ s, run identities variants = .ok s ∧ s.stable = true ∧ s.openScopes = 0 ∧
      (s.counts = (sortedVariants variants).map fun name =>
        (name, (List.range identities).countP fun i =>
          (sortedVariants variants)[Sticky.bucket "sticky/sticky.route" s!"identity-{i}"
            variants]? == some name)) ∧
      s.counts.Ascending ∧
      (∀ name, name ∈ s.counts.map Prod.fst ↔
        ∃ i, 1 ≤ i ∧ i ≤ variants ∧ name = s!"variant-{i}") ∧
      "baseline" ∉ s.counts.map Prod.fst ∧ s.counts.total = identities := by
  refine ⟨_, run_eq identities hv, rfl, rfl, ?_, ascending_countsOf identities variants,
    fun name => ?_, ?_, total_countsOf identities variants⟩
  · rw [Tally.eq_map_count (ascending_countsOf identities variants), names_countsOf identities hv]
    simp only [count_countsOf identities hv]
  · rw [names_countsOf identities hv, (sortedVariants_perm variants).mem_iff, mem_variantNames]
  · rw [names_countsOf identities hv, (sortedVariants_perm variants).mem_iff]
    exact baseline_notMem_variantNames variants

/-- Eleven variants and two identities: variant-10 and variant-11 come right after variant-1, and the
second identity, which falls into the third bucket, gets variant-11. -/
theorem run_exact_eleven : 1 ≤ 11 ∧ ∃ s, run 2 11 = .ok s ∧ s.stable = true ∧ s.openScopes = 0 ∧
    s.counts = [("variant-1", 0), ("variant-10", 0), ("variant-11", 1), ("variant-2", 0),
      ("variant-3", 0), ("variant-4", 0), ("variant-5", 0), ("variant-6", 0), ("variant-7", 1),
      ("variant-8", 0), ("variant-9", 0)] := by
  have hpositive : 1 ≤ 11 := by decide
  obtain ⟨s, hrun, hstable, hscopes, hcounts, -⟩ := run_exact 2 hpositive
  have hsorted : sortedVariants 11 = ["variant-1", "variant-10", "variant-11", "variant-2",
      "variant-3", "variant-4", "variant-5", "variant-6", "variant-7", "variant-8",
      "variant-9"] := by
    refine (pairwise_sortedVariants 11).eq_of_mem_iff (by decide +kernel) fun name => ?_
    rw [(sortedVariants_perm 11).mem_iff]
    refine List.Perm.mem_iff ?_
    decide +kernel
  have hfirst : Sticky.bucket "sticky/sticky.route" s!"identity-{0}" 11 = 8 := by decide +kernel
  have hsecond : Sticky.bucket "sticky/sticky.route" s!"identity-{1}" 11 = 2 := by decide +kernel
  refine ⟨hpositive, s, hrun, hstable, hscopes, ?_⟩
  rw [hcounts, hsorted]
  simp only [List.range_succ, List.range_zero, List.nil_append, List.cons_append, List.countP_cons,
    hfirst, hsecond]
  decide +kernel

end Spread

end TrialRouting
