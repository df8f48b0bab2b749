import TrialRouting.Proofs.Attempt.Leaving
import TrialRouting.Proofs.Sticky

/-!
# TrialRouting.Proofs.Selection

What a selection comes to, whatever its source or selector answers.  A mode that
is bound to the trials of an experiment answers with a key or an error
(`SelectionMode.Answers`, by the steps that its source or selector takes), and
the experiment makes a decision of the answer (`Definition.Judges`): the key
itself if it is registered, and otherwise the default trial with the reason.

* `SelectionMode.performs_resolve_iff` — a bound mode answers in these ways and
  no other;
* `Program.finished_or_cancelled` — only a cancellation keeps a selection from
  its end;
* `Draft.selection_exact` — the main theorem.
-/

namespace TrialRouting

variable {σ α β : Type}

/-! ## Work that is not cut off -/

/-- Of the same steps comes the same value. -/
theorem Work.Performs.unique {w : Work σ α} {h : History σ} {a b : α} (ha : w.Performs h (.done a))
    (hb : w.Performs h (.done b)) : a = b := by
  induction w generalizing h with
  | done c =>
      cases ha
      cases hb
      rfl
  | remark r w ih =>
      cases ha with
      | remark _ ha =>
          cases hb with
          | remark _ hb => exact ih ha hb
  | act u k ih =>
      cases ha with
      | act _ s ha =>
          cases hb with
          | act _ _ hb => exact ih s ha hb
  | wait ms w ih =>
      cases ha with
      | wait _ ha =>
          cases hb with
          | wait _ hb => exact ih ha hb
  | cancel w ih =>
      cases ha with
      | cancel ha =>
          cases hb with
          | cancel hb => exact ih ha hb

theorem Work.performs_map_iff {w : Work σ α} {f : α → β} {h : History σ} {b : β} :
    (w.bind fun a => .done (f a)).Performs h (.done b) ↔
      ∃ a, w.Performs h (.done a) ∧ f a = b := by
  constructor
  · intro hb
    obtain ⟨a, h₁, h₂, rfl, hw, hf⟩ := Work.performs_bind hb
    obtain ⟨rfl, hfa⟩ := Work.performs_done hf
    rw [List.append_nil]
    exact ⟨a, hw, hfa⟩
  · rintro ⟨a, hw, rfl⟩
    rw [← List.append_nil h]
    exact hw.bind (.here _)

theorem Work.performs_done_iff {h : History σ} {a b : α} :
    (Work.done a : Work σ α).Performs h (.done b) ↔ h = [] ∧ a = b := by
  refine ⟨Work.performs_done, ?_⟩
  rintro ⟨rfl, rfl⟩
  exact .here _

/-- Work without a budget comes to its end unless it is found cancelled. -/
theorem Program.finished_or_cancelled {w : Work σ α} {h : History σ} {g : Guarded α}
    (hu : (guarded none w).Unfolds h g) :
    (∃ a, g = .finished a ∧ w.Performs h.own (.done a)) ∨ g = .cancelled ∧ .asked true ∈ h := by
  induction w generalizing h with
  | done a =>
      cases hu
      exact .inl ⟨a, rfl, .here _⟩
  | remark r w ih =>
      cases hu with
      | note _ hu =>
          obtain ⟨a, rfl, hw⟩ | ⟨rfl, hasked⟩ := ih hu
          · exact .inl ⟨a, rfl, .remark r hw⟩
          · exact .inr ⟨rfl, List.mem_cons_of_mem _ hasked⟩
  | act u k ih =>
      cases hu with
      | act _ s hu =>
          obtain ⟨a, rfl, hw⟩ | ⟨rfl, hasked⟩ := ih s hu
          · exact .inl ⟨a, rfl, .act u s hw⟩
          · exact .inr ⟨rfl, List.mem_cons_of_mem _ hasked⟩
  | cancel w ih =>
      cases hu with
      | cancel hu =>
          obtain ⟨a, rfl, hw⟩ | ⟨rfl, hasked⟩ := ih hu
          · exact .inl ⟨a, rfl, .cancel hw⟩
          · exact .inr ⟨rfl, List.mem_cons_of_mem _ hasked⟩
  | wait ms w ih =>
      rw [guarded] at hu
      split at hu
      · obtain ⟨a, rfl, hw⟩ | hcancelled := ih hu
        · exact .inl ⟨a, rfl, .wait trivial hw⟩
        · exact .inr hcancelled
      · cases hu with
        | sleep _ hu =>
            cases hu with
            | cancelled c hu =>
                cases c with
                | true =>
                    cases hu
                    exact .inr ⟨rfl, by simp⟩
                | false =>
                    obtain ⟨a, rfl, hw⟩ | ⟨rfl, hasked⟩ := ih hu
                    · exact .inl ⟨a, rfl, .wait trivial hw⟩
                    · exact .inr ⟨rfl, by simp [hasked]⟩

/-! ## How a mode answers -/

/-- How a boolean flag answers: with the trial that is meant by what its source says. -/
theorem Strategy.resolve_booleanFlag (name : String) (source : FlagSource σ Bool)
    (off on : TrialKey) (ctx : Context) :
    (booleanFlag name source off on).resolve ctx = (source name ctx).bind fun x => .done (match x with
      | .error e => .error (.unavailable name e.message)
      | .ok enabled => .ok (if enabled then on else off)) := by
  rw [resolve]
  refine congrArg (source name ctx).bind (funext fun x => ?_)
  cases x <;> rfl

namespace SelectionMode

/-- What a boolean flag answers to what its source says. -/
inductive AnswersFlag (trials : TrialSet) (name : String) :
    Except SourceError Bool → Except SelectionError TrialKey → Prop where
  | off : AnswersFlag trials name (.ok false) (.ok trials.defaultKey)
  | on {key : TrialKey} : trials.nonDefaultKeys = [key] → AnswersFlag trials name (.ok true) (.ok key)
  | unavailable (e : SourceError) :
    AnswersFlag trials name (.error e) (.error (.unavailable name e.message))

/-- What a mode whose source says the key itself answers to that, and what it complains of if the source
says none. -/
inductive AnswersKey (name missing : String) :
    Except SourceError (Option String) → Except SelectionError TrialKey → Prop where
  | key (text : String) : AnswersKey name missing (.ok (some text)) (.ok ⟨text⟩)
  | unset : AnswersKey name missing (.ok none) (.error (.unavailable name missing))
  | unavailable (e : SourceError) :
    AnswersKey name missing (.error e) (.error (.unavailable name e.message))

/-- What a sticky routing answers to the identity of a caller. -/
inductive AnswersIdentity (contract : ContractId) (trials : TrialSet) (name : String) :
    Option String → Except SelectionError TrialKey → Prop where
  | bucket {identity : String} {key : TrialKey} :
    (TrialKey.sort trials.nonDefaultKeys)[Sticky.bucket (Sticky.salt contract name) identity
      (TrialKey.sort trials.nonDefaultKeys).length]? = some key →
    AnswersIdentity contract trials name (some identity) (.ok key)
  | nobody : AnswersIdentity contract trials name none (.error (.missingIdentity name))

/-- `m.Answers contract trials ctx h answer`: bound to the trials of a contract, the mode may give the
caller this answer, after its source or selector has taken the steps of `h`. -/
def Answers (m : SelectionMode σ) (contract : ContractId) (trials : TrialSet) (ctx : Context)
    (h : History σ) (answer : Except SelectionError TrialKey) : Prop :=
  match m with
  | .booleanFlag name source =>
    ∃ x, (source name ctx).Performs h (.done x) ∧ AnswersFlag trials name x answer
  | .configValue name source =>
    ∃ x, (source name ctx).Performs h (.done x) ∧ AnswersKey name "value is not set" x answer
  | .variantFlag name source =>
    ∃ x, (source name ctx).Performs h (.done x) ∧ AnswersKey name "no variant assigned" x answer
  | .stickyRouting name => h = [] ∧ AnswersIdentity contract trials name ctx.identity answer
  | .custom _ selector => (selector ctx trials.keys).Performs h (.done answer)

variable {m : SelectionMode σ} {contract : ContractId} {trials : TrialSet} {ctx : Context}
  {s : Strategy σ} {h : History σ} {answer : Except SelectionError TrialKey}

theorem answersFlag_iff {name : String} {on : TrialKey} (hon : trials.nonDefaultKeys = [on])
    {x : Except SourceError Bool} :
    (match x with
      | .error e => .error (.unavailable name e.message)
      | .ok enabled => .ok (if enabled then on else trials.defaultKey)) = answer ↔
      AnswersFlag trials name x answer := by
  constructor
  · rintro rfl
    cases x with
    | error e => exact .unavailable e
    | ok enabled =>
        cases enabled with
        | true => exact .on hon
        | false => exact .off
  · intro ha
    cases ha with
    | off => rfl
    | on hon' => exact congrArg Except.ok (List.cons.inj (hon.symm.trans hon')).1
    | unavailable e => rfl

theorem answersKey_iff {name missing : String} {x : Except SourceError (Option String)} :
    Strategy.ofText name missing x = answer ↔ AnswersKey name missing x answer := by
  constructor
  · rintro rfl
    cases x with
    | error e => exact .unavailable e
    | ok text =>
        cases text with
        | none => exact .unset
        | some text => exact .key text
  · intro ha
    cases ha <;> rfl

theorem answersIdentity_iff {name : String} (hsome : TrialKey.sort trials.nonDefaultKeys ≠ [])
    {identity : Option String} :
    (match identity with
      | none => .error (.missingIdentity name)
      | some identity => .ok (Sticky.assign (Sticky.salt contract name) _ hsome identity)) = answer ↔
      AnswersIdentity contract trials name identity answer := by
  constructor
  · rintro rfl
    cases identity with
    | none => exact .nobody
    | some identity => exact .bucket (Sticky.getElem?_bucket _ hsome identity)
  · intro ha
    cases ha with
    | bucket hkey =>
        rw [Sticky.getElem?_bucket _ hsome] at hkey
        exact congrArg Except.ok (Option.some.inj hkey)
    | nobody => rfl

/-- **A bound mode answers** in the ways of `Answers`. -/
theorem performs_resolve_iff (hbind : m.bind contract trials = .ok s) :
    (s.resolve ctx).Performs h (.done answer) ↔ m.Answers contract trials ctx h answer := by
  cases m with
  | booleanFlag name source =>
      simp only [bind] at hbind
      split at hbind
      · cases hbind
      · next on hon =>
          cases hbind
          rw [Strategy.resolve_booleanFlag, Work.performs_map_iff]
          exact exists_congr fun x => and_congr_right fun _ => answersFlag_iff hon
      · cases hbind
  | stickyRouting name =>
      simp only [bind] at hbind
      split at hbind
      · cases hbind
      · next hsome =>
          cases hbind
          rw [Strategy.resolve_stickyRouting, Work.performs_done_iff]
          exact and_congr_right fun _ => answersIdentity_iff hsome
  | custom name selector =>
      cases hbind
      exact Iff.rfl
  | _ =>
      cases hbind
      exact Work.performs_map_iff.trans
        (exists_congr fun x => and_congr_right fun _ => answersKey_iff)

end SelectionMode

/-! ## What becomes of an answer -/

namespace Definition

variable {d : Definition σ} {ctx : Context} {answer : Except SelectionError TrialKey}
  {decision : Decision} {h : History σ}

/-- The decision is what the experiment makes of the answer: the key itself if it is the key of a
trial, and otherwise the default trial with the reason. -/
structure Judges (d : Definition σ) (answer : Except SelectionError TrialKey)
    (decision : Decision) : Prop where
  registered : decision.trial ∈ d.trials.keys
  candidates : decision.candidates = d.strategy.candidates
  substitution_eq_none_iff :
    decision.substitution = none ↔ ∃ key ∈ d.trials.keys, answer = .ok key
  selected : ∀ key ∈ d.trials.keys, answer = .ok key → decision.trial = key
  default : decision.isSubstituted = true → decision.trial = d.trials.defaultKey
  unknown : ∀ key, key ∉ d.trials.keys → answer = .ok key →
    decision.substitution = some (.selection (.unknownTrialKey key))
  failed : ∀ error, answer = .error error → decision.substitution = some (.selection error)

/-- The decision on an answer. -/
def verdict (d : Definition σ) : Except SelectionError TrialKey → Decision
  | .error error => .substituted d.trials.defaultKey d.strategy.candidates (.selection error)
  | .ok key =>
    if d.trials.contains key then .selected key d.strategy.candidates
    else .substituted d.trials.defaultKey d.strategy.candidates (.selection (.unknownTrialKey key))

/-- What the log is told of the decision on an answer. -/
def tidings (d : Definition σ) (ctx : Context) : Except SelectionError TrialKey → Event
  | .error error =>
    .selectionFailed d.contract ctx.scope d.strategy.kind error d.trials.defaultKey
  | .ok key =>
    if d.trials.contains key then .trialSelected d.contract ctx.scope key
    else .selectionFailed d.contract ctx.scope d.strategy.kind (.unknownTrialKey key)
      d.trials.defaultKey

/-- A selection makes a decision of whatever its strategy answers, and tells the log of it. -/
theorem select_eq (d : Definition σ) (ctx : Context) :
    d.select ctx = (d.strategy.resolve ctx).bind fun answer =>
      .remark (.event (d.tidings ctx answer)) (.done (d.verdict answer)) := by
  refine congrArg (d.strategy.resolve ctx).bind (funext fun answer => ?_)
  cases answer with
  | error error => rfl
  | ok key =>
      dsimp only [tidings, verdict]
      split <;> rfl

theorem performs_select_iff :
    (d.select ctx).Performs h (.done decision) ↔
      ∃ steps answer, (d.strategy.resolve ctx).Performs steps (.done answer) ∧
        h = steps ++ [.noted (.event (d.tidings ctx answer))] ∧ decision = d.verdict answer := by
  rw [select_eq]
  constructor
  · intro hp
    obtain ⟨answer, steps, _, rfl, hresolve, hp⟩ := Work.performs_bind hp
    cases hp with
    | remark _ hp =>
        obtain ⟨rfl, rfl⟩ := Work.performs_done hp
        exact ⟨steps, answer, hresolve, rfl, rfl⟩
  · rintro ⟨steps, answer, hresolve, rfl, rfl⟩
    exact hresolve.bind (.remark _ (.here _))

theorem judges_verdict (d : Definition σ) (answer : Except SelectionError TrialKey) :
    d.Judges answer (d.verdict answer) := by
  match answer with
  | .error error =>
      exact {
        registered := d.trials.defaultKey_mem_keys
        candidates := rfl
        substitution_eq_none_iff := by simp [verdict, Decision.substituted]
        selected := by simp
        default := fun _ => rfl
        unknown := by simp
        failed := by simp [verdict, Decision.substituted] }
  | .ok key =>
      by_cases hkey : key ∈ d.trials.keys
      · rw [verdict, if_pos (TrialSet.contains_iff.mpr hkey)]
        exact {
          registered := hkey
          candidates := rfl
          substitution_eq_none_iff := by simp [Decision.selected, hkey]
          selected := by simp [Decision.selected]
          default := by simp [Decision.selected, Decision.isSubstituted]
          unknown := fun _ hnot heq => absurd (Except.ok.inj heq ▸ hkey) hnot
          failed := by simp }
      · rw [verdict, if_neg (mt TrialSet.contains_iff.mp hkey)]
        exact {
          registered := d.trials.defaultKey_mem_keys
          candidates := rfl
          substitution_eq_none_iff := by simp [Decision.substituted, hkey]
          selected := fun _ hmem heq => absurd (Except.ok.inj heq ▸ hmem) hkey
          default := fun _ => rfl
          unknown := by simp [Decision.substituted]
          failed := by simp }

/-- The strategy answers with the key of a trial, and is substituted just if the selection failed, never
because its answer is unknown. -/
structure KnownUnless (d : Definition σ) (failed : Prop) (answer : Except SelectionError TrialKey)
    (decision : Decision) : Prop where
  registered : ∀ key, answer = .ok key → key ∈ d.trials.keys
  known : ∀ key, decision.substitution ≠ some (.selection (.unknownTrialKey key))
  isSubstituted_iff : decision.isSubstituted = true ↔ failed

theorem Judges.knownUnless_of_ok {key : TrialKey} {failed : Prop}
    (hj : d.Judges (.ok key) decision) (hkey : key ∈ d.trials.keys) (hfailed : ¬ failed) :
    d.KnownUnless failed (.ok key) decision := by
  have hnone : decision.substitution = none := hj.substitution_eq_none_iff.mpr ⟨key, hkey, rfl⟩
  exact {
    registered := fun _ heq => Except.ok.inj heq ▸ hkey
    known := by simp [hnone]
    isSubstituted_iff := by simp [Decision.isSubstituted, hnone, hfailed] }

theorem Judges.knownUnless_of_error {error : SelectionError} {failed : Prop}
    (hj : d.Judges (.error error) decision) (hknown : ∀ key, error ≠ .unknownTrialKey key)
    (hfailed : failed) : d.KnownUnless failed (.error error) decision := by
  have hsome := hj.failed error rfl
  exact {
    registered := by simp
    known := by simp [hsome, hknown]
    isSubstituted_iff := by simp [Decision.isSubstituted, hsome, hfailed] }

end Definition

/-! ## Selections of definitions -/

/-- **A selection never fails and never leaves the trials.**  Whatever the source or the selector of a
definition answers, and whatever it does before it answers, the experiment makes a decision of it, unless
the invocation is found cancelled; every decision is made of an answer, which the mode gives by its source
or selector, and is what `Judges` says.  A boolean flag and a sticky routing always answer with a trial,
unless the source fails or the caller has no identity. -/
theorem Draft.selection_exact {a : Draft σ} {d : Definition σ} (hbuild : a.build = .ok d) :
    ∃ mode, a.selection = some mode ∧ ∀ ctx,
      (∀ h g, (Program.guarded none (d.select ctx)).Unfolds h g →
        (∃ decision, g = .finished decision ∧ (d.select ctx).Performs h.own (.done decision)) ∨
          g = .cancelled ∧ .asked true ∈ h) ∧
      (∀ steps answer, mode.Answers a.contract d.trials ctx steps answer →
        ∃ event decision, d.Judges answer decision ∧
          (d.select ctx).Performs (steps ++ [.noted (.event event)]) (.done decision)) ∧
      ∀ h decision, (d.select ctx).Performs h (.done decision) →
        ∃ steps answer event, h = steps ++ [.noted (.event event)] ∧
          mode.Answers a.contract d.trials ctx steps answer ∧ d.Judges answer decision ∧
          (∀ name source, mode = .booleanFlag name source →
            d.KnownUnless (∃ e, (source name ctx).Performs steps (.done (.error e))) answer
              decision) ∧
          (∀ name, mode = .stickyRouting name →
            d.KnownUnless (ctx.identity = none) answer decision) := by
  obtain ⟨mode, hmode, hbind⟩ := (Draft.builds_of_build hbuild).strategy
  refine ⟨mode, hmode, fun ctx => ⟨fun h g => Program.finished_or_cancelled, ?_, ?_⟩⟩
  · intro steps answer hanswers
    exact ⟨_, _, d.judges_verdict answer, Definition.performs_select_iff.mpr
      ⟨steps, answer, (SelectionMode.performs_resolve_iff hbind).mpr hanswers, rfl, rfl⟩⟩
  · intro h decision hp
    obtain ⟨steps, answer, hresolve, rfl, rfl⟩ := Definition.performs_select_iff.mp hp
    have hanswers := (SelectionMode.performs_resolve_iff hbind).mp hresolve
    have hj := d.judges_verdict answer
    refine ⟨steps, answer, _, rfl, hanswers, hj, ?_, ?_⟩
    · rintro name source rfl
      obtain ⟨x, hsource, hflag⟩ := hanswers
      -- the steps determine what the source says
      have hfails : (∃ e, (source name ctx).Performs steps (.done (.error e))) ↔
          ∃ e, x = .error e := by
        constructor
        · rintro ⟨e, he⟩
          exact ⟨e, hsource.unique he⟩
        · rintro ⟨e, rfl⟩
          exact ⟨e, hsource⟩
      rw [hfails]
      cases hflag with
      | off => exact hj.knownUnless_of_ok d.trials.defaultKey_mem_keys (by simp)
      | on hon =>
          exact hj.knownUnless_of_ok (TrialSet.mem_keys_iff.mpr (.inr (by simp [hon]))) (by simp)
      | unavailable e => exact hj.knownUnless_of_error (by simp) ⟨e, rfl⟩
    · rintro name rfl
      obtain ⟨-, hidentity⟩ := hanswers
      generalize ctx.identity = identity at hidentity ⊢
      cases hidentity with
      | bucket hkey =>
          have hmem := TrialKey.mem_sort.mp (List.mem_of_getElem? hkey)
          exact hj.knownUnless_of_ok (TrialSet.mem_keys_iff.mpr (.inr hmem)) (by simp)
      | nobody => exact hj.knownUnless_of_error (by simp) rfl

/-- Two themes, of which the setting names neither. -/
def theming : Draft Unit where
  contract := ⟨"theme"⟩
  trials := [⟨⟨"light"⟩, true, ⟨"theme::light"⟩⟩, ⟨⟨"dark"⟩, false, ⟨"theme::dark"⟩⟩]
  selection := some (.configValue "theme.variant" fun _ _ => .wait 5 (.done (.ok (some "sepia"))))
  policy := .throw
  timeout := none
  decorators := []

/-- A theme that is not there leaves the default one, with the theme for a reason. -/
theorem select_theming :
    ∃ d, theming.build = .ok d ∧ ∀ ctx,
      (∃ h decision, (d.select ctx).Performs h (.done decision)) ∧
      ∀ h decision, (d.select ctx).Performs h (.done decision) →
        decision.trial = ⟨"light"⟩ ∧
          decision.substitution = some (.selection (.unknownTrialKey ⟨"sepia"⟩)) := by
  have hsound : theming.Sound := {
    nodup := by decide
    default := rfl
    nonempty := nofun
    mode := ⟨_, rfl, trivial⟩
    policy := nofun }
  obtain ⟨d, hd, hbuilds⟩ := hsound.exists_definition
  obtain ⟨mode, hmode, hselect⟩ := Draft.selection_exact hd
  obtain rfl := Option.some.inj hmode
  refine ⟨d, hd, fun ctx => ?_⟩
  obtain ⟨-, hdecides, hdecided⟩ := hselect ctx
  refine ⟨?_, fun h decision hp => ?_⟩
  · obtain ⟨_, decision, -, hp⟩ := hdecides [] _ ⟨_, .wait trivial (.here _), .key "sepia"⟩
    exact ⟨_, decision, hp⟩
  · obtain ⟨steps, answer, _, -, hanswers, hjudges, -, -⟩ := hdecided h decision hp
    obtain ⟨x, hsource, hkey⟩ := hanswers
    obtain rfl : .ok (some "sepia") = x := by
      cases hsource with
      | wait _ hsource => exact (Work.performs_done hsource).2
    cases hkey
    have hkeys : d.trials.keys = [⟨"light"⟩, ⟨"dark"⟩] := Draft.keys_eq hbuilds.trials
    have hdefault : d.trials.defaultKey = ⟨"light"⟩ :=
      (List.cons.inj (Draft.defaults_eq hbuilds.trials)).1.symm
    have hunknown := hjudges.unknown ⟨"sepia"⟩ (by simp [hkeys]) rfl
    refine ⟨(hjudges.default ?_).trans hdefault, hunknown⟩
    rw [Decision.isSubstituted, hunknown]
    rfl

end TrialRouting
