import Clausal.Proofs.Encoding.Correctness
import Clausal.Proofs.Enumeration
import Clausal.Proofs.Text.Names

namespace Clausal

open NameSource (numbered)

theorem mapM_eq_ok {ε α β : Type} {g : α → Except ε β} {h : α → β} {as : List α}
    (each : ∀ a ∈ as, g a = .ok (h a)) : as.mapM g = .ok (as.map h) := by
  induction as with
  | nil => rfl
  | cons a as ih =>
    rw [List.mapM_cons, each a List.mem_cons_self, ih fun b member => each b (.tail _ member)]
    rfl

/-- Two tests are passed equally often if what passes them has the same keys, and none twice. -/
theorem countP_eq_of_keys {α β κ : Type} {as : List α} {bs : List β} {p : α → Bool} {q : β → Bool}
    {f : α → κ} {g : β → κ} (left : ((as.filter p).map f).Nodup) (right : ((bs.filter q).map g).Nodup)
    (same : ∀ key, key ∈ (as.filter p).map f ↔ key ∈ (bs.filter q).map g) :
    as.countP p = bs.countP q := by
  have permuted := (List.perm_ext_iff_of_nodup left right).mpr same
  rw [List.countP_eq_length_filter, List.countP_eq_length_filter, ← List.length_map f,
    ← List.length_map g]
  exact permuted.length_eq

/-- Among the models that an enumeration lists and a test accepts, no two have the same key, if
accepted models with the same key are the same. -/
theorem Model.nodup_keys_filter_enumerate {κ : Type} {names : List String} (distinct : names.Nodup)
    {p : Model → Bool} {key : Model → κ}
    (separates : ∀ m n, m.Assigns names → n.Assigns names → p m = true → p n = true →
      key m = key n → m.Same n) :
    (((Model.enumerate names).filter p).map key).Nodup := by
  refine List.pairwise_map.mpr ?_
  refine ((Model.pairwise_enumerate distinct).filter p).imp_of_mem fun {m n} left right differ same => ?_
  obtain ⟨listed, accepted⟩ := List.mem_filter.mp left
  obtain ⟨listed', accepted'⟩ := List.mem_filter.mp right
  exact differ (separates m n (Model.assigns_of_mem_enumerate listed)
    (Model.assigns_of_mem_enumerate listed') accepted accepted' same)

namespace Formula

theorem Vocabulary.perm {stem : String} {k : Nat} {fs : List Formula} {inputs others names : List String}
    (vocabulary : Vocabulary stem k fs inputs names) (permuted : others.Perm inputs) :
    Vocabulary stem k fs others names :=
  ⟨fun name => permuted.mem_iff.trans (vocabulary.mem_inputs name), vocabulary.mem_names,
    vocabulary.fresh⟩

namespace Vocabulary

variable {stem : String} {k : Nat} {fs : List Formula} {inputs : List String} {theory : Theory}
  (vocabulary : Vocabulary stem k fs inputs theory.names)
  (whole : ∀ v, theory.truth v = true ↔
    (∀ name ∈ labels stem fs k, v name = true) ∧ (definitions stem fs k).truth v = true)

include vocabulary whole

/-- A model of the theory satisfies the formulas when it is restricted to their variables, and no
other model of the theory has the same restriction. -/
theorem restriction_of_truth {M : Model} (assigns : M.Assigns theory.names)
    (value : theory.truth M.total = true) :
    (M.restrict inputs).Assigns inputs ∧ (∀ f ∈ fs, f.truth (M.restrict inputs).total = true) ∧
      ∀ N : Model, N.Assigns theory.names → theory.truth N.total = true →
        inputs.map N.get? = inputs.map M.get? → N.Same M := by
  have given := assigns.restrict vocabulary.inputs_subset
  have extends_of : ∀ {N : Model}, inputs.map N.get? = inputs.map M.get? →
      N.Extends (M.restrict inputs) := by
    intro N agree name b found
    rw [Model.get?_restrict] at found
    split at found
    · rename_i inside
      rw [List.map_inj_left.mp agree name inside, found]
    · cases found
  have evaluates : ∀ {N : Model}, N.Assigns theory.names → theory.truth N.total = true →
      theory.evaluate N = .ok true := by
    intro N assigns value
    rw [Theory.evaluate_eq_ok fun name member => (assigns.mem_keys name).mpr member, value]
  refine ⟨given, ?_, ?_⟩
  · have satisfied := (vocabulary.all_satisfied_iff_extension whole given).mpr
      ⟨M, assigns, extends_of rfl, evaluates assigns value⟩
    intro f member
    have evaluated := satisfied f member
    rwa [vocabulary.evaluate_formula given member, Except.ok.injEq] at evaluated
  · intro N assigns' value' agree
    have completes := vocabulary.completes_of_evaluate whole assigns (extends_of rfl)
      (evaluates assigns value)
    have completes' := vocabulary.completes_of_evaluate whole assigns' (extends_of agree)
      (evaluates assigns' value')
    exact vocabulary.completion_unique given completes completes'

/-- Enumerations before and after conversion find equally many models. -/
theorem countP_enumerate (distinct : inputs.Nodup) {names : List String}
    (permuted : names.Perm theory.names) (distinct' : names.Nodup) :
    (Model.enumerate names).countP (fun M => theory.truth M.total) =
      (Model.enumerate inputs).countP fun m => fs.all fun f => f.truth m.total := by
  refine countP_eq_of_keys (f := fun M => inputs.map M.get?) (g := fun m => inputs.map m.get?)
    (Model.nodup_keys_filter_enumerate distinct' ?_) (Model.nodup_keys_filter_enumerate distinct ?_) ?_
  · intro M N assigns assigns' value value' agree
    exact (vocabulary.restriction_of_truth whole (assigns'.perm permuted) value').2.2 M
      (assigns.perm permuted) value agree
  · intro m n given given' _ _ agree
    exact (given.same_iff given').mpr agree
  · intro key
    simp only [List.mem_map, List.mem_filter]
    constructor
    · intro found
      obtain ⟨M, ⟨listed, value⟩, rfl⟩ := found
      have assigns := (Model.assigns_of_mem_enumerate listed).perm permuted
      obtain ⟨given, satisfied, _⟩ := vocabulary.restriction_of_truth whole assigns value
      obtain ⟨m, listed', same⟩ := Model.exists_mem_enumerate given
      refine ⟨m, ⟨listed', List.all_eq_true.mpr fun f member => ?_⟩, ?_⟩
      · rw [same.total_eq]
        exact satisfied f member
      · refine List.map_congr_left fun name inside => ?_
        rw [same name, Model.get?_restrict, if_pos inside]
    · intro found
      obtain ⟨m, ⟨listed, value⟩, rfl⟩ := found
      have given := Model.assigns_of_mem_enumerate listed
      obtain ⟨N, completes⟩ := vocabulary.exists_completion given
      have evaluated := vocabulary.evaluate_completion whole given completes
      rw [value, Theory.evaluate_eq_ok fun name member => (completes.assigns.mem_keys name).mpr member,
        Except.ok.injEq] at evaluated
      obtain ⟨M, listed', same⟩ := Model.exists_mem_enumerate (completes.assigns.perm permuted.symm)
      refine ⟨M, ⟨listed', ?_⟩, ?_⟩
      · rw [same.total_eq]
        exact evaluated
      · refine List.map_congr_left fun name inside => ?_
        have found := Model.get?_of_mem ((given.mem_keys name).mpr inside)
        rw [same name, completes.extension name _ found, found]

end Vocabulary

/-- Brute force counts the same models before and after conversion. If none of the names drawn is a
variable of the formula, all evaluations in both enumerations have a result, whatever the order of
the names, and equally many results are true. A model found after conversion satisfies the formula
when it is restricted to the variables. -/
theorem convert_count_models (f : Formula) (source : NameSource) (ambient : String) (check : Bool)
    (accepted : check = true → f.clashes source ambient = [])
    (fresh : ∀ n, source.count < n → n ≤ source.count + f.composites.length →
      numbered (source.stem ambient) n ∉ f.names) :
    ∃ conversion, f.convert source ambient check = .ok conversion ∧
      ∀ inputs names : List String, inputs.Perm f.names → names.Perm conversion.theory.names →
        ∃ before after : List Bool,
          (Model.enumerate inputs).mapM f.evaluateShared = .ok before ∧
          (Model.enumerate names).mapM conversion.theory.evaluate = .ok after ∧
          after.count true = before.count true ∧
          ((∃ M ∈ Model.enumerate names, conversion.theory.evaluate M = .ok true) ↔
            ∃ m ∈ Model.enumerate inputs, f.evaluateShared m = .ok true) ∧
          ∀ M ∈ Model.enumerate names, conversion.theory.evaluate M = .ok true →
            f.evaluateShared (M.restrict f.names) = .ok true := by
  have vocabulary := vocabulary_conversion f source ambient fresh
  have whole := truth_conversion f source ambient
  refine ⟨f.conversion source ambient, convert_eq_ok accepted, fun inputs names permuted permuted' => ?_⟩
  have ordered := vocabulary.perm permuted
  have distinct : inputs.Nodup := permuted.nodup_iff.mpr (Text.nodup_sortedNames _)
  have distinct' : names.Nodup := permuted'.nodup_iff.mpr (Text.nodup_sortedNames _)
  have value : ∀ m ∈ Model.enumerate inputs, f.evaluateShared m = .ok (f.truth m.total) :=
    fun m listed => ordered.evaluate_formula (Model.assigns_of_mem_enumerate listed) List.mem_cons_self
  have value' : ∀ M ∈ Model.enumerate names, (f.conversion source ambient).theory.evaluate M =
      .ok ((f.conversion source ambient).theory.truth M.total) := by
    intro M listed
    have assigns := (Model.assigns_of_mem_enumerate listed).perm permuted'
    exact Theory.evaluate_eq_ok fun name member => (assigns.mem_keys name).mpr member
  have counts := ordered.countP_enumerate whole distinct permuted' distinct'
  simp only [List.all_cons, List.all_nil, Bool.and_true] at counts
  refine ⟨_, _, mapM_eq_ok value, mapM_eq_ok value', ?_, ?_, ?_⟩
  · simpa [List.count_eq_countP, List.countP_map, Function.comp_def] using counts
  · have found : (∃ m ∈ Model.enumerate inputs, f.evaluateShared m = .ok true) ↔
        ∃ m ∈ Model.enumerate inputs, f.truth m.total = true :=
      exists_congr fun m => and_congr_right fun listed => by rw [value m listed, Except.ok.injEq]
    have found' : (∃ M ∈ Model.enumerate names, (f.conversion source ambient).theory.evaluate M = .ok true) ↔
        ∃ M ∈ Model.enumerate names, (f.conversion source ambient).theory.truth M.total = true :=
      exists_congr fun M => and_congr_right fun listed => by rw [value' M listed, Except.ok.injEq]
    rw [found, found', ← List.countP_pos_iff, ← List.countP_pos_iff, counts]
  · intro M listed satisfied
    have assigns := (Model.assigns_of_mem_enumerate listed).perm permuted'
    rw [value' M listed, Except.ok.injEq] at satisfied
    obtain ⟨given, holds, _⟩ := vocabulary.restriction_of_truth whole assigns satisfied
    rw [vocabulary.evaluate_formula given List.mem_cons_self, holds f List.mem_cons_self]

/-- Three of four models before conversion, and three of sixteen after it. -/
theorem convert_count_models_of_later_name :
    let f := disj [var "p", neg (var "_x7")]
    (∀ n, 0 < n → n ≤ 2 → numbered "_x" n ∉ f.names) ∧ ["p", "_x7"].Perm f.names ∧
      ∃ conversion, f.convert {} "_x" false = .ok conversion ∧
        ["_x7", "p", "_x2", "_x1"].Perm conversion.theory.names ∧
        ∃ after : List Bool, (Model.enumerate ["_x7", "p", "_x2", "_x1"]).mapM
          conversion.theory.evaluate = .ok after ∧ after.count true = 3 := by
  intro f
  have leaves : f.leaves = ["p", "_x7"] := rfl
  have unused : ∀ n ∈ List.range 3, 0 < n → numbered "_x" n ∉ f.leaves := by decide +kernel
  have fresh : ∀ n, 0 < n → n ≤ 2 → numbered "_x" n ∉ f.names := by
    intro n positive bound
    rw [mem_names_iff]
    exact unused n (List.mem_range.mpr (by omega)) positive
  have permuted : ["p", "_x7"].Perm f.names := by
    refine (List.perm_ext_iff_of_nodup (by decide) (Text.nodup_sortedNames _)).mpr fun name => ?_
    exact (leaves ▸ mem_names_iff f name).symm
  obtain ⟨conversion, done, enumerations⟩ := convert_count_models f {} "_x" false (by simp) fresh
  have mentioned : conversion.theory.clauses.flatMap (fun c => c.literals.map Literal.name) =
      ["_x1", "_x2", "_x7", "_x2", "_x7", "_x1", "p", "_x1", "_x2", "_x1", "p", "_x2"] := by
    rw [eq_conversion f {} "_x" done]
    decide +kernel
  have permuted' : ["_x7", "p", "_x2", "_x1"].Perm conversion.theory.names := by
    refine Text.perm_sortedNames (by decide) fun name => ?_
    rw [mentioned]
    simp only [List.mem_cons, List.not_mem_nil, or_false]
    grind
  obtain ⟨before, after, evaluated, evaluated', counts, _⟩ := enumerations _ _ permuted permuted'
  have values : before = [true, false, true, true] := by
    rw [funext (evaluateShared_eq_evaluate f)] at evaluated
    exact (Except.ok.inj evaluated).symm
  refine ⟨fresh, permuted, conversion, done, permuted', after, evaluated', ?_⟩
  rw [counts, values]
  rfl

end Formula

end Clausal
