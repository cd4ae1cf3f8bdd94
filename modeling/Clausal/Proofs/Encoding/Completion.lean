import Clausal.Proofs.Encoding.Tracking
import Clausal.Proofs.Formula.Walk
import Clausal.Proofs.Theory.Partial

namespace Clausal

open NameSource (numbered Issued)

/-- The larger model has the given names, keeps the values of the smaller one and satisfies the
definitions. -/
structure Model.Completes (larger : Model) (definitions : Theory) (names : List String)
    (smaller : Model) : Prop where
  assigns : larger.Assigns names
  extension : larger.Extends smaller
  satisfies : definitions.evaluate larger = .ok true

namespace Formula

theorem mem_names_definitions (stem : String) (fs : List Formula) (k : Nat) (name : String) :
    name ∈ (definitions stem fs k).names ↔
      ∃ g ∈ gatesAll stem fs k, name = g.name ∨ name ∈ g.parts := by
  rw [Theory.mem_names_iff, definitions]
  constructor
  · intro known
    obtain ⟨c, atClause, mentioned⟩ := known
    obtain ⟨g, member, atClause⟩ := List.mem_flatMap.mp atClause
    have fits := (gates_fit stem).2 fs k g member
    exact ⟨g, member, (Gate.mem_names_clauses_iff fits name).mp ⟨c, atClause, mentioned⟩⟩
  · intro defined
    obtain ⟨g, member, atGate⟩ := defined
    have fits := (gates_fit stem).2 fs k g member
    obtain ⟨c, atClause, mentioned⟩ := (Gate.mem_names_clauses_iff fits name).mpr atGate
    exact ⟨c, List.mem_flatMap.mpr ⟨g, member, atClause⟩, mentioned⟩

/-- The variables of formulas, and all names that their conversion one after the other comes to.
None of the names drawn is a variable. -/
structure Vocabulary (stem : String) (k : Nat) (fs : List Formula) (inputs names : List String) :
    Prop where
  mem_inputs : ∀ name, name ∈ inputs ↔ name ∈ fs.flatMap leaves
  mem_names : ∀ name, name ∈ names ↔
    name ∈ fs.flatMap leaves ∨ Issued stem k (fs.flatMap composites).length name
  fresh : ∀ name ∈ fs.flatMap leaves, ¬Issued stem k (fs.flatMap composites).length name

namespace Vocabulary

variable {stem : String} {k : Nat} {fs : List Formula} {inputs names : List String}

theorem inputs_subset (vocabulary : Vocabulary stem k fs inputs names) :
    ∀ name ∈ inputs, name ∈ names := by
  intro name member
  exact (vocabulary.mem_names name).mpr (Or.inl ((vocabulary.mem_inputs name).mp member))

theorem numbered_mem (vocabulary : Vocabulary stem k fs inputs names) {i : Nat} {g : Formula}
    (atIndex : (fs.flatMap composites)[i]? = some g) : numbered stem (k + i + 1) ∈ names := by
  have bound := (List.getElem?_eq_some_iff.mp atIndex).1
  exact (vocabulary.mem_names _).mpr (Or.inr ⟨k + i + 1, by omega, by omega, rfl⟩)

theorem label_mem (vocabulary : Vocabulary stem k fs inputs names) {name : String}
    (member : name ∈ labels stem fs k) : name ∈ names := by
  rw [vocabulary.mem_names, ← (mem_gate_names_iff stem).2 fs k name]
  exact Or.inl member

theorem leaf_of_composite {g : Formula} (member : g ∈ fs.flatMap composites) {name : String}
    (leaf : name ∈ g.leaves) : name ∈ fs.flatMap leaves := by
  obtain ⟨f, atFormula, inside⟩ := List.mem_flatMap.mp member
  exact List.mem_flatMap.mpr ⟨f, atFormula, leaves_subset_of_mem_composites inside leaf⟩

section

variable (vocabulary : Vocabulary stem k fs inputs names) {m : Model} (given : m.Assigns inputs)

include vocabulary given

theorem covered {name : String} (leaf : name ∈ fs.flatMap leaves) : name ∈ m.keys :=
  (given.mem_keys name).mpr ((vocabulary.mem_inputs name).mpr leaf)

theorem evaluate_composite {g : Formula} (member : g ∈ fs.flatMap composites) :
    g.evaluateShared m = .ok (g.truth m.total) :=
  evaluateShared_eq_ok fun _ leaf => vocabulary.covered given (leaf_of_composite member leaf)

theorem evaluate_formula {f : Formula} (member : f ∈ fs) :
    f.evaluateShared m = .ok (f.truth m.total) :=
  evaluateShared_eq_ok fun _ leaf => vocabulary.covered given (List.mem_flatMap.mpr ⟨f, member, leaf⟩)

theorem truth_extension {larger : Model} (extension : larger.Extends m) {g : Formula}
    (inside : ∀ name ∈ g.leaves, name ∈ fs.flatMap leaves) : g.truth larger.total = g.truth m.total :=
  truth_congr fun name leaf => extension.total_eq (vocabulary.covered given (inside name leaf))

end

theorem evaluate_definitions (vocabulary : Vocabulary stem k fs inputs names) {larger : Model}
    (assigns : larger.Assigns names) :
    (definitions stem fs k).evaluate larger = .ok true ↔
      Tracks larger.total stem k (fs.flatMap composites) := by
  have covered : ∀ name ∈ (definitions stem fs k).names, name ∈ larger.keys := by
    intro name member
    rw [assigns.mem_keys, vocabulary.mem_names, ← (mem_gate_names_iff stem).2 fs k name]
    exact Or.inr ((mem_names_definitions stem fs k name).mp member)
  rw [Theory.evaluate_eq_ok covered, Except.ok.injEq]
  exact truth_definitions_iff fs k

theorem tracks_completion (vocabulary : Vocabulary stem k fs inputs names) {m larger : Model}
    (completes : larger.Completes (definitions stem fs k) names m) :
    Tracks larger.total stem k (fs.flatMap composites) :=
  (vocabulary.evaluate_definitions completes.assigns).mp completes.satisfies

section

variable (vocabulary : Vocabulary stem k fs inputs names) {m larger : Model}
  (given : m.Assigns inputs)
  (completes : larger.Completes (definitions stem fs k) names m)

include vocabulary given completes

/-- A completion gives every name drawn the value of the subformula it was drawn for. -/
theorem get?_numbered {i : Nat} {g : Formula} (atIndex : (fs.flatMap composites)[i]? = some g) :
    larger.get? (numbered stem (k + i + 1)) = some (g.truth m.total) := by
  have member := List.mem_of_getElem? atIndex
  have tracked := vocabulary.tracks_completion completes i g atIndex
  have value := vocabulary.truth_extension given completes.extension fun _ => leaf_of_composite member
  rw [Model.get?_of_mem ((completes.assigns.mem_keys _).mpr (vocabulary.numbered_mem atIndex)), tracked,
    value]

theorem labels_total : (labels stem fs k).map larger.total = fs.map (truth m.total) := by
  rw [labels_truth (vocabulary.tracks_completion completes)]
  refine List.map_congr_left fun f member => ?_
  exact vocabulary.truth_extension given completes.extension fun name leaf =>
    List.mem_flatMap.mpr ⟨f, member, leaf⟩

/-- A completion gives the name that stands for a formula the value of the formula. -/
theorem get?_label {i : Nat} {f : Formula} {name : String} (atFormula : fs[i]? = some f)
    (atLabel : (labels stem fs k)[i]? = some name) : larger.get? name = some (f.truth m.total) := by
  have mapped := congrArg (fun values => values[i]?) (vocabulary.labels_total given completes)
  have value : larger.total name = f.truth m.total := by
    simpa [List.getElem?_map, atLabel, atFormula] using mapped
  have known := vocabulary.label_mem (List.mem_of_getElem? atLabel)
  rw [Model.get?_of_mem ((completes.assigns.mem_keys name).mpr known), value]

theorem completion_unique {other : Model} (completes' : other.Completes (definitions stem fs k) names m) :
    other.Same larger := by
  intro name
  by_cases known : name ∈ names
  · rcases (vocabulary.mem_names name).mp known with leaf | ⟨n, above, below, rfl⟩
    · have found := Model.get?_of_mem (vocabulary.covered given leaf)
      rw [completes.extension name _ found, completes'.extension name _ found]
    · obtain ⟨i, rfl⟩ := Nat.exists_eq_add_of_lt above
      obtain ⟨g, atIndex⟩ : ∃ g, (fs.flatMap composites)[i]? = some g :=
        ⟨_, List.getElem?_eq_getElem (by omega)⟩
      rw [vocabulary.get?_numbered given completes atIndex, vocabulary.get?_numbered given completes' atIndex]
  · rw [Model.get?_of_not_mem fun key => known ((completes.assigns.mem_keys name).mp key),
      Model.get?_of_not_mem fun key => known ((completes'.assigns.mem_keys name).mp key)]

end

theorem exists_completion (vocabulary : Vocabulary stem k fs inputs names) {m : Model}
    (given : m.Assigns inputs) : ∃ larger : Model, larger.Completes (definitions stem fs k) names m := by
  let v := fill stem m.total k (fs.flatMap composites)
  have assigns := Model.assigns_ofNames names v
  refine ⟨Model.ofNames names v, assigns, ?_, ?_⟩
  · intro name b found
    have key := (m.mem_keys_iff name).mpr ⟨b, found⟩
    have old := (given.mem_keys name).mp key
    have leaf := (vocabulary.mem_inputs name).mp old
    have kept : v name = m.total name := fill_of_not_issued (vocabulary.fresh name leaf)
    rw [Model.get?_ofNames, if_pos (vocabulary.inputs_subset name old), kept,
      ← Model.get?_of_mem key, found]
  · rw [vocabulary.evaluate_definitions assigns]
    have filled : Tracks v stem k (fs.flatMap composites) :=
      tracks_fill fun g member name leaf => vocabulary.fresh name (leaf_of_composite member leaf)
    intro i g atIndex
    have member := List.mem_of_getElem? atIndex
    rw [Model.total_ofNames (vocabulary.numbered_mem atIndex), filled i g atIndex]
    refine truth_congr fun name leaf => (Model.total_ofNames ?_).symm
    exact (vocabulary.mem_names name).mpr (Or.inl (leaf_of_composite member leaf))

section

variable {theory : Theory} (vocabulary : Vocabulary stem k fs inputs theory.names)
  (whole : ∀ v, theory.truth v = true ↔
    (∀ name ∈ labels stem fs k, v name = true) ∧ (definitions stem fs k).truth v = true)
  {m M : Model}

include vocabulary whole

/-- Let a theory declare the names that stand for some formulas, and define them. A completion makes
it true exactly if all the formulas are. -/
theorem evaluate_completion (given : m.Assigns inputs)
    (completes : M.Completes (definitions stem fs k) theory.names m) :
    theory.evaluate M = .ok (fs.all fun f => f.truth m.total) := by
  have covered : ∀ name ∈ theory.names, name ∈ M.keys := fun name member =>
    (completes.assigns.mem_keys name).mpr member
  have defined : (definitions stem fs k).truth M.total = true :=
    (truth_definitions_iff fs k).mpr (vocabulary.tracks_completion completes)
  have labels : (labels stem fs k).all M.total = fs.all fun f => f.truth m.total := by
    have values := congrArg (fun values => values.all id) (vocabulary.labels_total given completes)
    simpa [List.all_map, Function.comp_def] using values
  rw [Theory.evaluate_eq_ok covered, Except.ok.injEq, Bool.eq_iff_iff, whole, ← labels, List.all_eq_true]
  exact and_iff_left defined

theorem completes_of_evaluate (assigns : M.Assigns theory.names) (extension : M.Extends m)
    (value : theory.evaluate M = .ok true) :
    M.Completes (definitions stem fs k) theory.names m := by
  have covered : ∀ name ∈ theory.names, name ∈ M.keys := fun name member =>
    (assigns.mem_keys name).mpr member
  rw [Theory.evaluate_eq_ok covered, Except.ok.injEq, whole, truth_definitions_iff,
    ← vocabulary.evaluate_definitions assigns] at value
  exact ⟨assigns, extension, value.2⟩

/-- A model that satisfies the theory makes all the formulas true, also if it leaves out names that
were not looked at or has values for more. -/
theorem truth_of_extension (given : m.Assigns inputs) (extension : M.Extends m)
    (value : theory.evaluate M = .ok true) : ∀ f ∈ fs, f.truth m.total = true := by
  obtain ⟨declared, defined⟩ := (whole M.total).mp (Theory.truth_of_evaluate value)
  have values := labels_truth ((truth_definitions_iff fs k).mp defined)
  intro f member
  have listed : f.truth M.total ∈ (labels stem fs k).map M.total := by
    rw [values]
    exact List.mem_map_of_mem member
  obtain ⟨name, atLabel, same⟩ := List.mem_map.mp listed
  have kept := vocabulary.truth_extension given extension fun name leaf =>
    List.mem_flatMap.mpr ⟨f, member, leaf⟩
  rw [← kept, ← same]
  exact declared name atLabel

/-- A model satisfies all the formulas exactly if it extends to a model of the theory. -/
theorem all_satisfied_iff_extension (given : m.Assigns inputs) :
    (∀ f ∈ fs, f.evaluateShared m = .ok true) ↔
      ∃ M : Model, M.Assigns theory.names ∧ M.Extends m ∧ theory.evaluate M = .ok true := by
  have values : (∀ f ∈ fs, f.evaluateShared m = .ok true) ↔ (fs.all fun f => f.truth m.total) = true := by
    rw [List.all_eq_true]
    refine forall₂_congr fun f member => ?_
    rw [vocabulary.evaluate_formula given member, Except.ok.injEq]
  rw [values]
  constructor
  · intro satisfied
    obtain ⟨M, completes⟩ := vocabulary.exists_completion given
    have value := vocabulary.evaluate_completion whole given completes
    rw [satisfied] at value
    exact ⟨M, completes.assigns, completes.extension, value⟩
  · intro extended
    obtain ⟨M, assigns, extension, value⟩ := extended
    have completes := vocabulary.completes_of_evaluate whole assigns extension value
    rw [vocabulary.evaluate_completion whole given completes, Except.ok.injEq] at value
    exact value

end

end Vocabulary

end Formula

end Clausal
