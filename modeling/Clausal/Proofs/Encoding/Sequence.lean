import Clausal.Proofs.Encoding.Collision
import Clausal.Proofs.Store.Merging

namespace Clausal

open NameSource (numbered Issued)

namespace Formula

/-- Converts formulas one after the other with one source, each with the check or without it. -/
def convertAll (ambient : String) : List (Formula × Bool) → NameSource → Except Fault (List Conversion)
  | [], _ => return []
  | (f, check) :: requests, source => do
    let conversion ← f.convert source ambient check
    let conversions ← convertAll ambient requests conversion.after
    return conversion :: conversions

def conversions (ambient : String) : List Formula → NameSource → List Conversion
  | [], _ => []
  | f :: fs, source =>
    f.conversion source ambient :: conversions ambient fs (f.conversion source ambient).after

theorem convertAll_eq_ok (ambient : String) (requests : List (Formula × Bool)) (source : NameSource)
    (harmless : ∀ request ∈ requests, ∀ n, 1 ≤ n →
      numbered (source.stem ambient) n ∉ request.1.names) :
    convertAll ambient requests source =
      .ok (conversions ambient (requests.map Prod.fst) source) := by
  induction requests generalizing source with
  | nil => rfl
  | cons request requests ih =>
    obtain ⟨f, check⟩ := request
    have accepted : f.clashes source ambient = [] := by
      refine Classical.byContradiction fun clashing => ?_
      obtain ⟨name, member, n, positive, rfl⟩ := (clashes_ne_nil_iff f source ambient).mp clashing
      exact harmless (f, check) List.mem_cons_self n positive member
    have first : f.convert source ambient check = .ok (f.conversion source ambient) :=
      convert_eq_ok fun _ => accepted
    have rest := ih (f.conversion source ambient).after fun request member =>
      harmless request (.tail _ member)
    simp only [convertAll, first, rest, bind, Except.bind]
    rfl

section

variable (ambient : String) (fs : List Formula) (source : NameSource)

theorem length_conversions : (conversions ambient fs source).length = fs.length := by
  induction fs generalizing source with
  | nil => rfl
  | cons f fs ih => rw [conversions, List.length_cons, ih, List.length_cons]

/-- Each formula is converted with the count at which the conversions before it left the source. -/
theorem conversions_at {i : Nat} {f : Formula} {conversion : Conversion} (atFormula : fs[i]? = some f)
    (atConversion : (conversions ambient fs source)[i]? = some conversion) :
    ∃ k, source.count ≤ k ∧ conversion = f.conversion { source with count := k } ambient ∧
      (labels (source.stem ambient) fs source.count)[i]? = some (f.label (source.stem ambient) k) := by
  induction fs generalizing source i with
  | nil => simp at atFormula
  | cons g fs ih =>
    cases i with
    | zero =>
      cases atFormula
      cases atConversion
      exact ⟨source.count, Nat.le_refl _, rfl, rfl⟩
    | succ i =>
      obtain ⟨k, later, same, atLabel⟩ := ih (g.conversion source ambient).after atFormula atConversion
      have passed : (g.conversion source ambient).after.count = source.count + g.composites.length := rfl
      exact ⟨k, by omega, same, atLabel⟩

theorem mem_conversions {conversion : Conversion} (member : conversion ∈ conversions ambient fs source) :
    ∃ f ∈ fs, ∃ k, source.count ≤ k ∧
      conversion = f.conversion { source with count := k } ambient := by
  obtain ⟨i, bound, atIndex⟩ := List.mem_iff_getElem.mp member
  have inside : i < fs.length := by
    rw [← length_conversions ambient fs source]
    exact bound
  have atFormula := List.getElem?_eq_getElem inside
  have atConversion := List.getElem?_eq_some_iff.mpr ⟨bound, atIndex⟩
  obtain ⟨k, later, same, _⟩ := conversions_at ambient fs source atFormula atConversion
  exact ⟨fs[i], List.getElem_mem inside, k, later, same⟩

theorem pairwise_conversions : (conversions ambient fs source).Pairwise fun c d =>
    ∀ name ∈ c.drawnNames ambient, name ∉ d.drawnNames ambient := by
  induction fs generalizing source with
  | nil => exact List.Pairwise.nil
  | cons f fs ih =>
    refine List.pairwise_cons.mpr ⟨?_, ih (f.conversion source ambient).after⟩
    intro d member name early late
    obtain ⟨g, _, k, later, rfl⟩ := mem_conversions ambient fs _ member
    have passed : (f.conversion source ambient).after.count = source.count + f.composites.length := rfl
    obtain ⟨i, _, below, rfl⟩ := (mem_drawn_conversion f source ambient name).mp early
    obtain ⟨j, above, _, same⟩ := (mem_drawn_conversion g _ ambient _).mp late
    have numbers := NameSource.numbered_injective same
    simp only at above
    omega

theorem tail_conversions :
    (⟨(conversions ambient fs source).flatMap fun c => c.theory.clauses.tail⟩ : Theory) =
      definitions (source.stem ambient) fs source.count := by
  rw [definitions, Theory.mk.injEq]
  induction fs generalizing source with
  | nil => rfl
  | cons f fs ih =>
    have rest := ih (f.conversion source ambient).after
    rw [conversions, List.flatMap_cons, rest, gatesAll, List.flatMap_append]
    rfl

theorem mem_names_conversions (name : String) :
    name ∈ (conversions ambient fs source).flatMap (fun c => c.theory.names) ↔
      name ∈ fs.flatMap leaves ∨
        Issued (source.stem ambient) source.count (fs.flatMap composites).length name := by
  induction fs generalizing source with
  | nil => simp [conversions, NameSource.not_issued_zero]
  | cons f fs ih =>
    have first := mem_names_conversion f source ambient name
    have rest := ih (f.conversion source ambient).after
    rw [mem_names_iff] at first
    rw [conversions, List.flatMap_cons, List.mem_append, first, rest, List.flatMap_cons,
      List.flatMap_cons, List.length_append, NameSource.issued_add, List.mem_append]
    exact or_or_or_comm

theorem vocabulary_conversions
    (harmless : ∀ f ∈ fs, ∀ n, 1 ≤ n → numbered (source.stem ambient) n ∉ f.names) :
    Vocabulary (source.stem ambient) source.count fs (fs.flatMap names)
      ((conversions ambient fs source).flatMap fun c => c.theory.names) := by
  constructor
  · intro name
    simp only [List.mem_flatMap, mem_names_iff]
  · exact mem_names_conversions ambient fs source
  · intro name leaf issued
    obtain ⟨n, above, _, rfl⟩ := issued
    obtain ⟨f, member, inside⟩ := List.mem_flatMap.mp leaf
    exact harmless f member n (by omega) ((mem_names_iff f _).mpr inside)

theorem truth_conversions (v : String → Bool) :
    (∀ c ∈ (conversions ambient fs source).flatMap (fun c => c.theory.clauses), c.truth v = true) ↔
      (∀ name ∈ labels (source.stem ambient) fs source.count, v name = true) ∧
        (definitions (source.stem ambient) fs source.count).truth v = true := by
  rw [definitions, Theory.truth, List.all_eq_true]
  induction fs generalizing source with
  | nil => simp [conversions, labels, gatesAll]
  | cons f fs ih =>
    have rest := ih (f.conversion source ambient).after
    have declared : (Clause.declaring (f.label (source.stem ambient) source.count)).truth v =
        v (f.label (source.stem ambient) source.count) := by
      simp [Clause.declaring, Clause.truth]
    have stem : (f.conversion source ambient).after.stem ambient = source.stem ambient := rfl
    have passed : (f.conversion source ambient).after.count = source.count + f.composites.length := rfl
    rw [stem, passed] at rest
    rw [conversions, List.flatMap_cons, List.forall_mem_append, rest, conversion, labels, gatesAll,
      List.flatMap_append, List.forall_mem_append, List.forall_mem_cons, List.forall_mem_cons, declared]
    exact and_and_and_comm

end

section

variable {ambient : String} {fs : List Formula} {source : NameSource}
  (harmless : ∀ f ∈ fs, ∀ n, 1 ≤ n → numbered (source.stem ambient) n ∉ f.names)

include harmless

theorem not_mem_inputs_of_drawn {conversion : Conversion}
    (member : conversion ∈ conversions ambient fs source) {name : String}
    (drawn : name ∈ conversion.drawnNames ambient) : name ∉ fs.flatMap names := by
  intro occurs
  obtain ⟨f, inside, atFormula⟩ := List.mem_flatMap.mp occurs
  obtain ⟨g, _, k, _, rfl⟩ := mem_conversions ambient fs source member
  obtain ⟨n, positive, rfl⟩ := ((mem_drawn_conversion g _ ambient name).mp drawn).reserved
  exact harmless f inside n positive atFormula

/-- A completion gives the name declared for each formula the value of that formula. -/
theorem declared_completion {m M : Model} (given : m.Assigns (fs.flatMap names))
    (completes : M.Completes (definitions (source.stem ambient) fs source.count)
      ((conversions ambient fs source).flatMap fun c => c.theory.names) m)
    {i : Nat} {f : Formula} {conversion : Conversion} (atFormula : fs[i]? = some f)
    (atConversion : (conversions ambient fs source)[i]? = some conversion) :
    ∃ name b, conversion.theory.clauses.head? = some (.declaring name) ∧
      f.evaluateShared m = .ok b ∧ M.get? name = some b := by
  have vocabulary := vocabulary_conversions ambient fs source harmless
  obtain ⟨k, _, rfl, atLabel⟩ := conversions_at ambient fs source atFormula atConversion
  have evaluated := vocabulary.evaluate_formula given (List.mem_of_getElem? atFormula)
  have value := vocabulary.get?_label given completes atFormula atLabel
  exact ⟨f.label (source.stem ambient) k, f.truth m.total, rfl, evaluated, value⟩

section

variable {merged : Theory}
  (whole : ∀ c, c ∈ merged.clauses ↔ ∃ conversion ∈ conversions ambient fs source,
    c ∈ conversion.theory.clauses)

include whole

theorem vocabulary_merged : Vocabulary (source.stem ambient) source.count fs (fs.flatMap names)
    merged.names := by
  have vocabulary := vocabulary_conversions ambient fs source harmless
  refine ⟨vocabulary.mem_inputs, fun name => ?_, vocabulary.fresh⟩
  rw [← vocabulary.mem_names, Theory.mem_names_iff, List.mem_flatMap]
  constructor
  · intro known
    obtain ⟨c, inside, mentioned⟩ := known
    obtain ⟨conversion, member, atClause⟩ := (whole c).mp inside
    exact ⟨conversion, member, (Theory.mem_names_iff _ _).mpr ⟨c, atClause, mentioned⟩⟩
  · intro known
    obtain ⟨conversion, member, inside⟩ := known
    obtain ⟨c, atClause, mentioned⟩ := (Theory.mem_names_iff _ _).mp inside
    exact ⟨c, (whole c).mpr ⟨conversion, member, atClause⟩, mentioned⟩

omit harmless in
theorem truth_merged (v : String → Bool) : merged.truth v = true ↔
    (∀ name ∈ labels (source.stem ambient) fs source.count, v name = true) ∧
      (definitions (source.stem ambient) fs source.count).truth v = true := by
  rw [← truth_conversions, Theory.truth, List.all_eq_true]
  refine forall_congr' fun c => ?_
  rw [whole c, List.mem_flatMap]

end

end

/-- Conversions that share a source compose. If no formula has a variable that is the stem with a
number from one on, then no two conversions draw a name in common and none draws a variable; every
model of all variables has exactly one completion that satisfies all definitions, and there each
declared name has the value of its formula; and if the theories are merged into one, in whatever
order and with whatever empty theories, its models, restricted to the variables, are exactly the
models of all formulas. -/
theorem convertAll_composes (requests : List (Formula × Bool)) (source : NameSource) (ambient : String)
    (harmless : ∀ request ∈ requests, ∀ n, 1 ≤ n →
      numbered (source.stem ambient) n ∉ request.1.names) :
    let fs := requests.map Prod.fst
    let inputs := fs.flatMap names
    ∃ results, convertAll ambient requests source = .ok results ∧ results.length = fs.length ∧
      (∀ (i : Nat) (f : Formula) (c : Conversion), fs[i]? = some f → results[i]? = some c →
        ∀ name, name ∈ c.theory.names ↔ name ∈ f.names ∨ name ∈ c.drawnNames ambient) ∧
      (results.Pairwise fun c d => ∀ name ∈ c.drawnNames ambient, name ∉ d.drawnNames ambient) ∧
      (∀ c ∈ results, ∀ name ∈ c.drawnNames ambient, name ∉ inputs) ∧
      (∀ m : Model, m.Assigns inputs → ∃ M : Model,
        M.Completes ⟨results.flatMap fun c => c.theory.clauses.tail⟩
          (results.flatMap fun c => c.theory.names) m ∧
        (∀ other : Model, other.Completes ⟨results.flatMap fun c => c.theory.clauses.tail⟩
          (results.flatMap fun c => c.theory.names) m → other.Same M) ∧
        ∀ (i : Nat) (f : Formula) (c : Conversion), fs[i]? = some f → results[i]? = some c → ∃ name b,
          c.theory.clauses.head? = some (.declaring name) ∧ f.evaluateShared m = .ok b ∧
            M.get? name = some b) ∧
      ∀ (store : Store) (blanks : Nat) (pairs : List (TheoryId × TheoryId)),
        let stored := store.addTheories (results.map Conversion.theory ++ List.replicate blanks ⟨[]⟩)
        (∀ pair ∈ pairs, pair.1 ∈ stored.1 ∧ pair.2 ∈ stored.1 ∧ pair.1 ≠ pair.2) →
        ∃ final, stored.2.mergeAll pairs = .ok final ∧ ∀ target ∈ stored.1,
          (∀ t ∈ stored.1, t ≠ target → (final.theory t).clauses = []) →
          (∀ M : Model, M.Assigns (final.theory target).names → (M.restrict inputs).Assigns inputs) ∧
          ∀ m : Model, m.Assigns inputs → ((∀ f ∈ fs, f.evaluateShared m = .ok true) ↔
            ∃ M : Model, M.Assigns (final.theory target).names ∧
              (final.theory target).evaluate M = .ok true ∧ m.Same (M.restrict inputs)) := by
  intro fs inputs
  have harmless' : ∀ f ∈ fs, ∀ n, 1 ≤ n → numbered (source.stem ambient) n ∉ f.names :=
    List.forall_mem_map.mpr harmless
  have vocabulary := vocabulary_conversions ambient fs source harmless'
  have done := convertAll_eq_ok ambient requests source harmless
  refine ⟨conversions ambient fs source, done, length_conversions ambient fs source, ?_,
    pairwise_conversions ambient fs source, ?_, ?_, ?_⟩
  · intro i f c atFormula atConversion name
    obtain ⟨k, _, rfl, _⟩ := conversions_at ambient fs source atFormula atConversion
    have drawn := mem_drawn_conversion f { source with count := k } ambient name
    rw [mem_names_conversion, ← drawn]
    exact Iff.rfl
  · intro c member name drawn
    exact not_mem_inputs_of_drawn harmless' member drawn
  · intro m given
    obtain ⟨M, completes⟩ := vocabulary.exists_completion given
    rw [tail_conversions]
    refine ⟨M, completes, fun other => vocabulary.completion_unique given completes, ?_⟩
    intro i f c atFormula atConversion
    exact declared_completion harmless' given completes atFormula atConversion
  · intro store blanks pairs stored within
    obtain ⟨final, merging, gathered⟩ := Store.mem_merged_iff store
      ((conversions ambient fs source).map Conversion.theory) blanks within
    refine ⟨final, merging, fun target inside others => ?_⟩
    have whole : ∀ c, c ∈ (final.theory target).clauses ↔
        ∃ conversion ∈ conversions ambient fs source, c ∈ conversion.theory.clauses := by
      intro c
      rw [gathered target inside others]
      constructor
      · intro gathered
        obtain ⟨t, result, holds⟩ := gathered
        obtain ⟨conversion, among, rfl⟩ := List.mem_map.mp result
        exact ⟨conversion, among, holds⟩
      · intro converted
        obtain ⟨conversion, among, holds⟩ := converted
        exact ⟨conversion.theory, List.mem_map_of_mem among, holds⟩
    have vocabularyMerged := vocabulary_merged harmless' whole
    refine ⟨fun M assigns => ?_, fun m given => ?_⟩
    · exact assigns.restrict vocabularyMerged.inputs_subset
    · rw [vocabularyMerged.all_satisfied_iff_extension (truth_merged whole) given]
      refine exists_congr fun M => and_congr_right fun assigns => ?_
      rw [and_comm, given.extends_iff]

/-- Formulas may share variables, and a variable may be the bare stem. -/
theorem convertAll_composes_of_shared_variable :
    let requests := [(disj [var "p", neg (var "q")], true), (iff (var "q") (var "_x"), false)]
    let m : Model := ⟨[("p", true), ("q", false), ("_x", false)]⟩
    let inputs := (requests.map Prod.fst).flatMap names
    (∀ request ∈ requests, ∀ n, 1 ≤ n → numbered "_x" n ∉ request.1.names) ∧ m.Assigns inputs ∧
      ∃ results, convertAll "_x" requests {} = .ok results ∧ ∃ final,
        (Store.addTheories (results.map Conversion.theory ++ [⟨[]⟩]) {}).2.mergeAll
          [(⟨2⟩, ⟨1⟩), (⟨2⟩, ⟨0⟩)] = .ok final ∧
        ∃ M : Model, M.Assigns (final.theory ⟨2⟩).names ∧ (final.theory ⟨2⟩).evaluate M = .ok true ∧
          m.Same (M.restrict inputs) := by
  intro requests m inputs
  have clean : ∀ request ∈ requests, ∀ name ∈ request.1.leaves,
      NameSource.recognises {} "_x" name = false := by decide +kernel
  have harmless : ∀ request ∈ requests, ∀ n, 1 ≤ n → numbered "_x" n ∉ request.1.names := by
    intro request member n positive inside
    have recognised := (NameSource.recognises_iff {} "_x" (numbered "_x" n)).mpr ⟨n, positive, rfl⟩
    rw [clean request member _ ((mem_names_iff _ _).mp inside)] at recognised
    cases recognised
  have given : m.Assigns inputs := by
    refine ⟨by decide, fun name => ?_⟩
    have keys : m.keys = ["p", "q", "_x"] := rfl
    have listed : (requests.map Prod.fst).flatMap leaves = ["p", "q", "q", "_x"] := rfl
    have union : name ∈ inputs ↔ name ∈ (requests.map Prod.fst).flatMap leaves := by
      simp only [inputs, List.mem_flatMap, mem_names_iff]
    rw [union, keys, listed]
    simp
  have satisfied : ∀ f ∈ requests.map Prod.fst, f.evaluateShared m = .ok true := by
    simp only [evaluateShared_eq_evaluate]
    exact List.forall_mem_cons.mpr ⟨rfl, List.forall_mem_singleton.mpr rfl⟩
  obtain ⟨results, done, _, _, _, _, _, merging⟩ := convertAll_composes requests {} "_x" harmless
  have same : conversions "_x" (requests.map Prod.fst) {} = results :=
    Except.ok.inj ((convertAll_eq_ok "_x" requests {} harmless).symm.trans done)
  subst same
  let stored := Store.addTheories ((conversions "_x" (requests.map Prod.fst) {}).map Conversion.theory ++
    [⟨[]⟩]) {}
  obtain ⟨final, merged, models⟩ := merging {} 1 [(⟨2⟩, ⟨1⟩), (⟨2⟩, ⟨0⟩)] (by decide +kernel)
  have emptied : ∀ t ∈ stored.1, t ≠ ⟨2⟩ → (final.theory t).clauses = [] := by
    cases merged
    decide +kernel
  have target : ⟨2⟩ ∈ stored.1 := by decide +kernel
  obtain ⟨_, agree⟩ := models ⟨2⟩ target emptied
  obtain ⟨M, assigns, value, restricted⟩ := (agree m given).mp satisfied
  exact ⟨harmless, given, _, done, final, merged, M, assigns, value, restricted⟩

end Formula

end Clausal
