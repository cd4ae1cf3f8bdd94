import Clausal.Encoding.Convert
import Clausal.Proofs.Encoding.Gate
import Clausal.Proofs.Naming.Numeral

namespace Clausal

open NameSource (numbered)

namespace Formula

/-- The name that stands for a formula whose conversion begins after `k` names were drawn. -/
def label (stem : String) (k : Nat) : Formula → String
  | var name => name
  | _ => numbered stem (k + 1)

def labels (stem : String) : List Formula → Nat → List String
  | [], _ => []
  | f :: fs, k => f.label stem k :: labels stem fs (k + f.composites.length)

mutual

/-- The gates by which the names of the composite subformulas are defined, children before their
parents. Parents have the smaller numbers. -/
def gates (stem : String) : Formula → Nat → List Gate
  | var _, _ => []
  | neg sub, k =>
    sub.gates stem (k + 1) ++ [⟨.neg, numbered stem (k + 1), [sub.label stem (k + 1)]⟩]
  | conj subs, k =>
    gatesAll stem subs (k + 1) ++ [⟨.conj, numbered stem (k + 1), labels stem subs (k + 1)⟩]
  | disj subs, k =>
    gatesAll stem subs (k + 1) ++ [⟨.disj, numbered stem (k + 1), labels stem subs (k + 1)⟩]
  | imp left right, k =>
    left.gates stem (k + 1) ++ right.gates stem (k + 1 + left.composites.length) ++
      [⟨.imp, numbered stem (k + 1),
        [left.label stem (k + 1), right.label stem (k + 1 + left.composites.length)]⟩]
  | iff left right, k =>
    left.gates stem (k + 1) ++ right.gates stem (k + 1 + left.composites.length) ++
      [⟨.iff, numbered stem (k + 1),
        [left.label stem (k + 1), right.label stem (k + 1 + left.composites.length)]⟩]

def gatesAll (stem : String) : List Formula → Nat → List Gate
  | [], _ => []
  | f :: fs, k => f.gates stem k ++ gatesAll stem fs (k + f.composites.length)

end

/-- The clauses that define the names drawn for formulas converted one after the other. -/
def definitions (stem : String) (fs : List Formula) (k : Nat) : Theory :=
  ⟨(gatesAll stem fs k).flatMap Gate.clauses⟩

theorem label_node {c : Connective} {f : Formula} (root : f.connective? = some c) (stem : String)
    (k : Nat) : f.label stem k = numbered stem (k + 1) := by
  cases f <;> cases root <;> rfl

theorem gates_node {c : Connective} {f : Formula} (root : f.connective? = some c) (stem : String)
    (k : Nat) : f.gates stem k =
      gatesAll stem f.subs (k + 1) ++ [⟨c, numbered stem (k + 1), labels stem f.subs (k + 1)⟩] := by
  cases f <;> cases root <;> simp [gates, gatesAll, labels, subs]

theorem length_labels (stem : String) (fs : List Formula) (k : Nat) :
    (labels stem fs k).length = fs.length := by
  induction fs generalizing k with
  | nil => rfl
  | cons f fs ih => rw [labels, List.length_cons, ih, List.length_cons]

theorem gates_fit (stem : String) :
    (∀ f : Formula, ∀ k, ∀ g ∈ f.gates stem k, g.Fits) ∧
      ∀ fs : List Formula, ∀ k, ∀ g ∈ gatesAll stem fs k, g.Fits := by
  refine forest_induction ?var ?node ?nil ?cons
  case var =>
    intro name k g member
    simp [gates] at member
  case node =>
    intro c f root ih k g member
    rw [gates_node root, List.mem_append, List.mem_singleton] at member
    rcases member with inside | rfl
    · exact ih (k + 1) g inside
    · have joins := connective_joins root
      rwa [← length_labels stem f.subs (k + 1)] at joins
  case nil =>
    intro k g member
    simp [gatesAll] at member
  case cons =>
    intro f fs ihf ihs k g member
    rw [gatesAll, List.mem_append] at member
    rcases member with first | rest
    · exact ihf k g first
    · exact ihs _ g rest

end Formula

namespace Encoding

open Formula

/-- A conversion that went on by drawing names and defining gates. -/
def Progress.advance (progress : Progress) (drawn : Nat) (gates : List Gate) : Progress where
  source := { progress.source with count := progress.source.count + drawn }
  definitions := progress.definitions ++ gates.flatMap Gate.clauses

@[simp]
theorem Progress.advance_count (progress : Progress) (drawn : Nat) (gates : List Gate) :
    (progress.advance drawn gates).source.count = progress.source.count + drawn := rfl

@[simp]
theorem Progress.advance_stem (progress : Progress) (drawn : Nat) (gates : List Gate)
    (ambient : String) :
    (progress.advance drawn gates).source.stem ambient = progress.source.stem ambient := rfl

theorem Progress.advance_advance (progress : Progress) (m n : Nat) (gs hs : List Gate) :
    (progress.advance m gs).advance n hs = progress.advance (m + n) (gs ++ hs) := by
  have appended : progress.definitions ++ gs.flatMap Gate.clauses ++ hs.flatMap Gate.clauses =
      progress.definitions ++ (gs ++ hs).flatMap Gate.clauses := by
    apply Array.toList_inj.mp
    simp
  simp only [advance, appended, Nat.add_assoc]

theorem Progress.advance_zero (progress : Progress) : progress.advance 0 [] = progress := by
  simp [advance]

/-- The subformulas of a node are visited one after the other, whatever its connective. -/
theorem visit_node (ambient : String) {c : Connective} {f : Formula} (root : f.connective? = some c)
    (progress : Progress) :
    visit ambient f progress = join ambient c (visitAll ambient f.subs) progress := by
  cases f <;> cases root <;> simp [visit, visitAll, subs]

theorem declaredBy_declaring (name : String) (progress : Progress) :
    declaredBy (⟨[.declaring name]⟩, progress) = .ok (name, progress) := rfl

/-- A node draws its own name before its subformulas are visited and adds its gate after them. -/
theorem join_eq_ok (ambient : String) {c : Connective} {parts : List String} (joins : c.Joins parts.length)
    {visitSubs : Progress → Except Fault (List String × Progress)} {progress : Progress} {drawn : Nat}
    {gates : List Gate} (visited : visitSubs (progress.advance 1 []) =
      .ok (parts, (progress.advance 1 []).advance drawn gates)) :
    join ambient c visitSubs progress =
      .ok (⟨[.declaring (numbered (progress.source.stem ambient) (progress.source.count + 1))]⟩,
        progress.advance (drawn + 1)
          (gates ++ [⟨c, numbered (progress.source.stem ambient) (progress.source.count + 1), parts⟩])) := by
  have first : { progress with source := (progress.source.draw ambient).2 } = progress.advance 1 [] := by
    rw [NameSource.draw_eq]
    simp [Progress.advance]
  let gate : Gate := ⟨c, numbered (progress.source.stem ambient) (progress.source.count + 1), parts⟩
  have defined : c.defining (progress.source.draw ambient).1 parts = .ok gate.clauses :=
    Gate.defining_eq_ok (g := gate) joins
  have last : progress.advance (drawn + 1) (gates ++ [gate]) =
      ((progress.advance 1 []).advance drawn gates).advance 0 [gate] := by
    rw [Progress.advance_advance, Progress.advance_advance, Nat.add_zero, Nat.add_comm 1,
      List.nil_append]
  rw [last, join]
  simp only [first, visited, defined, bind, Except.bind]
  simp [Progress.advance, NameSource.draw_eq, gate, pure, Except.pure]

/-- A visit draws one name for each composite occurrence, appends the gates of the formula, and
declares its label. It never fails. -/
theorem visit_eq_ok (ambient : String) :
    (∀ f : Formula, ∀ progress, visit ambient f progress =
      .ok (⟨[.declaring (f.label (progress.source.stem ambient) progress.source.count)]⟩,
        progress.advance f.composites.length
          (f.gates (progress.source.stem ambient) progress.source.count))) ∧
    ∀ fs : List Formula, ∀ progress, visitAll ambient fs progress =
      .ok (labels (progress.source.stem ambient) fs progress.source.count,
        progress.advance (fs.flatMap composites).length
          (gatesAll (progress.source.stem ambient) fs progress.source.count)) := by
  refine forest_induction ?var ?node ?nil ?cons
  case var =>
    intro name progress
    rw [visit, composites_var, gates, List.length_nil, Progress.advance_zero]
    rfl
  case node =>
    intro c f root ih progress
    have joins := connective_joins root
    rw [← length_labels (progress.source.stem ambient) f.subs (progress.source.count + 1)] at joins
    have visited := ih (progress.advance 1 [])
    rw [Progress.advance_stem, Progress.advance_count] at visited
    rw [visit_node ambient root, join_eq_ok ambient joins visited, label_node root, gates_node root,
      composites_node root, List.length_cons]
  case nil =>
    intro progress
    rw [visitAll, labels, gatesAll, List.flatMap_nil, List.length_nil, Progress.advance_zero]
    rfl
  case cons =>
    intro f fs ihf ihs progress
    simp only [visitAll, ihf, bind, Except.bind, declaredBy_declaring, ihs, Progress.advance_stem,
      Progress.advance_count, Progress.advance_advance, labels, gatesAll, List.flatMap_cons,
      List.length_append]
    rfl

end Encoding

namespace Formula

/-- What the conversion of a formula comes to: the declaration of its label, then the clauses of its
gates, and one name drawn for each composite occurrence. -/
def conversion (f : Formula) (source : NameSource) (ambient : String) : Conversion where
  theory := ⟨.declaring (f.label (source.stem ambient) source.count) ::
    (f.gates (source.stem ambient) source.count).flatMap Gate.clauses⟩
  before := source
  after := { source with count := source.count + f.composites.length }

theorem passed_check {f : Formula} {source : NameSource} {ambient : String} {check : Bool}
    (accepted : check = true → f.clashes source ambient = []) :
    ¬(check && !(f.clashes source ambient).isEmpty) = true := by
  cases check with
  | false => exact Bool.false_ne_true
  | true => simp [accepted rfl]

theorem convert_eq_ok {f : Formula} {source : NameSource} {ambient : String} {check : Bool}
    (accepted : check = true → f.clashes source ambient = []) :
    f.convert source ambient check = .ok (f.conversion source ambient) := by
  have visited := (Encoding.visit_eq_ok ambient).1 f { source }
  simp only [convert, passed_check accepted, visited, bind, Except.bind]
  simp [conversion, Encoding.Progress.advance, Theory.append, pure, Except.pure]

theorem convert_eq_error {f : Formula} {source : NameSource} {ambient : String}
    (clashing : f.clashes source ambient ≠ []) :
    f.convert source ambient true =
      .error (.clashes (f.clashes source ambient) (source.code ambient)) := by
  have failed : (true && !(f.clashes source ambient).isEmpty) = true := by
    simpa using clashing
  rw [convert, if_pos failed]
  rfl

end Formula

end Clausal
