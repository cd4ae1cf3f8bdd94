import Clausal.Proofs.Encoding.Translation
import Clausal.Proofs.Formula.Position
import Clausal.Proofs.Formula.Walk

namespace Clausal

open NameSource (numbered)

/-- A theory that declares a name in its first clause: the name, and the clauses after that one. -/
structure Declaration where
  name : String
  rest : List Clause

def Declaration.theory (d : Declaration) : Theory :=
  ⟨⟨[.pos d.name]⟩ :: d.rest⟩

namespace Formula

mutual

/-- The clausal form of a formula, rule by rule, and the source as it is left. A variable declares
itself. Any other formula draws a name and declares it; then come the clauses of its subformulas
from left to right, each without its declaration, and last the clauses that define the name. -/
def compose (ambient : String) : Formula → NameSource → Declaration × NameSource
  | var name, source => (⟨name, []⟩, source)
  | neg sub, source =>
    let (a, source) := source.draw ambient
    let (b, source) := sub.compose ambient source
    (⟨a, b.rest ++ [⟨[.neg a, .neg b.name]⟩, ⟨[.pos a, .pos b.name]⟩]⟩, source)
  | conj subs, source =>
    let (a, source) := source.draw ambient
    let (cs, source) := composeAll ambient subs source
    (⟨a, cs.flatMap Declaration.rest ++ (cs.map fun c => ⟨[.neg a, .pos c.name]⟩) ++
      [⟨.pos a :: cs.map fun c => .neg c.name⟩]⟩, source)
  | disj subs, source =>
    let (a, source) := source.draw ambient
    let (cs, source) := composeAll ambient subs source
    (⟨a, cs.flatMap Declaration.rest ++ (cs.map fun c => ⟨[.pos a, .neg c.name]⟩) ++
      [⟨.neg a :: cs.map fun c => .pos c.name⟩]⟩, source)
  | imp left right, source =>
    let (a, source) := source.draw ambient
    let (l, source) := left.compose ambient source
    let (r, source) := right.compose ambient source
    (⟨a, l.rest ++ r.rest ++ [⟨[.neg a, .neg l.name, .pos r.name]⟩, ⟨[.pos l.name, .pos a]⟩,
      ⟨[.neg r.name, .pos a]⟩]⟩, source)
  | iff left right, source =>
    let (a, source) := source.draw ambient
    let (l, source) := left.compose ambient source
    let (r, source) := right.compose ambient source
    (⟨a, l.rest ++ r.rest ++ [⟨[.neg a, .neg l.name, .pos r.name]⟩,
      ⟨[.neg a, .pos l.name, .neg r.name]⟩, ⟨[.pos a, .neg l.name, .neg r.name]⟩,
      ⟨[.pos a, .pos l.name, .pos r.name]⟩]⟩, source)

def composeAll (ambient : String) : List Formula → NameSource → List Declaration × NameSource
  | [], source => ([], source)
  | f :: fs, source =>
    let (d, source) := f.compose ambient source
    let (ds, source) := composeAll ambient fs source
    (d :: ds, source)

end

/-- The rules have one form, whatever the connective: they end with the clauses of a gate. -/
theorem compose_node {c : Connective} {f : Formula} (root : f.connective? = some c) (ambient : String)
    (source : NameSource) : f.compose ambient source =
      let (name, drawn) := source.draw ambient
      let (parts, after) := composeAll ambient f.subs drawn
      (⟨name, parts.flatMap Declaration.rest ++
        Gate.clauses ⟨c, name, parts.map Declaration.name⟩⟩, after) := by
  cases f <;> cases root <;>
    simp [compose, composeAll, subs, Gate.clauses, Connective.defining, Function.comp_def]

/-- By the rules, the label of a formula is declared and the clauses of its gates follow. -/
theorem compose_eq (ambient : String) :
    (∀ (f : Formula) (source : NameSource), f.compose ambient source =
      (⟨f.label (source.stem ambient) source.count,
        (f.gates (source.stem ambient) source.count).flatMap Gate.clauses⟩,
        { source with count := source.count + f.composites.length })) ∧
    ∀ (fs : List Formula) (source : NameSource),
      (composeAll ambient fs source).1.map Declaration.name =
          labels (source.stem ambient) fs source.count ∧
        (composeAll ambient fs source).1.flatMap Declaration.rest =
          (gatesAll (source.stem ambient) fs source.count).flatMap Gate.clauses ∧
        (composeAll ambient fs source).2 =
          { source with count := source.count + (fs.flatMap composites).length } := by
  refine forest_induction ?var ?node ?nil ?cons
  case var => exact fun name source => rfl
  case node =>
    intro c f root ih source
    obtain ⟨names, rests, after⟩ := ih { source with count := source.count + 1 }
    have stem : NameSource.stem { source with count := source.count + 1 } ambient =
        source.stem ambient := rfl
    rw [stem] at names rests
    rw [compose_node root, NameSource.draw_eq]
    simp only [names, rests, after, label_node root, gates_node root, composites_node root,
      List.flatMap_append, List.flatMap_singleton, List.length_cons, Nat.add_assoc, Nat.add_comm 1]
  case nil => exact fun source => ⟨rfl, rfl, rfl⟩
  case cons =>
    intro f fs ihf ihs source
    obtain ⟨names, rests, after⟩ := ihs { source with count := source.count + f.composites.length }
    rw [composeAll, ihf source]
    refine ⟨?_, ?_, ?_⟩
    · rw [List.map_cons, names]
      rfl
    · rw [List.flatMap_cons, rests, gatesAll, List.flatMap_append]
      rfl
    · rw [after, List.flatMap_cons, List.length_append, Nat.add_assoc]

/-- The name by which the occurrence at a position goes: a variable goes by its own, and a composite
formula by the stem with its number among the composite occurrences in preorder. -/
def nameAt (f : Formula) (stem : String) (k : Nat) (p : Position) : String :=
  match f.at? p with
  | some (var name) => name
  | _ => numbered stem (k + f.preorderPositions.idxOf p + 1)

/-- The clauses that define the composite occurrence at a position, where the occurrences go by
given names. -/
def clausesAt (f : Formula) (names : Position → String) (p : Position) : List Clause :=
  match f.at? p with
  | none => []
  | some g =>
    match g.connective? with
    | none => []
    | some c => Gate.clauses ⟨c, names p, (List.range g.subs.length).map fun i => names (p ++ [i])⟩

/-- The composite occurrences go by the numbers after `k` in preorder, and variables by their own
names. -/
structure NamedBy (f : Formula) (stem : String) (k : Nat) (names : Position → String) : Prop where
  composite : ∀ i p, f.preorderPositions[i]? = some p → names p = numbered stem (k + i + 1)
  leaf : ∀ p name, f.at? p = some (var name) → names p = name

theorem namedBy_nameAt (f : Formula) (stem : String) (k : Nat) :
    f.NamedBy stem k (f.nameAt stem k) := by
  constructor
  · intro i p atIndex
    have occurs : f.at? p ∈ f.composites.map some := by
      rw [← at?_preorderPositions.1 f]
      exact List.mem_map_of_mem (List.mem_of_getElem? atIndex)
    obtain ⟨g, member, at_p⟩ := List.mem_map.mp occurs
    obtain ⟨inside, rfl⟩ := List.getElem?_eq_some_iff.mp atIndex
    have index := List.Nodup.idxOf_getElem (nodup_preorderPositions.1 f) i inside
    cases g with
    | var name => simp [composites, connective?] at member
    | _ => rw [nameAt, ← at_p, index]
  · intro p name at_p
    rw [nameAt, at_p]

theorem clausesAt_cons {f g : Formula} {i : Nat} (child : f.subs[i]? = some g)
    (names : Position → String) (p : Position) :
    f.clausesAt names (i :: p) = g.clausesAt (fun q => names (i :: q)) p := by
  simp only [clausesAt, at?_cons child, List.cons_append]

/-- The numbers of the occurrences below a child follow those below the children before it. -/
theorem NamedBy.child {parent g : Formula} {gs : List Formula} {stem : String} {i k : Nat}
    {names : Position → String} (child : parent.subs[i]? = some g)
    (numbers : ∀ n p, (positionsBelow (fun below => [] :: below) (g :: gs) i)[n]? = some p →
      names p = numbered stem (k + n + 1))
    (leaves : ∀ p name, parent.at? p = some (var name) → names p = name) :
    g.NamedBy stem k (fun p => names (i :: p)) ∧
      ∀ n p, (positionsBelow (fun below => [] :: below) gs (i + 1))[n]? = some p →
        names p = numbered stem (k + g.composites.length + n + 1) := by
  have length : (g.preorderPositions.map (i :: ·)).length = g.composites.length := by
    rw [List.length_map, length_preorderPositions]
  refine ⟨⟨fun n p atIndex => ?_, fun p name atLeaf => ?_⟩, fun n p atIndex => ?_⟩
  · have bound := (List.getElem?_eq_some_iff.mp atIndex).1
    refine numbers n (i :: p) ?_
    rw [positionsBelow, List.getElem?_append_left (by rw [List.length_map]; exact bound),
      List.getElem?_map]
    exact congrArg (Option.map (i :: ·)) atIndex
  · exact leaves (i :: p) name ((at?_cons child p).trans atLeaf)
  · rw [Nat.add_assoc k]
    refine numbers (g.composites.length + n) p ?_
    rw [positionsBelow, ← length]
    change (g.preorderPositions.map (i :: ·) ++ _)[_]? = _
    rw [List.getElem?_append_right (Nat.le_add_right _ _), Nat.add_sub_cancel_left]
    exact atIndex

/-- The gates of a formula are those of its composite occurrences in postorder. The induction goes
along with the naming: a child is named from the number that the children before it come to. -/
theorem gates_eq_postorder (stem : String) :
    (∀ (f : Formula) (k : Nat) (names : Position → String), f.NamedBy stem k names →
      names [] = f.label stem k ∧
        (f.gates stem k).flatMap Gate.clauses = f.postorderPositions.flatMap (f.clausesAt names)) ∧
    ∀ (fs : List Formula) (parent : Formula) (i k : Nat) (names : Position → String),
      parent.subs.drop i = fs →
      (∀ n p, (positionsBelow (fun below => [] :: below) fs i)[n]? = some p →
        names p = numbered stem (k + n + 1)) →
      (∀ p name, parent.at? p = some (var name) → names p = name) →
      (List.range' i fs.length).map (fun j => names [j]) = labels stem fs k ∧
        (gatesAll stem fs k).flatMap Gate.clauses =
          (positionsBelow (fun below => below ++ [[]]) fs i).flatMap (parent.clausesAt names) := by
  refine forest_induction ?var ?node ?nil ?cons
  case var =>
    intro name k names named
    exact ⟨named.leaf [] name rfl, rfl⟩
  case node =>
    intro c f root ih k names named
    have positions : f.preorderPositions = [] :: positionsBelow (fun below => [] :: below) f.subs 0 :=
      positions_node root _
    have own : names [] = numbered stem (k + 1) := named.composite 0 [] (by rw [positions]; rfl)
    have below : ∀ n p, (positionsBelow (fun below => [] :: below) f.subs 0)[n]? = some p →
        names p = numbered stem (k + 1 + n + 1) := by
      intro n p atIndex
      rw [Nat.add_right_comm k 1 n]
      exact named.composite (n + 1) p (by rw [positions]; exact atIndex)
    obtain ⟨labels, gates⟩ := ih f 0 (k + 1) names List.drop_zero below named.leaf
    rw [← List.range_eq_range'] at labels
    have last : f.clausesAt names [] =
        Gate.clauses ⟨c, numbered stem (k + 1), Formula.labels stem f.subs (k + 1)⟩ := by
      rw [clausesAt, at?, ← own, ← labels]
      simp only [root, List.nil_append]
    refine ⟨own.trans (label_node root stem k).symm, ?_⟩
    rw [gates_node root, postorderPositions, positions_node root, List.flatMap_append,
      List.flatMap_append, gates, List.flatMap_singleton, List.flatMap_singleton, last]
  case nil => exact fun parent i k names rest numbers leaves => ⟨rfl, rfl⟩
  case cons =>
    intro g gs ihg ihs parent i k names rest numbers leaves
    obtain ⟨child, later⟩ := subs_of_drop rest
    obtain ⟨named, numbers⟩ := NamedBy.child child numbers leaves
    obtain ⟨label, gates⟩ := ihg k _ named
    obtain ⟨labels, gatesAfter⟩ := ihs parent (i + 1) _ names later numbers leaves
    have inside : (g.postorderPositions.map (i :: ·)).flatMap (parent.clausesAt names) =
        g.postorderPositions.flatMap (g.clausesAt fun p => names (i :: p)) := by
      rw [List.flatMap_map]
      exact congrArg g.postorderPositions.flatMap (funext (clausesAt_cons child names))
    refine ⟨?_, ?_⟩
    · rw [List.length_cons, List.range'_succ, List.map_cons, labels, label]
      rfl
    · rw [gatesAll, List.flatMap_append, gates, gatesAfter, ← inside, ← List.flatMap_append]
      rfl

/-- Conversion comes to what the rules say, clause by clause and literal by literal, and leaves the
source as they do. So the composite occurrences get the numbers after the count in preorder, while
their defining clauses come in postorder. -/
theorem convert_eq_compose (f : Formula) (source : NameSource) (ambient : String) (check : Bool)
    (accepted : check = true → f.clashes source ambient = []) :
    ∃ conversion, f.convert source ambient check = .ok conversion ∧
      conversion.theory = (f.compose ambient source).1.theory ∧
      conversion.after = (f.compose ambient source).2 ∧
      conversion.after.count = source.count + f.preorderPositions.length ∧
      f.preorderPositions.map f.at? = f.composites.map some ∧
      f.postorderPositions.Perm f.preorderPositions ∧
      (∀ i p, f.preorderPositions[i]? = some p →
        f.nameAt (source.stem ambient) source.count p =
          numbered (source.stem ambient) (source.count + i + 1)) ∧
      conversion.theory.clauses = .declaring (f.nameAt (source.stem ambient) source.count []) ::
        f.postorderPositions.flatMap (f.clausesAt (f.nameAt (source.stem ambient) source.count)) := by
  have named := namedBy_nameAt f (source.stem ambient) source.count
  obtain ⟨label, gates⟩ := (gates_eq_postorder (source.stem ambient)).1 f source.count _ named
  have composed := (compose_eq ambient).1 f source
  refine ⟨f.conversion source ambient, convert_eq_ok accepted, ?_, ?_, ?_, at?_preorderPositions.1 f,
    postorderPositions_perm.1 f, named.composite, ?_⟩
  · rw [composed]
    rfl
  · rw [composed]
    rfl
  · rw [length_preorderPositions]
    rfl
  · rw [label, ← gates]
    rfl

/-- Equal subformulas are named and defined once for each occurrence. -/
theorem convert_eq_compose_of_repetition :
    let f := conj [neg (var "p"), neg (var "p"), disj []]
    let source : NameSource := { count := 4 }
    f.clashes source "_x" = [] ∧ ∃ conversion, f.convert source "_x" true = .ok conversion ∧
      conversion.theory = (f.compose "_x" source).1.theory ∧ conversion.after.count = 8 ∧
      f.preorderPositions = [[], [0], [1], [2]] ∧ f.postorderPositions = [[0], [1], [2], []] ∧
      conversion.theory.clauses = [⟨[.pos "_x5"]⟩,
        ⟨[.neg "_x6", .neg "p"]⟩, ⟨[.pos "_x6", .pos "p"]⟩,
        ⟨[.neg "_x7", .neg "p"]⟩, ⟨[.pos "_x7", .pos "p"]⟩, ⟨[.neg "_x8"]⟩,
        ⟨[.neg "_x5", .pos "_x6"]⟩, ⟨[.neg "_x5", .pos "_x7"]⟩, ⟨[.neg "_x5", .pos "_x8"]⟩,
        ⟨[.pos "_x5", .neg "_x6", .neg "_x7", .neg "_x8"]⟩] := by
  intro f source
  have accepted : f.clashes source "_x" = [] := by
    refine List.filter_eq_nil_iff.mpr fun name member => ?_
    have leaves : f.leaves = ["p", "p"] := rfl
    rw [mem_names_iff, leaves] at member
    have atLeaf : name = "p" := by simpa using member
    rw [atLeaf]
    decide
  obtain ⟨conversion, done, theory, after, _⟩ :=
    convert_eq_compose f source "_x" true fun _ => accepted
  refine ⟨accepted, conversion, done, theory, ?_, rfl, rfl, ?_⟩
  · rw [after]
    decide +kernel
  · rw [theory]
    decide +kernel

end Formula

end Clausal
