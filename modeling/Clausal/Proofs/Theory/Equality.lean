import Clausal.Proofs.Text.Names
import Clausal.Proofs.Theory.Truth
import Mathlib.Data.List.Forall2

namespace Clausal

theorem Text.sortedNames_congr {names others : List String} (same : ∀ name, name ∈ names ↔ name ∈ others) :
    sortedNames names = sortedNames others := by
  have perm : (sortedNames names).Perm (sortedNames others) := by
    refine perm_sortedNames (nodup_sortedNames names) fun name => ?_
    rw [mem_sortedNames, same]
  refine perm.eq_of_pairwise (fun s t _ _ below above => ?_) (pairwise_sortedNames names)
    (pairwise_sortedNames others)
  exact absurd (Std.lt_trans below above) (String.lt_irrefl s)

namespace Clause

/-- Clauses are compared by how often each literal of the one and of the other occurs. -/
theorem same_iff_perm (c d : Clause) : c.same d = true ↔ c.literals.Perm d.literals := by
  rw [same, Bool.and_eq_true, List.all_eq_true, List.all_eq_true, List.perm_iff_count]
  simp only [beq_iff_eq]
  constructor
  · rintro ⟨left, right⟩ l
    by_cases inLeft : l ∈ c.literals
    · exact left l inLeft
    · by_cases inRight : l ∈ d.literals
      · exact right l inRight
      · rw [List.count_eq_zero.mpr inLeft, List.count_eq_zero.mpr inRight]
  · intro counts
    exact ⟨fun l _ => counts l, fun l _ => counts l⟩

variable {c d : Clause}

theorem same_equivalence : Equivalence fun c d : Clause => c.same d = true where
  refl c := (c.same_iff_perm c).mpr (.refl c.literals)
  symm {c d} alike := (d.same_iff_perm c).mpr ((c.same_iff_perm d).mp alike).symm
  trans {c d e} first second :=
    (c.same_iff_perm e).mpr (((c.same_iff_perm d).mp first).trans ((d.same_iff_perm e).mp second))

theorem isUnit_congr (alike : c.same d = true) : c.isUnit = d.isUnit := by
  rw [isUnit, isUnit, ((c.same_iff_perm d).mp alike).length_eq]

theorem names_congr (alike : c.same d = true) : c.names = d.names :=
  Text.sortedNames_congr fun _ => (((c.same_iff_perm d).mp alike).map Literal.name).mem_iff

theorem truth_congr (v : String → Bool) (alike : c.same d = true) : c.truth v = d.truth v :=
  ((c.same_iff_perm d).mp alike).any_eq

theorem evaluate_congr (alike : c.same d = true) {model : Model}
    (covered : ∀ name ∈ c.names, name ∈ model.keys) :
    ∃ b, c.evaluate model = .ok b ∧ d.evaluate model = .ok b := by
  have inside (e : Clause) (known : ∀ name ∈ e.names, name ∈ model.keys) :
      ∀ l ∈ e.literals, l.name ∈ model.keys := fun l member =>
    known l.name ((e.mem_names_iff l.name).mpr ⟨l, member, rfl⟩)
  refine ⟨c.truth model.total, evaluate_eq_ok (inside c covered), ?_⟩
  rw [truth_congr model.total alike]
  exact evaluate_eq_ok (inside d (names_congr alike ▸ covered))

theorem same_add (alike : c.same d = true) (l : Literal) : (c.add l).same (d.add l) = true :=
  ((c.add l).same_iff_perm (d.add l)).mpr (((c.same_iff_perm d).mp alike).append_right [l])

end Clause

namespace Theory

theorem sameAll_iff (cs ds : List Clause) :
    sameAll cs ds = true ↔ List.Forall₂ (fun c d => c.same d = true) cs ds := by
  fun_induction sameAll cs ds with
  | case1 => exact iff_of_true rfl .nil
  | case2 c cs d ds ih => rw [Bool.and_eq_true, ih, List.forall₂_cons]
  | case3 cs ds notNil notCons =>
    refine iff_of_false Bool.false_ne_true fun alike => ?_
    cases alike with
    | nil => exact notNil rfl rfl
    | cons => exact notCons _ _ _ _ rfl rfl

theorem same_iff (t u : Theory) :
    t.same u = true ↔ List.Forall₂ (fun c d => c.same d = true) t.clauses u.clauses :=
  sameAll_iff t.clauses u.clauses

/-- Theories are compared position by position. -/
theorem same_iff_get (t u : Theory) : t.same u = true ↔ t.clauses.length = u.clauses.length ∧
    ∀ (i : Nat) (c d : Clause), t.clauses[i]? = some c → u.clauses[i]? = some d → c.same d = true := by
  rw [same_iff, List.forall₂_iff_get]
  refine and_congr_right fun _ => ⟨fun each i c d first second => ?_, fun each i left right => ?_⟩
  · obtain ⟨left, rfl⟩ := List.getElem?_eq_some_iff.mp first
    obtain ⟨right, rfl⟩ := List.getElem?_eq_some_iff.mp second
    exact each i left right
  · exact each i _ _ (List.getElem?_eq_getElem left) (List.getElem?_eq_getElem right)

variable {t u : Theory}

theorem length_congr (alike : t.same u = true) : t.clauses.length = u.clauses.length :=
  ((t.same_iff_get u).mp alike).1

theorem same_equivalence : Equivalence fun t u : Theory => t.same u = true where
  refl t := (t.same_iff t).mpr (List.forall₂_same.mpr fun c _ => Clause.same_equivalence.refl c)
  symm {t u} alike := by
    refine (u.same_iff t).mpr (List.Forall₂.flip (((t.same_iff u).mp alike).imp fun c d alike => ?_))
    exact Clause.same_equivalence.symm alike
  trans {t u w} first second := by
    rw [same_iff_get] at first second ⊢
    obtain ⟨length, each⟩ := first
    obtain ⟨length', each'⟩ := second
    refine ⟨length.trans length', fun i c e atC atE => ?_⟩
    have inside : i < u.clauses.length := length ▸ (List.getElem?_eq_some_iff.mp atC).1
    have atD := List.getElem?_eq_getElem inside
    exact Clause.same_equivalence.trans (each i c _ atC atD) (each' i _ e atD atE)

/-- What equal clauses have in common, equal theories have in common position by position. -/
theorem map_congr {β : Type} {f : Clause → β} (respects : ∀ c d : Clause, c.same d = true → f c = f d)
    (alike : t.same u = true) : t.clauses.map f = u.clauses.map f := by
  have pairs : List.Forall₂ (· = ·) (t.clauses.map f) (u.clauses.map f) := by
    rw [List.forall₂_map_left_iff, List.forall₂_map_right_iff]
    exact ((t.same_iff u).mp alike).imp respects
  rwa [List.forall₂_eq_eq_eq] at pairs

theorem names_congr (alike : t.same u = true) : t.names = u.names := by
  have lists : t.clauses.map Clause.names = u.clauses.map Clause.names :=
    map_congr (fun _ _ => Clause.names_congr) alike
  have inside (w : Theory) (name : String) :
      name ∈ w.names ↔ ∃ names ∈ w.clauses.map Clause.names, name ∈ names := by
    simp only [mem_names_iff, List.mem_map, exists_exists_and_eq_and, Clause.mem_names_iff]
  refine Text.sortedNames_congr fun name => ?_
  have same : name ∈ t.names ↔ name ∈ u.names := by rw [inside, inside, lists]
  rwa [names, names, Text.mem_sortedNames, Text.mem_sortedNames] at same

theorem truth_congr (v : String → Bool) (alike : t.same u = true) : t.truth v = u.truth v := by
  have values : t.clauses.map (Clause.truth v) = u.clauses.map (Clause.truth v) :=
    map_congr (fun _ _ => Clause.truth_congr v) alike
  have whole (w : Theory) : w.truth v = (w.clauses.map (Clause.truth v)).all id := by
    rw [List.all_map, truth, Function.id_comp]
  rw [whole, whole, values]

theorem evaluate_congr (alike : t.same u = true) {model : Model}
    (covered : ∀ name ∈ t.names, name ∈ model.keys) :
    ∃ b, t.evaluate model = .ok b ∧ u.evaluate model = .ok b := by
  refine ⟨t.truth model.total, evaluate_eq_ok covered, ?_⟩
  rw [truth_congr model.total alike]
  exact evaluate_eq_ok (names_congr alike ▸ covered)

theorem same_add (alike : t.same u = true) {c d : Clause} (added : c.same d = true) :
    (t.add c).same (u.add d) = true :=
  (same_iff _ _).mpr (List.rel_append ((t.same_iff u).mp alike) (.cons added .nil))

theorem same_append (alike : t.same u = true) {t' u' : Theory} (added : t'.same u' = true) :
    (t.append t').same (u.append u') = true :=
  (same_iff _ _).mpr (List.rel_append ((t.same_iff u).mp alike) ((t'.same_iff u').mp added))

end Theory

end Clausal
