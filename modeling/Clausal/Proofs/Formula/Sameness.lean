import Clausal.Proofs.Formula.Heap

namespace Clausal.Formula

variable {H : Type} {hash : Hashing H} {heap : Heap H}

/-- Formulas with connectives are equal if the connectives are and so are the children, in order. -/
theorem eq_iff_of_connective {c e : Connective} {f g : Formula} (rootF : f.connective? = some c)
    (rootG : g.connective? = some e) : f = g ↔ c = e ∧ f.subs = g.subs := by
  constructor
  · rintro rfl
    exact ⟨Option.some.inj (rootF.symm.trans rootG), rfl⟩
  · rintro ⟨rfl, children⟩
    have madeF := (node?_eq_some_iff c f.subs f).mpr ⟨rootF, rfl⟩
    have madeG := (node?_eq_some_iff c f.subs g).mpr ⟨rootG, children.symm⟩
    exact Option.some.inj (madeF.symm.trans madeG)

namespace Heap

/-- The hash of an object follows from its formula, so objects for one formula have one hash, wherever
and whenever it was computed. -/
theorem Sound.digest_eq (sound : heap.Sound hash) :
    (∀ x : Object H, x ∈ heap.objects → ∀ f, x.formula? = some f → x.digest hash = f.hashed hash) ∧
    ∀ xs : List (Object H), xs ⊆ heap.objects → ∀ fs, Object.formulas? xs = some fs →
      xs.map (Object.digest hash) = fs.map (hashed hash) := by
  refine Object.forest_induction ?leaf ?join ?nil ?cons
  case leaf =>
    intro p name _ f unfolds
    cases unfolds
    rfl
  case join =>
    intro p c stored xs ih member f unfolds
    obtain ⟨unfolded, root⟩ := (Object.formula?_join_iff p c stored xs f).mp unfolds
    rw [hashed_node hash root, ← ih (sound.closed _ member) f.subs unfolded]
    exact sound.digested _ member
  case nil =>
    intro _ fs unfolded
    cases unfolded
    rfl
  case cons =>
    intro x xs first rest members fs unfolded
    obtain ⟨member, others⟩ := List.cons_subset.mp members
    obtain ⟨f, gs, atX, atXs, rfl⟩ := Object.formulas?_cons_iff.mp unfolded
    rw [List.map_cons, List.map_cons, first member f atX, rest others gs atXs]

theorem sameEach_iff [DecidableEq H] (xs ys : List (Object H)) :
    Object.sameEach xs ys = true ↔
      List.Forall₂ (fun x y => x.place = y.place ∨ x.same y = true) xs ys := by
  induction xs generalizing ys with
  | nil => cases ys <;> simp [Object.sameEach]
  | cons x xs ih => cases ys <;> simp [Object.sameEach, ih]

/-- A comparison of objects that is right for each pair is right for lists. -/
theorem forall₂_iff {r : Object H → Object H → Prop} {xs ys : List (Object H)} {fs gs : List Formula}
    (each : ∀ x ∈ xs, ∀ y ∈ ys, ∀ f g, x.formula? = some f → y.formula? = some g → (r x y ↔ f = g))
    (atXs : Object.formulas? xs = some fs) (atYs : Object.formulas? ys = some gs) :
    List.Forall₂ r xs ys ↔ fs = gs := by
  induction xs generalizing ys fs gs with
  | nil =>
    cases atXs
    cases ys with
    | nil =>
      cases atYs
      exact iff_of_true .nil rfl
    | cons y ys =>
      obtain ⟨g, gs, _, _, rfl⟩ := Object.formulas?_cons_iff.mp atYs
      rw [List.forall₂_nil_left_iff]
      exact iff_of_false (List.cons_ne_nil y ys) (List.cons_ne_nil g gs).symm
  | cons x xs ih =>
    obtain ⟨f, fs, atX, atRest, rfl⟩ := Object.formulas?_cons_iff.mp atXs
    cases ys with
    | nil =>
      cases atYs
      rw [List.forall₂_nil_right_iff]
      exact iff_of_false (List.cons_ne_nil x xs) (List.cons_ne_nil f fs)
    | cons y ys =>
      obtain ⟨g, gs, atY, atRest', rfl⟩ := Object.formulas?_cons_iff.mp atYs
      have first := each x List.mem_cons_self y List.mem_cons_self f g atX atY
      have rest := ih (fun a ha b hb => each a (.tail _ ha) b (.tail _ hb)) atRest atRest'
      rw [List.forall₂_cons, first, rest, List.cons_eq_cons]

theorem Sound.eq_of_same_place (sound : heap.Sound hash) {x y : Object H} {f g : Formula}
    (hx : x ∈ heap.objects) (hy : y ∈ heap.objects) (atX : x.formula? = some f)
    (atY : y.formula? = some g) (place : x.place = y.place) : f = g := by
  have one := sound.eq_of_place hx hy place
  subst one
  exact Option.some.inj (atX.symm.trans atY)

variable [DecidableEq H]

/-- Neither of the two ways past a comparison of the children changes what it comes to: one object has
one formula, and objects with different hashes have different ones. -/
theorem Sound.same_iff (sound : heap.Sound hash) {x y : Object H} {f g : Formula}
    (hx : x ∈ heap.objects) (hy : y ∈ heap.objects) (atX : x.formula? = some f)
    (atY : y.formula? = some g) : x.same y = true ↔ f = g := by
  induction x using Object.node_induction generalizing y f g with
  | leaf p m =>
    cases atX
    match y, atY with
    | .leaf q n, atY =>
      cases atY
      rw [Object.same, beq_iff_eq, var.injEq]
    | .join q e k ys, atY =>
      have rootG := ((Object.formula?_join_iff q e k ys g).mp atY).2
      refine iff_of_false (by simp [Object.same]) ?_
      rintro rfl
      cases rootG
  | join p c d xs ih =>
    obtain ⟨unfoldedX, rootF⟩ := (Object.formula?_join_iff p c d xs f).mp atX
    match y, atY, hy with
    | .leaf q n, atY, _ =>
      cases atY
      refine iff_of_false (by simp [Object.same]) ?_
      rintro rfl
      cases rootF
    | .join q e k ys, atY, hy =>
      obtain ⟨unfoldedY, rootG⟩ := (Object.formula?_join_iff q e k ys g).mp atY
      have children : Object.sameEach xs ys = true ↔ f.subs = g.subs := by
        rw [sameEach_iff]
        refine forall₂_iff (fun a ha b hb f g atA atB => ?_) unfoldedX unfoldedY
        have heldA := sound.closed _ hx ha
        have heldB := sound.closed _ hy hb
        rw [ih a ha heldA heldB atA atB]
        exact or_iff_right_of_imp (sound.eq_of_same_place heldA heldB atA atB)
      have digestX : d = f.hashed hash := sound.digest_eq.1 _ hx f atX
      have digestY : k = g.hashed hash := sound.digest_eq.1 _ hy g atY
      rw [Object.same, Bool.or_eq_true, Bool.and_eq_true, Bool.and_eq_true, beq_iff_eq, beq_iff_eq,
        beq_iff_eq, children, digestX, digestY]
      constructor
      · rintro (place | ⟨rfl, -, below⟩)
        · exact sound.eq_of_same_place hx hy atX atY place
        · exact (eq_iff_of_connective rootF rootG).mpr ⟨rfl, below⟩
      · rintro rfl
        obtain ⟨rfl, -⟩ := (eq_iff_of_connective rootF rootG).mp rfl
        exact Or.inr ⟨rfl, rfl, rfl⟩

/-- Equality looks at the root and, position by position, at the children. -/
theorem Sound.same_iff_root (sound : heap.Sound hash) {x y : Object H} (hx : x ∈ heap.objects)
    (hy : y ∈ heap.objects) :
    x.same y = true ↔
      x.root = y.root ∧ List.Forall₂ (fun a b => a.same b = true) x.subs y.subs := by
  match x, y, hx, hy with
  | .leaf _ _, .leaf _ _, _, _ => simp [Object.same, Object.root, Object.subs]
  | .leaf _ _, .join _ _ _ _, _, _ => simp [Object.same, Object.root]
  | .join _ _ _ _, .leaf _ _, _, _ => simp [Object.same, Object.root]
  | .join p c d xs, .join q e k ys, hx, hy =>
    obtain ⟨f, atX⟩ := sound.unfolds _ hx
    obtain ⟨g, atY⟩ := sound.unfolds _ hy
    obtain ⟨unfoldedX, rootF⟩ := (Object.formula?_join_iff p c d xs f).mp atX
    obtain ⟨unfoldedY, rootG⟩ := (Object.formula?_join_iff q e k ys g).mp atY
    have children : List.Forall₂ (fun a b => a.same b = true) xs ys ↔ f.subs = g.subs :=
      forall₂_iff (fun a ha b hb _ _ => sound.same_iff (sound.closed _ hx ha) (sound.closed _ hy hb))
        unfoldedX unfoldedY
    rw [sound.same_iff hx hy atX atY, eq_iff_of_connective rootF rootG, ← children]
    exact and_congr_left' Sum.inr.inj_iff.symm

/-- A look-up compares the hashes first. It finds no more and no less for that. -/
theorem Sound.finds_iff (sound : heap.Sound hash) {x y : Object H} {f g : Formula}
    (hx : x ∈ heap.objects) (hy : y ∈ heap.objects) (atX : x.formula? = some f)
    (atY : y.formula? = some g) : x.finds hash y = true ↔ f = g := by
  rw [Object.finds, Bool.and_eq_true, Bool.or_eq_true, beq_iff_eq, beq_iff_eq,
    sound.same_iff hx hy atX atY, or_iff_right_of_imp (sound.eq_of_same_place hx hy atX atY),
    sound.digest_eq.1 x hx f atX, sound.digest_eq.1 y hy g atY]
  exact and_iff_right_of_imp (congrArg (hashed hash))

theorem Sound.equivalence (sound : heap.Sound hash) :
    Equivalence fun x y : { x // x ∈ heap.objects } => x.val.same y.val = true := by
  constructor
  · rintro ⟨x, hx⟩
    obtain ⟨f, atX⟩ := sound.unfolds x hx
    exact (sound.same_iff hx hx atX atX).mpr rfl
  · rintro ⟨x, hx⟩ ⟨y, hy⟩ same
    obtain ⟨f, atX⟩ := sound.unfolds x hx
    obtain ⟨g, atY⟩ := sound.unfolds y hy
    exact (sound.same_iff hy hx atY atX).mpr ((sound.same_iff hx hy atX atY).mp same).symm
  · rintro ⟨x, hx⟩ ⟨y, hy⟩ ⟨z, hz⟩ first second
    obtain ⟨f, atX⟩ := sound.unfolds x hx
    obtain ⟨g, atY⟩ := sound.unfolds y hy
    obtain ⟨h, atZ⟩ := sound.unfolds z hz
    have left := (sound.same_iff hx hy atX atY).mp first
    have right := (sound.same_iff hy hz atY atZ).mp second
    exact (sound.same_iff hx hz atX atZ).mpr (left.trans right)

/-- What is read back of an object equals it and has the same hash, though that was computed anew. -/
theorem Sound.same_rebuild (sound : heap.Sound hash) {x : Object H} (hx : x ∈ heap.objects) :
    let copy := (x.rebuild hash { heap }).1
    x.same copy = true ∧ x.digest hash = copy.digest hash := by
  intro copy
  have reading : Reading.Sound hash { heap } := ⟨sound, fun _ _ copied => by cases copied⟩
  have copies := Reading.Sound.rebuild.1 x _ reading hx
  obtain ⟨f, atX⟩ := sound.unfolds x hx
  have atCopy : copy.formula? = some f := (List.forall₂_cons.mp copies.alike).1.symm.trans atX
  have hx := copies.kept hx
  have hCopy := List.forall_mem_singleton.mp copies.held
  have after := copies.sound.heap
  exact ⟨(after.same_iff hx hCopy atX atCopy).mpr rfl,
    (after.digest_eq.1 x hx f atX).trans (after.digest_eq.1 copy hCopy f atCopy).symm⟩

/-- However the objects of a program were made, their equality is that of the formulas they unfold to,
and so is what sets and tables find. It compares what is at the root and the children in order, and is
an equivalence. The hash of each object follows from its root and the hashes of its children, and from
its formula alone, so that equal objects never differ in it. -/
theorem same_eq_beq (hash : Hashing H) (makings : List Making) :
    let objects := (build hash makings).objects
    (∀ x ∈ objects, ∃ f, x.formula? = some f ∧ x.digest hash = f.hashed hash ∧
      x.digest hash = hash x.root (x.subs.map (Object.digest hash))) ∧
    (∀ x ∈ objects, ∀ y ∈ objects, ∀ f g, x.formula? = some f → y.formula? = some g →
      x.same y = (f == g) ∧ x.finds hash y = (f == g) ∧
      (x.same y = true ↔
        x.root = y.root ∧ List.Forall₂ (fun a b => a.same b = true) x.subs y.subs) ∧
      (x.same y = true → x.digest hash = y.digest hash) ∧
      (x.root ≠ y.root ∨ x.subs.length ≠ y.subs.length → x.same y = false)) ∧
    Equivalence fun x y : { x // x ∈ objects } => x.val.same y.val = true := by
  intro objects
  have sound := sound_build hash makings
  refine ⟨fun x hx => ?_, fun x hx y hy f g atX atY => ?_, sound.equivalence⟩
  · obtain ⟨f, unfolds⟩ := sound.unfolds x hx
    exact ⟨f, unfolds, sound.digest_eq.1 x hx f unfolds, sound.digested x hx⟩
  · have same := sound.same_iff hx hy atX atY
    have atRoot := sound.same_iff_root hx hy
    refine ⟨?_, ?_, atRoot, fun equal => ?_, fun differ => ?_⟩
    · rw [Bool.eq_iff_iff, same, beq_iff_eq]
    · rw [Bool.eq_iff_iff, sound.finds_iff hx hy atX atY, beq_iff_eq]
    · rw [sound.digest_eq.1 x hx f atX, sound.digest_eq.1 y hy g atY, same.mp equal]
    · refine Bool.eq_false_iff.mpr fun equal => ?_
      obtain ⟨root, children⟩ := atRoot.mp equal
      exact differ.elim (fun other => other root) fun other => other children.length_eq

/-- Where all formulas have one hash, a conjunction and what is read back of it are equal objects, and
a disjunction of the same variable differs from both. -/
theorem same_eq_beq_of_constant_hash :
    let hash : Hashing Unit := fun _ _ => ()
    let objects := (build hash
      [.leaf "p", .join .conj [0, 0], .join .disj [0, 0], .rebuild [1]]).objects
    ∃ x y z, objects[1]? = some x ∧ objects[2]? = some y ∧ objects[4]? = some z ∧
      x.place ≠ z.place ∧ x.same z = true ∧ x.same y = false ∧ x.finds hash y = false := by
  intro hash objects
  obtain ⟨-, pairs, -⟩ := same_eq_beq hash
    [.leaf "p", .join .conj [0, 0], .join .disj [0, 0], .rebuild [1]]
  let p : Object Unit := .leaf 0 "p"
  let q : Object Unit := .leaf 3 "p"
  have atX : objects[1]? = some (.join 1 .conj () [p, p]) := rfl
  have atY : objects[2]? = some (.join 2 .disj () [p, p]) := rfl
  have atZ : objects[4]? = some (.join 4 .conj () [q, q]) := rfl
  have copied := pairs _ (List.mem_of_getElem? atX) _ (List.mem_of_getElem? atZ)
    (conj [var "p", var "p"]) (conj [var "p", var "p"]) rfl rfl
  have apart := pairs _ (List.mem_of_getElem? atX) _ (List.mem_of_getElem? atY)
    (conj [var "p", var "p"]) (disj [var "p", var "p"]) rfl rfl
  have different : (conj [var "p", var "p"] == disj [var "p", var "p"]) = false :=
    beq_eq_false_iff_ne.mpr nofun
  exact ⟨_, _, _, atX, atY, atZ, nofun, copied.1.trans (beq_self_eq_true _),
    apart.1.trans different, apart.2.1.trans different⟩

end Heap

/-- The hashing that the digest of a formula comes from. -/
def mixing : Hashing UInt64
  | .inl name, _ => nameDigest name
  | .inr c, hs => hs.foldl mix (seed c)
where
  seed : Connective → UInt64
    | .neg => 3
    | .conj => 5
    | .disj => 11
    | .imp => 13
    | .iff => 17

/-- The digest that a formula stores is the one that objects for it get. -/
theorem hashed_mixing (f : Formula) : f.hashed mixing = f.digest := by
  induction f using node_induction with
  | var name => rw [hashed_var, digest]; rfl
  | node c f root ih =>
    rw [hashed_node mixing root, List.map_congr_left ih, mixing, List.foldl_map]
    cases f <;> cases root
    · rw [digest]; rfl
    · rw [digest_conj]; rfl
    · rw [digest_disj]; rfl
    · rw [digest]; rfl
    · rw [digest]; rfl

end Clausal.Formula
