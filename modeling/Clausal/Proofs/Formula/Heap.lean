import Clausal.Formula.Relation
import Clausal.Proofs.Encoding.Gate
import Clausal.Proofs.Formula.Objects
import Clausal.Table

namespace Clausal.Formula

/-- All objects made so far, each at its place. -/
structure Heap (H : Type) where
  objects : List (Object H) := []

/-- Objects that are read back into a heap from what others were written as. Of each that was written
there is one copy, kept under the place of the original. -/
structure Reading (H : Type) where
  heap : Heap H
  copies : Table Nat (Object H) := ⟨[]⟩

/-- What a program does to come by new objects. It names the ones that it has by their places. The
operators and the functions on two formulas are among the nodes and the relations. -/
inductive Making where
  | leaf (name : String)
  | join (c : Connective) (places : List Nat)
  | relate (r : Relation) (left right : Nat)
  | rebuild (places : List Nat)

variable {H : Type}

namespace Heap

/-- Puts a new object at the next place. -/
def add (heap : Heap H) (make : Nat → Object H) : Object H × Heap H :=
  (make heap.objects.length, ⟨heap.objects ++ [make heap.objects.length]⟩)

def leaf (heap : Heap H) (name : String) : Object H × Heap H :=
  heap.add fun p => .leaf p name

/-- A new node. Its hash is computed now, from the hashes that its children have. -/
def join (hash : Hashing H) (heap : Heap H) (c : Connective) (xs : List (Object H)) :
    Object H × Heap H :=
  heap.add fun p => .join p c (hash (.inr c) (xs.map (Object.digest hash))) xs

/-- A new node and its negation. -/
def opposed (hash : Hashing H) (heap : Heap H) (c : Connective) (xs : List (Object H)) :
    Object H × Heap H :=
  let (x, heap) := heap.join hash c xs
  heap.join hash .neg [x]

/-- The objects that assert a relation between two others. -/
def relate (hash : Hashing H) (heap : Heap H) (r : Relation) (x y : Object H) : Object H × Heap H :=
  match r with
  | .xor => heap.opposed hash .iff [x, y]
  | .nand => heap.opposed hash .conj [x, y]
  | .nor => heap.opposed hash .disj [x, y]
  | .implies => heap.join hash .imp [x, y]
  | .impliedBy => heap.join hash .imp [y, x]
  | .iff => heap.join hash .iff [x, y]
  | .both => heap.join hash .conj [x, y]
  | .either => heap.join hash .disj [x, y]

end Heap

/-- Looks a copy up, or makes it and keeps it. -/
def Reading.once (p : Nat) (make : Reading H → Object H × Reading H) (reading : Reading H) :
    Object H × Reading H :=
  match reading.copies.get? p with
  | some y => (y, reading)
  | none =>
    let (y, reading) := make reading
    (y, { reading with copies := reading.copies.insert p y })

mutual

/-- Reads back what an object was written as: its children in order and then, with a hash of its own,
the object. This is the default form of writing, in which each node has its state, be it the empty one of
a node without children. Older forms, which leave an empty state out, are not meant. -/
def Object.rebuild (hash : Hashing H) : Object H → Reading H → Object H × Reading H
  | .leaf p name => Reading.once p fun reading =>
    let (y, heap) := reading.heap.leaf name
    (y, { reading with heap })
  | .join p c _ xs => Reading.once p fun reading =>
    let (ys, reading) := Object.rebuildAll hash xs reading
    let (y, heap) := reading.heap.join hash c ys
    (y, { reading with heap })

def Object.rebuildAll (hash : Hashing H) : List (Object H) → Reading H → List (Object H) × Reading H
  | [], reading => ([], reading)
  | x :: xs, reading =>
    let (y, reading) := x.rebuild hash reading
    let (ys, reading) := Object.rebuildAll hash xs reading
    (y :: ys, reading)

end

namespace Heap

/-- The objects at some places. -/
def at? (heap : Heap H) (places : List Nat) : Option (List (Object H)) :=
  places.mapM fun p => heap.objects[p]?

/-- Does what a program asks for. Without a name, with no such objects, or with as many as the
connective does not join, nothing is made. -/
def perform (hash : Hashing H) (heap : Heap H) : Making → Heap H
  | .leaf name => if name = "" then heap else (heap.leaf name).2
  | .join c places =>
    match heap.at? places with
    | some xs => if c.Joins xs.length then (heap.join hash c xs).2 else heap
    | none => heap
  | .relate r left right =>
    match heap.objects[left]?, heap.objects[right]? with
    | some x, some y => (heap.relate hash r x y).2
    | _, _ => heap
  | .rebuild places =>
    match heap.at? places with
    | some xs => (Object.rebuildAll hash xs { heap }).2.heap
    | none => heap

/-- All that a program has made. -/
def build (hash : Hashing H) (makings : List Making) : Heap H :=
  makings.foldl (perform hash) {}

end Heap

namespace Heap

/-- What holds of all objects: each is at its place, and so are the ones below it. The hash of each is
the one that follows from its root and the hashes of its children, and each unfolds to a formula. -/
structure Sound (hash : Hashing H) (heap : Heap H) : Prop where
  placed : ∀ (p : Nat) (x : Object H), heap.objects[p]? = some x → x.place = p
  closed : ∀ x ∈ heap.objects, x.subs ⊆ heap.objects
  digested : ∀ x ∈ heap.objects, x.digest hash = hash x.root (x.subs.map (Object.digest hash))
  unfolds : ∀ x ∈ heap.objects, ∃ f, x.formula? = some f

/-- An operation on a heap answers with an object for a formula. What there was stays. -/
structure Gives (hash : Hashing H) (heap : Heap H) (f : Formula) (x : Object H) (after : Heap H) :
    Prop where
  sound : after.Sound hash
  kept : heap.objects ⊆ after.objects
  mem : x ∈ after.objects
  unfolds : x.formula? = some f

variable {hash : Hashing H} {heap : Heap H}

theorem sound_empty (hash : Hashing H) : Sound hash {} where
  placed _ _ there := by simp at there
  closed := List.forall_mem_nil _
  digested := List.forall_mem_nil _
  unfolds := List.forall_mem_nil _

/-- There are no two objects at one place. -/
theorem Sound.eq_of_place (sound : heap.Sound hash) {x y : Object H} (hx : x ∈ heap.objects)
    (hy : y ∈ heap.objects) (same : x.place = y.place) : x = y := by
  obtain ⟨p, atX⟩ := List.mem_iff_getElem?.mp hx
  obtain ⟨q, atY⟩ := List.mem_iff_getElem?.mp hy
  rw [sound.placed p x atX, sound.placed q y atY] at same
  subst same
  exact Option.some.inj (atX.symm.trans atY)

theorem Sound.add (sound : heap.Sound hash) {make : Nat → Object H} {f : Formula}
    (placed : ∀ p, (make p).place = p) (closed : ∀ p, (make p).subs ⊆ heap.objects)
    (digested : ∀ p, (make p).digest hash =
      hash (make p).root ((make p).subs.map (Object.digest hash)))
    (unfolds : ∀ p, (make p).formula? = some f) :
    Gives hash heap f (heap.add make).1 (heap.add make).2 := by
  have kept : heap.objects ⊆ (heap.add make).2.objects := List.subset_append_left _ _
  have cases : ∀ x ∈ (heap.add make).2.objects, x ∈ heap.objects ∨ x = (heap.add make).1 := by
    intro x member
    exact (List.mem_append.mp member).imp_right List.mem_singleton.mp
  refine ⟨⟨?_, ?_, ?_, ?_⟩, kept, List.mem_append_right _ (List.mem_singleton_self _), unfolds _⟩
  · intro p x atPlace
    rcases Nat.lt_or_ge p heap.objects.length with old | new
    · rw [Heap.add, List.getElem?_append_left old] at atPlace
      exact sound.placed p x atPlace
    · rw [Heap.add, List.getElem?_append_right new] at atPlace
      obtain ⟨last, rfl⟩ := List.getElem?_eq_some_iff.mp atPlace
      rw [List.length_singleton] at last
      rw [List.getElem_singleton, placed]
      omega
  · intro x member
    rcases cases x member with old | rfl
    · exact List.Subset.trans (sound.closed x old) kept
    · exact List.Subset.trans (closed _) kept
  · intro x member
    rcases cases x member with old | rfl
    · exact sound.digested x old
    · exact digested _
  · intro x member
    rcases cases x member with old | rfl
    · exact sound.unfolds x old
    · exact ⟨f, unfolds _⟩

theorem Sound.leaf (sound : heap.Sound hash) (name : String) :
    Gives hash heap (var name) (heap.leaf name).1 (heap.leaf name).2 :=
  sound.add (fun _ => rfl) (fun _ => List.nil_subset _) (fun _ => rfl) fun _ => rfl

theorem Sound.join (sound : heap.Sound hash) {c : Connective} {xs : List (Object H)}
    {fs : List Formula} {f : Formula} (held : xs ⊆ heap.objects)
    (unfolded : Object.formulas? xs = some fs) (made : node? c fs = some f) :
    Gives hash heap f (heap.join hash c xs).1 (heap.join hash c xs).2 := by
  refine sound.add (fun _ => rfl) (fun _ => held) (fun _ => rfl) fun p => ?_
  rw [Object.formula?, unfolded]
  exact made

theorem Sound.opposed (sound : heap.Sound hash) {c : Connective} {xs : List (Object H)}
    {fs : List Formula} {f : Formula} (held : xs ⊆ heap.objects)
    (unfolded : Object.formulas? xs = some fs) (made : node? c fs = some f) :
    Gives hash heap (neg f) (heap.opposed hash c xs).1 (heap.opposed hash c xs).2 := by
  have inner := sound.join held unfolded made
  have unfoldedInner : Object.formulas? [(heap.join hash c xs).1] = some [f] := by
    rw [Object.formulas?, inner.unfolds]
    rfl
  have outer := inner.sound.join (List.forall_mem_singleton.mpr inner.mem) unfoldedInner
    (rfl : node? .neg [f] = some (neg f))
  exact ⟨outer.sound, List.Subset.trans inner.kept outer.kept, outer.mem, outer.unfolds⟩

theorem Sound.relate (sound : heap.Sound hash) {x y : Object H} {f g : Formula}
    (hx : x ∈ heap.objects) (hy : y ∈ heap.objects) (atX : x.formula? = some f)
    (atY : y.formula? = some g) (r : Relation) :
    Gives hash heap (r.formula f g) (heap.relate hash r x y).1 (heap.relate hash r x y).2 := by
  have held : [x, y] ⊆ heap.objects := by simp [hx, hy]
  have heldBack : [y, x] ⊆ heap.objects := by simp [hx, hy]
  have unfolded : Object.formulas? [x, y] = some [f, g] := by simp [Object.formulas?, atX, atY]
  have unfoldedBack : Object.formulas? [y, x] = some [g, f] := by simp [Object.formulas?, atX, atY]
  cases r with
  | xor => exact sound.opposed held unfolded rfl
  | nand => exact sound.opposed held unfolded rfl
  | nor => exact sound.opposed held unfolded rfl
  | implies => exact sound.join held unfolded rfl
  | impliedBy => exact sound.join heldBack unfoldedBack rfl
  | iff => exact sound.join held unfolded rfl
  | both => exact sound.join held unfolded rfl
  | either => exact sound.join held unfolded rfl

end Heap

namespace Reading

/-- The copies kept are objects for the formulas of the ones that were written. -/
structure Sound (hash : Hashing H) (reading : Reading H) : Prop where
  heap : reading.heap.Sound hash
  copied : ∀ (p : Nat) (y : Object H), reading.copies.get? p = some y → y ∈ reading.heap.objects ∧
    ∃ x ∈ reading.heap.objects, x.place = p ∧ x.formula? = y.formula?

/-- Some objects have been read back as others for the same formulas. What there was stays. -/
structure Copies (hash : Hashing H) (reading : Reading H) (xs ys : List (Object H))
    (after : Reading H) : Prop where
  sound : after.Sound hash
  kept : reading.heap.objects ⊆ after.heap.objects
  held : ∀ y ∈ ys, y ∈ after.heap.objects
  alike : List.Forall₂ (fun x y => x.formula? = y.formula?) xs ys

variable {hash : Hashing H} {reading : Reading H}

theorem Sound.gives {f : Formula} {y : Object H} {after : Heap H} (sound : reading.Sound hash)
    (given : reading.heap.Gives hash f y after) : Sound hash { reading with heap := after } := by
  refine ⟨given.sound, fun p z copied => ?_⟩
  obtain ⟨held, x, member, place, unfolds⟩ := sound.copied p z copied
  exact ⟨given.kept held, x, given.kept member, place, unfolds⟩

theorem Sound.once {x : Object H} {make : Reading H → Object H × Reading H}
    (sound : reading.Sound hash) (member : x ∈ reading.heap.objects)
    (copies : reading.Copies hash [x] [(make reading).1] (make reading).2) :
    reading.Copies hash [x] [(Reading.once x.place make reading).1]
      (Reading.once x.place make reading).2 := by
  unfold Reading.once
  split
  · rename_i y copied
    obtain ⟨held, z, atPlace, place, unfolds⟩ := sound.copied x.place y copied
    have same := sound.heap.eq_of_place atPlace member place
    subst same
    exact ⟨sound, List.Subset.refl _, List.forall_mem_singleton.mpr held, .cons unfolds .nil⟩
  · refine ⟨⟨copies.sound.heap, fun p y copied => ?_⟩, copies.kept, copies.held, copies.alike⟩
    rw [Table.get?_insert] at copied
    split at copied
    · rename_i atPlace
      cases copied
      exact ⟨List.forall_mem_singleton.mp copies.held, x, copies.kept member, atPlace.symm,
        (List.forall₂_cons.mp copies.alike).1⟩
    · exact copies.sound.copied p y copied

/-- Reading back gives objects for the formulas of those that were written. -/
theorem Sound.rebuild :
    (∀ (x : Object H) (reading : Reading H), reading.Sound hash → x ∈ reading.heap.objects →
      reading.Copies hash [x] [(x.rebuild hash reading).1] (x.rebuild hash reading).2) ∧
    ∀ (xs : List (Object H)) (reading : Reading H), reading.Sound hash → xs ⊆ reading.heap.objects →
      reading.Copies hash xs (Object.rebuildAll hash xs reading).1
        (Object.rebuildAll hash xs reading).2 := by
  refine Object.forest_induction ?leaf ?join ?nil ?cons
  case leaf =>
    intro p name reading sound member
    rw [Object.rebuild]
    refine sound.once member ?_
    have given := sound.heap.leaf name
    exact ⟨sound.gives given, given.kept, List.forall_mem_singleton.mpr given.mem, .cons rfl .nil⟩
  case join =>
    intro p c stored xs ih reading sound member
    rw [Object.rebuild]
    refine sound.once member ?_
    have copies := ih reading sound (sound.heap.closed _ member)
    obtain ⟨f, unfolds⟩ := sound.heap.unfolds _ member
    obtain ⟨unfolded, root⟩ := (Object.formula?_join_iff p c stored xs f).mp unfolds
    rw [Object.formulas?_congr copies.alike] at unfolded
    have made := (node?_eq_some_iff c f.subs f).mpr ⟨root, rfl⟩
    have given := copies.sound.heap.join copies.held unfolded made
    exact ⟨copies.sound.gives given, List.Subset.trans copies.kept given.kept,
      List.forall_mem_singleton.mpr given.mem, .cons (unfolds.trans given.unfolds.symm) .nil⟩
  case nil =>
    intro reading sound _
    exact ⟨sound, List.Subset.refl _, List.nil_subset _, .nil⟩
  case cons =>
    intro x xs first rest reading sound members
    obtain ⟨member, members⟩ := List.cons_subset.mp members
    have one := first reading sound member
    have others := rest _ one.sound (List.Subset.trans members one.kept)
    have held := others.kept (List.forall_mem_singleton.mp one.held)
    exact ⟨others.sound, List.Subset.trans one.kept others.kept,
      List.forall_mem_cons.mpr ⟨held, others.held⟩,
      .cons (List.forall₂_cons.mp one.alike).1 others.alike⟩

end Reading

namespace Heap

variable {hash : Hashing H} {heap : Heap H}

theorem at?_subset {places : List Nat} {xs : List (Object H)} (there : heap.at? places = some xs) :
    xs ⊆ heap.objects := by
  induction places generalizing xs with
  | nil =>
    cases there
    exact List.nil_subset _
  | cons p places ih =>
    rw [at?, List.mapM_cons] at there
    obtain ⟨x, atPlace, others⟩ := Option.bind_eq_some_iff.mp there
    obtain ⟨ys, rest, made⟩ := Option.bind_eq_some_iff.mp others
    cases made
    exact List.cons_subset.mpr ⟨List.mem_of_getElem? atPlace, ih rest⟩

theorem Sound.formulas (sound : heap.Sound hash) {xs : List (Object H)} (held : xs ⊆ heap.objects) :
    ∃ fs, Object.formulas? xs = some fs ∧ fs.length = xs.length := by
  induction xs with
  | nil => exact ⟨[], rfl, rfl⟩
  | cons x xs ih =>
    obtain ⟨member, others⟩ := List.cons_subset.mp held
    obtain ⟨f, unfolds⟩ := sound.unfolds x member
    obtain ⟨fs, unfolded, length⟩ := ih others
    refine ⟨f :: fs, ?_, by rw [List.length_cons, List.length_cons, length]⟩
    rw [Object.formulas?, unfolds, unfolded]
    rfl

/-- Whatever a program asks for, what holds of all objects still does. -/
theorem Sound.perform (sound : heap.Sound hash) (making : Making) :
    (heap.perform hash making).Sound hash := by
  cases making with
  | leaf name =>
    rw [Heap.perform]
    split
    · exact sound
    · exact (sound.leaf name).sound
  | join c places =>
    rw [Heap.perform]
    split
    · rename_i xs there
      split
      · rename_i joins
        obtain ⟨fs, unfolded, length⟩ := sound.formulas (at?_subset there)
        rw [← length] at joins
        obtain ⟨f, made⟩ := node?_of_joins joins
        exact (sound.join (at?_subset there) unfolded made).sound
      · exact sound
    · exact sound
  | relate r left right =>
    rw [Heap.perform]
    split
    · rename_i x y atLeft atRight
      have hx := List.mem_of_getElem? atLeft
      have hy := List.mem_of_getElem? atRight
      obtain ⟨f, atX⟩ := sound.unfolds x hx
      obtain ⟨g, atY⟩ := sound.unfolds y hy
      exact (sound.relate hx hy atX atY r).sound
    · exact sound
  | rebuild places =>
    rw [Heap.perform]
    split
    · rename_i xs there
      have reading : Reading.Sound hash { heap } := ⟨sound, fun _ _ copied => by cases copied⟩
      exact (Reading.Sound.rebuild.2 xs _ reading (at?_subset there)).sound.heap
    · exact sound

theorem sound_build (hash : Hashing H) (makings : List Making) : (build hash makings).Sound hash := by
  have run : ∀ heap : Heap H, heap.Sound hash → (makings.foldl (perform hash) heap).Sound hash := by
    induction makings with
    | nil => exact fun _ sound => sound
    | cons making makings ih => exact fun heap sound => ih _ (sound.perform making)
  exact run {} (sound_empty hash)

end Heap

end Clausal.Formula
