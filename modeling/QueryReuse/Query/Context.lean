import QueryReuse.Query.Calls
import QueryReuse.Query.Parts

/-!
# Queries with a hole

A context is a query with a hole in the place of one of its parts, however deep. The part is
found by the positions passed on the way to it, each among the children of the node before,
so that any part that is visited can be the place of the hole. An expression fits the hole
that stands for an expression, and a plan fits the hole that stands for a plan. What is put
into the hole is found there, the part that was there gives the query back, and the calls
before and after the hole stay as they are.
-/

namespace QueryReuse

namespace Tree

/-- The tree is a plan and not an expression. -/
def isPlan : Tree → Bool
  | .expr _ => false
  | .plan _ => true

/-- The part of a tree at the end of a path, if the path does not leave the tree. -/
def at? : Tree → List Nat → Option Tree
  | t, [] => some t
  | t, i :: path => t.children[i]?.bind fun child => child.at? path

/-- The tree with another part at the end of a path. -/
def replaceAt : Tree → List Nat → Tree → Tree
  | _, [], s => s
  | t, i :: path, s =>
    match t.children[i]? with
    | some child => t.mapParts (.put i (child.replaceAt path s))
    | none => t

/-- The tree is a literal or the empty relation. -/
inductive Blank : Tree → Prop where
  /-- A literal. -/
  | literal (value : Literal) : Blank (.expr (.literal value))
  /-- The empty relation. -/
  | empty (oneRow : Bool) : Blank (.plan (.empty oneRow))

theorem Blank.calls_eq_nil {t : Tree} (h : t.Blank) :
  t.calls = []
  := by
  cases h with
  | literal value =>
    rw [calls_eq]
    rfl
  | empty oneRow =>
    rw [calls_eq]
    rfl

/-! ### Replacing a part -/

theorem replaceAt_cons {t child : Tree} {i : Nat} (hchild : t.children[i]? = some child)
    (path : List Nat) (s : Tree) :
  t.replaceAt (i :: path) s = t.mapParts (.put i (child.replaceAt path s))
  := by
  rw [replaceAt, hchild]

theorem isPlan_mapParts (g : PartMap) (t : Tree) :
  (t.mapParts g).isPlan = t.isPlan
  := by
  cases t <;> rfl

/-- A tree with another part is a plan as before, if the new part is one just when the old
part is. -/
theorem isPlan_replaceAt {t u s : Tree} {path : List Nat} (hu : t.at? path = some u)
    (hs : s.isPlan = u.isPlan) :
  (t.replaceAt path s).isPlan = t.isPlan
  := by
  cases path with
  | nil =>
    cases hu
    apply hs
  | cons i path =>
    obtain ⟨child, hchild, -⟩ := Option.bind_eq_some_iff.mp hu
    rw [replaceAt_cons hchild, isPlan_mapParts]

theorem tree_put_self {s t : Tree} (h : s.isPlan = t.isPlan) (i : Nat) :
  (PartMap.put i s).tree i t = s
  := by
  cases s <;> cases t <;> simp_all [PartMap.tree, PartMap.put, isPlan]

theorem tree_put_of_ne {i j : Nat} (h : j ≠ i) (s t : Tree) :
  (PartMap.put i s).tree j t = t
  := by
  cases s <;> cases t <;> simp_all [PartMap.tree, PartMap.put]

/-- To put another tree in the place of a child leaves the other children as they are. -/
theorem children_put {t child s : Tree} {i : Nat} (hchild : t.children[i]? = some child)
    (hs : s.isPlan = child.isPlan) :
  (t.mapParts (.put i s)).children = t.children.set i s
  := by
  apply List.ext_getElem?
  intro j
  rw [children_mapParts, List.getElem?_mapIdx, List.getElem?_set]
  by_cases hj : i = j
  · subst hj
    obtain ⟨hi, -⟩ := List.getElem?_eq_some_iff.mp hchild
    rw [if_pos rfl, if_pos hi, hchild, Option.map_some, tree_put_self hs]
  · rw [if_neg hj]
    cases t.children[j]? with
    | none => rfl
    | some c => rw [Option.map_some, tree_put_of_ne (Ne.symm hj)]

/-- To put a child in its own place changes nothing. -/
theorem mapParts_put_self {t child : Tree} {i : Nat} (hchild : t.children[i]? = some child) :
  t.mapParts (.put i child) = t
  := by
  apply mapParts_eq_self
  rw [← children_mapParts, children_put hchild rfl]
  obtain ⟨hi, hget⟩ := List.getElem?_eq_some_iff.mp hchild
  rw [← hget, List.set_getElem_self]

/-- To replace a part by itself changes nothing. -/
theorem replaceAt_self {t u : Tree} {path : List Nat} (hu : t.at? path = some u) :
  t.replaceAt path u = t
  := by
  induction path generalizing t with
  | nil =>
    cases hu
    rfl
  | cons i path ih =>
    obtain ⟨child, hchild, hu⟩ := Option.bind_eq_some_iff.mp hu
    rw [replaceAt_cons hchild, ih hu, mapParts_put_self hchild]

/-- The new part is found where the old one was. -/
theorem at?_replaceAt {t u s : Tree} {path : List Nat} (hu : t.at? path = some u)
    (hs : s.isPlan = u.isPlan) :
  (t.replaceAt path s).at? path = some s
  := by
  induction path generalizing t with
  | nil => rfl
  | cons i path ih =>
    obtain ⟨child, hchild, hu⟩ := Option.bind_eq_some_iff.mp hu
    obtain ⟨hi, -⟩ := List.getElem?_eq_some_iff.mp hchild
    rw [replaceAt_cons hchild, at?, children_put hchild (isPlan_replaceAt hu hs),
      List.getElem?_set_self hi, Option.bind_some, ih hu]

theorem calls_of_children {t child : Tree} {before after : List Tree}
    (h : t.children = before ++ child :: after) :
  t.calls
    = t.call?.toList ++ before.flatMap calls ++ child.calls ++ after.flatMap calls
  := by
  rw [calls_eq, h, List.flatMap_append, List.flatMap_cons]
  simp only [List.append_assoc]

/-- The calls of a tree are those before a part, those in the part and those after it, and
another part in its place changes only those in the part. -/
theorem exists_calls_replaceAt {t u : Tree} {path : List Nat} (hu : t.at? path = some u) :
  ∃ before after, t.calls = before ++ u.calls ++ after
    ∧ ∀ s, s.isPlan = u.isPlan → (t.replaceAt path s).calls = before ++ s.calls ++ after
  := by
  induction path generalizing t with
  | nil =>
    cases hu
    refine ⟨[], [], ?_, ?_⟩
    · simp
    · simp [replaceAt]
  | cons i path ih =>
    obtain ⟨child, hchild, hu⟩ := Option.bind_eq_some_iff.mp hu
    obtain ⟨before, after, hcalls, hreplaced⟩ := ih hu
    obtain ⟨hi, hget⟩ := List.getElem?_eq_some_iff.mp hchild
    refine ⟨t.call?.toList ++ (t.children.take i).flatMap calls ++ before,
      after ++ (t.children.drop (i + 1)).flatMap calls, ?_, ?_⟩
    · have h : t.children = t.children.take i ++ child :: t.children.drop (i + 1) := by
        rw [← hget, ← List.drop_eq_getElem_cons hi, List.take_append_drop]
      rw [calls_of_children h, hcalls]
      simp only [List.append_assoc]
    · intro s hs
      have h := children_put hchild (isPlan_replaceAt hu hs)
      rw [List.set_eq_take_append_cons_drop, if_pos hi] at h
      rw [replaceAt_cons hchild, calls_of_children h, call?_mapParts, hreplaced s hs]
      simp only [List.append_assoc]

end Tree

/-- A query with a hole in the place of one of its parts. -/
structure Context where
  /-- The query, with some part in the place of the hole. -/
  tree : Tree
  /-- The way to the hole. -/
  path : List Nat
  /-- The part in the place of the hole. -/
  part : Tree
  /-- The way to the hole does not leave the query. -/
  at_path : tree.at? path = some part

namespace Context

/-- The tree fits the hole. -/
def Fits (C : Context) (s : Tree) : Prop := s.isPlan = C.part.isPlan

instance (C : Context) (s : Tree) : Decidable (C.Fits s) := inferInstanceAs (Decidable (_ = _))

/-- The query with a tree in the place of the hole. -/
def fill (C : Context) (s : Tree) : Tree := C.tree.replaceAt C.path s

/-- The hole filled with the part that was there gives the query back. -/
theorem fill_part (C : Context) :
  C.fill C.part = C.tree
  := Tree.replaceAt_self C.at_path

/-- What is put into the hole is found at the end of the way to the hole. -/
theorem at_path_fill (C : Context) {s : Tree} (hs : C.Fits s) :
  (C.fill s).at? C.path = some s
  := Tree.at?_replaceAt C.at_path hs

theorem exists_calls_fill (C : Context) :
  ∃ before after, ∀ s, C.Fits s → (C.fill s).calls = before ++ s.calls ++ after
  := by
  obtain ⟨before, after, -, h⟩ := Tree.exists_calls_replaceAt C.at_path
  exact ⟨before, after, h⟩

end Context

end QueryReuse
