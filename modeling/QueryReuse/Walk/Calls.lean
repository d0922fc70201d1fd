import QueryReuse.Query.Calls
import QueryReuse.Walk

/-!
# Walks and calls

Of a tree, a walk reads the calls alone: it assesses them in the order of `Tree.calls`,
one after the other, until no reuse is left.
-/

namespace QueryReuse.Assessor

variable {κ : Type} [Catalog κ]

/-- A walk over calls that goes on has some reuse left. -/
theorem clearance_ne_void_of_foldlM_meet {c : Assessor κ} {fs : List FunctionDecl}
    {a b : Assessment} (ha : a.clearance ≠ .void) (h : fs.foldlM c.meet a = .ok b) :
  b.clearance ≠ .void
  := by
  induction fs generalizing a with
  | nil =>
    cases h
    exact ha
  | cons f fs ih =>
    rw [List.foldlM_cons] at h
    cases hm : c.meet a f with
    | error e =>
      rw [hm] at h
      cases h
    | ok a' =>
      rw [hm] at h
      obtain ⟨hvoid, rfl⟩ := Assessment.proceed_eq_ok.mp hm
      exact ih hvoid h

/-- If the walk over each of some trees reads the calls alone, then so does the walk over
them one after the other. -/
theorem foldlM_walk {c : Assessor κ} {ts : List Tree}
    (h : ∀ t ∈ ts, ∀ a : Assessment, c.walk t a = a.proceed >>= t.calls.foldlM c.meet)
    {a : Assessment} (ha : a.clearance ≠ .void) :
  ts.foldlM (fun a t => c.walk t a) a = (ts.flatMap Tree.calls).foldlM c.meet a
  := by
  induction ts generalizing a with
  | nil => rfl
  | cons t ts ih =>
    have hwalk : c.walk t a = t.calls.foldlM c.meet a
      := by
      rw [h t List.mem_cons_self, Assessment.proceed_eq_ok.mpr ⟨ha, rfl⟩]
      rfl
    rw [List.foldlM_cons, List.flatMap_cons, List.foldlM_append, hwalk]
    cases hr : t.calls.foldlM c.meet a with
    | error b => rfl
    | ok b =>
      apply ih
      · intro t ht
        exact h t (List.mem_cons_of_mem _ ht)
      · exact clearance_ne_void_of_foldlM_meet ha hr

/-- A walk assesses the calls of the tree in order. -/
theorem walk_eq_foldlM_calls (c : Assessor κ) (t : Tree) (a : Assessment) :
  c.walk t a = a.proceed >>= t.calls.foldlM c.meet
  := by
  induction t using Tree.induction generalizing a with
  | step t ih =>
    rw [walk_eq, Tree.calls_eq]
    cases ha : a.proceed with
    | error b => rfl
    | ok b =>
      obtain ⟨hvoid, rfl⟩ := Assessment.proceed_eq_ok.mp ha
      show (c.visit t a >>= _) = (t.call?.toList ++ _).foldlM c.meet a
      rw [List.foldlM_append, visit]
      cases hv : t.call?.toList.foldlM c.meet a with
      | error b => rfl
      | ok b =>
        apply foldlM_walk ih
        exact clearance_ne_void_of_foldlM_meet hvoid hv

end QueryReuse.Assessor
