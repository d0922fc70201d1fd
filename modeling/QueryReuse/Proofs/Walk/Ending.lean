import QueryReuse.Proofs.Walk.Trace

/-!
# Where a walk ends

Functions have graded clearances, so calls that each leave some reuse leave some together.
It takes a single call to end a walk: one that leaves no reuse by itself. The main
statement is that whatever is assessed has a graded clearance, that a query is left without
any reuse only on account of such a call, and that the walk ends right at the first one, or
else goes through all calls.
-/

namespace QueryReuse.Assessor

variable {κ : Type} [Catalog κ]

theorem graded_clearances (c : Assessor κ) (t : Tree) :
  ∀ a ∈ c.clearances t, a.Graded
  := by
  intro a ha
  obtain ⟨f, -, rfl⟩ := List.mem_map.mp ha
  apply Profile.graded_clearance

theorem graded_clearance_assess (c : Assessor κ) (t : Tree) :
  (c.assess t).clearance.Graded
  := by
  rw [clearance_assess]
  apply Clearance.graded_meet (c.graded_clearances t)

/-! ### Calls that leave no reuse -/

/-- The call leaves no reuse by itself. -/
def Voids (c : Assessor κ) (f : FunctionDecl) : Prop :=
  (c.resolve f).clearance c.policy = .void

instance (c : Assessor κ) (f : FunctionDecl) : Decidable (c.Voids f) :=
  inferInstanceAs (Decidable (_ = _))

/-- A query is left without any reuse on account of a single call. -/
theorem clearance_assess_eq_void_iff (c : Assessor κ) (t : Tree) :
  (c.assess t).clearance = .void ↔ ∃ f ∈ t.calls, c.Voids f
  := by
  rw [clearance_assess, Clearance.meet_eq_void_iff (c.graded_clearances t)]
  apply List.mem_map

theorem graded_and_ne_void_of_not_voids {c : Assessor κ} {fs : List FunctionDecl}
    (h : ∀ f ∈ fs, ¬c.Voids f) :
  ∀ a ∈ fs.map fun f => (c.resolve f).clearance c.policy, a.Graded ∧ a ≠ .void
  := by
  intro a ha
  obtain ⟨f, hf, rfl⟩ := List.mem_map.mp ha
  constructor
  · apply Profile.graded_clearance
  · apply h f hf

/-- Either each of the listed calls leaves some reuse or there is a first one that leaves
none. -/
theorem forall_not_voids_or_first (c : Assessor κ) (fs : List FunctionDecl) :
  (∀ f ∈ fs, ¬c.Voids f)
    ∨ ∃ before f after, fs = before ++ f :: after ∧ (∀ g ∈ before, ¬c.Voids g) ∧ c.Voids f
  := by
  cases h : fs.find? fun f => decide (c.Voids f) with
  | none =>
    left
    simpa using h
  | some f =>
    right
    obtain ⟨hf, before, after, hsplit, hbefore⟩ := List.find?_eq_some_iff_append.mp h
    use before, f, after, hsplit
    constructor
    · simpa using hbefore
    · simpa using hf

/-! ### The end of the walk -/

/-- The walk ends early at the first call that leaves no reuse by itself. -/
theorem walk_of_first_voids {c : Assessor κ} {t : Tree} {before after : List FunctionDecl}
    {f : FunctionDecl} (h : t.calls = before ++ f :: after) (hbefore : ∀ g ∈ before, ¬c.Voids g)
    (hf : c.Voids f) :
  c.walk t ∅ = .error (.join ((before ++ [f]).map c.assessCall))
  := by
  have hlast := Clearance.settles_append_void (graded_and_ne_void_of_not_voids hbefore)
    (after.map fun g => (c.resolve g).clearance c.policy)
  have hsettles : Clearance.Settles (c.clearances t) (before.length + 1) := by
    rw [clearances, h, List.map_append, List.map_cons, hf]
    rwa [List.length_map] at hlast
  rw [walk_eq_of_settles hsettles, h, List.take_length_add_append, List.take_succ_cons,
    List.take_zero]
  apply Assessment.proceed_eq_error.mpr
  constructor
  · rw [clearance_join_assessCall, List.map_append, Clearance.meet_append, List.map_singleton, hf,
      Clearance.meet_cons, Clearance.void_and, Clearance.and_void]
  · rfl

/-- A walk over calls that each leave some reuse goes through all of them. -/
theorem walk_of_not_voids {c : Assessor κ} {t : Tree} (h : ∀ f ∈ t.calls, ¬c.Voids f) :
  c.walk t ∅ = .ok (.join (t.calls.map c.assessCall))
  := by
  have hsettles := Clearance.settles_length (graded_and_ne_void_of_not_voids h)
  rw [List.length_map] at hsettles
  rw [walk_eq_of_settles hsettles, List.take_length]
  apply Assessment.proceed_eq_ok.mpr
  constructor
  · rw [clearance_join_assessCall]
    apply Clearance.meet_ne_void (graded_and_ne_void_of_not_voids h)
  · rfl

theorem walk_eq_error_iff {c : Assessor κ} {t : Tree} {a : Assessment} :
  c.walk t ∅ = .error a
    ↔ ∃ before f after, t.calls = before ++ f :: after ∧ (∀ g ∈ before, ¬c.Voids g) ∧ c.Voids f
      ∧ a = .join ((before ++ [f]).map c.assessCall)
  := by
  constructor
  · intro ha
    obtain hnone | ⟨before, f, after, h, hbefore, hf⟩ := c.forall_not_voids_or_first t.calls
    · rw [walk_of_not_voids hnone] at ha
      cases ha
    · rw [walk_of_first_voids h hbefore hf] at ha
      cases ha
      use before, f, after
  · rintro ⟨before, f, after, h, hbefore, hf, rfl⟩
    apply walk_of_first_voids h hbefore hf

theorem walk_eq_ok_iff {c : Assessor κ} {t : Tree} {a : Assessment} :
  c.walk t ∅ = .ok a
    ↔ (∀ f ∈ t.calls, ¬c.Voids f) ∧ a = .join (t.calls.map c.assessCall)
  := by
  constructor
  · intro ha
    obtain hnone | ⟨before, f, after, h, hbefore, hf⟩ := c.forall_not_voids_or_first t.calls
    · rw [walk_of_not_voids hnone] at ha
      cases ha
      use hnone
    · rw [walk_of_first_voids h hbefore hf] at ha
      cases ha
  · rintro ⟨hnone, rfl⟩
    apply walk_of_not_voids hnone

/-- Whatever is assessed has a graded clearance. A query is left without any reuse exactly
on account of a call that leaves none by itself. The walk ends early exactly at the first
such call, and goes through all calls if there is none. -/
theorem assess_graded_and_walk_ends_at_first_void (c : Assessor κ) :
  (∀ f : Profile, (c.assessProfile f).clearance.Graded)
    ∧ (∀ name, (c.assessName name).clearance.Graded)
    ∧ ∀ t : Tree, (c.assess t).clearance.Graded
      ∧ ((c.assess t).clearance = .void ↔ ∃ f ∈ t.calls, c.Voids f)
      ∧ (∀ a, c.walk t ∅ = .error a ↔ ∃ before f after, t.calls = before ++ f :: after
          ∧ (∀ g ∈ before, ¬c.Voids g) ∧ c.Voids f
          ∧ a = .join ((before ++ [f]).map c.assessCall))
      ∧ (∀ a, c.walk t ∅ = .ok a ↔ (∀ f ∈ t.calls, ¬c.Voids f)
          ∧ a = .join (t.calls.map c.assessCall))
  := by
  constructor
  · intro f
    apply Profile.graded_clearance
  constructor
  · intro name
    rw [clearance_assessName]
    apply Profile.graded_clearance
  intro t
  use c.graded_clearance_assess t, c.clearance_assess_eq_void_iff t
  constructor
  · intro a
    apply walk_eq_error_iff
  · intro a
    apply walk_eq_ok_iff

end QueryReuse.Assessor
