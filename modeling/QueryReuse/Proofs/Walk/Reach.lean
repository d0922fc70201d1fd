import QueryReuse.Proofs.Walk.Trace

/-!
# How far a walk goes

A walk assesses the calls of a query one by one, up to the call that ends it or up to the last
one. What is found of these calls is all that is found of the query. The main statement compares
two assessors, whatever their policies and catalogs are: if they find the same of every call
that one of them assesses, then they assess the same calls and find the same of the query. No
call beyond the end of the one walk makes the other walk go on.
-/

namespace QueryReuse.Assessor

variable {κ κ' : Type} [Catalog κ] [Catalog κ']

/-- The calls among the listed ones that are assessed by a walk that has come to `a`. -/
def callsMet (c : Assessor κ) (a : Assessment) : List FunctionDecl → List FunctionDecl
  | [] => []
  | f :: fs =>
    f :: match c.meet a f with
      | .ok b => c.callsMet b fs
      | .error _ => []

/-- The calls of a tree that are assessed by the walk over it, in the order of the visit. -/
def assessed (c : Assessor κ) (t : Tree) : List FunctionDecl := c.callsMet ∅ t.calls

theorem callsMet_cons_of_eq_void {c : Assessor κ} {a : Assessment} {f : FunctionDecl}
    (h : (a ++ c.assessCall f).clearance = .void) (fs : List FunctionDecl) :
  c.callsMet a (f :: fs) = [f]
  := by
  rw [callsMet, meet, Assessment.proceed_eq_error.mpr ⟨h, rfl⟩]

theorem callsMet_cons_of_ne_void {c : Assessor κ} {a : Assessment} {f : FunctionDecl}
    (h : (a ++ c.assessCall f).clearance ≠ .void) (fs : List FunctionDecl) :
  c.callsMet a (f :: fs) = f :: c.callsMet (a ++ c.assessCall f) fs
  := by
  rw [callsMet, meet, Assessment.proceed_eq_ok.mpr ⟨h, rfl⟩]

/-- The first call is assessed whatever comes of it. -/
theorem callsMet_singleton (c : Assessor κ) (a : Assessment) (f : FunctionDecl) :
  c.callsMet a [f] = [f]
  := by
  by_cases h : (a ++ c.assessCall f).clearance = .void
  · apply callsMet_cons_of_eq_void h
  · apply callsMet_cons_of_ne_void h

/-- A walk assesses as many calls as collecting their clearances reads. -/
theorem callsMet_eq_take (c : Assessor κ) (a : Assessment) (fs : List FunctionDecl) :
  c.callsMet a fs
    = fs.take (Clearance.collectFrom a.clearance
        (fs.map fun f => (c.resolve f).clearance c.policy)).taken
  := by
  induction fs generalizing a with
  | nil => rfl
  | cons f fs ih =>
    have hclearance : (a ++ c.assessCall f).clearance
        = a.clearance &&& (c.resolve f).clearance c.policy := by
      rw [Assessment.clearance_append, clearance_assessCall]
    rw [List.map_cons]
    by_cases h : a.clearance &&& (c.resolve f).clearance c.policy = .void
    · rw [callsMet_cons_of_eq_void (hclearance.trans h),
        Clearance.taken_collectFrom_cons_of_eq_void h]
      rfl
    · rw [callsMet_cons_of_ne_void (hclearance ▸ h),
        Clearance.taken_collectFrom_cons_of_ne_void h, List.take_succ_cons, ih, hclearance]

theorem assessed_eq_take (c : Assessor κ) (t : Tree) :
  c.assessed t = t.calls.take (Clearance.collect (c.clearances t)).taken
  := c.callsMet_eq_take ∅ t.calls

/-! ### What is found of the assessed calls -/

theorem walk_eq_proceed_assessed (c : Assessor κ) (t : Tree) :
  c.walk t ∅ = (Assessment.join ((c.assessed t).map c.assessCall)).proceed
  := by
  rw [assessed_eq_take]
  apply walk_eq_of_settles (Clearance.settles_collect (c.clearances t))

/-- What is found of a query is what is found of its assessed calls, and for a plan the account
of the walk. -/
theorem assess_eq_join_assessed (c : Assessor κ) (t : Tree) :
  c.assess t
    = .join ((c.assessed t).map c.assessCall) ++ .ofEvents (t.closing (.meet (c.clearances t)))
  := by
  rw [assess_eq, walk_eq_proceed_assessed, Assessment.assessment_proceed]

/-- A query has the clearance that its assessed calls have together. -/
theorem clearance_assess_eq_meet_assessed (c : Assessor κ) (t : Tree) :
  (c.assess t).clearance
    = .meet ((c.assessed t).map fun f => (c.resolve f).clearance c.policy)
  := by
  rw [clearance_assess, ← clearance_walk_empty, walk_eq_proceed_assessed,
    Assessment.assessment_proceed, clearance_join_assessCall]

/-- The catalog is asked about the assessed calls. -/
theorem accesses_assess_eq_flatMap_assessed (c : Assessor κ) (t : Tree) :
  (c.assess t).accesses
    = (c.assessed t).flatMap fun f => (Assessment.ofEvents (c.inquiry f.name)).accesses
  := by
  rw [accesses_assess, walk_eq_proceed_assessed, Assessment.assessment_proceed,
    Assessment.accesses_join, List.flatMap_map]
  simp only [accesses_assessCall]

/-! ### Two walks -/

/-- If two assessors find the same clearance of every call that one of them assesses, then they
assess the same calls. -/
theorem callsMet_congr {c : Assessor κ} {c' : Assessor κ'} {a a' : Assessment}
    {fs : List FunctionDecl} (ha : a'.clearance = a.clearance)
    (h : ∀ f ∈ c.callsMet a fs,
      (c'.assessCall f).clearance = (c.assessCall f).clearance) :
  c'.callsMet a' fs = c.callsMet a fs
  := by
  induction fs generalizing a a' with
  | nil => rfl
  | cons f fs ih =>
    -- The walks come to the same clearance with each call, and so they end at the same call.
    have hf : (a' ++ c'.assessCall f).clearance = (a ++ c.assessCall f).clearance := by
      rw [Assessment.clearance_append, Assessment.clearance_append, ha, h f List.mem_cons_self]
    by_cases hvoid : (a ++ c.assessCall f).clearance = .void
    · rw [callsMet_cons_of_eq_void hvoid, callsMet_cons_of_eq_void (hf.trans hvoid)]
    · rw [callsMet_cons_of_ne_void hvoid] at h ⊢
      rw [callsMet_cons_of_ne_void (hf ▸ hvoid), ih hf]
      intro g hg
      apply h g (List.mem_cons_of_mem f hg)

theorem assessed_congr {c : Assessor κ} {c' : Assessor κ'} {t : Tree}
    (h : ∀ f ∈ c.assessed t, (c'.assessCall f).clearance = (c.assessCall f).clearance) :
  c'.assessed t = c.assessed t
  := callsMet_congr rfl h

/-- If two assessors find the same clearance of every call that one of them assesses, then they
find the same clearance of the query. -/
theorem clearance_assess_congr {c : Assessor κ} {c' : Assessor κ'} {t : Tree}
    (h : ∀ f ∈ c.assessed t, (c'.assessCall f).clearance = (c.assessCall f).clearance) :
  (c'.assess t).clearance = (c.assess t).clearance
  := by
  rw [clearance_assess_eq_meet_assessed, clearance_assess_eq_meet_assessed, assessed_congr h]
  congr 1
  apply List.map_congr_left
  intro f hf
  have hclearance := h f hf
  rwa [clearance_assessCall, clearance_assessCall] at hclearance

/-- If two assessors find the same of every call that one of them assesses, then they find the
same of the query, down to each event. -/
theorem assess_congr {c : Assessor κ} {c' : Assessor κ'} {t : Tree}
    (h : ∀ f ∈ c.assessed t, c'.assessCall f = c.assessCall f) :
  c'.assess t = c.assess t
  := by
  have hclearance : ∀ f ∈ c.assessed t,
      (c'.assessCall f).clearance = (c.assessCall f).clearance := by
    intro f hf
    rw [h f hf]
  rw [assess_eq_join_assessed, assess_eq_join_assessed, ← clearance_assess, ← clearance_assess,
    clearance_assess_congr hclearance, assessed_congr hclearance, List.map_congr_left h]

end QueryReuse.Assessor
