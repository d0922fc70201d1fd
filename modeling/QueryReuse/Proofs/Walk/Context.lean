import QueryReuse.Catalog.Registry
import QueryReuse.Proofs.Clearance.Order
import QueryReuse.Proofs.Walk.Trace
import QueryReuse.Query.Context

/-!
# Replacing a part of a query

What a query admits is what the part in a hole admits and what the query around the hole
admits. The main statement says so of every context and every filling, and also of a filling
that is never visited, because the walk ends before it comes to the hole. So another part that
admits the same makes no difference to the query, and one that admits less never makes the
query admit more.
-/

namespace QueryReuse.Assessor

variable {κ : Type} [Catalog κ]

theorem clearance_assess_of_blank (c : Assessor κ) {t : Tree} (ht : t.Blank) :
  (c.assess t).clearance = .full
  := by
  rw [clearance_assess, clearances, ht.calls_eq_nil]
  rfl

/-- The query around a hole admits the same whatever is in the hole. -/
theorem exists_clearance_assess_fill (c : Assessor κ) (C : Context) :
  ∃ around : Clearance, ∀ s, C.Fits s →
    (c.assess (C.fill s)).clearance = around &&& (c.assess s).clearance
  := by
  obtain ⟨before, after, hcalls⟩ := C.exists_calls_fill
  use Clearance.meet (before.map fun f => (c.resolve f).clearance c.policy)
    &&& Clearance.meet (after.map fun f => (c.resolve f).clearance c.policy)
  intro s hs
  rw [clearance_assess, clearances, hcalls s hs, List.map_append, List.map_append,
    Clearance.meet_append, Clearance.meet_append, clearance_assess, Clearance.and_assoc,
    Clearance.and_assoc, Clearance.and_comm _ (.meet (after.map _))]
  rfl

/-- A query admits what it admits with a blank in the place of a part and what the part admits
by itself. So another part that admits the same changes nothing about what the query admits,
and a part that admits no more never makes it admit more. -/
theorem clearance_assess_fill (c : Assessor κ) (C : Context) {s : Tree} (hs : C.Fits s) :
  (∀ blank, C.Fits blank → blank.Blank → (c.assess (C.fill s)).clearance
      = (c.assess (C.fill blank)).clearance &&& (c.assess s).clearance)
    ∧ ∀ s', C.Fits s' →
      ((c.assess s').clearance = (c.assess s).clearance
          → (c.assess (C.fill s')).clearance = (c.assess (C.fill s)).clearance)
        ∧ ((c.assess s').clearance ≤ (c.assess s).clearance
          → (c.assess (C.fill s')).clearance ≤ (c.assess (C.fill s)).clearance)
  := by
  obtain ⟨around, haround⟩ := c.exists_clearance_assess_fill C
  constructor
  · intro blank hfits hblank
    rw [haround s hs, haround blank hfits, c.clearance_assess_of_blank hblank, Clearance.and_full]
  · intro s' hs'
    rw [haround s hs, haround s' hs']
    constructor
    · intro h
      rw [h]
    · intro h
      apply Clearance.and_le_and (Clearance.le_refl around) h

/-- The place of the condition in `SELECT sum(x) FILTER (WHERE true) FROM t`, where this is the
subquery of `SELECT * FROM u WHERE a IN (...)`. -/
def conditionOfSum : Context where
  tree :=
    .plan (.filter
      (.inSubquery (.column "a")
        (.projection
          [.aggregateCall ⟨"sum", .immutable⟩ [.column "x"] (some (.literal (.boolean true))) []
            false]
          (.scan "t" []))
        [] false)
      false (.scan "u" []))
  path := [0, 0, 0, 1]
  part := .expr (.literal (.boolean true))
  at_path := rfl

example (e : Expr) :
  conditionOfSum.fill (.expr e)
    = .plan (.filter
        (.inSubquery (.column "a")
          (.projection [.aggregateCall ⟨"sum", .immutable⟩ [.column "x"] (some e) [] false]
            (.scan "t" []))
          [] false)
        false (.scan "u" []))
  := rfl

/-- The condition is put on the current time, and then on the current user instead. -/
theorem clearance_assess_fill_conditionOfSum :
  (({} : Assessor Registry).assess
        (conditionOfSum.fill (.expr (.scalarCall ⟨"now", .stable⟩ [])))).clearance
      = (({} : Assessor Registry).assess
          (conditionOfSum.fill (.expr (.literal .null)))).clearance
        &&& (({} : Assessor Registry).assess (.expr (.scalarCall ⟨"now", .stable⟩ []))).clearance
    ∧ (({} : Assessor Registry).assess
        (conditionOfSum.fill (.expr (.scalarCall ⟨"current_user", .stable⟩ [])))).clearance
      ≤ (({} : Assessor Registry).assess
        (conditionOfSum.fill (.expr (.scalarCall ⟨"now", .stable⟩ [])))).clearance
  := by
  have hnow : conditionOfSum.Fits (.expr (.scalarCall ⟨"now", .stable⟩ [])) := rfl
  have huser : conditionOfSum.Fits (.expr (.scalarCall ⟨"current_user", .stable⟩ [])) := rfl
  have hnull : conditionOfSum.Fits (.expr (.literal .null)) := rfl
  obtain ⟨hblank, htighter⟩ := clearance_assess_fill ({} : Assessor Registry) _ hnow
  constructor
  · apply hblank _ hnull (.literal .null)
  · apply (htighter _ huser).2
    decide +kernel

end QueryReuse.Assessor
