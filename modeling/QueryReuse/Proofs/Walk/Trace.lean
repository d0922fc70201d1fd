import QueryReuse.Proofs.Assessment.Join
import QueryReuse.Proofs.Function
import QueryReuse.Walk.Calls

/-!
# What a walk reads

A walk assesses calls one after the other and ends as soon as no reuse is left. So it
assesses the first so many calls of the tree, and its assessment is the joint assessment of
these calls, each by itself. The main statement is that they are the calls that settle the
clearances of all calls: the walk looks up and logs nothing on account of any other call,
and yet finds the clearance that all calls have together.
-/

namespace QueryReuse

/-- The account of the walk that ends the assessment of a plan. -/
def Tree.closing (t : Tree) (found : Clearance) : List Event :=
  match t with
  | .expr _ => []
  | .plan _ => [.concluded found (found = .void)]

namespace Assessor

variable {κ : Type} [Catalog κ]

/-- The clearance that each call of a tree has by itself, in the order of the visit. -/
def clearances (c : Assessor κ) (t : Tree) : List Clearance :=
  t.calls.map fun f => (c.resolve f).clearance c.policy

/-- Several calls have together the clearance that they have each by itself. -/
theorem clearance_join_assessCall (c : Assessor κ) (fs : List FunctionDecl) :
  (Assessment.join (fs.map c.assessCall)).clearance
    = .meet (fs.map fun f => (c.resolve f).clearance c.policy)
  := by
  rw [Assessment.clearance_join, List.map_map]
  simp only [Function.comp_def, clearance_assessCall]

/-- A walk with some reuse left at the start assesses as many calls as collecting their
clearances reads. -/
theorem walk_eq_of_ne_void (c : Assessor κ) (t : Tree) {a : Assessment}
    (ha : a.clearance ≠ .void) :
  c.walk t a
    = (a ++ .join ((t.calls.take (Clearance.collectFrom a.clearance
        (c.clearances t)).taken).map c.assessCall)).proceed
  := by
  rw [walk_eq_foldlM_calls, Assessment.proceed_eq_ok.mpr ⟨ha, rfl⟩]
  have h := Assessment.foldlM_proceed c.assessCall t.calls ha
  simp only [clearance_assessCall] at h
  apply h

/-- The walk over a tree assesses the calls that settle the clearances of all calls. -/
theorem walk_eq_of_settles {c : Assessor κ} {t : Tree} {n : Nat}
    (h : Clearance.Settles (c.clearances t) n) :
  c.walk t ∅ = (Assessment.join ((t.calls.take n).map c.assessCall)).proceed
  := by
  rw [h.unique (Clearance.settles_collect (c.clearances t))]
  have hwalk := c.walk_eq_of_ne_void t (a := ∅) (by decide)
  rwa [Assessment.empty_append] at hwalk

/-- The walk over a tree leaves of what it sets out with what all calls of the tree admit
together. -/
theorem clearance_walk (c : Assessor κ) (t : Tree) (a : Assessment) :
  (c.walk t a).assessment.clearance = a.clearance &&& .meet (c.clearances t)
  := by
  by_cases ha : a.clearance = .void
  · rw [walk_eq, Assessment.proceed_eq_error.mpr ⟨ha, rfl⟩, ha, Clearance.void_and]
    exact ha
  · rw [walk_eq_of_ne_void c t ha, Assessment.assessment_proceed, Assessment.clearance_append,
      clearance_join_assessCall, List.map_take]
    apply Clearance.and_meet_take (Clearance.taken_collectFrom_void_or_all _ _)

theorem clearance_walk_empty (c : Assessor κ) (t : Tree) :
  (c.walk t ∅).assessment.clearance = .meet (c.clearances t)
  := by
  rw [clearance_walk]
  apply Clearance.full_and

/-- An assessment is what the walk has found, and for a plan the account of the walk. -/
theorem assess_eq (c : Assessor κ) (t : Tree) :
  c.assess t = (c.walk t ∅).assessment ++ .ofEvents (t.closing (.meet (c.clearances t)))
  := by
  cases t with
  | expr e =>
    symm
    apply Assessment.append_empty
  | plan p =>
    rw [← clearance_walk_empty, assess, assessPlan, Tree.closing,
      walk_eq_of_settles (Clearance.settles_collect _)]
    simp only [Assessment.assessment_proceed, Assessment.endedEarly_proceed]

theorem accesses_assess (c : Assessor κ) (t : Tree) :
  (c.assess t).accesses = (c.walk t ∅).assessment.accesses
  := by
  rw [assess_eq, Assessment.accesses_append]
  cases t with
  | expr e => apply List.append_nil
  | plan p => apply List.append_nil

theorem messages_assess (c : Assessor κ) (t : Tree) :
  (c.assess t).messages
    = (c.walk t ∅).assessment.messages
      ++ (t.closing (.meet (c.clearances t))).filterMap Event.message?
  := by
  rw [assess_eq, Assessment.messages_append]
  rfl

/-- A query has the clearance that all its calls have together. -/
theorem clearance_assess (c : Assessor κ) (t : Tree) :
  (c.assess t).clearance = .meet (c.clearances t)
  := by
  rw [assess_eq, Assessment.clearance_append, clearance_walk_empty]
  apply Clearance.and_full

/-- A query admits a kind of reuse when each of its calls does. -/
theorem admits_assess {admits : Clearance → Bool} (hfull : admits .full = true)
    (hand : ∀ a b, admits (a &&& b) = (admits a && admits b)) (c : Assessor κ) (t : Tree) :
  admits (c.assess t).clearance = t.calls.all fun f => admits ((c.resolve f).clearance c.policy)
  := by
  rw [clearance_assess, Clearance.admits_meet hfull hand, clearances, List.all_map]
  rfl

/-- The calls that settle the clearances of all calls are assessed, each by itself and in
order. A query has the clearance that these calls have together, which is the one that all
its calls have together. The catalog is asked about their names alone, and they alone are
logged, before the account of the walk over a plan. -/
theorem assess_settling_calls (c : Assessor κ) (t : Tree) :
  ∃ n, Clearance.Settles (c.clearances t) n
    ∧ (c.walk t ∅).assessment = .join ((t.calls.take n).map c.assessCall)
    ∧ (c.assess t).accesses
        = (t.calls.take n).flatMap (fun f => (Assessment.ofEvents (c.inquiry f.name)).accesses)
    ∧ (c.assess t).messages
        = (t.calls.take n).flatMap (fun f => (c.assessProfile (c.resolve f)).messages)
          ++ (t.closing (c.assess t).clearance).filterMap Event.message?
    ∧ (c.assess t).clearance = .meet ((c.clearances t).take n)
    ∧ Clearance.meet ((c.clearances t).take n) = .meet (c.clearances t)
  := by
  have hsettles := Clearance.settles_collect (c.clearances t)
  have hwalk := congrArg Walk.assessment (walk_eq_of_settles hsettles)
  rw [Assessment.assessment_proceed] at hwalk
  use (Clearance.collect (c.clearances t)).taken, hsettles, hwalk
  rw [accesses_assess, messages_assess, hwalk, Assessment.accesses_join, Assessment.messages_join,
    List.flatMap_map, List.flatMap_map, clearance_assess, hsettles.meet_take]
  simp only [accesses_assessCall, messages_assessCall, true_and]

end Assessor

end QueryReuse
