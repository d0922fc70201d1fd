import QueryReuse.Proofs.Walk.Ending

/-!
# Plans and their attached expressions

The walk over a plan goes on from expression to expression with what it has found so far,
whereas an expression assessed by itself is walked over with nothing found before. Both
walks over the expression end at the same call, because only a call that leaves no reuse by
itself ends a walk. The main statement is that a plan is assessed like its attached
expressions one at a time, when these are collected as far as collecting reads.
-/

namespace QueryReuse.Assessor

variable {κ : Type} [Catalog κ]

/-- What a walk sets out with, as long as it leaves some reuse, does not change what the
walk finds. -/
theorem walk_eq_append_walk_empty (c : Assessor κ) (t : Tree) {a : Assessment}
    (hgraded : a.clearance.Graded) (ha : a.clearance ≠ .void) :
  c.walk t a = (a ++ (c.walk t ∅).assessment).proceed
  := by
  have htaken := Clearance.taken_collectFrom_eq hgraded Clearance.graded_full ha (by decide)
    (c.graded_clearances t)
  rw [walk_eq_of_ne_void c t ha, htaken, walk_eq_of_settles (Clearance.settles_collect _),
    Assessment.assessment_proceed]
  rfl

/-- The calls of several expressions are assessed like the expressions one at a time. -/
theorem foldlM_calls_eq_foldlM_assessExpr (c : Assessor κ) (es : List Expr) {a : Assessment}
    (hgraded : a.clearance.Graded) (ha : a.clearance ≠ .void) :
  (es.flatMap fun e => (Tree.expr e).calls).foldlM c.meet a
    = es.foldlM (fun a e => (a ++ c.assessExpr e).proceed) a
  := by
  induction es generalizing a with
  | nil => rfl
  | cons e es ih =>
    have hwalk : (Tree.expr e).calls.foldlM c.meet a = (a ++ c.assessExpr e).proceed := by
      rw [assessExpr, ← walk_eq_append_walk_empty c _ hgraded ha, walk_eq_foldlM_calls,
        Assessment.proceed_eq_ok.mpr ⟨ha, rfl⟩]
      rfl
    rw [List.flatMap_cons, List.foldlM_append, List.foldlM_cons, hwalk]
    cases hr : (a ++ c.assessExpr e).proceed with
    | error b => rfl
    | ok b =>
      obtain ⟨hb, rfl⟩ := Assessment.proceed_eq_ok.mp hr
      apply ih
      · apply Clearance.Graded.and hgraded (c.graded_clearance_assess (.expr e))
      · apply hb

/-- The walk over a plan finds what its attached expressions give rise to, as far as
collecting their clearances reads. -/
theorem walk_plan_eq (c : Assessor κ) (p : Plan) :
  c.walk (.plan p) ∅
    = (Assessment.join ((p.attached.take (Clearance.collect
        (p.attached.map fun e => (c.assessExpr e).clearance)).taken).map c.assessExpr)).proceed
  := by
  rw [walk_eq_foldlM_calls, Plan.calls_eq_attached,
    Assessment.proceed_eq_ok.mpr ⟨by decide, rfl⟩]
  apply Eq.trans (foldlM_calls_eq_foldlM_assessExpr c _ Clearance.graded_full (by decide))
  have h := Assessment.foldlM_proceed c.assessExpr p.attached (a := ∅) (by decide)
  rwa [Assessment.empty_append] at h

/-- A plan has the clearance that collecting finds for its attached expressions, each
assessed by itself. Assessing the plan accesses the catalog and logs as assessing, one at a
time, the expressions whose clearances are read, and then logs the account of the walk. -/
theorem assessPlan_eq_collect_attached (c : Assessor κ) (p : Plan) :
  let found := Clearance.collect (p.attached.map fun e => (c.assessExpr e).clearance)
  let read := p.attached.take found.taken
  (c.assessPlan p).clearance = found.clearance
    ∧ (c.assessPlan p).accesses = read.flatMap (fun e => (c.assessExpr e).accesses)
    ∧ ∃ line, (Event.concluded found.clearance (found.clearance = .void)).message? = some line
      ∧ line.level = .debug
      ∧ (c.assessPlan p).messages = read.flatMap (fun e => (c.assessExpr e).messages) ++ [line]
  := by
  intro found read
  have hwalk := congrArg Walk.assessment (c.walk_plan_eq p)
  rw [Assessment.assessment_proceed] at hwalk
  have hfound : Clearance.meet (c.clearances (.plan p)) = found.clearance := by
    have hsettles := Clearance.settles_collect (p.attached.map fun e => (c.assessExpr e).clearance)
    rw [← clearance_walk_empty, hwalk, Assessment.clearance_join, List.map_map,
      Clearance.clearance_collect, ← hsettles.meet_take, List.map_take]
    rfl
  constructor
  · apply Eq.trans (c.clearance_assess (.plan p)) hfound
  constructor
  · apply Eq.trans (c.accesses_assess (.plan p))
    rw [hwalk, Assessment.accesses_join, List.flatMap_map]
  · refine ⟨_, rfl, rfl, ?_⟩
    apply Eq.trans (c.messages_assess (.plan p))
    rw [hwalk, hfound, Assessment.messages_join, List.flatMap_map]
    rfl

end QueryReuse.Assessor
