import QueryReuse.Catalog.Registry
import QueryReuse.Proofs.Walk.Trace
import QueryReuse.Walk.Fold

/-!
# Folds and walks

A fold finds what the walk over the same query finds, although it holds a signal beside what
it has found, passes some signals up, drops others and makes them up again. It works because
what has been found and the signal never part: an action performs a walk if it does so from
whatever leaves some reuse, and then it signals to stop where the walk ends early and to go on
where the walk does. The main statement takes a fold from whatever has been found before. It
withdraws what the query withdraws by itself, its signal can be read off what it has found,
and it does nothing where no reuse was left.
-/

namespace QueryReuse

/-- The walks over the listed nodes, one after the other. -/
def walkEach {α : Type} (walk : α → Assessment → Walk) (xs : List α) (a : Assessment) : Walk :=
  xs.foldlM (fun a x => walk x a) a

/-- From whatever leaves some reuse, the action finds what the walk finds, and its signal is to
go on or to stop as the walk does. -/
def Performs (act : StateM Assessment Signal) (walk : Assessment → Walk) : Prop :=
  ∀ a, a.clearance ≠ .void → ∃ b, walk a = b.proceed ∧ act.run a = (b.signal, b)

theorem performs_unlessVoid_iff {act : StateM Assessment Signal} {walk : Assessment → Walk} :
  Performs (unlessVoid act) walk ↔ Performs act walk
  := by
  apply forall₂_congr
  intro a ha
  rw [run_unlessVoid_of_ne_void ha]

namespace Performs

variable {act : StateM Assessment Signal} {walk walk' : Assessment → Walk}

theorem of_eq (h : Performs act walk) (hwalk : ∀ a, a.clearance ≠ .void → walk' a = walk a) :
  Performs act walk'
  := by
  intro a ha
  obtain ⟨b, hb, hrun⟩ := h a ha
  use b, (hwalk a ha).trans hb

theorem pure_goOn :
  Performs (pure .goOn) pure
  := by
  intro a ha
  use a
  rw [Assessment.proceed_eq_ok.mpr ⟨ha, rfl⟩, Assessment.signal, if_neg ha]
  exact ⟨rfl, rfl⟩

/-- Two walks one after the other are performed by an action and another that follows its
signal. -/
theorem bind {next : Signal → StateM Assessment Signal} (h : Performs act walk)
    (hstop : next .stop = pure .stop) (hnext : Performs (next .goOn) walk') :
  Performs (act >>= next) (walk >=> walk')
  := by
  intro a ha
  obtain ⟨b, hb, hrun⟩ := h a ha
  have hbind : (act >>= next).run a = (next b.signal).run b := by
    show (next (act.run a).1).run (act.run a).2 = _
    rw [hrun]
  rw [Bind.kleisliRight, hb, hbind]
  by_cases hvoid : b.clearance = .void
  · use b
    rw [Assessment.proceed_eq_error.mpr ⟨hvoid, rfl⟩, Assessment.signal, if_pos hvoid, hstop]
    exact ⟨rfl, rfl⟩
  · rw [Assessment.proceed_eq_ok.mpr ⟨hvoid, rfl⟩, Assessment.signal, if_neg hvoid]
    exact hnext b hvoid

/-- The signal that an action ends with may be dropped and made up again. -/
theorem signalAfter (h : Performs act walk) :
  Performs (signalAfter act) walk
  := by
  intro a ha
  obtain ⟨b, hb, hrun⟩ := h a ha
  use b, hb
  rw [run_signalAfter, hrun]

section Visits

variable {α : Type} {visit : α → StateM Assessment Signal} {walkOf : α → Assessment → Walk}

theorem visitEach {xs : List α} (h : ∀ x ∈ xs, Performs (visit x) (walkOf x)) :
  Performs (visitEach visit xs) (walkEach walkOf xs)
  := by
  induction xs with
  | nil => exact pure_goOn
  | cons x xs ih =>
    obtain ⟨hx, hxs⟩ := List.forall_mem_cons.mp h
    exact hx.bind (foldlM_visit_stop visit xs) (ih hxs)

theorem traverse [SizeOf α] [Node α] {x : α} (hroot : Performs (visit x) walk)
    (hbelow : ∀ y ∈ Node.below x, Performs (traverse visit y) (walkOf y)) :
  Performs (traverse visit x) (walk >=> walkEach walkOf (Node.below x))
  := by
  rw [traverse_eq]
  exact hroot.bind rfl (visitEach hbelow)

end Visits

end Performs

/-- An expression that holds a subquery calls no function itself. -/
theorem Expr.call?_eq_none_of_subquery? {e : Expr} {p : Plan} (h : e.subquery? = some p) :
  e.call? = none
  := by
  rw [Option.eq_none_iff_forall_ne_some]
  intro f hf
  obtain ⟨_, rfl⟩ | ⟨_, _, _, _, rfl⟩ | ⟨_, _, _, _, rfl⟩ := Expr.call?_eq_some_iff.mp hf <;>
    cases h

namespace Assessor

variable {κ : Type} [Catalog κ]

/-! ### The walk in the order of a fold -/

/-- A walk over an expression visits the root, then its subquery, and then its operands. -/
theorem walk_expr_eq (c : Assessor κ) (e : Expr) {a : Assessment} (ha : a.clearance ≠ .void) :
  c.walk (.expr e) a
    = ((c.visit (.expr e) >=> walkEach (fun p => c.walk (.plan p)) e.subquery?.toList)
        >=> walkEach (fun x => c.walk (.expr x)) e.operands) a
  := by
  rw [walk_eq, Assessment.proceed_eq_ok.mpr ⟨ha, rfl⟩, Tree.children]
  simp only [Bind.kleisliRight, walkEach, List.foldlM_append, List.foldlM_map, bind_assoc]
  rfl

/-- A walk over a plan goes over the expressions of its root and then over its inputs. -/
theorem walk_plan_eq_exprs_inputs (c : Assessor κ) (p : Plan) {a : Assessment}
    (ha : a.clearance ≠ .void) :
  c.walk (.plan p) a
    = (walkEach (fun x => c.walk (.expr x)) p.exprs
        >=> walkEach (fun q => c.walk (.plan q)) p.inputs) a
  := by
  rw [walk_eq, Assessment.proceed_eq_ok.mpr ⟨ha, rfl⟩, Tree.children]
  simp only [Bind.kleisliRight, walkEach, List.foldlM_append, List.foldlM_map]
  rfl

/-! ### Folds perform walks -/

theorem performs_visitExpr {c : Assessor κ} {e : Expr}
    (h : ∀ p, e.subquery? = some p → Performs (c.foldPlan p) (c.walk (.plan p))) :
  Performs (c.visitExpr e)
    (c.visit (.expr e) >=> walkEach (fun p => c.walk (.plan p)) e.subquery?.toList)
  := by
  rw [visitExpr]
  cases hp : e.subquery? with
  | some p =>
    have hcall : (Tree.expr e).call? = none := Expr.call?_eq_none_of_subquery? hp
    apply (h p hp).signalAfter.of_eq
    intro a _
    rw [Bind.kleisliRight, visit, hcall]
    show c.walk (.plan p) a >>= pure = _
    apply bind_pure
  | none =>
    intro a ha
    rw [Bind.kleisliRight, visit, Tree.call?]
    cases hf : e.call? with
    | some f =>
      use a ++ c.assessCall f
      constructor
      · show (c.meet a f >>= pure) >>= pure = _
        rw [bind_pure, bind_pure, meet]
      · rfl
    | none =>
      use a
      rw [Assessment.proceed_eq_ok.mpr ⟨ha, rfl⟩]
      exact ⟨rfl, rfl⟩

/-- A fold performs the walk over the same tree. -/
theorem performs_fold (c : Assessor κ) (t : Tree) :
  Performs (c.fold t) (c.walk t)
  := by
  induction t using Tree.induction with
  | step t ih =>
    -- The induction is over expressions and plans at once, since either fold uses the other.
    -- Operands and inputs are traversed without the test that a fold begins with, but the
    -- test makes no difference where some reuse is left.
    cases t with
    | expr e =>
      have hroot : Performs (c.visitExpr e)
          (c.visit (.expr e) >=> walkEach (fun p => c.walk (.plan p)) e.subquery?.toList) := by
        apply performs_visitExpr
        intro p hp
        apply ih (.plan p)
        simp [Tree.children, hp]
      have hbelow : ∀ x ∈ e.operands, Performs (traverse c.visitExpr x) (c.walk (.expr x)) := by
        intro x hx
        rw [← performs_unlessVoid_iff, ← foldExpr_eq]
        apply ih (.expr x)
        simp [Tree.children, hx]
      rw [fold, foldExpr_eq, performs_unlessVoid_iff]
      apply (hroot.traverse hbelow).of_eq
      intro a ha
      apply c.walk_expr_eq e ha
    | plan p =>
      have hroot : Performs (c.visitPlan p) (walkEach (fun x => c.walk (.expr x)) p.exprs) := by
        apply Performs.signalAfter
        apply Performs.visitEach
        intro x hx
        apply ih (.expr x)
        simp [Tree.children, hx]
      have hbelow : ∀ q ∈ p.inputs, Performs (traverse c.visitPlan q) (c.walk (.plan q)) := by
        intro q hq
        rw [← performs_unlessVoid_iff, ← foldPlan_eq]
        apply ih (.plan q)
        simp [Tree.children, hq]
      rw [fold, foldPlan_eq, performs_unlessVoid_iff]
      apply (hroot.traverse hbelow).of_eq
      intro a ha
      apply c.walk_plan_eq_exprs_inputs p ha

theorem run_fold_of_eq_void (c : Assessor κ) (t : Tree) {a : Assessment}
    (ha : a.clearance = .void) :
  (c.fold t).run a = (.stop, a)
  := by
  cases t with
  | expr e =>
    rw [fold, foldExpr_eq]
    apply run_unlessVoid_of_eq_void ha
  | plan p =>
    rw [fold, foldPlan_eq]
    apply run_unlessVoid_of_eq_void ha

/-- From whatever has been found before, a fold comes to what the walk comes to. -/
theorem exists_walk_eq_run_fold_eq (c : Assessor κ) (t : Tree) (a : Assessment) :
  ∃ b, c.walk t a = b.proceed ∧ (c.fold t).run a = (b.signal, b)
  := by
  by_cases ha : a.clearance = .void
  · use a
    rw [run_fold_of_eq_void c t ha, Assessment.signal, if_pos ha, walk_eq,
      Assessment.proceed_eq_error.mpr ⟨ha, rfl⟩]
    exact ⟨rfl, rfl⟩
  · exact c.performs_fold t a ha

/-- An expression is assessed by a fold that sets out with nothing. -/
theorem assessExpr_eq_run_foldExpr (c : Assessor κ) (e : Expr) :
  c.assessExpr e = ((c.foldExpr e).run ∅).2
  := by
  obtain ⟨b, hb, hrun⟩ := c.exists_walk_eq_run_fold_eq (.expr e) ∅
  rw [fold] at hrun
  rw [assessExpr, hb, Assessment.assessment_proceed, hrun]

/-- A plan is assessed by a fold that sets out with nothing. The account of the walk tells what
the fold signals. -/
theorem assessPlan_eq_run_foldPlan (c : Assessor κ) (p : Plan) :
  ∃ signal found, (c.foldPlan p).run ∅ = (signal, found)
    ∧ c.assessPlan p = found ++ .ofEvents [.concluded found.clearance (signal = .stop)]
  := by
  obtain ⟨b, hb, hrun⟩ := c.exists_walk_eq_run_fold_eq (.plan p) ∅
  use b.signal, b, hrun
  rw [assessPlan, hb, Assessment.assessment_proceed, Assessment.endedEarly_proceed]
  simp only [Assessment.signal_eq_stop_iff]

/-- From whatever has been found before, a fold comes to what the walk comes to. Of the reuse
that was left before, it leaves what the query by itself admits. The signal is to stop if that
is none and to go on otherwise, never to skip. Where no reuse was left before, nothing is
looked up or logged, and what has been found stays as it is. So the signal that the fold of a
subquery ends with, and that is dropped, is the one that is made up after it. -/
theorem fold_adds_clearance_and_signals_it (c : Assessor κ) :
  (∀ (t : Tree) (a : Assessment), ∃ b,
      (c.fold t).run a = (if b.clearance = .void then .stop else .goOn, b)
        ∧ c.walk t a = b.proceed
        ∧ b.clearance = a.clearance &&& (c.assess t).clearance)
    ∧ (∀ (t : Tree) (events : List Event),
        (c.fold t).run ⟨.void, events⟩ = (.stop, ⟨.void, events⟩))
    ∧ ∀ p : Plan, signalAfter (c.foldPlan p) = c.foldPlan p
  := by
  constructor
  · intro t a
    obtain ⟨b, hb, hrun⟩ := c.exists_walk_eq_run_fold_eq t a
    have hclearance := c.clearance_walk t a
    rw [hb, Assessment.assessment_proceed, ← clearance_assess] at hclearance
    use b, hrun, hb, hclearance
  constructor
  · intro t events
    apply run_fold_of_eq_void c t rfl
  · intro p
    apply StateT.ext
    intro a
    obtain ⟨b, -, hrun⟩ := c.exists_walk_eq_run_fold_eq (.plan p) a
    rw [fold] at hrun
    rw [run_signalAfter, hrun]

/-- What was found before and the time of day leave no reuse together, although each leaves
some. The signal to stop comes out of the subquery, and the operand is not visited. -/
example :
  ((({} : Assessor Registry).fold
        (.expr (.inSubquery (.scalarCall ⟨"random", .volatile⟩ [])
          (.projection [.scalarCall ⟨"now", .stable⟩ []] (.scan "t" [])) [] false))).run
      ⟨⟨true, false, true⟩, []⟩).run
    = (.stop, ⟨.void, [.restricted "now" ⟨false, true, false⟩]⟩)
  := by decide +kernel

end Assessor

end QueryReuse
