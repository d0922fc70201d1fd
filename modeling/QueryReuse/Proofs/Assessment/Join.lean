import QueryReuse.Proofs.Clearance.Meet
import QueryReuse.Walk

/-!
# Joint assessments

`Assessment.join as` is the assessment of several parts, one after the other. The main
statement is that assessing part after part until no reuse is left gives the joint
assessment of as many parts as `Clearance.collect` reads of their clearances.
-/

namespace QueryReuse

namespace Assessment

/-- The assessment of several parts, one after the other. -/
def join (as : List Assessment) : Assessment := as.foldr (· ++ ·) ∅

@[simp]
theorem join_nil :
  join [] = ∅
  := rfl

@[simp]
theorem join_cons (a : Assessment) (as : List Assessment) :
  join (a :: as) = a ++ join as
  := rfl

theorem clearance_join (as : List Assessment) :
  (join as).clearance = .meet (as.map clearance)
  := by
  induction as with
  | nil => rfl
  | cons a as ih =>
    rw [join_cons, clearance_append, ih]
    rfl

/-- What is picked out of the events of several parts is picked out of each part. -/
theorem filterMap_events_join {β : Type} (pick : Event → Option β) (as : List Assessment) :
  (join as).events.filterMap pick = as.flatMap fun a => a.events.filterMap pick
  := by
  induction as with
  | nil => rfl
  | cons a as ih =>
    rw [join_cons, events_append, List.filterMap_append, ih, List.flatMap_cons]

theorem accesses_join (as : List Assessment) :
  (join as).accesses = as.flatMap accesses
  := filterMap_events_join Event.access? as

theorem messages_join (as : List Assessment) :
  (join as).messages = as.flatMap messages
  := filterMap_events_join Event.message? as

@[simp]
theorem assessment_proceed (a : Assessment) :
  a.proceed.assessment = a
  := by
  unfold proceed
  split <;> rfl

@[simp]
theorem endedEarly_proceed (a : Assessment) :
  a.proceed.endedEarly = decide (a.clearance = .void)
  := by
  unfold proceed
  split <;> simp [Walk.endedEarly, *]

/-- Assessing part after part until no reuse is left, with some reuse left at the start,
assesses as many parts as collecting their clearances reads. -/
theorem foldlM_proceed {α : Type} (assess : α → Assessment) (parts : List α) {a : Assessment}
    (ha : a.clearance ≠ .void) :
  parts.foldlM (fun a part => (a ++ assess part).proceed) a
    = (a ++ join ((parts.take (Clearance.collectFrom a.clearance
        (parts.map fun part => (assess part).clearance)).taken).map assess)).proceed
  := by
  induction parts generalizing a with
  | nil =>
    rw [List.take_nil, List.map_nil, join_nil, append_empty]
    symm
    apply proceed_eq_ok.mpr ⟨ha, rfl⟩
  | cons part parts ih =>
    rw [List.foldlM_cons, List.map_cons]
    by_cases h : (a ++ assess part).clearance = .void
    · rw [Clearance.taken_collectFrom_cons_of_eq_void h, proceed_eq_error.mpr ⟨h, rfl⟩,
        List.take_succ_cons, List.take_zero, List.map_singleton, join_cons, join_nil, append_empty,
        proceed_eq_error.mpr ⟨h, rfl⟩]
      rfl
    · rw [Clearance.taken_collectFrom_cons_of_ne_void h, proceed_eq_ok.mpr ⟨h, rfl⟩,
        List.take_succ_cons, List.map_cons, join_cons, ← append_assoc]
      apply ih h

end Assessment

end QueryReuse
