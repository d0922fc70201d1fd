import QueryReuse.Assessor
import QueryReuse.Proofs.Clearance.Graded

/-!
# Single functions

What comes of assessing a function, be its profile given, its name alone, or its
declaration in a call. In each case the clearance is that of one profile, and so it is
graded. Assessing a call accesses the catalog to ask about the name and logs what the
profile gives rise to.
-/

namespace QueryReuse

/-- The clearance of every function is graded. -/
theorem Profile.graded_clearance (policy : StalenessPolicy) (f : Profile) :
  (f.clearance policy).Graded
  := by
  unfold clearance
  split
  · apply Clearance.graded_full
  · constructor
    · simp only [Bool.or_eq_false_iff, Bool.not_eq_false']
      rintro ⟨hdynamic, -⟩
      simp [hdynamic]
    · simp only [Bool.not_eq_false']
      intro hdynamic
      simp [hdynamic]

namespace Assessor

variable {κ : Type} [Catalog κ]

theorem clearance_assessName (c : Assessor κ) (name : String) :
  (c.assessName name).clearance
    = ((c.describe name).getD (.unknown name)).clearance c.policy
  := by
  rw [assessName, Assessment.clearance_append]
  cases c.describe name with
  | none =>
    rw [Assessment.clearance_append]
    apply Eq.trans (Clearance.full_and _) (Clearance.full_and _)
  | some f => apply Clearance.full_and

theorem clearance_assessCall (c : Assessor κ) (f : FunctionDecl) :
  (c.assessCall f).clearance = (c.resolve f).clearance c.policy
  := Clearance.full_and _

/-- To assess a call, the catalog is accessed once to ask about the name. -/
theorem accesses_assessCall (c : Assessor κ) (f : FunctionDecl) :
  (c.assessCall f).accesses = (Assessment.ofEvents (c.inquiry f.name)).accesses
  := by
  have h : (c.assessProfile (c.resolve f)).accesses = [] := by
    simp only [assessProfile, Assessment.accesses, Profile.remarks]
    split
    · rfl
    · split <;> rfl
  rw [assessCall, Assessment.accesses_append, h, List.append_nil]

/-- To ask the catalog about a name, it is consulted and its answer is noted. -/
theorem accesses_inquiry {c : Assessor κ} {catalog : κ} (hcatalog : c.catalog = some catalog)
    (name : String) :
  (Assessment.ofEvents (c.inquiry name)).accesses
    = (Catalog.consult catalog name).lookups.map .lookup
      ++ [.described name (Catalog.consult catalog name).profile?]
  := by
  rw [Assessment.accesses, Assessment.ofEvents, inquiry, hcatalog, List.filterMap_append,
    List.filterMap_map]
  congr 1
  rw [← List.filterMap_eq_map]
  rfl

/-- Nothing is logged on account of asking the catalog. -/
theorem messages_inquiry (c : Assessor κ) (name : String) :
  (Assessment.ofEvents (c.inquiry name)).messages = []
  := by
  apply List.filterMap_eq_nil_iff.mpr
  intro event hevent
  simp only [Assessment.ofEvents, inquiry] at hevent
  cases h : c.catalog with
  | none =>
    rw [h] at hevent
    cases hevent
  | some catalog =>
    rw [h, List.mem_append, List.mem_map, List.mem_singleton] at hevent
    obtain ⟨lookup, -, rfl⟩ | rfl := hevent
    · rfl
    · rfl

/-- To assess a call, what its profile gives rise to is logged. -/
theorem messages_assessCall (c : Assessor κ) (f : FunctionDecl) :
  (c.assessCall f).messages = (c.assessProfile (c.resolve f)).messages
  := by
  rw [assessCall, Assessment.messages_append, messages_inquiry, List.nil_append]

end Assessor

end QueryReuse
