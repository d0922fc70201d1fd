import QueryReuse.Proofs.Catalog.Footprint
import QueryReuse.Proofs.Walk.Policies
import QueryReuse.Proofs.Walk.Reach
import QueryReuse.Session

/-!
# The footprint of a query

What is found of a query depends on the places of the catalog that are read on the way, and on
no other place. One edit elsewhere leaves the assessment of the query as it is, down to each
event, so the next edit meets the same footprint. The main statement is about a session: a query
is assessed, the catalog is edited any number of times at places that were not read, and then
the query is assessed again, with the same reply.
-/

namespace QueryReuse

/-- The places that are read in the course of an assessment, in order. -/
def Assessment.footprint (a : Assessment) : List Place := a.accesses.map Access.place

namespace Assessor

variable {c : Assessor Source} {edit : Source.Edit}

theorem footprint_inquiry {source : Source} (hcatalog : c.catalog = some source)
    (name : String) :
  (Assessment.ofEvents (c.inquiry name)).footprint
    = (Catalog.consult source name).lookups.map (fun l => (Access.lookup l).place)
      ++ [.profile name]
  := by
  rw [Assessment.footprint, accesses_inquiry hcatalog, List.map_append, List.map_map]
  rfl

/-- An edit at a place that is not read for a call leaves the assessment of the call as it
is. -/
theorem assessCall_next_edit {f : FunctionDecl}
    (h : edit.place ∉ (Assessment.ofEvents (c.inquiry f.name)).footprint) :
  (Session.next c (.edit edit)).assessCall f = c.assessCall f
  := by
  cases hcatalog : c.catalog with
  | none => simp [Session.next, assessCall, inquiry, resolve, describe, assessProfile, hcatalog]
  | some source =>
    rw [footprint_inquiry hcatalog, List.mem_append, not_or, List.mem_singleton] at h
    obtain ⟨hlookups, hname⟩ := h
    have hconsult :
        Catalog.consult (source.edit edit) f.name = Catalog.consult source f.name := by
      apply Source.consult_edit hname
      intro l hl heq
      apply hlookups (heq ▸ List.mem_map_of_mem hl)
    simp [Session.next, assessCall, inquiry, resolve, describe, assessProfile, hcatalog, hconsult]

theorem footprint_inquiry_subset {t : Tree} {f : FunctionDecl} (hf : f ∈ c.assessed t) :
  (Assessment.ofEvents (c.inquiry f.name)).footprint ⊆ (c.assess t).footprint
  := by
  intro place hplace
  obtain ⟨access, haccess, rfl⟩ := List.mem_map.mp hplace
  apply List.mem_map_of_mem
  rw [accesses_assess_eq_flatMap_assessed]
  apply List.mem_flatMap_of_mem hf haccess

/-- An edit at a place that is not read for a query leaves the assessment of the query as it
is. -/
theorem assess_next_edit {t : Tree} (h : edit.place ∉ (c.assess t).footprint) :
  (Session.next c (.edit edit)).assess t = c.assess t
  := by
  apply assess_congr
  intro f hf
  apply assessCall_next_edit
  intro hplace
  apply h (footprint_inquiry_subset hf hplace)

end Assessor

namespace Session

/-- After edits at places that are not read for a query, the query is assessed as before. -/
theorem run_edits_assess {c : Assessor Source} {t : Tree} {edits : List Source.Edit}
    (h : ∀ edit ∈ edits, edit.place ∉ (c.assess t).footprint) :
  run c (edits.map .edit ++ [.assess t])
    = edits.map (fun _ => .done) ++ [.assessed (c.assess t)]
  := by
  induction edits generalizing c with
  | nil => rfl
  | cons edit edits ih =>
    obtain ⟨hedit, hedits⟩ := List.forall_mem_cons.mp h
    have hassess : (next c (.edit edit)).assess t = c.assess t := Assessor.assess_next_edit hedit
    -- The footprint is the same after the edit, so the other edits avoid it still.
    rw [← hassess] at hedits
    rw [List.map_cons, List.cons_append, run, ih hedits, hassess]
    rfl

/-- A query is assessed, the catalog is edited at places that were not read, and the query is
assessed again. The second reply is the first one, with the same clearance, the same accesses
and their answers, and the same messages. -/
theorem run_assess_edits_assess {c : Assessor Source} {t : Tree} {edits : List Source.Edit}
    (h : ∀ edit ∈ edits, edit.place ∉ (c.assess t).footprint) :
  run c (.assess t :: (edits.map .edit ++ [.assess t]))
    = .assessed (c.assess t) :: (edits.map (fun _ => .done) ++ [.assessed (c.assess t)])
  := by
  have hrun := run_edits_assess h
  rw [run, reply]
  apply congrArg _ hrun

/-- An assessor that finds `now` among the scalar functions and tolerates no stale values. -/
def scalarNow : Assessor Source where
  policy := .strict
  catalog := some (.registry (Registry.empty.register .scalar "now" ⟨"now", .stable⟩))

/-- Edits behind the entry that is found first, and of a function that is called later on. -/
def editsBehindNow : List Source.Edit :=
  [.register .aggregate "now" ⟨"now", .immutable⟩, .unregister .window "now",
    .register .scalar "random" ⟨"random", .immutable⟩]

/-- The walk over `now() - current_date() < random()` ends at its first call, for which a single
table is looked up. -/
theorem run_timeOfDayByChance_editsBehindNow :
  (scalarNow.assess Assessor.timeOfDayByChance).footprint
      = [.function .scalar "now", .profile "now"]
    ∧ run scalarNow (.assess Assessor.timeOfDayByChance
        :: (editsBehindNow.map .edit ++ [.assess Assessor.timeOfDayByChance]))
      = [.assessed (scalarNow.assess Assessor.timeOfDayByChance), .done, .done, .done,
        .assessed (scalarNow.assess Assessor.timeOfDayByChance)]
  := by
  have hfootprint : (scalarNow.assess Assessor.timeOfDayByChance).footprint
      = [.function .scalar "now", .profile "now"] := by decide +kernel
  use hfootprint
  apply run_assess_edits_assess
  rw [hfootprint]
  decide

end Session

end QueryReuse
