import QueryReuse.Proofs.Name
import QueryReuse.StalenessPolicy

/-!
# The history of a staleness policy

A policy is changed name by name, and names that differ in the case of their letters only are
the same name for a change. So it is the last change about a function that decides whether the
function is tolerated, and before any change the list that the policy set out with decides. The
changes write upper-cased names only. An entry of the first list that is not upper-cased can be
neither met nor removed by them, and no function is looked up under it.
-/

namespace QueryReuse.StalenessPolicy

/-- The name that a change is about. -/
def Edit.name : Edit → String
  | .tolerate name => name
  | .revoke name => name

/-- The name is listed after the change. -/
def Edit.lists : Edit → Bool
  | .tolerate _ => true
  | .revoke _ => false

/-- Makes several changes, one after the other. -/
def editAll (policy : StalenessPolicy) (edits : List Edit) : StalenessPolicy :=
  edits.foldl edit policy

/-- The last of several changes about the named function, in whatever case they name it. -/
def lastEdit? (edits : List Edit) (name : String) : Option Edit :=
  (edits.filter fun e => Name.Alike e.name name).getLast?

theorem editAll_concat (policy : StalenessPolicy) (edits : List Edit) (e : Edit) :
  policy.editAll (edits ++ [e]) = (policy.editAll edits).edit e
  := List.foldl_concat edit policy e edits

theorem lastEdit?_concat_of_alike {e : Edit} {name : String} (h : Name.Alike e.name name)
    (edits : List Edit) :
  lastEdit? (edits ++ [e]) name = some e
  := by
  rw [lastEdit?, List.filter_append, List.filter_cons_of_pos (by simpa using h), List.filter_nil,
    List.getLast?_concat]

theorem lastEdit?_concat_of_not_alike {e : Edit} {name : String} (h : ¬Name.Alike e.name name)
    (edits : List Edit) :
  lastEdit? (edits ++ [e]) name = lastEdit? edits name
  := by
  rw [lastEdit?, List.filter_append, List.filter_cons_of_neg (by simpa using h), List.filter_nil,
    List.append_nil, lastEdit?]

/-! ### Upper-cased entries -/

/-- An upper-cased entry makes the function of its name tolerated. -/
theorem tolerates_iff_mem_of_upper_eq {policy : StalenessPolicy} {entry : String}
    (h : Name.upper entry = entry) :
  policy.Tolerates entry ↔ entry ∈ policy.tolerated
  := by
  rw [Tolerates, h]

/-- An entry that is not upper-cased makes no function tolerated. -/
theorem tolerates_erase_of_upper_ne {entry : String} (h : Name.upper entry ≠ entry)
    (policy : StalenessPolicy) (name : String) :
  (mk (policy.tolerated.erase entry)).Tolerates name ↔ policy.Tolerates name
  := by
  have hname : entry ≠ Name.upper name := by
    rintro rfl
    apply h (Name.upper_upper name)
  simp only [Tolerates, Std.ExtTreeSet.mem_erase, Std.compare_eq_iff_eq, ne_eq, hname,
    not_false_eq_true, true_and]

/-! ### One change -/

theorem mem_tolerated_edit {policy : StalenessPolicy} {e : Edit} {entry : String} :
  entry ∈ (policy.edit e).tolerated
    ↔ if entry = Name.upper e.name then e.lists = true else entry ∈ policy.tolerated
  := by
  cases e with
  | tolerate name =>
    rw [edit, mem_tolerated_tolerate]
    split <;> simp_all [Edit.name, Edit.lists]
  | revoke name =>
    rw [edit, mem_tolerated_revoke]
    split <;> simp_all [Edit.name, Edit.lists]

/-- A change decides about the functions that it names, in whatever case. -/
theorem tolerates_edit_of_alike {e : Edit} {name : String} (h : Name.Alike e.name name)
    (policy : StalenessPolicy) :
  (policy.edit e).Tolerates name ↔ e.lists = true
  := by
  rw [Tolerates, mem_tolerated_edit, if_pos (Name.alike_iff_upper_eq.mp h).symm]

/-- A change makes no difference to the functions that it does not name. -/
theorem tolerates_edit_of_not_alike {e : Edit} {name : String} (h : ¬Name.Alike e.name name)
    (policy : StalenessPolicy) :
  (policy.edit e).Tolerates name ↔ policy.Tolerates name
  := by
  rw [Tolerates, mem_tolerated_edit, if_neg]
  · rfl
  · intro hupper
    apply h (Name.alike_iff_upper_eq.mpr hupper.symm)

/-- A change makes no difference to the entries that are not upper-cased. -/
theorem mem_tolerated_edit_of_upper_ne {entry : String} (h : Name.upper entry ≠ entry)
    (policy : StalenessPolicy) (e : Edit) :
  entry ∈ (policy.edit e).tolerated ↔ entry ∈ policy.tolerated
  := by
  rw [mem_tolerated_edit, if_neg]
  rintro rfl
  apply h (Name.upper_upper e.name)

/-! ### A history of changes -/

/-- The last change about a function decides whether it is tolerated, and without such a change
the list that was there before decides. -/
theorem tolerates_editAll_iff {policy : StalenessPolicy} {edits : List Edit} {name : String} :
  (policy.editAll edits).Tolerates name
    ↔ (lastEdit? edits name).map Edit.lists = some true
      ∨ lastEdit? edits name = none ∧ policy.Tolerates name
  := by
  induction edits using List.reverseRecOn with
  | nil => simp [editAll, lastEdit?]
  | append_singleton edits e ih =>
    rw [editAll_concat]
    by_cases h : Name.Alike e.name name
    · rw [tolerates_edit_of_alike h, lastEdit?_concat_of_alike h]
      simp
    · rw [tolerates_edit_of_not_alike h, lastEdit?_concat_of_not_alike h, ih]

/-- A history of changes makes no difference to the entries that are not upper-cased. -/
theorem mem_tolerated_editAll_of_upper_ne {entry : String} (h : Name.upper entry ≠ entry)
    (policy : StalenessPolicy) (edits : List Edit) :
  entry ∈ (policy.editAll edits).tolerated ↔ entry ∈ policy.tolerated
  := by
  induction edits using List.reverseRecOn with
  | nil => rfl
  | append_singleton edits e ih => rw [editAll_concat, mem_tolerated_edit_of_upper_ne h, ih]

/-- Histories with the same last change about each function lead to the same policy. -/
theorem editAll_eq_of_lastEdit?_eq {edits edits' : List Edit}
    (h : ∀ name, (lastEdit? edits name).map Edit.lists = (lastEdit? edits' name).map Edit.lists)
    (policy : StalenessPolicy) :
  policy.editAll edits = policy.editAll edits'
  := by
  rw [StalenessPolicy.mk.injEq]
  apply Std.ExtTreeSet.ext_mem
  intro entry
  by_cases hupper : Name.upper entry = entry
  · -- Such an entry is what makes the function of its name tolerated.
    rw [← tolerates_iff_mem_of_upper_eq hupper, ← tolerates_iff_mem_of_upper_eq hupper,
      tolerates_editAll_iff, tolerates_editAll_iff, ← Option.map_eq_none_iff (f := Edit.lists),
      h entry, Option.map_eq_none_iff]
  · rw [mem_tolerated_editAll_of_upper_ne hupper, mem_tolerated_editAll_of_upper_ne hupper]

/-- A function is tolerated exactly if the last change about it lists it, or if there is no such
change and its upper-cased name was listed in the first place. An entry of the first list that is
not upper-cased stays and makes no function tolerated; what a further change adds is upper-cased.
Two histories with the same last change about each function lead from one policy to the same
policy. -/
theorem tolerates_after_history (policy : StalenessPolicy) (edits : List Edit) :
  (∀ name, (policy.editAll edits).Tolerates name
      ↔ (lastEdit? edits name).map Edit.lists = some true
        ∨ lastEdit? edits name = none ∧ Name.upper name ∈ policy.tolerated)
    ∧ (∀ entry ∈ policy.tolerated, Name.upper entry ≠ entry →
      entry ∈ (policy.editAll edits).tolerated
      ∧ ∀ name, (policy.editAll edits).Tolerates name
        ↔ (mk ((policy.editAll edits).tolerated.erase entry)).Tolerates name)
    ∧ (∀ e, ∀ entry ∈ ((policy.editAll edits).edit e).tolerated,
      entry ∉ (policy.editAll edits).tolerated → Name.upper entry = entry)
    ∧ ∀ edits', (∀ name, (lastEdit? edits name).map Edit.lists
        = (lastEdit? edits' name).map Edit.lists) →
      policy.editAll edits = policy.editAll edits'
  := by
  constructor
  · intro name
    apply tolerates_editAll_iff
  constructor
  · intro entry hentry hupper
    use (mem_tolerated_editAll_of_upper_ne hupper policy edits).mpr hentry
    intro name
    apply (tolerates_erase_of_upper_ne hupper _ name).symm
  constructor
  · intro e entry hafter hbefore
    by_contra hupper
    apply hbefore ((mem_tolerated_edit_of_upper_ne hupper _ e).mp hafter)
  · intro edits' h
    apply editAll_eq_of_lastEdit?_eq h

/-- The list names `now` in lower case, and the changes name it in three other ways. -/
theorem tolerates_now_after_histories :
  (ofNames ["now"]).editAll [.tolerate "Now", .revoke "NOW", .tolerate "nOw"]
      = (ofNames ["now"]).editAll [.tolerate "NOW"]
    ∧ "now" ∈ ((ofNames ["now"]).editAll [.tolerate "Now", .revoke "NOW"]).tolerated
    ∧ ¬((ofNames ["now"]).editAll [.tolerate "Now", .revoke "NOW"]).Tolerates "now"
  := by
  have hspellings : Name.lower "Now" = Name.lower "NOW" ∧ Name.lower "nOw" = Name.lower "NOW" := by
    decide +kernel
  obtain ⟨hlast, hraw, -, -⟩ :=
    tolerates_after_history (ofNames ["now"]) [.tolerate "Now", .revoke "NOW"]
  constructor
  · apply (tolerates_after_history (ofNames ["now"]) _).2.2.2
    intro name
    by_cases h : Name.lower "NOW" = Name.lower name <;>
      simp [lastEdit?, Edit.name, Edit.lists, Name.Alike, hspellings, h]
  constructor
  · apply (hraw "now" (by decide +kernel) (by decide +kernel)).1
  · rw [hlast]
    decide +kernel

end QueryReuse.StalenessPolicy
