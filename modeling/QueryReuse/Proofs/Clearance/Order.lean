import QueryReuse.Proofs.Clearance.Meet

/-!
# The order of clearances

If each part of a query admits at least what it admitted before, then so does the query, and
it takes at least as many parts to settle what the query admits. A query with more parts admits
no more, and what matters is which clearances there are among the parts, not their order or
number.
-/

namespace QueryReuse.Clearance

theorem viewMatch_of_le {a b : Clearance} (h : a ≤ b) :
  a.viewMatch = true → b.viewMatch = true
  := h.2.1

theorem eq_void_of_le {a b : Clearance} (h : a ≤ b) (hb : b = void) :
  a = void
  := by
  rw [← le_iff_and_eq.mp h, hb, and_void]

theorem and_le_and {a b a' b' : Clearance} (h : a ≤ a') (h' : b ≤ b') :
  a &&& b ≤ a' &&& b'
  := by
  rw [le_iff_and_eq] at h h' ⊢
  calc
    a &&& b &&& (a' &&& b') = a &&& a' &&& (b &&& b') := by
      rw [and_assoc, and_assoc, ← and_assoc b, ← and_assoc a', and_comm b a']
    _ = a &&& b := by
      rw [h, h']

theorem le_refl (a : Clearance) :
  a ≤ a
  := le_iff_and_eq.mpr (and_self a)

theorem le_antisymm {a b : Clearance} (hab : a ≤ b) (hba : b ≤ a) :
  a = b
  := by
  rw [← le_iff_and_eq.mp hab, and_comm, le_iff_and_eq.mp hba]

/-- If each part admits more, then all parts together admit more. -/
theorem meet_map_le {α : Type} {f g : α → Clearance} (h : ∀ x, f x ≤ g x) (xs : List α) :
  meet (xs.map f) ≤ meet (xs.map g)
  := by
  induction xs with
  | nil => apply le_refl
  | cons x xs ih => apply and_le_and (h x) ih

/-- If each part admits more, then more parts are needed to settle what they admit
together. -/
theorem Settles.le_of_map_le {α : Type} {f g : α → Clearance} (h : ∀ x, f x ≤ g x)
    {xs : List α} {m n : Nat} (hm : Settles (xs.map f) m) (hn : Settles (xs.map g) n) :
  m ≤ n
  := by
  apply hm.le_of_imp _ _ hn
  · rw [List.length_map, List.length_map]
  · intro k hvoid
    rw [← List.map_take] at hvoid ⊢
    apply eq_void_of_le (meet_map_le h _) hvoid

/-- Where there are more parts, they admit less together. -/
theorem meet_le_meet_of_subset {as bs : List Clearance} (h : as ⊆ bs) :
  meet bs ≤ meet as
  := by
  have hadmits {admits : Clearance → Bool} (hfull : admits full = true)
      (hand : ∀ a b, admits (a &&& b) = (admits a && admits b)) :
      admits (meet bs) = true → admits (meet as) = true := by
    rw [admits_meet hfull hand, admits_meet hfull hand, List.all_eq_true, List.all_eq_true]
    intro hbs a ha
    apply hbs a (h ha)
  constructor
  · apply hadmits rfl planCache_and
  constructor
  · apply hadmits rfl viewMatch_and
  · apply hadmits rfl incrementalRefresh_and

/-- All parts together admit no more than each of them. -/
theorem meet_le_of_mem {a : Clearance} {as : List Clearance} (h : a ∈ as) :
  meet as ≤ a
  := by
  have hle : meet as ≤ meet [a] := by
    apply meet_le_meet_of_subset
    rw [List.cons_subset]
    use h, List.nil_subset as
  rwa [meet_cons, meet_nil, and_full] at hle

end QueryReuse.Clearance
