import Mathlib.Data.List.Basic
import QueryReuse.Clearance

/-!
# What several clearances admit together

`Clearance.meet as` is what the listed clearances admit together. The first `n` of them
settle the list, `Settles as n`, when nothing is left to learn from the others, because
no reuse is left or because there are no others, and fewer than `n` would not do. The main
statements are that `collect` finds the meet and that it reads the clearances that settle
the list, no fewer and no more.
-/

namespace QueryReuse.Clearance

/-- What the listed clearances admit together. -/
def meet (as : List Clearance) : Clearance := as.foldr (· &&& ·) full

@[simp]
theorem meet_nil :
  meet [] = full
  := rfl

@[simp]
theorem meet_cons (a : Clearance) (as : List Clearance) :
  meet (a :: as) = a &&& meet as
  := rfl

theorem meet_append (as bs : List Clearance) :
  meet (as ++ bs) = meet as &&& meet bs
  := by
  induction as with
  | nil =>
    rw [List.nil_append, meet_nil, full_and]
  | cons a as ih =>
    rw [List.cons_append, meet_cons, meet_cons, ih, and_assoc]

/-- A kind of reuse is admitted by a meet when all the listed clearances admit it. -/
theorem admits_meet {admits : Clearance → Bool} (hfull : admits full = true)
    (hand : ∀ a b, admits (a &&& b) = (admits a && admits b)) (as : List Clearance) :
  admits (meet as) = as.all admits
  := by
  induction as with
  | nil => apply hfull
  | cons a as ih =>
    rw [meet_cons, hand, ih, List.all_cons]

theorem viewMatch_meet (as : List Clearance) :
  (meet as).viewMatch = as.all viewMatch
  := admits_meet rfl viewMatch_and as

/-- Parts that have full clearance may be left out. -/
theorem meet_map_filter {α : Type} {f : α → Clearance} {p : α → Bool} {xs : List α}
    (h : ∀ x ∈ xs, p x = false → f x = full) :
  meet ((xs.filter p).map f) = meet (xs.map f)
  := by
  induction xs with
  | nil => rfl
  | cons x xs ih =>
    obtain ⟨hx, hxs⟩ := List.forall_mem_cons.mp h
    rw [List.filter_cons, List.map_cons, meet_cons]
    split
    case isTrue => rw [List.map_cons, meet_cons, ih hxs]
    case isFalse hp => rw [hx (Bool.not_eq_true _ ▸ hp), full_and, ih hxs]

/-! ### Settling a list -/

/-- The first `n` of the listed clearances settle the list: they leave no reuse or are all
there are, and no fewer leave no reuse. -/
structure Settles (as : List Clearance) (n : Nat) : Prop where
  le_length : n ≤ as.length
  void_or_all : meet (as.take n) = void ∨ n = as.length
  ne_void_of_lt : ∀ m < n, meet (as.take m) ≠ void

/-- A list is settled no later than another of the same length, if it leaves no reuse as soon
as the other does. -/
theorem Settles.le_of_imp {as bs : List Clearance} {m n : Nat} (hlength : as.length = bs.length)
    (hvoid : ∀ k, meet (bs.take k) = void → meet (as.take k) = void) (hm : Settles as m)
    (hn : Settles bs n) :
  m ≤ n
  := by
  by_contra hlt
  rw [Nat.not_le] at hlt
  rcases hn.void_or_all with hn | hall
  · apply hm.ne_void_of_lt n hlt (hvoid n hn)
  · have := hm.le_length
    omega

theorem Settles.le {as : List Clearance} {m n : Nat} (hm : Settles as m) (hn : Settles as n) :
  m ≤ n
  := hm.le_of_imp rfl (fun _ h => h) hn

/-- A list is settled by one number of clearances only. -/
theorem Settles.unique {as : List Clearance} {m n : Nat} (hm : Settles as m)
    (hn : Settles as n) :
  m = n
  := Nat.le_antisymm (hm.le hn) (hn.le hm)

/-- Where the first `n` of the listed clearances leave no reuse of `a` or are all there are, the
others withdraw nothing. -/
theorem and_meet_take {a : Clearance} {as : List Clearance} {n : Nat}
    (h : a &&& meet (as.take n) = void ∨ n = as.length) :
  a &&& meet (as.take n) = a &&& meet as
  := by
  rcases h with hvoid | hall
  · conv_rhs => rw [← List.take_append_drop n as]
    rw [meet_append, ← and_assoc, hvoid, void_and]
  · rw [hall, List.take_length]

/-- The clearances that settle a list admit together what all of them admit. -/
theorem Settles.meet_take {as : List Clearance} {n : Nat} (h : Settles as n) :
  meet (as.take n) = meet as
  := by
  rw [← full_and (meet (as.take n)), ← full_and (meet as)]
  apply and_meet_take
  rw [full_and]
  exact h.void_or_all

/-! ### Collecting -/

theorem taken_collectFrom_cons_of_eq_void {a b : Clearance} (h : a &&& b = void)
    (bs : List Clearance) :
  (collectFrom a (b :: bs)).taken = 1
  := by
  rw [collectFrom, if_pos h]

theorem taken_collectFrom_cons_of_ne_void {a b : Clearance} (h : a &&& b ≠ void)
    (bs : List Clearance) :
  (collectFrom a (b :: bs)).taken = (collectFrom (a &&& b) bs).taken + 1
  := by
  rw [collectFrom, if_neg h]

/-- Collecting onto `a` finds what `a` and the listed clearances admit together. -/
theorem clearance_collectFrom (a : Clearance) (as : List Clearance) :
  (collectFrom a as).clearance = a &&& meet as
  := by
  induction as generalizing a with
  | nil =>
    rw [meet_nil, and_full]
    rfl
  | cons b bs ih =>
    rw [meet_cons, ← and_assoc]
    by_cases h : a &&& b = void
    · rw [collectFrom, if_pos h, h, void_and]
    · rw [collectFrom, if_neg h]
      apply ih

theorem taken_collectFrom_le (a : Clearance) (as : List Clearance) :
  (collectFrom a as).taken ≤ as.length
  := by
  induction as generalizing a with
  | nil => apply Nat.le_refl
  | cons b bs ih =>
    rw [List.length_cons]
    by_cases h : a &&& b = void
    · rw [taken_collectFrom_cons_of_eq_void h]
      omega
    · rw [taken_collectFrom_cons_of_ne_void h]
      apply Nat.succ_le_succ (ih _)

theorem taken_collectFrom_void_or_all (a : Clearance) (as : List Clearance) :
  a &&& meet (as.take (collectFrom a as).taken) = void ∨ (collectFrom a as).taken = as.length
  := by
  induction as generalizing a with
  | nil =>
    right
    rfl
  | cons b bs ih =>
    by_cases h : a &&& b = void
    · left
      rw [taken_collectFrom_cons_of_eq_void h, List.take_succ_cons, meet_cons, ← and_assoc, h,
        void_and]
    · rw [taken_collectFrom_cons_of_ne_void h, List.take_succ_cons, meet_cons, ← and_assoc]
      rcases ih (a &&& b) with hvoid | hall
      · left
        apply hvoid
      · right
        rw [List.length_cons, hall]

theorem ne_void_of_lt_taken_collectFrom {a : Clearance} (ha : a ≠ void) {as : List Clearance}
    {m : Nat} (hm : m < (collectFrom a as).taken) :
  a &&& meet (as.take m) ≠ void
  := by
  induction as generalizing a m with
  | nil => cases hm
  | cons b bs ih =>
    cases m with
    | zero =>
      rw [List.take_zero, meet_nil, and_full]
      apply ha
    | succ m =>
      by_cases h : a &&& b = void
      · rw [taken_collectFrom_cons_of_eq_void h] at hm
        omega
      · rw [taken_collectFrom_cons_of_ne_void h] at hm
        rw [List.take_succ_cons, meet_cons, ← and_assoc]
        apply ih h
        omega

/-- Collecting finds what the listed clearances admit together. -/
theorem clearance_collect (as : List Clearance) :
  (collect as).clearance = meet as
  := by
  rw [collect, clearance_collectFrom, full_and]

/-- Collecting reads the clearances that settle the list. -/
theorem settles_collect (as : List Clearance) :
  Settles as (collect as).taken
  := by
  constructor
  · apply taken_collectFrom_le
  · have h := taken_collectFrom_void_or_all full as
    rwa [full_and] at h
  · intro m hm
    have h := ne_void_of_lt_taken_collectFrom (by decide) hm
    rwa [full_and] at h

end QueryReuse.Clearance
