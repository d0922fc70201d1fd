/-!
# Clearances

A clearance says which kinds of reuse a query admits: keeping its plan for later runs,
answering it from a materialized view, and refreshing such a view incrementally. `full`
admits all three, `void` none. The clearance `a &&& b` admits what both `a` and `b`
admit, and `a ≤ b` says that `b` admits whatever `a` admits. `collect` combines a list
of clearances and reads no further than it has to.
-/

namespace QueryReuse

/-- Which kinds of reuse a query admits. -/
structure Clearance where
  /-- The plan may be kept and run again. -/
  planCache : Bool
  /-- A materialized view of the query may stand in for it. -/
  viewMatch : Bool
  /-- A materialized view of the query may be refreshed from changed rows alone. -/
  incrementalRefresh : Bool
deriving DecidableEq, Repr

namespace Clearance

/-- The clearance that admits every kind of reuse. -/
def full : Clearance where
  planCache := true
  viewMatch := true
  incrementalRefresh := true

/-- The clearance that admits no reuse. -/
def void : Clearance where
  planCache := false
  viewMatch := false
  incrementalRefresh := false

/-- Withdraws plan caching. -/
def denyPlanCache (a : Clearance) : Clearance := { a with planCache := false }

/-- Withdraws view matching. -/
def denyViewMatch (a : Clearance) : Clearance := { a with viewMatch := false }

/-- Withdraws incremental refresh. -/
def denyIncrementalRefresh (a : Clearance) : Clearance := { a with incrementalRefresh := false }

/-- A kind of reuse is admitted by `a &&& b` when it is admitted by `a` and by `b`. -/
instance : AndOp Clearance where
  and a b :=
    { planCache := a.planCache && b.planCache
      viewMatch := a.viewMatch && b.viewMatch
      incrementalRefresh := a.incrementalRefresh && b.incrementalRefresh }

/-- `a ≤ b` holds when `b` admits every kind of reuse that `a` admits. -/
instance : LE Clearance where
  le a b :=
    a.planCache ≤ b.planCache ∧ a.viewMatch ≤ b.viewMatch
      ∧ a.incrementalRefresh ≤ b.incrementalRefresh

instance (a b : Clearance) : Decidable (a ≤ b) :=
  inferInstanceAs (Decidable (_ ∧ _ ∧ _))

/-- The clearance in words, one field after the other. -/
def text (a : Clearance) : String :=
  "Verdict \x7b plan_cacheable: " ++ toString a.planCache
    ++ ", reflection_matchable: " ++ toString a.viewMatch
    ++ ", reflection_incremental_refreshable: " ++ toString a.incrementalRefresh ++ " \x7d"

instance : ToString Clearance := ⟨text⟩

/-! ### Combining two clearances -/

@[simp]
theorem planCache_and (a b : Clearance) :
  (a &&& b).planCache = (a.planCache && b.planCache)
  := rfl

@[simp]
theorem viewMatch_and (a b : Clearance) :
  (a &&& b).viewMatch = (a.viewMatch && b.viewMatch)
  := rfl

@[simp]
theorem incrementalRefresh_and (a b : Clearance) :
  (a &&& b).incrementalRefresh = (a.incrementalRefresh && b.incrementalRefresh)
  := rfl

/-- Clearances that admit the same kinds of reuse are equal. -/
@[ext]
theorem ext {a b : Clearance} (hp : a.planCache = b.planCache) (hv : a.viewMatch = b.viewMatch)
    (hi : a.incrementalRefresh = b.incrementalRefresh) :
  a = b
  := by
  cases a
  cases b
  simp_all

theorem and_assoc (a b c : Clearance) :
  a &&& b &&& c = a &&& (b &&& c)
  := by
  ext <;> simp [Bool.and_assoc]

theorem and_comm (a b : Clearance) :
  a &&& b = b &&& a
  := by
  ext <;> simp [Bool.and_comm]

@[simp]
theorem and_self (a : Clearance) :
  a &&& a = a
  := by
  ext <;> simp

@[simp]
theorem full_and (a : Clearance) :
  full &&& a = a
  := by
  ext <;> simp [full]

@[simp]
theorem and_full (a : Clearance) :
  a &&& full = a
  := by
  ext <;> simp [full]

@[simp]
theorem void_and (a : Clearance) :
  void &&& a = void
  := by
  ext <;> simp [void]

@[simp]
theorem and_void (a : Clearance) :
  a &&& void = void
  := by
  ext <;> simp [void]

/-- The order is the one `&&&` induces. -/
theorem le_iff_and_eq {a b : Clearance} :
  a ≤ b ↔ a &&& b = a
  := by
  obtain ⟨p, v, i⟩ := a
  obtain ⟨p', v', i'⟩ := b
  revert p v i p' v' i'
  decide

/-! ### Collecting clearances -/

/-- What came of collecting a list of clearances. -/
structure Collection where
  /-- What all the clearances read admit. -/
  clearance : Clearance
  /-- How many clearances were read. -/
  taken : Nat
deriving DecidableEq, Repr

/-- Collects onto `a`, and reads nothing beyond the clearance that leaves no reuse. -/
def collectFrom (a : Clearance) : List Clearance → Collection
  | [] => { clearance := a, taken := 0 }
  | b :: bs =>
    if a &&& b = void then { clearance := void, taken := 1 }
    else
      let rest := collectFrom (a &&& b) bs
      { rest with taken := rest.taken + 1 }

/-- What the listed clearances admit together. -/
def collect (as : List Clearance) : Collection := collectFrom full as

end Clearance

end QueryReuse
