import QueryReuse.Proofs.Walk.Ending

/-!
# The log as an account of the clearance

Each function that restricts reuse is logged with its clearance, and nothing is logged of the
clearance of any other. The main statement is that the trace of a query accounts for the
clearance it has: what the trace reports together is that clearance, and a function that
leaves no reuse is reported at the very end and only there. A plan is further logged once, at
the end, with the clearance that was found, and the plans of subqueries are not.
-/

namespace QueryReuse

/-- The level at which an event is logged, if it is logged. -/
def Event.level? (event : Event) : Option Level := event.message?.map Message.level

/-- The clearance that an event reports a function to have, if it reports one. -/
def Event.reported? : Event → Option Clearance
  | .restricted _ a => some a
  | _ => none

/-- The clearances reported by some events, in order. -/
def reports (events : List Event) : List Clearance := events.filterMap Event.reported?

/-- The events logged at a level, in order. -/
def Assessment.logged (level : Level) (a : Assessment) : List Event :=
  a.events.filter fun event => event.level? = some level

/-- A trace accounts for the clearance of a query. -/
structure AccountsFor (trace : List Event) (a : Clearance) : Prop where
  meet_reports : Clearance.meet (reports trace) = a
  full_notMem_reports : Clearance.full ∉ reports trace
  void_mem_reports_iff : Clearance.void ∈ reports trace ↔ a = .void
  /-- Only the last event may report that no reuse is left. -/
  reported_ne_void : ∀ event ∈ trace.dropLast, event.reported? ≠ some .void
  /-- An event that reports no clearance says that a function is exempt. -/
  exempted : ∀ event ∈ trace, event.reported? = none →
    ∃ name exemption, Exemption.find? name = some exemption
      ∧ event = .exempted name exemption.reason

/-! ### What is said of functions -/

namespace Clearance

/-- Full clearances do not matter for what several clearances admit together. -/
theorem meet_filter_ne_full (as : List Clearance) :
  meet (as.filter fun a => a ≠ full) = meet as
  := by
  have hfilter : ∀ a ∈ as, decide (a ≠ full) = false → id a = full := by
    simp
  have h := meet_map_filter hfilter
  rwa [List.map_id, List.map_id] at h

end Clearance

/-- If each part contributes at most one entry, then all entries but the last come from parts
before the last. -/
theorem exists_mem_dropLast_of_mem_dropLast_flatMap {α β : Type} {g : α → List β}
    (hg : ∀ x, (g x).length ≤ 1) {xs : List α} {y : β} (hy : y ∈ (xs.flatMap g).dropLast) :
  ∃ x ∈ xs.dropLast, y ∈ g x
  := by
  obtain rfl | ⟨xs, x, rfl⟩ := xs.eq_nil_or_concat'
  · cases hy
  · rw [List.dropLast_concat, ← List.mem_flatMap]
    rw [List.flatMap_append, List.flatMap_singleton] at hy
    have hlength := hg x
    rcases hx : g x with _ | ⟨z, zs⟩
    · rw [hx, List.append_nil] at hy
      apply List.dropLast_subset _ hy
    · rw [hx, List.length_cons] at hlength
      obtain rfl := List.length_eq_zero_iff.mp (Nat.le_zero.mp (Nat.le_of_succ_le_succ hlength))
      rwa [hx, List.dropLast_concat] at hy

namespace Profile

variable (policy : StalenessPolicy)

/-- A function is said to be exempt, or to restrict reuse, or has full clearance and nothing
is said of it. -/
theorem remarks_cases (f : Profile) :
  (∃ exemption, Exemption.find? f.name = some exemption ∧ f.clearance policy = .full
      ∧ f.remarks policy = [.exempted f.name exemption.reason])
    ∨ (f.clearance policy = .full ∧ f.remarks policy = [])
    ∨ (f.clearance policy ≠ .full
      ∧ f.remarks policy = [.restricted f.name (f.clearance policy)])
  := by
  unfold remarks
  cases hexempt : Exemption.find? f.name with
  | some exemption =>
    left
    use exemption, rfl
    simp [clearance, hexempt]
  | none =>
    right
    by_cases hfull : f.clearance policy = .full
    · left
      simp [hfull]
    · right
      simp [hfull]

theorem length_remarks_le (f : Profile) :
  (f.remarks policy).length ≤ 1
  := by
  obtain ⟨_, -, -, h⟩ | ⟨-, h⟩ | ⟨-, h⟩ := f.remarks_cases policy <;> rw [h] <;> simp

theorem level?_of_mem_remarks {f : Profile} {event : Event} (hevent : event ∈ f.remarks policy) :
  event.level? = some .trace
  := by
  obtain ⟨_, -, -, h⟩ | ⟨-, h⟩ | ⟨-, h⟩ := f.remarks_cases policy
  · rw [h, List.mem_singleton] at hevent
    rw [hevent]
    rfl
  · rw [h] at hevent
    cases hevent
  · rw [h, List.mem_singleton] at hevent
    rw [hevent]
    rfl

/-- What is reported of a function is its clearance, unless that is full. -/
theorem reports_remarks (f : Profile) :
  reports (f.remarks policy) = [f.clearance policy].filter fun a => a ≠ .full
  := by
  obtain ⟨_, -, hfull, h⟩ | ⟨hfull, h⟩ | ⟨hfull, h⟩ := f.remarks_cases policy
  · rw [h, hfull]
    rfl
  · rw [h, hfull]
    rfl
  · rw [h, List.filter_cons_of_pos (by simpa)]
    rfl

theorem reports_flatMap_remarks (fs : List Profile) :
  reports (fs.flatMap (remarks policy))
    = (fs.map (clearance policy)).filter fun a => a ≠ .full
  := by
  induction fs with
  | nil => rfl
  | cons f fs ih =>
    rw [List.flatMap_cons, reports, List.filterMap_append, List.map_cons, ← List.singleton_append,
      List.filter_append, ← reports_remarks, ← ih]
    rfl

/-- What is said of several functions accounts for what they admit together, if none but the
last leaves no reuse by itself. -/
theorem accountsFor_flatMap_remarks (fs : List Profile)
    (h : ∀ f ∈ fs.dropLast, f.clearance policy ≠ .void) :
  AccountsFor (fs.flatMap (remarks policy)) (.meet (fs.map (clearance policy)))
  := by
  constructor
  · rw [reports_flatMap_remarks, Clearance.meet_filter_ne_full]
  · rw [reports_flatMap_remarks]
    simp
  · rw [reports_flatMap_remarks, Clearance.meet_eq_void_iff, List.mem_filter]
    · simp [Clearance.void, Clearance.full]
    · intro a ha
      obtain ⟨f, -, rfl⟩ := List.mem_map.mp ha
      apply graded_clearance
  · intro event hevent hvoid
    obtain ⟨f, hf, hremark⟩ :=
      exists_mem_dropLast_of_mem_dropLast_flatMap (length_remarks_le policy) hevent
    apply h f hf
    have hreported : Clearance.void ∈ reports (f.remarks policy) :=
      List.mem_filterMap.mpr ⟨event, hremark, hvoid⟩
    rw [reports_remarks] at hreported
    symm
    apply List.mem_singleton.mp (List.mem_filter.mp hreported).1
  · intro event hevent hreported
    obtain ⟨f, -, hremark⟩ := List.mem_flatMap.mp hevent
    obtain ⟨exemption, hexempt, -, h⟩ | ⟨-, h⟩ | ⟨-, h⟩ := f.remarks_cases policy
    · rw [h, List.mem_singleton] at hremark
      use f.name, exemption
    · rw [h] at hremark
      cases hremark
    · rw [h, List.mem_singleton] at hremark
      rw [hremark] at hreported
      cases hreported

end Profile

/-! ### What is said of queries -/

namespace Assessment

theorem logged_append (level : Level) (a b : Assessment) :
  (a ++ b).logged level = a.logged level ++ b.logged level
  := List.filter_append ..

theorem logged_join (level : Level) (as : List Assessment) :
  (join as).logged level = as.flatMap (logged level)
  := by
  induction as with
  | nil => rfl
  | cons a as ih => rw [join_cons, logged_append, ih, List.flatMap_cons]

/-- The events logged at a level give the lines that the log has at that level. -/
theorem filterMap_message?_logged (level : Level) (a : Assessment) :
  (a.logged level).filterMap Event.message? = a.messages.filter fun line => line.level = level
  := by
  rw [logged, messages, List.filterMap_filter, List.filter_filterMap]
  congr 1
  funext event
  rw [Event.level?]
  cases event.message? with
  | none => simp
  | some line => simp [Option.filter]

/-- Where there is no line in the log, no event is logged. -/
theorem logged_eq_nil {a : Assessment} (h : a.messages = []) (level : Level) :
  a.logged level = []
  := by
  apply List.filter_eq_nil_iff.mpr
  intro event hevent
  rw [decide_eq_true_eq, Event.level?, List.filterMap_eq_nil_iff.mp h event hevent]
  simp

end Assessment

namespace Assessor

variable {κ : Type} [Catalog κ]

theorem logged_trace_assessCall (c : Assessor κ) (f : FunctionDecl) :
  (c.assessCall f).logged .trace = (c.resolve f).remarks c.policy
  := by
  rw [assessCall, Assessment.logged_append, Assessment.logged_eq_nil (c.messages_inquiry f.name),
    List.nil_append]
  apply List.filter_eq_self.mpr
  intro event hevent
  rw [decide_eq_true_eq]
  apply Profile.level?_of_mem_remarks c.policy hevent

/-- What is logged in the course of a walk is logged in the trace. -/
theorem level_of_mem_messages_assessCall (c : Assessor κ) (f : FunctionDecl) :
  ∀ line ∈ (c.assessCall f).messages, line.level = .trace
  := by
  intro line hline
  rw [messages_assessCall] at hline
  obtain ⟨event, hevent, hmessage⟩ := List.mem_filterMap.mp hline
  have h := Profile.level?_of_mem_remarks c.policy hevent
  rwa [Event.level?, hmessage, Option.map_some, Option.some_inj] at h

/-- The walk over a tree assesses calls of which none but the last leaves no reuse. -/
theorem exists_walk_eq_join (c : Assessor κ) (t : Tree) :
  ∃ fs : List FunctionDecl, (c.walk t ∅).assessment = .join (fs.map c.assessCall)
    ∧ ∀ f ∈ fs.dropLast, ¬c.Voids f
  := by
  obtain hnone | ⟨before, f, after, h, hbefore, hf⟩ := c.forall_not_voids_or_first t.calls
  · use t.calls
    constructor
    · rw [walk_of_not_voids hnone]
      rfl
    · intro f hf
      apply hnone f (List.dropLast_subset _ hf)
  · use before ++ [f]
    constructor
    · rw [walk_of_first_voids h hbefore hf]
      rfl
    · rw [List.dropLast_concat]
      apply hbefore

theorem accountsFor_walk (c : Assessor κ) (t : Tree) :
  AccountsFor ((c.walk t ∅).assessment.logged .trace) (c.walk t ∅).assessment.clearance
  := by
  obtain ⟨fs, hwalk, hfs⟩ := c.exists_walk_eq_join t
  have h : AccountsFor ((fs.map c.resolve).flatMap (Profile.remarks c.policy))
      (.meet ((fs.map c.resolve).map (Profile.clearance c.policy))) := by
    apply Profile.accountsFor_flatMap_remarks
    intro f hf
    rw [← List.map_dropLast] at hf
    obtain ⟨g, hg, rfl⟩ := List.mem_map.mp hf
    apply hfs g hg
  rw [List.flatMap_map, List.map_map] at h
  rw [hwalk, Assessment.logged_join, clearance_join_assessCall, List.flatMap_map]
  simp only [logged_trace_assessCall]
  apply h

theorem level_of_mem_messages_walk (c : Assessor κ) (t : Tree) :
  ∀ line ∈ (c.walk t ∅).assessment.messages, line.level = .trace
  := by
  obtain ⟨fs, hwalk, -⟩ := c.exists_walk_eq_join t
  intro line hline
  rw [hwalk, Assessment.messages_join, List.flatMap_map] at hline
  obtain ⟨f, -, hline⟩ := List.mem_flatMap.mp hline
  apply c.level_of_mem_messages_assessCall f line hline

/-- The trace of whatever is assessed accounts for its clearance. Nothing else is logged for
an expression. For a plan one line follows, with the clearance that was found, and it says
that the walk ended early if no reuse is left. -/
theorem trace_accountsFor_clearance (c : Assessor κ) :
  (∀ t : Tree, AccountsFor ((c.assess t).logged .trace) (c.assess t).clearance)
    ∧ (∀ e : Expr, ∀ line ∈ (c.assessExpr e).messages, line.level = .trace)
    ∧ ∀ p : Plan, ∃ lines, (∀ line ∈ lines, line.level = .trace)
      ∧ (c.assessPlan p).messages = lines ++ [⟨.debug,
          "classified plan: " ++ (c.assessPlan p).clearance.text ++ " (stopped early: "
            ++ toString (decide ((c.assessPlan p).clearance = .void)) ++ ")"⟩]
  := by
  constructor
  · intro t
    have hclosing : (Assessment.ofEvents (t.closing (.meet (c.clearances t)))).logged .trace = []
      := by
      cases t <;> rfl
    rw [clearance_assess, ← clearance_walk_empty, assess_eq, Assessment.logged_append, hclosing,
      List.append_nil]
    apply c.accountsFor_walk
  constructor
  · intro e
    apply c.level_of_mem_messages_walk (.expr e)
  · intro p
    use (c.walk (.plan p) ∅).assessment.messages, c.level_of_mem_messages_walk (.plan p)
    have hclearance : (c.assessPlan p).clearance = .meet (c.clearances (.plan p)) :=
      c.clearance_assess (.plan p)
    rw [hclearance]
    apply c.messages_assess (.plan p)

end Assessor

end QueryReuse
