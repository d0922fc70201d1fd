import QueryReuse.Event

/-!
# Assessments

An assessment is what has been found about a query or a part of one: the clearance it has
by then, and the events on the way to it. Assessments of successive parts are appended.
-/

namespace QueryReuse

/-- What has been found about a query. -/
structure Assessment where
  /-- The reuse that is admitted. -/
  clearance : Clearance
  /-- What happened, in order. -/
  events : List Event
deriving DecidableEq, Repr

namespace Assessment

/-- The assessment of nothing. -/
def empty : Assessment where
  clearance := .full
  events := []

instance : EmptyCollection Assessment := ⟨empty⟩

/-- Events that restrict nothing. -/
def ofEvents (events : List Event) : Assessment where
  clearance := .full
  events := events

/-- The assessment of one part and then another. -/
instance : Append Assessment where
  append a b :=
    { clearance := a.clearance &&& b.clearance
      events := a.events ++ b.events }

/-- The catalog accesses, in order. -/
def accesses (a : Assessment) : List Access := a.events.filterMap Event.access?

/-- The messages logged, in order. -/
def messages (a : Assessment) : List Message := a.events.filterMap Event.message?

@[simp]
theorem clearance_append (a b : Assessment) :
  (a ++ b).clearance = a.clearance &&& b.clearance
  := rfl

@[simp]
theorem events_append (a b : Assessment) :
  (a ++ b).events = a.events ++ b.events
  := rfl

@[simp]
theorem accesses_append (a b : Assessment) :
  (a ++ b).accesses = a.accesses ++ b.accesses
  := List.filterMap_append

@[simp]
theorem messages_append (a b : Assessment) :
  (a ++ b).messages = a.messages ++ b.messages
  := List.filterMap_append

/-- Assessments with the same clearance and the same events are equal. -/
@[ext]
theorem ext {a b : Assessment} (hc : a.clearance = b.clearance) (he : a.events = b.events) :
  a = b
  := by
  cases a
  cases b
  simp_all

theorem append_assoc (a b c : Assessment) :
  a ++ b ++ c = a ++ (b ++ c)
  := by
  ext1
  · apply Clearance.and_assoc
  · apply List.append_assoc

@[simp]
theorem empty_append (a : Assessment) :
  ∅ ++ a = a
  := by
  ext1
  · apply Clearance.full_and
  · apply List.nil_append

@[simp]
theorem append_empty (a : Assessment) :
  a ++ ∅ = a
  := by
  ext1
  · apply Clearance.and_full
  · apply List.append_nil

end Assessment

end QueryReuse
