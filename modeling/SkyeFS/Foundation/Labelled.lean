import SkyeFS.Foundation.Transition

/-! Machines whose steps say what they have done.

A step may come with a label, the operation that took effect in it. The labels of a
run are its history. If every label can be replayed on an abstract state, as the step
it comes from acts on the abstraction of the state, then so can every history: the run
looks like the operations of its history, one after the other.
-/

set_option autoImplicit false

namespace Foundation

section
variable {State Event Label : Type} (step : State → Event → Option (State × Option Label))

/-- The machine without its labels. -/
def unlabelled (state : State) (event : Event) : Option State := (step state event).map Prod.fst

def history : State → List Event → Option (State × List Label)
  | state, [] => some (state, [])
  | state, event :: rest => do
      let (after, label) ← step state event
      let (final, labels) ← history after rest
      some (final, label.toList ++ labels)

variable {step}

theorem history_cons {start final : State} {event : Event} {rest : List Event} {labels : List Label} :
    history step start (event :: rest) = some (final, labels) ↔
      ∃ after label later, step start event = some (after, label) ∧ history step after rest = some (final, later) ∧
        labels = label.toList ++ later := by
  simp only [history, Option.bind_eq_bind, Option.bind_eq_some_iff, Prod.exists, Option.some.injEq, Prod.mk.injEq]
  constructor
  · rintro ⟨after, label, stepped, last, later, ran, rfl, rfl⟩
    exact ⟨after, label, later, stepped, ran, rfl⟩
  · rintro ⟨after, label, later, stepped, ran, rfl⟩
    exact ⟨after, label, stepped, final, later, ran, rfl, rfl⟩

/-- A run whose labels are replayed step by step has its whole history replayed. -/
theorem history_replays {Abstract : Type} {replay : Abstract → Label → Option Abstract}
    {abstraction : State → Abstract} {invariant : State → Prop} {allowed : State → Event → Prop}
    (simulates : ∀ before event after label, invariant before → allowed before event →
      step before event = some (after, label) →
      invariant after ∧ execute replay (abstraction before) label.toList = some (abstraction after))
    {start final : State} {events : List Event} {labels : List Label} (begun : invariant start)
    (meets : Meets (unlabelled step) allowed start events)
    (ran : history step start events = some (final, labels)) :
    invariant final ∧ execute replay (abstraction start) labels = some (abstraction final) := by
  induction events generalizing start labels with
  | nil =>
    cases ran
    exact ⟨begun, rfl⟩
  | cons event rest ih =>
    obtain ⟨after, label, later, stepped, remaining, rfl⟩ := history_cons.mp ran
    obtain ⟨kept, replayed⟩ := simulates start event after label begun meets.1 stepped
    have next : unlabelled step start event = some after := by rw [unlabelled, stepped]; rfl
    obtain ⟨last, continued⟩ := ih kept (meets.2 after next) remaining
    refine ⟨last, ?_⟩
    rw [execute_append, replayed]
    exact continued

/-- What holds of the label of every step holds of every label of a history. -/
theorem history_labels {good : Label → Prop} {invariant : State → Prop} {allowed : State → Event → Prop}
    (keeps : ∀ before event after label, invariant before → allowed before event →
      step before event = some (after, label) → invariant after ∧ ∀ said ∈ label, good said)
    {start final : State} {events : List Event} {labels : List Label} (begun : invariant start)
    (meets : Meets (unlabelled step) allowed start events)
    (ran : history step start events = some (final, labels)) : ∀ said ∈ labels, good said := by
  induction events generalizing start labels with
  | nil =>
    cases ran
    nofun
  | cons event rest ih =>
    obtain ⟨after, label, later, stepped, remaining, rfl⟩ := history_cons.mp ran
    obtain ⟨kept, first⟩ := keeps start event after label begun meets.1 stepped
    have next : unlabelled step start event = some after := by rw [unlabelled, stepped]; rfl
    intro said member
    rcases List.mem_append.mp member with now | then_
    · exact first said (Option.mem_toList.mp now)
    · exact ih kept (meets.2 after next) remaining said then_

end

end Foundation
