import Mathlib.Logic.Relation
import Mathlib.Data.Option.Basic
import Mathlib.Order.RelClasses

/-! Runs of a partial step function.

A machine is a function from a state and an event to the next state, if the event
can happen there. `Reaches` keeps only the runs whose events are all allowed;
`Always` and `Meets` speak about one run given by its events. A machine without events
has one run, which halts or goes on for ever.
-/

set_option autoImplicit false

namespace Foundation

section
variable {State Event : Type} (step : State → Event → Option State)

/-- The states reached from `start` through allowed events. -/
inductive Reaches (allowed : State → Event → Prop) (start : State) : State → Prop where
  | here : Reaches allowed start start
  | next {state after : State} {event : Event} : Reaches allowed start state → allowed state event →
      step state event = some after → Reaches allowed start after

def execute : State → List Event → Option State
  | state, [] => some state
  | state, event :: rest => (step state event).bind (execute · rest)

/-- Every state of the run, the last one included, has the property. -/
def Always (property : State → Prop) : State → List Event → Prop
  | state, [] => property state
  | state, event :: rest => property state ∧ ∀ after, step state event = some after → Always property after rest

/-- Every event of the run meets the condition in the state it happens in. -/
def Meets (condition : State → Event → Prop) : State → List Event → Prop
  | _, [] => True
  | state, event :: rest =>
      condition state event ∧ ∀ after, step state event = some after → Meets condition after rest

end

section
variable {State Event : Type} {step : State → Event → Option State}

instance decidableMeets {condition : State → Event → Prop} [∀ state event, Decidable (condition state event)] :
    ∀ start events, Decidable (Meets step condition start events)
  | _, [] => .isTrue trivial
  | state, event :: rest =>
      match stepped : step state event with
      | none => decidable_of_iff (condition state event)
          ⟨fun now => ⟨now, fun _ impossible => nomatch stepped.symm.trans impossible⟩, And.left⟩
      | some after =>
          have : Decidable (Meets step condition after rest) := decidableMeets after rest
          decidable_of_iff (condition state event ∧ Meets step condition after rest)
            ⟨fun both => ⟨both.1, fun _ same => Option.some.inj (stepped.symm.trans same) ▸ both.2⟩,
              fun both => ⟨both.1, both.2 after stepped⟩⟩

theorem meets_of_forall {condition : State → Event → Prop} {events : List Event}
    (always : ∀ event ∈ events, ∀ state, condition state event) (start : State) :
    Meets step condition start events := by
  induction events generalizing start with
  | nil => trivial
  | cons event rest ih =>
    exact ⟨always event (by simp) start, fun after _ => ih (fun other member => always other (by simp [member])) after⟩

theorem Meets.mono {narrow wide : State → Event → Prop} (weaker : ∀ state event, narrow state event → wide state event)
    {start : State} {events : List Event} (meets : Meets step narrow start events) : Meets step wide start events := by
  induction events generalizing start with
  | nil => trivial
  | cons event rest ih => exact ⟨weaker _ _ meets.1, fun after stepped => ih (meets.2 after stepped)⟩

theorem Meets.and {one two : State → Event → Prop} {start : State} {events : List Event}
    (first : Meets step one start events) (second : Meets step two start events) :
    Meets step (fun state event => one state event ∧ two state event) start events := by
  induction events generalizing start with
  | nil => trivial
  | cons event rest ih =>
    exact ⟨⟨first.1, second.1⟩, fun after stepped => ih (first.2 after stepped) (second.2 after stepped)⟩

/-- An invariant of the start that every allowed step keeps holds in every state reached. -/
theorem Reaches.invariant {allowed : State → Event → Prop} {start state : State}
    {invariant : State → Prop} (initial : invariant start)
    (preserved : ∀ before event after, invariant before → allowed before event →
      step before event = some after → invariant after)
    (reached : Reaches step allowed start state) : invariant state := by
  induction reached with
  | here => exact initial
  | next _ permitted stepped ih => exact preserved _ _ _ ih permitted stepped

theorem Reaches.mono {narrow wide : State → Event → Prop} {start state : State}
    (weaker : ∀ before event, narrow before event → wide before event)
    (reached : Reaches step narrow start state) : Reaches step wide start state := by
  induction reached with
  | here => exact .here
  | next _ permitted stepped ih => exact .next ih (weaker _ _ permitted) stepped

theorem Reaches.trans {allowed : State → Event → Prop} {first second third : State}
    (one : Reaches step allowed first second) (two : Reaches step allowed second third) :
    Reaches step allowed first third := by
  induction two with
  | here => exact one
  | next _ permitted stepped ih => exact .next ih permitted stepped

theorem Reaches.of_execute {allowed : State → Event → Prop} {start final : State} {events : List Event}
    (executed : execute step start events = some final) (meets : Meets step allowed start events) :
    Reaches step allowed start final := by
  induction events generalizing start with
  | nil =>
    cases executed
    exact .here
  | cons event rest ih =>
    obtain ⟨after, stepped, remaining⟩ := Option.bind_eq_some_iff.mp executed
    have first : Reaches step allowed start after := .next .here meets.1 stepped
    exact first.trans (ih remaining (meets.2 after stepped))

theorem reaches_of_execute {start final : State} {events : List Event}
    (executed : execute step start events = some final) : Reaches step (fun _ _ => True) start final :=
  Reaches.of_execute executed (meets_of_forall (fun _ _ _ => trivial) start)

theorem execute_append {state : State} {first second : List Event} :
    execute step state (first ++ second) = (execute step state first).bind (execute step · second) := by
  induction first generalizing state with
  | nil => rfl
  | cons event rest ih => simp only [List.cons_append, execute, Option.bind_assoc, ih]

theorem runs_append {condition : State → Event → Prop} {start middle final : State} {first second : List Event}
    (one : execute step start first = some middle ∧ Meets step condition start first)
    (two : execute step middle second = some final ∧ Meets step condition middle second) :
    execute step start (first ++ second) = some final ∧ Meets step condition start (first ++ second) := by
  refine ⟨by rw [execute_append, one.1, Option.bind_some, two.1], ?_⟩
  induction first generalizing start with
  | nil =>
    cases one.1
    exact two.2
  | cons event rest ih =>
    refine ⟨one.2.1, fun after stepped => ih ⟨?_, one.2.2 after stepped⟩⟩
    rw [← one.1, execute, stepped, Option.bind_some]

theorem Always.head {property : State → Prop} {start : State} {events : List Event}
    (always : Always step property start events) : property start := by
  cases events with
  | nil => exact always
  | cons => exact always.1

/-- An invariant that implies the property and that every event meeting the condition keeps. -/
theorem Meets.always {invariant property : State → Prop} {condition : State → Event → Prop}
    (preserved : ∀ before event after, invariant before → condition before event →
      step before event = some after → invariant after)
    (sufficient : ∀ state, invariant state → property state) {start : State} {events : List Event}
    (begun : invariant start) (meets : Meets step condition start events) : Always step property start events := by
  induction events generalizing start with
  | nil => exact sufficient start begun
  | cons event rest ih =>
    refine ⟨sufficient start begun, fun after stepped => ?_⟩
    exact ih (preserved start event after begun meets.1 stepped) (meets.2 after stepped)

/-- A run along which a property holds has no event that can only break it. -/
theorem Always.meets {property : State → Prop} {condition : State → Event → Prop}
    (breaks : ∀ before event, ¬ condition before event → ∃ after, step before event = some after ∧ ¬ property after)
    {start : State} {events : List Event} (always : Always step property start events) :
    Meets step condition start events := by
  induction events generalizing start with
  | nil => trivial
  | cons event rest ih =>
    refine ⟨?_, fun after stepped => ih (always.2 after stepped)⟩
    by_contra broken
    obtain ⟨after, stepped, lost⟩ := breaks start event broken
    exact lost (always.2 after stepped).head

/-- Under an invariant, a condition that is equivalent, step by step, to keeping a property
makes the property hold along exactly the runs that meet the condition. -/
theorem always_iff_meets {invariant property : State → Prop} {condition : State → Event → Prop}
    (preserved : ∀ before event after, invariant before → step before event = some after → invariant after)
    (exact_ : ∀ before event after, invariant before → property before → step before event = some after →
      (condition before event ↔ property after))
    {start final : State} {events : List Event} (begun : invariant start) (initial : property start)
    (executed : execute step start events = some final) :
    Always step property start events ↔ Meets step condition start events := by
  induction events generalizing start with
  | nil => exact ⟨fun _ => trivial, fun _ => initial⟩
  | cons event rest ih =>
    obtain ⟨after, stepped, remaining⟩ := Option.bind_eq_some_iff.mp executed
    have same := exact_ start event after begun initial stepped
    have kept := preserved start event after begun stepped
    constructor
    · rintro ⟨-, later⟩
      have now : property after := (later after stepped).head
      refine ⟨same.mpr now, fun other otherStep => ?_⟩
      cases Option.some.inj (stepped.symm.trans otherStep)
      exact (ih kept now remaining).mp (later after stepped)
    · rintro ⟨now, later⟩
      refine ⟨initial, fun other otherStep => ?_⟩
      cases Option.some.inj (stepped.symm.trans otherStep)
      exact (ih kept (same.mp now) remaining).mpr (later after stepped)

end

/-! ### Runs that no event chooses -/

section
variable {State : Type} (step : State → Option State)

def advance : Nat → State → Option State
  | 0, state => some state
  | count + 1, state => (step state).bind (advance count)

/-- Some number of steps leads to a state that has no next one. -/
def Halts (start : State) : Prop := ∃ count last, advance step count start = some last ∧ step last = none

variable {step} {invariant : State → Prop} {start : State}

/-- A measure that every step decreases. -/
theorem halts_of_decreasing {Measure : Type} [LT Measure] [WellFoundedLT Measure] (measure : State → Measure)
    (decreases : ∀ state after, invariant state → step state = some after →
      invariant after ∧ measure after < measure state) (begun : invariant start) :
    ∃ count last, advance step count start = some last ∧ step last = none ∧ invariant last := by
  induction rank : measure start using WellFoundedLT.induction generalizing start with
  | ind rank ih =>
    subst rank
    cases stepped : step start with
    | none => exact ⟨0, start, rfl, stepped, begun⟩
    | some after =>
      obtain ⟨kept, less⟩ := decreases start after begun stepped
      obtain ⟨count, last, advanced, stops, held⟩ := ih (measure after) less kept rfl
      exact ⟨count + 1, last, by rw [advance, stepped, Option.bind_some, advanced], stops, held⟩

/-- An invariant under which there always is a next step. -/
theorem not_halts_of_progress (progress : ∀ state, invariant state → ∃ after, step state = some after ∧ invariant after)
    (begun : invariant start) : ¬ Halts step start := by
  rintro ⟨count, last, advanced, stops⟩
  induction count generalizing start with
  | zero =>
    cases advanced
    obtain ⟨after, stepped, _⟩ := progress last begun
    cases stops.symm.trans stepped
  | succ count ih =>
    obtain ⟨after, stepped, kept⟩ := progress start begun
    rw [advance, stepped] at advanced
    exact ih kept advanced

end

/-! ### Two machines in step -/

theorem rel_imp {First Second : Type} {narrow wide : First → Second → Prop}
    (weaker : ∀ first second, narrow first second → wide first second) {one : Option First} {two : Option Second}
    (related : Option.Rel narrow one two) : Option.Rel wide one two := by
  cases related with
  | none => exact .none
  | some inside => exact .some (weaker _ _ inside)

theorem rel_some_right {First Second : Type} {relation : First → Second → Prop} {one : Option First} {two : Second}
    (related : Option.Rel relation one (some two)) : ∃ first, one = some first ∧ relation first two := by
  cases related with
  | some inside => exact ⟨_, rfl, inside⟩

theorem rel_some_left {First Second : Type} {relation : First → Second → Prop} {one : First} {two : Option Second}
    (related : Option.Rel relation (some one) two) : ∃ second, two = some second ∧ relation one second := by
  cases related with
  | some inside => exact ⟨_, rfl, inside⟩

theorem rel_isSome {First Second : Type} {relation : First → Second → Prop} {one : Option First} {two : Option Second}
    (related : Option.Rel relation one two) : one.isSome = two.isSome := by
  cases related <;> rfl

theorem rel_ite {First Second : Type} {relation : First → Second → Prop} {holds otherHolds : Prop} [Decidable holds]
    [Decidable otherHolds] {one : First} {two : Second} (same : holds ↔ otherHolds) (kept : holds → relation one two) :
    Option.Rel relation (if holds then some one else none) (if otherHolds then some two else none) := by
  by_cases met : holds
  · rw [if_pos met, if_pos (same.mp met)]
    exact .some (kept met)
  · rw [if_neg met, if_neg (mt same.mpr met)]
    exact .none

theorem rel_bind {First Second Third Fourth : Type} {relation : First → Second → Prop}
    {result : Third → Fourth → Prop} {one : Option First} {two : Option Second} {f : First → Option Third}
    {g : Second → Option Fourth} (related : Option.Rel relation one two)
    (continued : ∀ first second, relation first second → Option.Rel result (f first) (g second)) :
    Option.Rel result (one.bind f) (two.bind g) := by
  cases related with
  | none => exact .none
  | some inside => exact continued _ _ inside

theorem rel_map {First Second Third Fourth : Type} {relation : First → Second → Prop}
    {result : Third → Fourth → Prop} {one : Option First} {two : Option Second} {f : First → Third}
    {g : Second → Fourth} (related : Option.Rel relation one two)
    (continued : ∀ first second, relation first second → result (f first) (g second)) :
    Option.Rel result (one.map f) (two.map g) := by
  cases related with
  | none => exact .none
  | some inside => exact .some (continued _ _ inside)

/-- Steps that succeed together and keep a relation make whole runs succeed together and keep it. -/
theorem execute_related {State Other Event : Type} {step : State → Event → Option State}
    {otherStep : Other → Event → Option Other} {relation : State → Other → Prop} {allowed : Event → Prop}
    (simulates : ∀ state other event, relation state other → allowed event →
      Option.Rel relation (step state event) (otherStep other event))
    {state : State} {other : Other} (begun : relation state other) {events : List Event}
    (permitted : ∀ event ∈ events, allowed event) :
    Option.Rel relation (execute step state events) (execute otherStep other events) := by
  induction events generalizing state other with
  | nil => exact .some begun
  | cons event rest ih =>
    refine rel_bind (simulates state other event begun (permitted event List.mem_cons_self)) ?_
    intro after otherAfter kept
    exact ih kept fun later member => permitted later (List.mem_cons_of_mem _ member)

end Foundation
