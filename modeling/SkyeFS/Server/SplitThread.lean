import SkyeFS.Server.Split

/-! The steps of the split thread by themselves, and what they do to the tree.

Every step leaves the tree alone, makes or drops the child's bucket while it is empty,
or moves one entry from the parent's bucket to the child's.
-/

set_option autoImplicit false

namespace SkyeFS.Server

open Index Pvfs Foundation

section
variable (shahash : FileName → Digest) (state : SplitState)

/-- What a step of the thread does to the tree. -/
inductive Rewrites : SplitEvent → Store → Prop where
  | keep {event : SplitEvent} : Rewrites event state.store
  | make {outcome : MkdirOutcome} {pindex cindex position : Nat} : outcome ≠ .failed →
      state.thread = .making pindex cindex → state.store.bucket cindex = none →
      Rewrites (.makeChild outcome position) (Listing.put position (bucketName cindex) ∅ state.store)
  | drop {pindex cindex : Nat} : state.thread = .misplaced pindex cindex →
      Rewrites (.dropChild true) (state.store.erase (bucketName cindex))
  | move {pindex cindex token moved outcount position : Nat} {name : FileName} {rest : List FileName}
      {object : Object} : state.thread = .batch pindex cindex token moved outcount (name :: rest) →
      gigaFileMigrationStatus shahash name cindex = some true →
      state.store.find pindex name = some object → (state.store.bucket cindex).isSome →
      Rewrites (.moveNext true position) ((state.store.unbind pindex name).bind position cindex name object)

end

section
variable {shahash : FileName → Digest} {servernum : Nat} {state after : SplitState} {event : SplitEvent}

theorem rewrites_of_move (own : event.ofThread = true) (moved : SplitMove shahash servernum state event after) :
    Rewrites shahash state event after.store := by
  cases moved with
  | makeMisplaced thread absent => exact .make (by decide) thread absent
  | makeInPlace thread absent => exact .make (by decide) thread absent
  | dropChild thread => exact .drop thread
  | move thread migrates found present => exact .move thread migrates found present
  | bind free binds => cases binds <;> cases own
  | removeLookup | removeFailed | removeEntry | takeAway => cases own
  | _ => exact .keep

theorem afterPass_ne_misplaced {pindex cindex moved first second : Nat} {held : Bool} :
    afterPass pindex cindex moved held ≠ .misplaced first second := by
  unfold afterPass
  split <;> nofun

theorem misplaced_of_move {pindex cindex : Nat} (own : event.ofThread = true)
    (moved : SplitMove shahash servernum state event after) (thread : after.thread = .misplaced pindex cindex) :
    after = state ∨ ∃ position, state.store.bucket cindex = none ∧
      after.store = Listing.put position (bucketName cindex) ∅ state.store := by
  -- A bucket on the wrong server was made a moment ago.
  cases moved with
  | makeMisplaced making absent =>
    cases thread
    exact Or.inr ⟨_, absent, rfl⟩
  | readEmpty => exact absurd thread afterPass_ne_misplaced
  | endPass => exact absurd thread afterPass_ne_misplaced
  | answer => exact Or.inl rfl
  | bind free binds => cases binds <;> cases own
  | removeLookup | removeFailed | removeEntry | takeAway => cases own
  | _ => cases thread

end

section
variable {store : Store} {pindex cindex position index : Nat} {name entry : FileName} {object : Object}

theorem find_empty (absent : store.bucket cindex = none) :
    Store.find (Listing.put position (bucketName cindex) ∅ store) index name = store.find index name := by
  by_cases same : index = cindex
  · subst same
    simp [Store.find, Store.bucket_put, absent]
  · exact Store.find_put_of_ne same

theorem find_dropped_empty (empty : store.find cindex name = none) :
    Store.find (store.erase (bucketName cindex)) index name = store.find index name := by
  by_cases same : index = cindex
  · subst same
    rw [empty, Store.find, Store.bucket_erase, if_pos rfl]
    rfl
  · exact Store.find_erase_of_ne same

theorem find_moved (present : (store.bucket cindex).isSome) :
    ((store.unbind pindex name).bind position cindex name object).find index name =
      if index = cindex then some object else if index = pindex then none else store.find index name := by
  have kept : ((store.unbind pindex name).bucket cindex).isSome := by
    rw [Store.bucket_isSome, Store.keys_unbind, ← Store.bucket_isSome]
    exact present
  rw [Store.find_bind kept, Store.find_unbind]
  simp only [and_true]

theorem find_moved_of_ne (other : entry ≠ name) :
    ((store.unbind pindex entry).bind position cindex entry object).find index name = store.find index name := by
  rw [Store.find_bind_of_ne fun same => other same.2.symm, Store.find_unbind, if_neg fun same => other same.2.symm]

end

section
variable (name : FileName)

/-- A bucket on the wrong server does not have the entry. -/
def SplitState.Vacant (state : SplitState) : Prop :=
  ∀ {pindex cindex : Nat}, state.thread = .misplaced pindex cindex → state.store.find cindex name = none

/-- What a step of the thread does to one entry. -/
inductive Carries (shahash : FileName → Digest) (before : SplitState) (event : SplitEvent) (after : Store) : Prop where
  | stays : (∀ index, after.find index name = before.store.find index name) → Carries shahash before event after
  | moves {pindex cindex token moved outcount position : Nat} {rest : List FileName} {object : Object} :
      before.thread = .batch pindex cindex token moved outcount (name :: rest) → event = .moveNext true position →
      gigaFileMigrationStatus shahash name cindex = some true → before.store.find pindex name = some object →
      (∀ index, after.find index name =
        if index = cindex then some object else if index = pindex then none else before.store.find index name) →
      Carries shahash before event after

variable {name} {shahash : FileName → Digest} {servernum : Nat} {state after : SplitState} {event : SplitEvent}

theorem Rewrites.carries {store : Store} (vacant : state.Vacant name) (rewrites : Rewrites shahash state event store) :
    Carries name shahash state event store := by
  cases rewrites with
  | keep => exact .stays fun _ => rfl
  | make made thread absent => exact .stays fun _ => find_empty absent
  | drop thread => exact .stays fun _ => find_dropped_empty (vacant thread)
  | @move _ _ _ _ _ _ entry _ _ thread migrates found present =>
    by_cases same : entry = name
    · subst same
      exact .moves thread rfl migrates found fun _ => find_moved present
    · exact .stays fun _ => find_moved_of_ne same

theorem vacant_of_move (vacant : state.Vacant name) (own : event.ofThread = true)
    (moved : SplitMove shahash servernum state event after) : after.Vacant name := by
  intro pindex cindex thread
  rcases misplaced_of_move own moved thread with rfl | ⟨position, absent, made⟩
  · exact vacant thread
  · rw [made, find_empty absent, Store.find, absent]
    rfl

end

end SkyeFS.Server
