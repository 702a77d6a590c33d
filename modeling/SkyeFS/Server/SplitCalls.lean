import SkyeFS.Server.SplitNames
import SkyeFS.Server.SplitThread

/-! The calls that `do_split` makes: PVFS calls that may fail and calls on the rwlock.

The split thread is followed by itself here, with any outcome of the calls before the
move phase and any page that `PVFS_sys_readdir` may return. The calls on the rwlock are
read off the source at every step. What they find is logged next to the state, and
no step looks at the log.
-/

set_option autoImplicit false

namespace SkyeFS.Server

open Index Pvfs Foundation

inductive LockCall where
  | wrlock
  | unlock

structure LockLog where
  held : Bool
  -- The lock was asked for while it was held.
  relocked : Bool
  -- The lock was given up while it was not held.
  unowned : Bool
deriving DecidableEq

def LockLog.call (log : LockLog) : LockCall → LockLog
  | .wrlock => { log with held := true, relocked := log.relocked || log.held }
  | .unlock => { log with held := false, unowned := log.unowned || !log.held }

def LockLog.Clean (log : LockLog) : Prop := log.relocked = false ∧ log.unowned = false

instance (log : LockLog) : Decidable log.Clean := inferInstanceAs (Decidable (_ ∧ _))

inductive SplitCall where
  -- `cache_fetch_w` returns `NULL`.
  | noDirectory
  -- `PVFS_sys_ref_lookup` fails, though the bucket may exist.
  | lookupFails
  | page (names : List FileName)
  -- Any other step of the thread.
  | step (event : SplitEvent)
deriving DecidableEq

structure CallState where
  split : SplitState
  log : LockLog

/-- The calls on the rwlock in a step, which may depend on where the thread goes. `cache_return` unlocks. -/
def lockCalls : SplitCall → Thread → List LockCall
  | .noDirectory, _ => []
  | .lookupFails, _ => [.wrlock, .unlock]
  | .page _, _ => [.wrlock]
  | .step (.begin_ _), .ended => [.wrlock, .unlock]
  | .step (.begin_ _), _ => [.wrlock]
  | .step (.makeChild _ _), .misplaced _ _ => []
  | .step (.makeChild _ _), _ => [.unlock]
  | .step (.dropChild _), .ended => [.unlock]
  | .step .endBatch, _ => [.unlock]
  | .step .lockAgain, _ => [.wrlock]
  | .step .finish, _ => [.unlock]
  | .step _, _ => []

section
variable (shahash : FileName → Digest) (servernum : Nat)

def splitCall (state : SplitState) : SplitCall → Option SplitState
  | .noDirectory =>
      match state.thread with
      | .start _ => some { state with thread := .ended }
      | _ => none
  | .lookupFails =>
      match state.thread with
      | .start pindex =>
          if state.unread then
            (gigaIndexForSplitting state.dir.mapping pindex).map fun _ => { state with thread := .ended }
          else none
      | _ => none
  | .page names =>
      match state.thread with
      | .scanning pindex cindex token moved held =>
          if held || state.unread then
            if names.isEmpty then some { state with thread := afterPass pindex cindex moved true }
            else some { state with thread := .batch pindex cindex token moved names.length names }
          else none
      | _ => none
  | .step event => if event.ofThread ∧ event ≠ .readdir then splitStep shahash servernum state event else none

def callStep (state : CallState) (call : SplitCall) : Option CallState :=
  (splitCall shahash servernum state.split call).map fun after =>
    ⟨after, (lockCalls call after.thread).foldl LockLog.call state.log⟩

theorem splitStep_readdir (state : SplitState) {pindex cindex token moved : Nat} {held : Bool}
    (thread : state.thread = .scanning pindex cindex token moved held)
    (present : (state.store.bucket pindex).isSome) :
    splitStep shahash servernum state .readdir =
      splitCall shahash servernum state (.page (sysReaddir (state.store.names pindex) token moveIncount)) := by
  obtain ⟨bucket, found⟩ := Option.isSome_iff_exists.mp present
  simp only [splitStep, splitCall, thread, found, Store.names_of_bucket found, Option.bind_eq_bind, Option.bind_some]

/-- What each call does: one of the steps of `SplitMove`, unless the calls differ from it. -/
inductive CallMove (state : SplitState) : SplitCall → SplitState → Prop where
  | noDirectory {pindex : Nat} : state.thread = .start pindex →
      CallMove state .noDirectory { state with thread := .ended }
  | lookupFails {pindex : Nat} : state.thread = .start pindex →
      CallMove state .lookupFails { state with thread := .ended }
  | emptyPage {pindex cindex token moved : Nat} {held : Bool} :
      state.thread = .scanning pindex cindex token moved held →
      CallMove state (.page []) { state with thread := afterPass pindex cindex moved true }
  | page {pindex cindex token moved : Nat} {held : Bool} {names : List FileName} :
      state.thread = .scanning pindex cindex token moved held → names ≠ [] →
      CallMove state (.page names) { state with thread := .batch pindex cindex token moved names.length names }
  | step {event : SplitEvent} {after : SplitState} : event.ofThread = true → event ≠ .readdir →
      SplitMove shahash servernum state event after → CallMove state (.step event) after

end

section
variable {shahash : FileName → Digest} {servernum : Nat} {state after : SplitState}

theorem splitCall_move {call : SplitCall} (stepped : splitCall shahash servernum state call = some after) :
    CallMove shahash servernum state call after := by
  cases call with
  | noDirectory =>
    cases thread : state.thread <;> simp only [splitCall, thread, reduceCtorEq] at stepped
    cases stepped
    exact .noDirectory thread
  | lookupFails =>
    cases thread : state.thread <;> simp only [splitCall, thread, reduceCtorEq] at stepped
    obtain ⟨_, mapped⟩ := Option.ite_none_right_eq_some.mp stepped
    obtain ⟨_, _, rfl⟩ := Option.map_eq_some_iff.mp mapped
    exact .lookupFails thread
  | page names =>
    cases thread : state.thread <;> simp only [splitCall, thread, reduceCtorEq] at stepped
    obtain ⟨_, turned⟩ := Option.ite_none_right_eq_some.mp stepped
    cases names with
    | nil =>
      cases turned
      exact .emptyPage thread
    | cons name rest =>
      cases turned
      exact .page thread (by simp)
  | step event =>
    obtain ⟨⟨own, other⟩, stepped⟩ := Option.ite_none_right_eq_some.mp stepped
    exact .step own other (splitStep_move stepped)

theorem Binds.request {event : SplitEvent} {source : Source} {name : FileName} (binds : Binds event source name) :
    event.ofThread = false := by
  cases binds <;> rfl

end

/-! ### Calls on the rwlock -/

/-- After an empty page the thread goes on to its next `pthread_rwlock_wrlock` with the lock. -/
def Thread.relocks : Thread → Bool
  | .scanning _ _ _ _ held | .finishing _ _ held => held
  | _ => false

theorem relocks_afterPass (pindex cindex moved : Nat) (held : Bool) :
    (afterPass pindex cindex moved held).relocks = held ∧ (afterPass pindex cindex moved held).locked = held := by
  unfold afterPass
  split <;> exact ⟨rfl, rfl⟩

section
variable {shahash : FileName → Digest} {servernum : Nat}

/-- The log and the thread agree on who holds the lock. -/
def CallState.Agrees (state : CallState) : Prop := state.log.held = state.split.thread.locked

theorem callStep_lock {state after : CallState} {call : SplitCall} (agrees : state.Agrees)
    (stepped : callStep shahash servernum state call = some after) :
    after.Agrees ∧ (after.split.thread.relocks = true ↔ call = .page []) ∧
      (after.log.Clean ↔ state.log.Clean ∧ state.split.thread.relocks = false) := by
  obtain ⟨split, moved, rfl⟩ := Option.map_eq_some_iff.mp stepped
  unfold CallState.Agrees at agrees
  cases splitCall_move moved with
  | @emptyPage pindex cindex _ count _ thread =>
    obtain ⟨relocks, locked⟩ := relocks_afterPass pindex cindex count true
    refine ⟨locked.symm, by simp [relocks], ?_⟩
    simp_all [lockCalls, LockLog.call, LockLog.Clean, Thread.relocks, Thread.locked, and_right_comm]
  | step own other move =>
    cases move with
    | @endPass pindex cindex _ count _ thread =>
      obtain ⟨relocks, locked⟩ := relocks_afterPass pindex cindex count false
      refine ⟨locked.symm, by simp [relocks], ?_⟩
      simp_all [lockCalls, LockLog.call, LockLog.Clean, Thread.relocks, Thread.locked]
    | readEmpty | readPage => exact absurd rfl other
    | answer request => cases own.symm.trans request
    | bind _ binds => cases own.symm.trans binds.request
    | removeLookup | removeFailed | removeEntry | takeAway => cases own
    | _ thread =>
      simp_all [lockCalls, LockLog.call, LockLog.Clean, Thread.relocks, Thread.locked, CallState.Agrees,
        and_right_comm]
  | _ thread =>
    simp_all [lockCalls, LockLog.call, LockLog.Clean, Thread.relocks, Thread.locked, CallState.Agrees, and_right_comm]

/-- A log is clean at the end of a run if it was clean before, and no call but the last leaves the thread with a
lock that it will ask for again. -/
theorem execute_clean {state final : CallState} {calls : List SplitCall} (agrees : state.Agrees)
    (executed : execute (callStep shahash servernum) state calls = some final) :
    final.log.Clean ↔ state.log.Clean ∧ (state.split.thread.relocks = true → calls = []) ∧
      SplitCall.page [] ∉ calls.dropLast := by
  induction calls generalizing state with
  | nil =>
    cases executed
    simp
  | cons call rest ih =>
    obtain ⟨after, stepped, remaining⟩ := Option.bind_eq_some_iff.mp executed
    obtain ⟨kept, relocks, clean⟩ := callStep_lock agrees stepped
    rw [ih kept remaining, clean, relocks]
    cases rest with
    | nil => simp
    | cons next later => simp [and_assoc, @eq_comm _ call]

def freeLock : LockLog where
  held := false
  relocked := false
  unowned := false

/-- The split thread asks for the lock only without it and gives it up only with it, along exactly the runs in
which it does not go on after an empty page. -/
theorem lock_calls_clean {start : SplitState} {final : CallState} {pindex : Nat} {calls : List SplitCall}
    (begun : start.thread = .start pindex)
    (executed : execute (callStep shahash servernum) ⟨start, freeLock⟩ calls = some final) :
    final.log.Clean ↔ SplitCall.page [] ∉ calls.dropLast := by
  have agrees : CallState.Agrees ⟨start, freeLock⟩ := by rw [CallState.Agrees, begun]; rfl
  rw [execute_clean agrees executed]
  simp [begun, Thread.relocks, freeLock, LockLog.Clean]

end

def lonelyStart : SplitState := unsplitStart (AList.singleton ['a'] ⟨7, false⟩)

def idleCalls : List SplitCall :=
  [.step (.begin_ false), .step (.makeChild .inPlace 1), .page [['a']], .step (.moveNext true 0), .step .endBatch,
    .step .lockAgain, .step .finish]

theorem idle_calls_clean : ∃ final, execute (callStep (flatDigest 0#8) 0) ⟨lonelyStart, freeLock⟩ idleCalls = some final ∧
    final.log.Clean := by
  have ends : (execute (callStep (flatDigest 0#8) 0) ⟨lonelyStart, freeLock⟩ idleCalls).isSome := by decide +kernel
  obtain ⟨final, executed⟩ := Option.isSome_iff_exists.mp ends
  exact ⟨final, executed, (lock_calls_clean rfl executed).mpr (by decide)⟩

/-- The only file migrates, so the second pass finds the bucket empty. -/
def emptiedCalls : List SplitCall :=
  [.step (.begin_ false), .step (.makeChild .inPlace 1), .page [['a']], .step (.moveNext true 0), .step .endBatch,
    .page [], .step .lockAgain]

/-- The same run with the pages that PVFS returns. -/
def emptiedEvents : List SplitEvent :=
  [.begin_ false, .makeChild .inPlace 1, .readdir, .moveNext true 0, .endBatch, .readdir, .lockAgain]

/-- The thread asks for the lock at the end of `do_split` with the lock in its hands. -/
theorem emptied_bucket_relocks :
    (∃ final, execute (callStep allMigrate 0) ⟨lonelyStart, freeLock⟩ emptiedCalls = some final ∧
      final.log.relocked = true) ∧
    (execute (callStep allMigrate 0) ⟨lonelyStart, freeLock⟩ emptiedCalls).map (·.split.thread) =
      (execute (splitStep allMigrate 0) lonelyStart emptiedEvents).map (·.thread) := by
  have relocked : (execute (callStep allMigrate 0) ⟨lonelyStart, freeLock⟩ emptiedCalls).map (·.log.relocked) =
      some true := by decide +kernel
  exact ⟨Option.map_eq_some_iff.mp relocked, by decide +kernel⟩

/-! ### Failures before the move phase -/

def SplitCall.early : SplitCall → Bool
  | .noDirectory | .lookupFails | .step (.begin_ _) | .step (.makeChild _ _) | .step (.dropChild _) => true
  | .page _ | .step _ => false

/-- A PVFS call before the move phase fails. Nobody else changes the buckets up to there, so that the tree at
the start decides whether a bucket exists. -/
def SplitCall.Fails (store : Store) (pindex cindex : Nat) : SplitCall → Prop
  | .lookupFails => True
  | .step (.begin_ getattr) => store.bucket pindex = none ∨ getattr = false
  | .step (.makeChild outcome _) => outcome = .failed ∨ (store.bucket cindex).isSome
  | .step (.dropChild success) => success = false
  | .noDirectory | .page _ | .step _ => False

theorem SplitCall.Fails.early {store : Store} {pindex cindex : Nat} {call : SplitCall}
    (fails : call.Fails store pindex cindex) : call.early = true := by
  unfold SplitCall.Fails at fails
  split at fails
  all_goals first | rfl | cases fails

section
variable {shahash : FileName → Digest} {servernum : Nat}

theorem CallMove.not_ended {state after : SplitState} {call : SplitCall}
    (move : CallMove shahash servernum state call after) : state.thread ≠ .ended := by
  cases move with
  | step own other move =>
    cases move with
    | answer request => cases own.symm.trans request
    | bind _ binds => cases own.symm.trans binds.request
    | removeLookup | removeFailed | removeEntry | takeAway => cases own
    | _ thread => simp [thread]
  | _ thread => simp [thread]

theorem CallMove.of_making {state after : SplitState} {call : SplitCall} {pindex cindex : Nat}
    (move : CallMove shahash servernum state call after) (thread : state.thread = .making pindex cindex) :
    (∃ outcome position, (outcome = .failed ∨ (state.store.bucket cindex).isSome) ∧
        call = .step (.makeChild outcome position) ∧ after = { state with thread := .ended }) ∨
      (∃ position, state.store.bucket cindex = none ∧ call = .step (.makeChild .misplaced position) ∧
        after = { state with
          store := Listing.put position (bucketName cindex) ∅ state.store, thread := .misplaced pindex cindex }) ∨
      ∃ position, state.store.bucket cindex = none ∧ call = .step (.makeChild .inPlace position) ∧
        after = { state with
          store := Listing.put position (bucketName cindex) ∅ state.store
          dir := { state.dir with splittingIndex := some pindex }
          thread := .scanning pindex cindex 0 0 false } := by
  cases move with
  | step own other move =>
    cases move with
    | mkdirFails making failure =>
      cases thread.symm.trans making
      exact .inl ⟨_, _, failure, rfl, rfl⟩
    | makeMisplaced making absent =>
      cases thread.symm.trans making
      exact .inr (.inl ⟨_, absent, rfl, rfl⟩)
    | makeInPlace making absent =>
      cases thread.symm.trans making
      exact .inr (.inr ⟨_, absent, rfl, rfl⟩)
    | answer request => cases own.symm.trans request
    | bind _ binds => cases own.symm.trans binds.request
    | removeLookup | removeFailed | removeEntry | takeAway => cases own
    | _ different => cases thread.symm.trans different
  | _ different => cases thread.symm.trans different

theorem CallMove.of_misplaced {state after : SplitState} {call : SplitCall} {pindex cindex : Nat}
    (move : CallMove shahash servernum state call after) (thread : state.thread = .misplaced pindex cindex) :
    call = .step (.dropChild true) ∧
        after = { state with store := state.store.erase (bucketName cindex), thread := .making pindex cindex } ∨
      call = .step (.dropChild false) ∧ after = { state with thread := .ended } := by
  cases move with
  | step own other move =>
    cases move with
    | dropChild misplaced =>
      cases thread.symm.trans misplaced
      exact .inl ⟨rfl, rfl⟩
    | removeFails => exact .inr ⟨rfl, rfl⟩
    | answer request => cases own.symm.trans request
    | bind _ binds => cases own.symm.trans binds.request
    | removeLookup | removeFailed | removeEntry | takeAway => cases own
    | _ different => cases thread.symm.trans different
  | _ different => cases thread.symm.trans different

theorem CallMove.working {state after : SplitState} {call : SplitCall}
    (move : CallMove shahash servernum state call after) (working : state.thread.working = true) :
    (after.thread.working = true ∨ after.thread = .ended) ∧ after.store.keys = state.store.keys ∧
      call.early = false := by
  -- Once the child's bucket is in place, buckets stay, and no call of the first phase comes any more.
  have afterPass_working : ∀ pindex cindex moved held, (afterPass pindex cindex moved held).working = true := by
    intro pindex cindex moved held
    unfold afterPass
    split <;> rfl
  cases move with
  | emptyPage => exact ⟨.inl (afterPass_working _ _ _ _), rfl, rfl⟩
  | page => exact ⟨.inl rfl, rfl, rfl⟩
  | step own other move =>
    cases move with
    | move => exact ⟨.inl rfl, Store.keys_bind.trans Store.keys_unbind, rfl⟩
    | endPass => exact ⟨.inl (afterPass_working _ _ _ _), rfl, rfl⟩
    | finish => exact ⟨.inr rfl, rfl, rfl⟩
    | skip | moveFailed | nextPage | lockAgain => exact ⟨.inl rfl, rfl, rfl⟩
    | readEmpty | readPage => exact absurd rfl other
    | answer request => cases own.symm.trans request
    | bind _ binds => cases own.symm.trans binds.request
    | removeLookup | removeFailed | removeEntry | takeAway => cases own
    | _ thread =>
      rw [thread] at working
      cases working
  | _ thread =>
    rw [thread] at working
    cases working

theorem execute_ended {state final : CallState} {calls : List SplitCall} (ended : state.split.thread = .ended)
    (executed : execute (callStep shahash servernum) state calls = some final) : calls = [] ∧ final = state := by
  cases calls with
  | nil =>
    cases executed
    exact ⟨rfl, rfl⟩
  | cons call rest =>
    obtain ⟨after, stepped, _⟩ := Option.bind_eq_some_iff.mp executed
    obtain ⟨split, moved, _⟩ := Option.map_eq_some_iff.mp stepped
    exact absurd ended (splitCall_move moved).not_ended

theorem execute_working {state final : CallState} {calls : List SplitCall}
    (working : state.split.thread.working = true)
    (executed : execute (callStep shahash servernum) state calls = some final) :
    final.split.store.keys = state.split.store.keys ∧ ∀ call ∈ calls, call.early = false := by
  induction calls generalizing state with
  | nil =>
    cases executed
    simp
  | cons call rest ih =>
    obtain ⟨after, stepped, remaining⟩ := Option.bind_eq_some_iff.mp executed
    obtain ⟨split, moved, rfl⟩ := Option.map_eq_some_iff.mp stepped
    obtain ⟨next, kept, late⟩ := (splitCall_move moved).working working
    rcases next with working | ended
    · obtain ⟨same, later⟩ := ih working remaining
      exact ⟨same.trans kept, List.forall_mem_cons.mpr ⟨late, later⟩⟩
    · obtain ⟨rfl, rfl⟩ := execute_ended ended remaining
      exact ⟨kept, by simpa using late⟩

/-- How `do_split` may end after it has begun to make the child's bucket in a tree `store`. -/
inductive Ends (dir : SkyeDirectory) (store : Store) (pindex cindex : Nat) (calls : List SplitCall)
    (final : SplitState) : Prop where
  -- `PVFS_sys_mkdir` fails in some round.
  | gaveUp : final.dir = dir → final.store = store → .step (.dropChild false) ∉ calls →
      (∀ position, .step (.makeChild .inPlace position) ∈ calls → store.bucket cindex ≠ none) →
      Ends dir store pindex cindex calls final
  -- `PVFS_sys_remove` fails.
  | leftOver : store.bucket cindex = none → (final.store.bucket cindex).isSome →
      .step (.dropChild false) ∈ calls → Ends dir store pindex cindex calls final
  | moved {position : Nat} : store.bucket cindex = none → (final.store.bucket cindex).isSome →
      .step (.makeChild .inPlace position) ∈ calls → (∀ call ∈ calls, ¬ call.Fails store pindex cindex) →
      Ends dir store pindex cindex calls final

theorem Ends.cons {dir : SkyeDirectory} {store : Store} {pindex cindex : Nat} {calls : List SplitCall}
    {final : SplitState} {call : SplitCall} (ends : Ends dir store pindex cindex calls final)
    (succeeds : ¬ call.Fails store pindex cindex)
    (elsewhere : ∀ position, call ≠ .step (.makeChild .inPlace position)) :
    Ends dir store pindex cindex (call :: calls) final := by
  cases ends with
  | gaveUp sameDir sameStore noDrop noMake =>
    refine .gaveUp sameDir sameStore ?_ fun position member => ?_
    · intro member
      rcases List.mem_cons.mp member with rfl | member
      · exact succeeds rfl
      · exact noDrop member
    · rcases List.mem_cons.mp member with same | member
      · exact absurd same.symm (elsewhere position)
      · exact noMake position member
  | leftOver absent present dropped => exact .leftOver absent present (List.mem_cons_of_mem call dropped)
  | moved absent present made none_fails =>
    exact .moved absent present (List.mem_cons_of_mem call made) (List.forall_mem_cons.mpr ⟨succeeds, none_fails⟩)

inductive SplitState.Round (dir : SkyeDirectory) (store : Store) (pindex cindex : Nat) (state : SplitState) : Prop where
  | making : state.thread = .making pindex cindex → state.dir = dir → state.store = store →
      SplitState.Round dir store pindex cindex state
  | misplaced {position : Nat} : state.thread = .misplaced pindex cindex → state.dir = dir →
      store.bucket cindex = none → state.store = Listing.put position (bucketName cindex) ∅ store →
      SplitState.Round dir store pindex cindex state

theorem bucket_put_isSome {store : Store} {position index : Nat} {content : Bucket} :
    (Store.bucket (Listing.put position (bucketName index) content store) index).isSome := by
  rw [Store.bucket_put, if_pos rfl]
  rfl

theorem ends_of_round {dir : SkyeDirectory} {store : Store} {pindex cindex : Nat} {state final : CallState}
    {calls : List SplitCall} (round : state.split.Round dir store pindex cindex)
    (executed : execute (callStep shahash servernum) state calls = some final)
    (ended : final.split.thread = .ended) : Ends dir store pindex cindex calls final.split := by
  induction calls generalizing state with
  | nil =>
    cases executed
    cases round with
    | making thread => cases thread.symm.trans ended
    | misplaced thread => cases thread.symm.trans ended
  | cons call rest ih =>
    obtain ⟨after, stepped, remaining⟩ := Option.bind_eq_some_iff.mp executed
    obtain ⟨split, moved, rfl⟩ := Option.map_eq_some_iff.mp stepped
    have move := splitCall_move moved
    cases round with
    | making thread sameDir sameStore =>
      subst sameDir sameStore
      rcases move.of_making thread with
        ⟨outcome, position, failure, rfl, rfl⟩ | ⟨position, absent, rfl, rfl⟩ | ⟨position, absent, rfl, rfl⟩
      · obtain ⟨rfl, rfl⟩ := execute_ended rfl remaining
        refine .gaveUp rfl rfl (by simp) fun position member => ?_
        cases List.mem_singleton.mp member
        have present := failure.resolve_left (by simp)
        exact Option.isSome_iff_ne_none.mp present
      · refine Ends.cons (ih ?_ remaining) (by simp [SplitCall.Fails, absent]) (by simp)
        exact .misplaced rfl rfl absent rfl
      · obtain ⟨kept, late⟩ := execute_working rfl remaining
        have stays : (final.split.store.bucket cindex).isSome := by
          rw [Store.bucket_isSome, kept, ← Store.bucket_isSome]
          exact bucket_put_isSome
        refine .moved absent stays List.mem_cons_self (List.forall_mem_cons.mpr ⟨by simp [SplitCall.Fails, absent], ?_⟩)
        intro call member fails
        cases (late call member).symm.trans fails.early
    | misplaced thread sameDir absent made =>
      rcases move.of_misplaced thread with ⟨rfl, rfl⟩ | ⟨rfl, rfl⟩
      · refine Ends.cons (ih ?_ remaining) (by simp [SplitCall.Fails]) (by simp)
        exact .making rfl sameDir ((congrArg _ made).trans (Store.erase_put absent))
      · obtain ⟨rfl, rfl⟩ := execute_ended rfl remaining
        exact .leftOver absent (made ▸ bucket_put_isSome) (by simp)

theorem execute_agrees {state final : CallState} {calls : List SplitCall} (agrees : state.Agrees)
    (executed : execute (callStep shahash servernum) state calls = some final) : final.Agrees :=
  (reaches_of_execute executed).invariant agrees fun _ _ _ kept _ stepped => (callStep_lock kept stepped).1

/-- The calls of a split of `pindex` into a child that has no bucket yet take the entries away although
`PVFS_sys_getattr` failed, or leave the child's bucket on the wrong server. -/
def Harms (store : Store) (cindex : Nat) (calls : List SplitCall) : Prop :=
  .step (.dropChild false) ∈ calls ∨ .step (.begin_ false) ∈ calls ∧
    (∃ position, .step (.makeChild .inPlace position) ∈ calls) ∧ store.bucket cindex = none

theorem Ends.unchanged_iff {dir : SkyeDirectory} {store : Store} {pindex cindex : Nat} {calls : List SplitCall}
    {final : SplitState} {getattr : Bool} (ends : Ends dir store pindex cindex calls final)
    (found : (store.bucket pindex).isSome)
    (fails : ∃ call ∈ SplitCall.step (.begin_ getattr) :: calls, call.Fails store pindex cindex) :
    final.dir = dir ∧ final.store = store ↔ ¬ Harms store cindex (.step (.begin_ getattr) :: calls) := by
  cases ends with
  | gaveUp sameDir sameStore noDrop noMake =>
    refine iff_of_true ⟨sameDir, sameStore⟩ ?_
    rintro (dropped | ⟨-, ⟨position, made⟩, absent⟩)
    · exact noDrop (by simpa using dropped)
    · exact noMake position (by simpa using made) absent
  | leftOver absent present dropped =>
    refine iff_of_false (fun same => ?_) (not_not.mpr (.inl (List.mem_cons_of_mem _ dropped)))
    simp [same.2, absent] at present
  | moved absent present made none_fails =>
    have unanswered : getattr = false := by
      obtain ⟨call, member, failed⟩ := fails
      rcases List.mem_cons.mp member with rfl | member
      · exact failed.resolve_left (Option.isSome_iff_ne_none.mp found)
      · exact absurd failed (none_fails call member)
    subst unanswered
    refine iff_of_false (fun same => ?_) (not_not.mpr (.inr ⟨List.mem_cons_self, ⟨_, List.mem_cons_of_mem _ made⟩, absent⟩))
    simp [same.2, absent] at present

/-- A split in which a call before the move phase fails leaves everything as it was, if and only if no removal of a
misplaced bucket fails and no bucket is made after a failed `PVFS_sys_getattr`. -/
theorem failed_split_unchanged {start : SplitState} {final : CallState} {pindex cindex : Nat} {calls : List SplitCall}
    (begun : start.thread = .start pindex) (child : gigaIndexForSplitting start.dir.mapping pindex = some cindex)
    (executed : execute (callStep shahash servernum) ⟨start, freeLock⟩ calls = some final)
    (ended : final.split.thread = .ended) (fails : ∃ call ∈ calls, call.Fails start.store pindex cindex) :
    (final.split.dir = start.dir ∧ final.split.store = start.store) ∧ final.log.held = false ↔
      ¬ Harms start.store cindex calls := by
  have agrees : CallState.Agrees ⟨start, freeLock⟩ := by rw [CallState.Agrees, begun]; rfl
  have released : final.log.held = false := by
    rw [execute_agrees agrees executed, ended]
    rfl
  rw [and_iff_left released]
  cases calls with
  | nil =>
    cases executed
    cases begun.symm.trans ended
  | cons call rest =>
    obtain ⟨after, stepped, remaining⟩ := Option.bind_eq_some_iff.mp executed
    obtain ⟨split, moved, rfl⟩ := Option.map_eq_some_iff.mp stepped
    cases splitCall_move moved with
    | noDirectory | lookupFails =>
      obtain ⟨rfl, rfl⟩ := execute_ended rfl remaining
      exact iff_of_true ⟨rfl, rfl⟩ (by simp [Harms])
    | emptyPage thread | page thread => cases thread.symm.trans begun
    | step own other move =>
      cases move with
      | decline =>
        obtain ⟨rfl, rfl⟩ := execute_ended rfl remaining
        exact iff_of_true ⟨rfl, rfl⟩ (by simp [Harms])
      | begin_ thread _ chosen found =>
        cases thread.symm.trans begun
        cases chosen.symm.trans child
        exact (ends_of_round (.making rfl rfl rfl) remaining ended).unchanged_iff found fails
      | answer request => cases own.symm.trans request
      | bind _ binds => cases own.symm.trans binds.request
      | removeLookup | removeFailed | removeEntry | takeAway => cases own
      | _ thread => cases thread.symm.trans begun

end

/-- The first bucket is on the wrong server and removed, and the second `PVFS_sys_mkdir` fails. -/
def cleanedCalls : List SplitCall :=
  [.step (.begin_ false), .step (.makeChild .misplaced 1), .step (.dropChild true), .step (.makeChild .failed 1)]

theorem cleaned_calls_unchanged :
    ∃ final, execute (callStep (flatDigest 0#8) 0) ⟨lonelyStart, freeLock⟩ cleanedCalls = some final ∧
      final.split.dir = lonelyStart.dir ∧ final.split.store = lonelyStart.store ∧ final.log.held = false := by
  have ends : (execute (callStep (flatDigest 0#8) 0) ⟨lonelyStart, freeLock⟩ cleanedCalls).map (·.split.thread) =
      some .ended := by decide +kernel
  have child : gigaIndexForSplitting lonelyStart.dir.mapping 0 = some 1 := by decide +kernel
  obtain ⟨final, executed, ended⟩ := Option.map_eq_some_iff.mp ends
  have fails : ∃ call ∈ cleanedCalls, call.Fails lonelyStart.store 0 1 :=
    ⟨.step (.begin_ false), by simp [cleanedCalls], .inr rfl⟩
  have harmless : ¬ Harms lonelyStart.store 1 cleanedCalls := by simp [Harms, cleanedCalls]
  obtain ⟨⟨sameDir, sameStore⟩, released⟩ := (failed_split_unchanged rfl child executed ended fails).mpr harmless
  exact ⟨final, executed, sameDir, sameStore, released⟩

/-- A bucket with one file is split because its size cannot be read, and a bucket on the wrong server stays behind
because it cannot be removed. -/
theorem failed_calls_take_effect :
    (∃ final, execute (callStep (flatDigest 0#8) 0) ⟨lonelyStart, freeLock⟩ idleCalls = some final ∧
      final.split.thread = .ended ∧ getBitStatus final.split.dir.mapping.bitmap 1 = true ∧
      (final.split.store.bucket 1).isSome) ∧
    (∃ final, execute (callStep (flatDigest 0#8) 0) ⟨lonelyStart, freeLock⟩
        [.step (.begin_ false), .step (.makeChild .misplaced 1), .step (.dropChild false)] = some final ∧
      final.split.thread = .ended ∧ (final.split.store.bucket 1).isSome) ∧
    getBitStatus lonelyStart.dir.mapping.bitmap 1 = false ∧ lonelyStart.store.bucket 1 = none := by
  have split : (execute (callStep (flatDigest 0#8) 0) ⟨lonelyStart, freeLock⟩ idleCalls).map (fun final =>
      (final.split.thread, getBitStatus final.split.dir.mapping.bitmap 1, (final.split.store.bucket 1).isSome)) =
        some (.ended, true, true) := by decide +kernel
  have left : (execute (callStep (flatDigest 0#8) 0) ⟨lonelyStart, freeLock⟩
      [.step (.begin_ false), .step (.makeChild .misplaced 1), .step (.dropChild false)]).map (fun final =>
        (final.split.thread, (final.split.store.bucket 1).isSome)) = some (.ended, true) := by decide +kernel
  obtain ⟨first, firstRun, firstSeen⟩ := Option.map_eq_some_iff.mp split
  obtain ⟨second, secondRun, secondSeen⟩ := Option.map_eq_some_iff.mp left
  simp only [Prod.mk.injEq] at firstSeen secondSeen
  exact ⟨⟨first, firstRun, firstSeen⟩, ⟨second, secondRun, secondSeen⟩, by decide +kernel,
    bucket_unsplitStart (by decide)⟩

end SkyeFS.Server
