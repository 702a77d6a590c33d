import SkyeFS.Cluster.Queue

/-! The queue mutex and the condition variable between the handlers and the split thread.

`split_thread` takes the mutex and waits before it looks at the queue for the first
time. A handler in `perform_split` holds the mutex while it compares, appends and
signals. A signal that finds no waiter is lost.
-/

set_option autoImplicit false

namespace SkyeFS.Cluster

open Foundation

inductive Worker (Task : Type) where
  -- Before its `pthread_mutex_lock`, or not created yet.
  | starting
  -- With the mutex, before the first `pthread_cond_wait`.
  | first
  -- Blocked in `pthread_cond_wait`, with no signal pending.
  | waiting
  -- Signalled, and about to take the mutex again.
  | woken
  -- With the mutex, at the test of the queue.
  | testing
  -- In `do_split`, without the mutex.
  | splitting (task : Task)
deriving DecidableEq

inductive Caller (Task : Type) where
  | away
  -- With the mutex, before the last task is compared.
  | entered (task : Task)
  -- Before the signal.
  | appended
  -- Before the unlock.
  | leaving
deriving DecidableEq

inductive Holder where
  | worker
  | caller (id : Nat)
deriving DecidableEq

structure WakeState (Task : Type) where
  queue : List Task
  mutex : Option Holder
  worker : Worker Task
  callers : Nat → Caller Task

inductive WakeEvent (Task : Type) where
  | workerLock
  | wait
  -- `pthread_cond_wait` may return without a signal.
  | wakeUp
  | resume
  -- `DL_DELETE` and the unlock before `do_split`.
  | take
  | splitDone
  | enter (id : Nat) (task : Task)
  -- The task repeats the last one in the queue.
  | leaveRepeated (id : Nat)
  | append (id : Nat)
  -- `malloc` fails, and the return leaves the mutex locked.
  | outOfMemory (id : Nat)
  | signal (id : Nat)
  | leave (id : Nat)

section
variable {Task : Type}

def WakeState.setCaller (state : WakeState Task) (id : Nat) (caller : Caller Task) : WakeState Task :=
  { state with callers := Function.update state.callers id caller }

/-- A signal reaches the split thread only while it waits. -/
def Worker.signalled : Worker Task → Worker Task
  | .waiting => .woken
  | worker => worker

variable [DecidableEq Task] in
def wakeStep (state : WakeState Task) : WakeEvent Task → Option (WakeState Task)
  | .workerLock =>
      if state.worker = .starting ∧ state.mutex = none then
        some { state with worker := .first, mutex := some .worker }
      else none
  | .wait =>
      match state.worker, state.queue with
      -- the first call does not look at the queue
      | .first, _ | .testing, [] => some { state with worker := .waiting, mutex := none }
      | _, _ => none
  | .wakeUp => if state.worker = .waiting then some { state with worker := .woken } else none
  | .resume =>
      if state.worker = .woken ∧ state.mutex = none then
        some { state with worker := .testing, mutex := some .worker }
      else none
  | .take =>
      match state.worker, state.queue with
      | .testing, task :: rest => some { state with worker := .splitting task, queue := rest, mutex := none }
      | _, _ => none
  | .splitDone =>
      match state.worker, state.mutex with
      | .splitting _, none => some { state with worker := .testing, mutex := some .worker }
      | _, _ => none
  | .enter id task =>
      if state.callers id = .away ∧ state.mutex = none then
        some ({ state with mutex := some (.caller id) }.setCaller id (.entered task))
      else none
  | .leaveRepeated id =>
      match state.callers id with
      | .entered task =>
          if state.queue.getLast? = some task then some ({ state with mutex := none }.setCaller id .away) else none
      | _ => none
  | .append id =>
      match state.callers id with
      | .entered task =>
          if state.queue.getLast? = some task then none
          else some ({ state with queue := state.queue ++ [task] }.setCaller id .appended)
      | _ => none
  | .outOfMemory id =>
      match state.callers id with
      | .entered task => if state.queue.getLast? = some task then none else some (state.setCaller id .away)
      | _ => none
  | .signal id =>
      if state.callers id = .appended then
        some ({ state with worker := state.worker.signalled }.setCaller id .leaving)
      else none
  | .leave id =>
      if state.callers id = .leaving then some ({ state with mutex := none }.setCaller id .away) else none

/-- Nobody will run the tasks in the queue: the split thread waits, and no signal is on its way. -/
def WakeState.Stuck (state : WakeState Task) : Prop :=
  state.mutex = none ∧ state.queue ≠ [] ∧ state.worker = .waiting

instance [DecidableEq Task] (state : WakeState Task) : Decidable state.Stuck :=
  inferInstanceAs (Decidable (_ ∧ _ ∧ _))

/-- The split thread waits for the first time while the queue is empty. -/
def FirstWaitEmpty (state : WakeState Task) : WakeEvent Task → Prop
  | .wait => state.worker = .first → state.queue = []
  | _ => True

def wakeStart : WakeState Task where
  queue := []
  mutex := none
  worker := .starting
  callers _ := .away

/-! ### Who holds the mutex -/

/-- The mutex is held by whoever stands inside its critical section. -/
structure WakeState.Exclusive (state : WakeState Task) : Prop where
  caller : ∀ id, state.callers id ≠ .away → state.mutex = some (.caller id)
  worker : state.worker = .first ∨ state.worker = .testing → state.mutex = some .worker

theorem exclusive_wakeStart : (wakeStart : WakeState Task).Exclusive :=
  ⟨fun _ inside => absurd rfl inside, by simp [wakeStart]⟩

theorem WakeState.Exclusive.unique {state : WakeState Task} (exclusive : state.Exclusive) {id other : Nat}
    (inside : state.callers id ≠ .away) (otherInside : state.callers other ≠ .away) : other = id := by
  have same := (exclusive.caller other otherInside).symm.trans (exclusive.caller id inside)
  exact Holder.caller.inj (Option.some.inj same)

theorem WakeState.Exclusive.setCaller {state after : WakeState Task} {id : Nat} {caller : Caller Task}
    (exclusive : state.Exclusive) (inside : state.callers id ≠ .away)
    (callers : after.callers = Function.update state.callers id caller)
    (worker : after.worker = .first ∨ after.worker = .testing → state.worker = .first ∨ state.worker = .testing)
    (mutex : caller ≠ .away → after.mutex = state.mutex) : after.Exclusive := by
  have held := exclusive.caller id inside
  constructor
  · intro other otherInside
    rw [callers, Function.update_apply] at otherInside
    split at otherInside
    case isTrue same => rw [mutex otherInside, held, same]
    case isFalse different => exact absurd (exclusive.unique inside otherInside) different
  · intro busy
    have impossible := (exclusive.worker (worker busy)).symm.trans held
    cases impossible

theorem Worker.of_signalled {worker : Worker Task} (busy : worker.signalled = .first ∨ worker.signalled = .testing) :
    worker = .first ∨ worker = .testing := by
  cases worker <;> simp_all [Worker.signalled]

theorem Worker.signalled_ne_waiting (worker : Worker Task) : worker.signalled ≠ .waiting := by
  cases worker <;> simp [Worker.signalled]

theorem WakeState.Exclusive.setWorker {state after : WakeState Task} (exclusive : state.Exclusive)
    (outside : state.mutex = none ∨ state.mutex = some .worker) (callers : after.callers = state.callers)
    (mutex : after.worker = .first ∨ after.worker = .testing → after.mutex = some .worker) : after.Exclusive := by
  refine ⟨fun id inside => ?_, mutex⟩
  have held := exclusive.caller id (callers ▸ inside)
  rcases outside with free | worker
  · cases free.symm.trans held
  · cases worker.symm.trans held

/-! ### Signals -/

/-- While the split thread waits, the queue is empty or the caller that filled it has yet to signal. -/
structure WakeState.Answered (state : WakeState Task) : Prop where
  waiting : state.worker = .waiting → state.queue = [] ∨ ∃ id, state.callers id = .appended
  leaving : ∀ id, state.callers id = .leaving → state.worker ≠ .waiting

theorem WakeState.Answered.not_stuck {state : WakeState Task} (answered : state.Answered)
    (exclusive : state.Exclusive) : ¬ state.Stuck := by
  rintro ⟨free, tasks, waiting⟩
  rcases answered.waiting waiting with empty | ⟨id, appended⟩
  · exact tasks empty
  · cases free.symm.trans (exclusive.caller id (by simp [appended]))

theorem WakeState.Answered.of_not_waiting {state : WakeState Task} (busy : state.worker ≠ .waiting) :
    state.Answered :=
  ⟨fun waiting => absurd waiting busy, fun _ _ => busy⟩

theorem WakeState.Answered.setCaller {state after : WakeState Task} (answered : state.Answered) {id : Nat}
    {caller : Caller Task} (callers : after.callers = Function.update state.callers id caller)
    (worker : after.worker = state.worker) (queue : after.queue = state.queue)
    (silent : state.callers id ≠ .appended) (moves : caller ≠ .leaving) : after.Answered := by
  constructor
  · intro waiting
    rcases answered.waiting (worker ▸ waiting) with empty | ⟨other, appended⟩
    · exact .inl (queue.trans empty)
    · have different : other ≠ id := fun same => silent (same ▸ appended)
      exact .inr ⟨other, by rw [callers, Function.update_of_ne different, appended]⟩
  · intro other leaving
    rw [callers, Function.update_apply] at leaving
    rw [worker]
    split at leaving
    · exact absurd leaving moves
    · exact answered.leaving other leaving

/-! ### Steps and runs -/

variable [DecidableEq Task]

theorem wakeStep_leaveRepeated {state after : WakeState Task} {id : Nat}
    (stepped : wakeStep state (.leaveRepeated id) = some after) :
    ∃ task, state.callers id = .entered task ∧ state.queue.getLast? = some task ∧
      { state with mutex := none }.setCaller id .away = after := by
  simp only [wakeStep] at stepped
  split at stepped
  case h_1 task entered =>
    obtain ⟨repeated, same⟩ := Option.ite_none_right_eq_some.mp stepped
    exact ⟨task, entered, repeated, Option.some.inj same⟩
  case h_2 => cases stepped

theorem wakeStep_append {state after : WakeState Task} {id : Nat}
    (stepped : wakeStep state (.append id) = some after) :
    ∃ task, state.callers id = .entered task ∧
      { state with queue := state.queue ++ [task] }.setCaller id .appended = after := by
  simp only [wakeStep] at stepped
  split at stepped
  case h_1 task entered =>
    obtain ⟨_, same⟩ := Option.ite_none_left_eq_some.mp stepped
    exact ⟨task, entered, Option.some.inj same⟩
  case h_2 => cases stepped

theorem wakeStep_outOfMemory {state after : WakeState Task} {id : Nat}
    (stepped : wakeStep state (.outOfMemory id) = some after) :
    ∃ task, state.callers id = .entered task ∧ state.setCaller id .away = after := by
  simp only [wakeStep] at stepped
  split at stepped
  case h_1 task entered =>
    obtain ⟨_, same⟩ := Option.ite_none_left_eq_some.mp stepped
    exact ⟨task, entered, Option.some.inj same⟩
  case h_2 => cases stepped

theorem WakeState.Exclusive.step {state after : WakeState Task} {event : WakeEvent Task}
    (exclusive : state.Exclusive) (stepped : wakeStep state event = some after) : after.Exclusive := by
  cases event with
  | workerLock | resume =>
    obtain ⟨⟨_, free⟩, ⟨⟩⟩ := Option.ite_none_right_eq_some.mp stepped
    exact exclusive.setWorker (.inl free) rfl fun _ => rfl
  | wait | take =>
    simp only [wakeStep] at stepped
    split at stepped
    all_goals cases stepped
    all_goals exact exclusive.setWorker (.inr (exclusive.worker (by simp [*]))) rfl (by simp)
  | wakeUp =>
    obtain ⟨waiting, ⟨⟩⟩ := Option.ite_none_right_eq_some.mp stepped
    exact ⟨exclusive.caller, by simp⟩
  | splitDone =>
    simp only [wakeStep] at stepped
    split at stepped
    case h_1 free =>
      cases stepped
      exact exclusive.setWorker (.inl free) rfl fun _ => rfl
    case h_2 => cases stepped
  | enter id task =>
    obtain ⟨⟨_, free⟩, ⟨⟩⟩ := Option.ite_none_right_eq_some.mp stepped
    constructor
    · intro other inside
      by_cases same : other = id
      · rw [same]; rfl
      · have held := exclusive.caller other (by simpa [WakeState.setCaller, same] using inside)
        cases free.symm.trans held
    · intro busy
      cases free.symm.trans (exclusive.worker busy)
  | leaveRepeated id =>
    obtain ⟨task, entered, _, rfl⟩ := wakeStep_leaveRepeated stepped
    exact exclusive.setCaller (by simp [entered]) rfl (fun busy => busy) fun inside => absurd rfl inside
  | append id =>
    obtain ⟨task, entered, rfl⟩ := wakeStep_append stepped
    exact exclusive.setCaller (by simp [entered]) rfl (fun busy => busy) fun _ => rfl
  | outOfMemory id =>
    obtain ⟨task, entered, rfl⟩ := wakeStep_outOfMemory stepped
    exact exclusive.setCaller (by simp [entered]) rfl (fun busy => busy) fun _ => rfl
  | signal id =>
    obtain ⟨appended, ⟨⟩⟩ := Option.ite_none_right_eq_some.mp stepped
    exact exclusive.setCaller (by simp [appended]) rfl Worker.of_signalled fun _ => rfl
  | leave id =>
    obtain ⟨leaving, ⟨⟩⟩ := Option.ite_none_right_eq_some.mp stepped
    exact exclusive.setCaller (by simp [leaving]) rfl (fun busy => busy) fun inside => absurd rfl inside

theorem WakeState.Answered.step {state after : WakeState Task} {event : WakeEvent Task}
    (answered : state.Answered) (exclusive : state.Exclusive) (punctual : FirstWaitEmpty state event)
    (stepped : wakeStep state event = some after) : after.Answered := by
  cases event with
  | workerLock | wakeUp | resume =>
    obtain ⟨_, ⟨⟩⟩ := Option.ite_none_right_eq_some.mp stepped
    exact .of_not_waiting (by simp)
  | take | splitDone =>
    simp only [wakeStep] at stepped
    split at stepped
    all_goals cases stepped
    exact .of_not_waiting (by simp)
  | wait =>
    -- the split thread still holds the mutex, so no caller is about to leave
    have none_inside : ∀ id, state.worker = .first ∨ state.worker = .testing → state.callers id = .away := by
      intro id busy
      by_contra inside
      cases (exclusive.worker busy).symm.trans (exclusive.caller id inside)
    simp only [wakeStep] at stepped
    split at stepped
    case h_1 first =>
      cases stepped
      exact ⟨fun _ => .inl (punctual first), fun id leaving => by simp_all⟩
    case h_2 testing empty =>
      cases stepped
      exact ⟨fun _ => .inl empty, fun id leaving => by simp_all⟩
    case h_3 => cases stepped
  | enter id task =>
    obtain ⟨⟨away, _⟩, ⟨⟩⟩ := Option.ite_none_right_eq_some.mp stepped
    exact answered.setCaller rfl rfl rfl (by simp [away]) (by simp)
  | leaveRepeated id =>
    obtain ⟨task, entered, _, rfl⟩ := wakeStep_leaveRepeated stepped
    exact answered.setCaller rfl rfl rfl (by simp [entered]) (by simp)
  | append id =>
    obtain ⟨task, entered, rfl⟩ := wakeStep_append stepped
    refine ⟨fun _ => .inr ⟨id, by simp [WakeState.setCaller]⟩, fun other leaving => ?_⟩
    have different : other ≠ id := by
      rintro rfl
      simp [WakeState.setCaller] at leaving
    exact answered.leaving other (by simpa [WakeState.setCaller, different] using leaving)
  | outOfMemory id =>
    obtain ⟨task, entered, rfl⟩ := wakeStep_outOfMemory stepped
    exact answered.setCaller rfl rfl rfl (by simp [entered]) (by simp)
  | signal id =>
    obtain ⟨_, ⟨⟩⟩ := Option.ite_none_right_eq_some.mp stepped
    exact .of_not_waiting state.worker.signalled_ne_waiting
  | leave id =>
    obtain ⟨leaving, ⟨⟩⟩ := Option.ite_none_right_eq_some.mp stepped
    exact answered.setCaller rfl rfl rfl (by simp [leaving]) (by simp)

/-- A caller that finds the mutex free and gets its memory leaves the queue of `performSplit`. -/
theorem execute_performSplit {Handle : Type} [DecidableEq Handle] {state : WakeState (SplitTask Handle)} {id : Nat}
    {task : SplitTask Handle} (free : state.mutex = none) (away : state.callers id = .away) :
    ∃ events, (execute wakeStep state (.enter id task :: events)).map (fun after => (after.mutex, after.queue)) =
      some (none, performSplit state.queue task) := by
  by_cases repeated : state.queue.getLast? = some task
  · refine ⟨[.leaveRepeated id], ?_⟩
    simp [execute, wakeStep, WakeState.setCaller, performSplit, free, away, repeated]
  · refine ⟨[.append id, .signal id, .leave id], ?_⟩
    simp [execute, wakeStep, WakeState.setCaller, performSplit, free, away, repeated]

theorem stuck_of_first_wait {state : WakeState Task} {event : WakeEvent Task} (late : ¬ FirstWaitEmpty state event) :
    ∃ after, wakeStep state event = some after ∧ ¬ ¬ after.Stuck := by
  cases event with
  | wait =>
    obtain ⟨first, tasks⟩ := Classical.not_imp.mp late
    refine ⟨{ state with worker := .waiting, mutex := none }, ?_, not_not.mpr ⟨rfl, tasks, rfl⟩⟩
    simp [wakeStep, first]
  | _ => exact absurd trivial late

/-- No wake-up is lost along exactly the runs in which no task is queued before the split thread first waits. -/
theorem no_lost_wakeup (events : List (WakeEvent Task)) :
    Always wakeStep (fun state => ¬ state.Stuck) wakeStart events ↔ Meets wakeStep FirstWaitEmpty wakeStart events := by
  constructor
  · exact Always.meets fun _ _ late => stuck_of_first_wait late
  · have preserved : ∀ (before : WakeState Task) event after, before.Exclusive ∧ before.Answered →
        FirstWaitEmpty before event → wakeStep before event = some after → after.Exclusive ∧ after.Answered := by
      rintro before event after ⟨exclusive, answered⟩ punctual stepped
      exact ⟨exclusive.step stepped, answered.step exclusive punctual stepped⟩
    exact Meets.always preserved (fun _ both => both.2.not_stuck both.1)
      ⟨exclusive_wakeStart, .of_not_waiting (by simp [wakeStart])⟩

/-- A create comes in after the socket is open and before the split thread waits. -/
def earlyCreate : List (WakeEvent (SplitTask Nat)) :=
  [.enter 0 ⟨1, 0⟩, .append 0, .signal 0, .leave 0, .workerLock, .wait]

/-- The signal of the early create is lost, and a create that asks for the same split again does not signal. -/
theorem early_create_stuck :
    ∃ state, execute wakeStep wakeStart (earlyCreate ++ [.enter 1 ⟨1, 0⟩, .leaveRepeated 1]) = some state ∧
      state.Stuck := by
  refine ⟨_, rfl, ?_⟩
  decide +kernel

end

end SkyeFS.Cluster
