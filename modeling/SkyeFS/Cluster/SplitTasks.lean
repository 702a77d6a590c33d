import SkyeFS.Common.Utlist
import SkyeFS.Cluster.Wakeup
import SkyeFS.Wire.Helper

/-! The queue of server/split.c with its pointers.

The tasks are blocks of memory that `perform_split` allocates and `split_thread` frees, linked
by the macros of common/utlist.h. Each step of the split thread and of the handlers is a step
of Cluster/Wakeup, whose queue is a list. `none` is a step that cannot be taken, a null
pointer followed, or a freed block read or freed again.
-/

set_option autoImplicit false

namespace SkyeFS.Cluster

open Foundation Utlist Wire

/-- The pointer to the first task, the tasks in memory, and where the threads stand. -/
structure TaskState (Addr : Type) where
  queue : Option Addr
  links : Links Addr
  block : Addr → Option (SplitTask PvfsObjectRef)
  mutex : Option Holder
  worker : Worker Addr
  callers : Nat → Caller (SplitTask PvfsObjectRef)

inductive TaskEvent (Addr : Type) where
  | workerLock
  | wait
  | wakeUp
  | resume
  | take
  -- The lock after `do_split`, and the `free`.
  | splitDone
  | enter (id : Nat) (task : SplitTask PvfsObjectRef)
  | leaveRepeated (id : Nat)
  -- With the block that `malloc` returned.
  | append (id : Nat) (task : Addr)
  | outOfMemory (id : Nat)
  | signal (id : Nat)
  | leave (id : Nat)

/-- The two comparisons of `perform_split`. `sizeof(parent)` is the size of a pointer, which is that of the handle. -/
def sameTask (last task : SplitTask PvfsObjectRef) : Bool :=
  last.parent.handle = task.parent.handle ∧ last.pindex = task.pindex

section
variable {Addr : Type}

def TaskState.setCaller (state : TaskState Addr) (id : Nat) (caller : Caller (SplitTask PvfsObjectRef)) : TaskState Addr :=
  { state with callers := Function.update state.callers id caller }

def repeatsLast (state : TaskState Addr) (task : SplitTask PvfsObjectRef) : Option Bool :=
  match state.queue with
  | none => some false
  | some queue => do
      let _ ← state.block queue
      match state.links.prev queue with
      | none => some false
      | some last => (state.block last).map (sameTask · task)

variable [DecidableEq Addr] in
def taskStep (state : TaskState Addr) : TaskEvent Addr → Option (TaskState Addr)
  | .workerLock =>
      if state.worker = .starting ∧ state.mutex = none then
        some { state with worker := .first, mutex := some .worker }
      else none
  | .wait =>
      match state.worker, state.queue with
      | .first, _ | .testing, none => some { state with worker := .waiting, mutex := none }
      | _, _ => none
  | .wakeUp => if state.worker = .waiting then some { state with worker := .woken } else none
  | .resume =>
      if state.worker = .woken ∧ state.mutex = none then
        some { state with worker := .testing, mutex := some .worker }
      else none
  | .take =>
      match state.worker, state.queue with
      | .testing, some task => do
          let _ ← state.block task
          let (links, queue) ← dlDelete state.links state.queue task
          some { state with links, queue, worker := .splitting task, mutex := none }
      | _, _ => none
  | .splitDone =>
      match state.worker, state.mutex with
      | .splitting task, none => do
          let _ ← state.block task
          some { state with
            block := Function.update state.block task none, worker := .testing, mutex := some .worker }
      | _, _ => none
  | .enter id task =>
      if state.callers id = .away ∧ state.mutex = none then
        some ({ state with mutex := some (.caller id) }.setCaller id (.entered task))
      else none
  | .leaveRepeated id =>
      match state.callers id with
      | .entered task => do
          let repeated ← repeatsLast state task
          if repeated then some ({ state with mutex := none }.setCaller id .away) else none
      | _ => none
  | .append id task =>
      match state.callers id with
      | .entered asked => do
          let repeated ← repeatsLast state asked
          -- `malloc` returns a block that is not in use
          if repeated ∨ state.block task ≠ none then none
          else do
            let (links, queue) ← dlAppend state.links state.queue task
            some ({ state with
              links, queue, block := Function.update state.block task (some asked) }.setCaller id .appended)
      | _ => none
  | .outOfMemory id =>
      match state.callers id with
      | .entered task => do
          let repeated ← repeatsLast state task
          if repeated then none else some (state.setCaller id .away)
      | _ => none
  | .signal id =>
      if state.callers id = .appended then
        some ({ state with worker := state.worker.signalled }.setCaller id .leaving)
      else none
  | .leave id =>
      if state.callers id = .leaving then some ({ state with mutex := none }.setCaller id .away) else none

def taskStart (links : Links Addr) : TaskState Addr where
  queue := none
  links := links
  block _ := none
  mutex := none
  worker := .starting
  callers _ := .away

/-! ### The list that the pointers stand for -/

/-- What a task asks for; the comparison looks at no more of it. -/
def SplitTask.asked (task : SplitTask PvfsObjectRef) : SplitTask UInt64 := ⟨task.parent.handle, task.pindex⟩

def TaskEvent.asked : TaskEvent Addr → WakeEvent (SplitTask UInt64)
  | .workerLock => .workerLock
  | .wait => .wait
  | .wakeUp => .wakeUp
  | .resume => .resume
  | .take => .take
  | .splitDone => .splitDone
  | .enter id task => .enter id task.asked
  | .leaveRepeated id => .leaveRepeated id
  | .append id _ => .append id
  | .outOfMemory id => .outOfMemory id
  | .signal id => .signal id
  | .leave id => .leave id

def Caller.asked : Caller (SplitTask PvfsObjectRef) → Caller (SplitTask UInt64)
  | .away => .away
  | .entered task => .entered task.asked
  | .appended => .appended
  | .leaving => .leaving

/-- Where the split thread stands, with the task behind its pointer; `none` if that is freed. -/
def Worker.read (block : Addr → Option (SplitTask PvfsObjectRef)) : Worker Addr → Option (Worker (SplitTask UInt64))
  | .starting => some .starting
  | .first => some .first
  | .waiting => some .waiting
  | .woken => some .woken
  | .testing => some .testing
  | .splitting task => (block task).map fun task => .splitting task.asked

/-- The blocks in use are those of the queue and the one that the split thread works on. -/
structure Represents (state : TaskState Addr) (listed : WakeState (SplitTask UInt64)) (cells : List Addr) : Prop where
  head : state.queue = cells.head?
  ring : Ring state.links cells
  distinct : cells.Nodup
  tasks : cells.map (fun cell => (state.block cell).map SplitTask.asked) = listed.queue.map some
  mutex : state.mutex = listed.mutex
  worker : state.worker.read state.block = some listed.worker
  callers : ∀ id, listed.callers id = (state.callers id).asked
  used : ∀ address, state.block address ≠ none ↔ address ∈ cells ∨ state.worker = .splitting address
  taken : ∀ address, state.worker = .splitting address → address ∉ cells

/-- Both steps can be taken or neither, and then the pointers stand for the list again. -/
def Matches (one : Option (TaskState Addr)) (two : Option (WakeState (SplitTask UInt64))) : Prop :=
  Option.Rel (fun state listed => ∃ cells, Represents state listed cells) one two

theorem sameTask_eq (last task : SplitTask PvfsObjectRef) : sameTask last task = decide (last.asked = task.asked) := by
  simp [sameTask, SplitTask.asked]

section
variable {state : TaskState Addr} {listed : WakeState (SplitTask UInt64)} {cells : List Addr}

theorem represents_start (links : Links Addr) : Represents (taskStart links) wakeStart [] where
  head := rfl
  ring := trivial
  distinct := .nil
  tasks := rfl
  mutex := rfl
  worker := rfl
  callers _ := rfl
  used := by simp [taskStart]
  taken := by simp [taskStart]

theorem Represents.setCaller (represents : Represents state listed cells) (id : Nat)
    (caller : Caller (SplitTask PvfsObjectRef)) :
    Represents (state.setCaller id caller) (listed.setCaller id caller.asked) cells := by
  refine { represents with callers := ?_ }
  intro other
  by_cases same : other = id
  · subst same
    simp [TaskState.setCaller, WakeState.setCaller]
  · simp [TaskState.setCaller, WakeState.setCaller, same, represents.callers]

theorem Represents.setMutex (represents : Represents state listed cells) (mutex : Option Holder) :
    Represents { state with mutex } { listed with mutex } cells :=
  { represents with mutex := rfl }

theorem Represents.setWorker (represents : Represents state listed cells) (worker : Worker Addr)
    (other : Worker (SplitTask UInt64)) (mutex : Option Holder) (read : worker.read state.block = some other)
    (same : ∀ address, worker = .splitting address ↔ state.worker = .splitting address) :
    Represents { state with worker, mutex } { listed with worker := other, mutex } cells where
  head := represents.head
  ring := represents.ring
  distinct := represents.distinct
  tasks := represents.tasks
  mutex := rfl
  worker := read
  callers := represents.callers
  used address := (represents.used address).trans (or_congr_right (same address).symm)
  taken address splitting := represents.taken address ((same address).mp splitting)

theorem Represents.repeatsLast (represents : Represents state listed cells) (task : SplitTask PvfsObjectRef) :
    repeatsLast state task = some (decide (listed.queue.getLast? = some task.asked)) := by
  -- The task at the tail of the queue is the last one of the list.
  have tasks := represents.tasks
  rw [Cluster.repeatsLast, represents.head]
  cases cells with
  | nil =>
    have empty : listed.queue = [] := List.map_eq_nil_iff.mp tasks.symm
    rw [empty]
    rfl
  | cons head rest =>
    obtain ⟨last, atLast⟩ : ∃ last, (head :: rest).getLast? = some last :=
      ⟨_, List.getLast?_eq_some_getLast (List.cons_ne_nil head rest)⟩
    obtain ⟨first, atHead⟩ := Option.ne_none_iff_exists'.mp ((represents.used head).mpr (.inl List.mem_cons_self))
    have final := congrArg List.getLast? tasks
    rw [List.getLast?_map, List.getLast?_map, atLast, Option.map_some] at final
    obtain ⟨asked, ends, read⟩ := Option.map_eq_some_iff.mp final.symm
    obtain ⟨stored, inBlock, rfl⟩ := Option.map_eq_some_iff.mp read.symm
    have before : state.links.prev head = some last := represents.ring.1.trans atLast
    simp only [List.head?_cons, atHead, before, inBlock, Option.bind_eq_bind, Option.bind_some, Option.map_some, ends,
      sameTask_eq, Option.some.injEq]

theorem Worker.read_place {block : Addr → Option (SplitTask PvfsObjectRef)} {worker : Worker Addr}
    {other : Worker (SplitTask UInt64)} (read : worker.read block = some other) :
    (worker = .starting ↔ other = .starting) ∧ (worker = .first ↔ other = .first) ∧
      (worker = .waiting ↔ other = .waiting) ∧ (worker = .woken ↔ other = .woken) ∧
      (worker = .testing ↔ other = .testing) := by
  cases worker with
  | splitting task =>
    obtain ⟨stored, -, rfl⟩ := Option.map_eq_some_iff.mp read
    simp
  | _ =>
    cases read
    simp

theorem Worker.read_signalled {block : Addr → Option (SplitTask PvfsObjectRef)} {worker : Worker Addr}
    {other : Worker (SplitTask UInt64)} (read : worker.read block = some other) :
    worker.signalled.read block = some other.signalled := by
  cases worker with
  | splitting task =>
    obtain ⟨stored, inBlock, rfl⟩ := Option.map_eq_some_iff.mp read
    exact congrArg (Option.map _) inBlock
  | _ =>
    cases read
    rfl

theorem Caller.asked_place (caller : Caller (SplitTask PvfsObjectRef)) :
    (caller = .away ↔ caller.asked = .away) ∧ (caller = .appended ↔ caller.asked = .appended) ∧
      (caller = .leaving ↔ caller.asked = .leaving) := by
  cases caller <;> simp [Caller.asked]

variable [DecidableEq Addr]

theorem Represents.wait (represents : Represents state listed cells) :
    Matches (taskStep state .wait) (wakeStep listed .wait) := by
  have there := represents.worker
  cases worker : state.worker with
  | first =>
    rw [worker] at there
    simp only [taskStep, worker, wakeStep, ← Option.some.inj there]
    exact .some ⟨cells, represents.setWorker .waiting .waiting none rfl (by simp [worker])⟩
  | testing =>
    rw [worker] at there
    have tasks := represents.tasks
    cases cells with
    | nil =>
      have empty : listed.queue = [] := List.map_eq_nil_iff.mp tasks.symm
      simp only [taskStep, worker, represents.head, List.head?_nil, wakeStep, ← Option.some.inj there, empty]
      have moved := represents.setWorker .waiting .waiting none rfl (by simp [worker])
      exact .some ⟨[], { moved with head := rfl, tasks := rfl }⟩
    | cons task rest =>
      obtain ⟨asked, more, queued, -, -⟩ := List.map_eq_cons_iff.mp tasks.symm
      simp only [taskStep, worker, represents.head, List.head?_cons, wakeStep, ← Option.some.inj there, queued]
      exact .none
  | splitting task =>
    rw [worker] at there
    obtain ⟨stored, -, same⟩ := Option.map_eq_some_iff.mp there
    simp only [taskStep, worker, wakeStep, ← same]
    exact .none
  | _ =>
    rw [worker] at there
    simp only [taskStep, worker, wakeStep, ← Option.some.inj there]
    exact .none

theorem Represents.takeTesting (represents : Represents state listed cells) (testing : state.worker = .testing) :
    Matches (taskStep state .take) (wakeStep listed .take) := by
  have same : listed.worker = .testing := (Worker.read_place represents.worker).2.2.2.2.mp testing
  have tasks := represents.tasks
  cases cells with
  | nil =>
    have empty : listed.queue = [] := List.map_eq_nil_iff.mp tasks.symm
    simp only [taskStep, testing, represents.head, List.head?_nil, wakeStep, same, empty]
    exact .none
  | cons task rest =>
    obtain ⟨asked, more, queued, read, others⟩ := List.map_eq_cons_iff.mp tasks.symm
    obtain ⟨stored, inBlock, rfl⟩ := Option.map_eq_some_iff.mp read.symm
    obtain ⟨fresh, distinct⟩ := List.nodup_cons.mp represents.distinct
    obtain ⟨links, deleted, ring⟩ := @Ring.delete _ _ _ [] rest task represents.ring represents.distinct
    rw [List.nil_append, ← represents.head] at deleted
    have pointer : state.queue = some task := represents.head
    simp only [taskStep, testing, wakeStep, same, queued]
    rw [pointer] at deleted ⊢
    simp only [inBlock, deleted, Option.bind_eq_bind, Option.bind_some]
    refine .some ⟨rest, rfl, ring, distinct, others.symm, rfl, ?_, represents.callers, ?_, ?_⟩
    · simp [Worker.read, inBlock]
    · intro address
      rw [represents.used, testing]
      simp [or_comm, eq_comm]
    · intro address splitting
      cases splitting
      exact fresh

theorem Represents.take (represents : Represents state listed cells) :
    Matches (taskStep state .take) (wakeStep listed .take) := by
  have there := represents.worker
  cases worker : state.worker with
  | testing => exact represents.takeTesting worker
  | splitting task =>
    rw [worker] at there
    obtain ⟨stored, -, same⟩ := Option.map_eq_some_iff.mp there
    simp only [taskStep, worker, wakeStep, ← same]
    exact .none
  | _ =>
    rw [worker] at there
    simp only [taskStep, worker, wakeStep, ← Option.some.inj there]
    exact .none

theorem Represents.splitDone (represents : Represents state listed cells) :
    Matches (taskStep state .splitDone) (wakeStep listed .splitDone) := by
  have there := represents.worker
  cases worker : state.worker with
  | splitting task =>
    rw [worker] at there
    obtain ⟨stored, inBlock, same⟩ := Option.map_eq_some_iff.mp there
    cases mutex : state.mutex with
    | some holder =>
      simp only [taskStep, worker, mutex, wakeStep, ← same, ← represents.mutex]
      exact .none
    | none =>
      simp only [taskStep, worker, mutex, wakeStep, ← same, ← represents.mutex, inBlock, Option.bind_eq_bind,
        Option.bind_some]
      have apart := represents.taken task worker
      refine .some ⟨cells, represents.head, represents.ring, represents.distinct, ?_, rfl, rfl, represents.callers, ?_, ?_⟩
      · rw [← represents.tasks]
        apply List.map_congr_left
        intro cell member
        have other : cell ≠ task := fun equal => apart (equal ▸ member)
        exact congrArg (Option.map _) (Function.update_of_ne other _ _)
      · intro address
        by_cases equal : address = task
        · subst equal
          simp [apart]
        · simp [equal, represents.used, worker, Ne.symm equal]
      · rintro address ⟨⟩
  | _ =>
    rw [worker] at there
    simp only [taskStep, worker, wakeStep, ← Option.some.inj there]
    exact .none

omit [DecidableEq Addr] in
theorem Worker.read_update [DecidableEq Addr] {block : Addr → Option (SplitTask PvfsObjectRef)} {worker : Worker Addr}
    {task : Addr} (other : worker ≠ .splitting task) (value : Option (SplitTask PvfsObjectRef)) :
    worker.read (Function.update block task value) = worker.read block := by
  cases worker with
  | splitting address =>
    have apart : address ≠ task := fun equal => other (congrArg Worker.splitting equal)
    exact congrArg (Option.map _) (Function.update_of_ne apart _ _)
  | _ => rfl

theorem Represents.append (represents : Represents state listed cells) {id : Nat} {task : Addr}
    (free : state.block task = none) :
    Matches (taskStep state (.append id task)) (wakeStep listed (.append id)) := by
  have entered := represents.callers id
  cases caller : state.callers id with
  | entered asked =>
    rw [caller] at entered
    have there : listed.callers id = .entered asked.asked := entered
    simp only [taskStep, caller, wakeStep, there, represents.repeatsLast, Option.bind_eq_bind, Option.bind_some, free]
    by_cases repeated : listed.queue.getLast? = some asked.asked
    · simp only [repeated, decide_true, true_or, if_true]
      exact .none
    · have unused : task ∉ cells := fun member => (represents.used task).mpr (.inl member) free
      have notTaken : state.worker ≠ .splitting task := fun taken => (represents.used task).mpr (.inr taken) free
      obtain ⟨links, appended, ring⟩ := represents.ring.append (List.nodup_cons.mpr ⟨unused, represents.distinct⟩)
      rw [← represents.head] at appended
      rw [if_neg (by simp [repeated]), if_neg repeated, appended]
      refine .some ⟨cells ++ [task], Represents.setCaller ?_ id .appended⟩
      refine ⟨rfl, ring, ?_, ?_, represents.mutex, ?_, represents.callers, ?_, ?_⟩
      · exact (List.perm_append_singleton task cells).nodup_iff.mpr (List.nodup_cons.mpr ⟨unused, represents.distinct⟩)
      · rw [List.map_append, List.map_append, ← represents.tasks]
        congr 1
        · apply List.map_congr_left
          intro cell member
          have other : cell ≠ task := fun equal => unused (equal ▸ member)
          exact congrArg (Option.map _) (Function.update_of_ne other _ _)
        · simp
      · exact (Worker.read_update notTaken _).trans represents.worker
      · intro address
        by_cases equal : address = task
        · simp [equal]
        · simp [equal, represents.used]
      · intro address splitting member
        rcases List.mem_append.mp member with old | new
        · exact represents.taken address splitting old
        · exact notTaken (List.mem_singleton.mp new ▸ splitting)
  | _ =>
    rw [caller] at entered
    simp only [taskStep, caller, wakeStep, entered, Caller.asked]
    exact .none

theorem Represents.step (represents : Represents state listed cells) (event : TaskEvent Addr)
    (free : ∀ id task, event = .append id task → state.block task = none) :
    Matches (taskStep state event) (wakeStep listed event.asked) := by
  obtain ⟨starting, first, waiting, woken, testing⟩ := Worker.read_place represents.worker
  have callers := represents.callers
  cases event with
  | workerLock =>
    apply rel_ite (and_congr starting (by rw [represents.mutex]))
    intro begun
    exact ⟨cells, represents.setWorker .first .first _ rfl (by simp [begun])⟩
  | wait => exact represents.wait
  | wakeUp =>
    apply rel_ite waiting
    intro blocked
    have moved := represents.setWorker .woken .woken state.mutex rfl (by simp [blocked])
    exact ⟨cells, { moved with mutex := represents.mutex }⟩
  | resume =>
    apply rel_ite (and_congr woken (by rw [represents.mutex]))
    intro signalled
    exact ⟨cells, represents.setWorker .testing .testing _ rfl (by simp [signalled])⟩
  | take => exact represents.take
  | splitDone => exact represents.splitDone
  | enter id task =>
    apply rel_ite (and_congr (by rw [callers]; exact (Caller.asked_place _).1) (by rw [represents.mutex]))
    intro _
    exact ⟨cells, (represents.setMutex _).setCaller id (.entered task)⟩
  | leaveRepeated id =>
    have entered := callers id
    cases caller : state.callers id with
    | entered task =>
      rw [caller, Caller.asked] at entered
      simp only [taskStep, TaskEvent.asked, caller, wakeStep, entered, represents.repeatsLast, Option.bind_eq_bind,
        Option.bind_some]
      apply rel_ite decide_eq_true_iff
      intro _
      exact ⟨cells, (represents.setMutex _).setCaller id .away⟩
    | _ =>
      rw [caller] at entered
      simp only [taskStep, TaskEvent.asked, caller, wakeStep, entered, Caller.asked]
      exact .none
  | append id task => exact represents.append (free id task rfl)
  | outOfMemory id =>
    have entered := callers id
    cases caller : state.callers id with
    | entered task =>
      rw [caller, Caller.asked] at entered
      simp only [taskStep, TaskEvent.asked, caller, wakeStep, entered, represents.repeatsLast, Option.bind_eq_bind,
        Option.bind_some]
      by_cases repeated : listed.queue.getLast? = some task.asked
      · simp only [repeated, decide_true, if_true]
        exact .none
      · simp only [repeated, decide_false, Bool.false_eq_true, if_false]
        exact .some ⟨cells, represents.setCaller id .away⟩
    | _ =>
      rw [caller] at entered
      simp only [taskStep, TaskEvent.asked, caller, wakeStep, entered, Caller.asked]
      exact .none
  | signal id =>
    apply rel_ite (by rw [callers]; exact (Caller.asked_place _).2.1)
    intro _
    refine ⟨cells, Represents.setCaller ?_ id .leaving⟩
    have moved := represents.setWorker state.worker.signalled listed.worker.signalled state.mutex
      (Worker.read_signalled represents.worker) (by cases state.worker <;> simp [Worker.signalled])
    exact { moved with mutex := represents.mutex }
  | leave id =>
    apply rel_ite (by rw [callers]; exact (Caller.asked_place _).2.2)
    intro _
    exact ⟨cells, (represents.setMutex _).setCaller id .away⟩

theorem free_of_append {after : TaskState Addr} {id : Nat} {task : Addr}
    (stepped : taskStep state (.append id task) = some after) : state.block task = none := by
  cases caller : state.callers id with
  | entered asked =>
    simp only [taskStep, caller, Option.bind_eq_bind] at stepped
    obtain ⟨repeated, -, stepped⟩ := Option.bind_eq_some_iff.mp stepped
    by_contra used
    rw [if_pos (.inr used)] at stepped
    cases stepped
  | _ =>
    simp only [taskStep, caller] at stepped
    cases stepped

theorem Represents.run {after : TaskState Addr} (represents : Represents state listed cells)
    {events : List (TaskEvent Addr)} (ran : execute taskStep state events = some after) :
    ∃ listedAfter cellsAfter, execute wakeStep listed (events.map TaskEvent.asked) = some listedAfter ∧
      Represents after listedAfter cellsAfter := by
  induction events generalizing state listed cells with
  | nil =>
    cases ran
    exact ⟨listed, cells, rfl, represents⟩
  | cons event rest ih =>
    obtain ⟨next, stepped, later⟩ := Option.bind_eq_some_iff.mp ran
    have both := represents.step event (by rintro id task rfl; exact free_of_append stepped)
    rw [stepped] at both
    obtain ⟨listedNext, matched, cellsNext, kept⟩ := rel_some_left both
    obtain ⟨listedAfter, cellsAfter, more, final⟩ := ih kept later
    refine ⟨listedAfter, cellsAfter, ?_, final⟩
    rw [List.map_cons, execute, matched]
    exact more

end

end

/-- The pointers of the split queue stand for a list all along: the blocks in use are the tasks of the queue and the
one being split, and no step that the list can take fails on a pointer. -/
theorem split_queue_refines {Addr : Type} [DecidableEq Addr] (links : Links Addr) {events : List (TaskEvent Addr)}
    {state : TaskState Addr} (ran : execute taskStep (taskStart links) events = some state) :
    ∃ listed cells, execute wakeStep wakeStart (events.map TaskEvent.asked) = some listed ∧
      Represents state listed cells ∧
      ∀ event, (∀ id task, event = .append id task → state.block task = none) →
        ((taskStep state event).isSome ↔ (wakeStep listed event.asked).isSome) := by
  obtain ⟨listed, cells, matched, represents⟩ := (represents_start links).run ran
  refine ⟨listed, cells, matched, represents, ?_⟩
  intro event free
  rw [rel_isSome (represents.step event free)]

/-- Two tasks are queued, the first is split and freed, and its block is used again. -/
def reusedBlock : List (TaskEvent Bool) :=
  [.workerLock, .wait, .enter 0 ⟨⟨7, 1⟩, 0⟩, .append 0 false, .signal 0, .leave 0, .enter 1 ⟨⟨7, 1⟩, 1⟩, .append 1 true,
    .signal 1, .leave 1, .resume, .take, .splitDone, .take, .enter 0 ⟨⟨8, 1⟩, 0⟩, .append 0 false]

theorem split_queue_refines_reused_block : ∃ state listed cells,
    execute taskStep (taskStart ⟨fun _ => none, fun _ => none⟩) reusedBlock = some state ∧
      Represents state listed cells ∧ listed.queue = [⟨8, 0⟩] ∧ state.worker = .splitting true := by
  obtain ⟨state, ran⟩ : ∃ state, execute taskStep (taskStart ⟨fun _ => none, fun _ => none⟩) reusedBlock = some state :=
    ⟨_, rfl⟩
  obtain ⟨listed, cells, matched, represents, -⟩ := split_queue_refines _ ran
  cases Option.some.inj (ran.symm.trans rfl)
  cases Option.some.inj (matched.symm.trans rfl)
  exact ⟨_, _, cells, ran, represents, rfl, rfl⟩

/-! ### When `malloc` fails -/

/-- The mutex belongs to a handler that has left, and nobody is at work under it. -/
structure WakeState.Abandoned {Task : Type} (state : WakeState Task) (id : Nat) : Prop where
  mutex : state.mutex = some (.caller id)
  callers : ∀ other, state.callers other = .away
  first : state.worker ≠ .first
  testing : state.worker ≠ .testing

section
variable {Task : Type} [DecidableEq Task] {state after : WakeState Task} {id : Nat}

theorem WakeState.Exclusive.abandoned (exclusive : state.Exclusive)
    (stepped : wakeStep state (.outOfMemory id) = some after) : after.Abandoned id := by
  obtain ⟨task, entered, rfl⟩ := wakeStep_outOfMemory stepped
  have mutex : state.mutex = some (.caller id) := exclusive.caller id (by simp [entered])
  refine ⟨mutex, ?_, ?_, ?_⟩
  · intro other
    by_cases same : other = id
    · simp [WakeState.setCaller, same]
    · simp only [WakeState.setCaller, Function.update_of_ne same]
      by_contra inside
      have held := (exclusive.caller other inside).symm.trans mutex
      cases held
      exact same rfl
  · intro first
    cases (exclusive.worker (.inl first)).symm.trans mutex
  · intro testing
    cases (exclusive.worker (.inr testing)).symm.trans mutex

theorem WakeState.Abandoned.step (abandoned : state.Abandoned id) {event : WakeEvent Task}
    (stepped : wakeStep state event = some after) :
    event = .wakeUp ∧ state.worker = .waiting ∧ after = { state with worker := .woken } := by
  -- All that is left to happen is a wait that ends without a signal.
  have held := abandoned.mutex
  have away := abandoned.callers
  cases event with
  | wakeUp =>
    obtain ⟨waiting, same⟩ := Option.ite_none_right_eq_some.mp stepped
    exact ⟨rfl, waiting, (Option.some.inj same).symm⟩
  | wait =>
    cases worker : state.worker with
    | first => exact absurd worker abandoned.first
    | testing => exact absurd worker abandoned.testing
    | _ => simp [wakeStep, worker] at stepped
  | take =>
    cases worker : state.worker with
    | testing => exact absurd worker abandoned.testing
    | _ => simp [wakeStep, worker] at stepped
  | splitDone => cases worker : state.worker <;> simp [wakeStep, worker, held] at stepped
  | _ => simp [wakeStep, held, away] at stepped

theorem WakeState.Abandoned.run (abandoned : state.Abandoned id) {events : List (WakeEvent Task)}
    (ran : execute wakeStep state events = some after) :
    after.Abandoned id ∧ after.queue = state.queue ∧ (events = [] ∨ events = [.wakeUp]) := by
  cases events with
  | nil =>
    cases ran
    exact ⟨abandoned, rfl, .inl rfl⟩
  | cons event rest =>
    obtain ⟨next, stepped, later⟩ := Option.bind_eq_some_iff.mp ran
    obtain ⟨rfl, -, rfl⟩ := abandoned.step stepped
    have still : ({ state with worker := .woken } : WakeState Task).Abandoned id :=
      ⟨abandoned.mutex, abandoned.callers, nofun, nofun⟩
    cases rest with
    | nil =>
      cases later
      exact ⟨still, rfl, .inr rfl⟩
    | cons event rest =>
      -- The split thread has been woken, so that a second step is none of its own.
      obtain ⟨_, again, -⟩ := Option.bind_eq_some_iff.mp later
      obtain ⟨-, waiting, -⟩ := still.step again
      cases waiting

end

/-- A `malloc` that fails in `perform_split` is the last thing that happens to the queue: no task is appended, taken or
freed after it, and no handler gets the mutex again. -/
theorem failed_malloc_stops_queue {Addr : Type} [DecidableEq Addr] (links : Links Addr)
    {before later : List (TaskEvent Addr)} {id : Nat} {failed state : TaskState Addr}
    (first : execute taskStep (taskStart links) (before ++ [.outOfMemory id]) = some failed)
    (ran : execute taskStep failed later = some state) :
    (later = [] ∨ later = [.wakeUp]) ∧ state.mutex = some (.caller id) ∧ (∀ other, state.callers other = .away) ∧
      state.queue = failed.queue ∧ state.block = failed.block := by
  obtain ⟨listedFailed, cells, listedFirst, represents⟩ := (represents_start links).run first
  obtain ⟨listed, cellsAfter, listedRan, final⟩ := represents.run ran
  rw [List.map_append, execute_append] at listedFirst
  obtain ⟨listedBefore, listedEarlier, listedStep⟩ := Option.bind_eq_some_iff.mp listedFirst
  obtain ⟨_, stepped, same⟩ := Option.bind_eq_some_iff.mp listedStep
  cases same
  have exclusive : listedBefore.Exclusive := Reaches.invariant exclusive_wakeStart
    (fun _ _ _ exclusive _ stepped => exclusive.step stepped) (reaches_of_execute listedEarlier)
  obtain ⟨abandoned, -, few⟩ := (exclusive.abandoned stepped).run listedRan
  have rest : later = [] ∨ later = [.wakeUp] := by
    rcases few with none | one
    · exact .inl (List.map_eq_nil_iff.mp none)
    · obtain ⟨event, rfl, same⟩ := List.map_eq_singleton_iff.mp one
      cases event <;> cases same
      exact .inr rfl
  refine ⟨rest, final.mutex.trans abandoned.mutex, ?_, ?_⟩
  · intro other
    exact (Caller.asked_place _).1.mpr ((final.callers other).symm.trans (abandoned.callers other))
  · rcases rest with rfl | rfl
    · cases ran
      exact ⟨rfl, rfl⟩
    · obtain ⟨_, woken, same⟩ := Option.bind_eq_some_iff.mp ran
      cases same
      obtain ⟨-, same⟩ := Option.ite_none_right_eq_some.mp woken
      cases same
      exact ⟨rfl, rfl⟩

/-- The split thread has done one split and waits for the next task. -/
def exhaustedMemory : List (TaskEvent Bool) :=
  [.workerLock, .wait, .enter 0 ⟨⟨7, 1⟩, 0⟩, .append 0 false, .signal 0, .leave 0, .resume, .take, .splitDone, .wait,
    .enter 1 ⟨⟨7, 1⟩, 1⟩]

/-- Woken without a signal, it never gets the mutex. -/
theorem failed_malloc_stops_queue_while_waiting : ∃ failed state,
    execute taskStep (taskStart ⟨fun _ => none, fun _ => none⟩) (exhaustedMemory ++ [.outOfMemory 1]) = some failed ∧
      execute taskStep failed [.wakeUp] = some state ∧ failed.worker = .waiting ∧ state.worker = .woken ∧
      state.mutex = some (.caller 1) := by
  obtain ⟨failed, first, waiting⟩ : ∃ failed, execute taskStep (taskStart ⟨fun _ => none, fun _ => none⟩)
      (exhaustedMemory ++ [.outOfMemory 1]) = some failed ∧ failed.worker = .waiting := ⟨_, rfl, rfl⟩
  have woken : execute taskStep failed [.wakeUp] = some { failed with worker := .woken } := by
    simp [execute, taskStep, waiting]
  obtain ⟨-, held, -⟩ := failed_malloc_stops_queue _ first woken
  exact ⟨_, _, first, woken, waiting, rfl, held⟩

end SkyeFS.Cluster
