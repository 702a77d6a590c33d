import SkyeFS.Cluster.Splitting
import SkyeFS.Index.Capacity

/-! Creates that queue splits, and the split threads that work the queues off.

A create checks the bound on partitions and then only queues a task. The task is taken
off the queue before `do_split` computes the child, and `perform_split` compares with
the last task in the queue alone, so one partition can be queued more than once.
-/

set_option autoImplicit false

namespace SkyeFS.Cluster

open Index Server Foundation Foundation.SuffixTree

structure SplitTask (Handle : Type) where
  parent : Handle
  pindex : Nat
deriving DecidableEq

/-- The split queue of one server process, and the task its thread has taken off. -/
structure TaskQueue (Handle : Type) where
  queue : List (SplitTask Handle)
  running : Option (SplitTask Handle)

/-- The servers of one directory with their queues, which all directories share. -/
structure QueueState (Handle : Type) (servers : Nat) where
  cluster : System servers
  tasks : Fin servers → TaskQueue Handle

inductive QueueEvent (Handle : Type) (servers : Nat) where
  -- A create in the directory. Whether it is one that checks for a split and what `isdir_overflow` says are left
  -- open.
  | create (server : Fin servers) (filename : Pvfs.FileName) (checks overflow : Bool)
  -- A create in another directory queues a split there.
  | createElsewhere (server : Fin servers) (task : SplitTask Handle)
  | dequeue (server : Fin servers)
  -- `do_split` was for another directory, or could not fetch this one.
  | endTask (server : Fin servers)
  | split (event : Event servers)

section
variable {Handle : Type} [DecidableEq Handle] {servers : Nat}

/-- The task is dropped when it repeats the last one in the queue. -/
def performSplit (queue : List (SplitTask Handle)) (task : SplitTask Handle) : List (SplitTask Handle) :=
  if queue.getLast? = some task then queue else queue ++ [task]

/-- The partition that a create on this server wants to split, if any. `none` outside is a failed assertion or a
directory that is locked. -/
def createSplits (shahash : Pvfs.FileName → Digest) (server : Fin servers) (here : ServerState servers)
    (filename : Pvfs.FileName) (checks overflow : Bool) : Option (Option Nat) :=
  if here.locked then none
  else
    match locality shahash server here.dir filename with
    | none => none
    | some (.again _) => some none
    | some (.here index) =>
        if here.dir.splittingIndex = none ∧ checks then
          (gigaIsSplittable here.dir.mapping index).map fun splittable =>
            if splittable && overflow then some index else none
        else some none

variable (shahash : Pvfs.FileName → Digest) (directory : Handle)

def queueStep (state : QueueState Handle servers) : QueueEvent Handle servers → Option (QueueState Handle servers)
  | .create server filename checks overflow =>
      let here := state.tasks server
      (createSplits shahash server (state.cluster server) filename checks overflow).map fun
        | none => state
        | some index => { state with
            tasks := Function.update state.tasks server
              { here with queue := performSplit here.queue ⟨directory, index⟩ } }
  | .createElsewhere server task =>
      let here := state.tasks server
      if task.parent = directory then none
      else some { state with
        tasks := Function.update state.tasks server { here with queue := performSplit here.queue task } }
  | .dequeue server =>
      match state.tasks server with
      | { queue := task :: rest, running := none } => some { state with
          tasks := Function.update state.tasks server { queue := rest, running := some task } }
      | _ => none
  | .endTask server =>
      let here := state.tasks server
      if (state.cluster server).split = .idle then
        some { state with tasks := Function.update state.tasks server { here with running := none } }
      else none
  | .split (.beginSplit server pindex) =>
      if (state.tasks server).running = some ⟨directory, pindex⟩ then
        (step state.cluster (.beginSplit server pindex)).map ({ state with cluster := · })
      else none
  | .split (.abandonSplit server) =>
      let here := state.tasks server
      (step state.cluster (.abandonSplit server)).map fun cluster =>
        { cluster, tasks := Function.update state.tasks server { here with running := none } }
  | .split (.finishSplit server) =>
      let here := state.tasks server
      (step state.cluster (.finishSplit server)).map fun cluster =>
        { cluster, tasks := Function.update state.tasks server { here with running := none } }
  | .split (.startMove server) => (step state.cluster (.startMove server)).map ({ state with cluster := · })
  | .split (.lockAgain server) => (step state.cluster (.lockAgain server)).map ({ state with cluster := · })
  | .split (.bucketAdd server target) =>
      (step state.cluster (.bucketAdd server target)).map ({ state with cluster := · })
  | .split _ => none

def queueStart (zerothServer serverCount : UInt32) : QueueState Handle servers where
  cluster := start (gigaInitMapping zerothServer serverCount)
  tasks _ := { queue := [], running := none }

/-- How many splits of a partition are queued, taken off the queue or running. -/
def TaskQueue.pending (tasks : TaskQueue Handle) (task : SplitTask Handle) : Nat :=
  tasks.queue.count task + if tasks.running = some task then 1 else 0

/-- A create that queues a split leaves room for it: after all splits of the partition that are already pending,
the check of the create would still pass. -/
def LeavesRoom (state : QueueState Handle servers) : QueueEvent Handle servers → Prop
  | .create server filename checks overflow => ∀ index,
      createSplits shahash server (state.cluster server) filename checks overflow = some (some index) →
      (state.tasks server).queue.getLast? = some ⟨directory, index⟩ ∨
        SplittableAfter (state.cluster server).dir.mapping index ((state.tasks server).pending ⟨directory, index⟩)
  | .createElsewhere _ _ | .dequeue _ | .endTask _ | .split _ => True

instance (state : QueueState Handle servers) (event : QueueEvent Handle servers) :
    Decidable (LeavesRoom shahash directory state event) :=
  match event with
  | .create server filename checks overflow =>
      match computed : createSplits shahash server (state.cluster server) filename checks overflow with
      | some (some index) => decidable_of_iff ((state.tasks server).queue.getLast? = some ⟨directory, index⟩ ∨
            SplittableAfter (state.cluster server).dir.mapping index ((state.tasks server).pending ⟨directory, index⟩))
          ⟨fun room _ same => Option.some.inj (Option.some.inj (computed.symm.trans same)) ▸ room,
            fun allowed => allowed index computed⟩
      | some none => .isTrue fun _ impossible => nomatch computed.symm.trans impossible
      | none => .isTrue fun _ impossible => nomatch computed.symm.trans impossible
  | .createElsewhere _ _ | .dequeue _ | .endTask _ | .split _ => .isTrue trivial

end

section
variable {Handle : Type} [DecidableEq Handle] {servers : Nat}

theorem pending_append (tasks : TaskQueue Handle) (added task : SplitTask Handle) :
    TaskQueue.pending { tasks with queue := tasks.queue ++ [added] } task =
      tasks.pending task + if added = task then 1 else 0 := by
  simp only [TaskQueue.pending, List.count_append, List.count_singleton, beq_iff_eq]
  omega

theorem pending_taken {task : SplitTask Handle} {rest : List (SplitTask Handle)} (other : SplitTask Handle) :
    TaskQueue.pending { queue := rest, running := some task } other =
      TaskQueue.pending { queue := task :: rest, running := none } other := by
  simp [TaskQueue.pending, List.count_cons]

theorem pending_running {tasks : TaskQueue Handle} {task : SplitTask Handle} (running : tasks.running = some task) :
    tasks.pending task = TaskQueue.pending { tasks with running := none } task + 1 := by
  simp [TaskQueue.pending, running]

theorem pending_ended (tasks : TaskQueue Handle) (task : SplitTask Handle) :
    TaskQueue.pending { tasks with running := none } task ≤ tasks.pending task := by
  simp [TaskQueue.pending]

theorem pending_ended_other {tasks : TaskQueue Handle} {task other : SplitTask Handle}
    (running : tasks.running = some task) (different : task ≠ other) :
    TaskQueue.pending { tasks with running := none } other = tasks.pending other := by
  simp [TaskQueue.pending, running, different]

/-- What one server and its queue satisfy: each partition can still take all its pending splits, and a running split
is one of them. -/
structure Affords (mapping : GigaMapping) (directory : Handle) (server : Fin servers) (state : ServerState servers)
    (tasks : TaskQueue Handle) : Prop where
  tracks : Tracks mapping server state
  own : ∀ index, 0 < tasks.pending ⟨directory, index⟩ → Owns mapping server index
  splittable : ∀ index times, times < tasks.pending ⟨directory, index⟩ → SplittableAfter state.dir.mapping index times
  running : ∀ pindex cindex, state.split.task = some (pindex, cindex) → tasks.running = some ⟨directory, pindex⟩
  below : ∀ index ∈ state.dir.mapping.partitions, index < maxBktsPerServer * mapping.serverCount.toNat

section
variable {mapping : GigaMapping} {directory : Handle} {server : Fin servers} {state : ServerState servers}
variable {tasks : TaskQueue Handle} (affords : Affords mapping directory server state tasks)
include affords

theorem Affords.child_lt {pindex cindex : Nat} (task : state.split.task = some (pindex, cindex)) :
    cindex < maxBktsPerServer * mapping.serverCount.toNat := by
  have pending : 0 < tasks.pending ⟨directory, pindex⟩ := by
    rw [pending_running (affords.running pindex cindex task)]
    omega
  have splittable := (affords.splittable pindex 0 pending).now
  have less := gigaIsSplittable_lt splittable (affords.tracks.child pindex cindex task)
  rwa [affords.tracks.placement.2] at less

theorem Affords.thread {after : ServerState servers} (tracks : Tracks mapping server after)
    (same : after.dir.mapping = state.dir.mapping)
    (running : ∀ pindex cindex, after.split.task = some (pindex, cindex) → tasks.running = some ⟨directory, pindex⟩) :
    Affords mapping directory server after tasks where
  tracks := tracks
  own := affords.own
  splittable := by
    rw [same]
    exact affords.splittable
  running := running
  below := by
    rw [same]
    exact affords.below

theorem Affords.fewer {after : TaskQueue Handle}
    (fewer : ∀ index, after.pending ⟨directory, index⟩ ≤ tasks.pending ⟨directory, index⟩)
    (running : state.split = .idle ∨ after.running = tasks.running) : Affords mapping directory server state after where
  tracks := affords.tracks
  own index positive := affords.own index (positive.trans_le (fewer index))
  splittable index times less := affords.splittable index times (less.trans_le (fewer index))
  running := by
    intro pindex cindex task
    rcases running with idle | same
    · rw [idle] at task
      cases task
    · rw [same]
      exact affords.running pindex cindex task
  below := affords.below

theorem Affords.queued {index : Nat} (own : Owns mapping server index)
    (room : SplittableAfter state.dir.mapping index (tasks.pending ⟨directory, index⟩)) :
    Affords mapping directory server state { tasks with queue := tasks.queue ++ [⟨directory, index⟩] } where
  tracks := affords.tracks
  own other positive := by
    rw [pending_append] at positive
    by_cases same : index = other
    · exact same ▸ own
    · simp only [SplitTask.mk.injEq, true_and, same, if_false, Nat.add_zero] at positive
      exact affords.own other positive
  splittable other times less := by
    rw [pending_append] at less
    by_cases same : index = other
    · subst same
      rw [if_pos rfl] at less
      rcases Nat.lt_succ_iff_lt_or_eq.mp less with before | rfl
      · exact affords.splittable index times before
      · exact room
    · simp only [SplitTask.mk.injEq, true_and, same, if_false, Nat.add_zero] at less
      exact affords.splittable other times less
  running := affords.running
  below := affords.below

theorem Affords.add {index : Nat} (bounded : index < capacity)
    (less : index < maxBktsPerServer * mapping.serverCount.toNat) (foreign : ¬ Owns mapping server (parent index)) :
    Affords mapping directory server
      { state with dir := { state.dir with mapping := gigaUpdateMapping state.dir.mapping index } } tasks where
  tracks := affords.tracks.add bounded foreign
  own := affords.own
  splittable other times pending := by
    -- The owner of a new partition is told. Pending splits are of this server's partitions, so the new one is no
    -- child of theirs.
    have before := affords.splittable other times pending
    obtain ⟨child, found, -⟩ := gigaIsSplittable_eq_true.mp before.now
    have apart : parent index ≠ other := by
      rintro rfl
      exact foreign (affords.own _ (by omega))
    exact (sameChildren_update bounded (gigaIndexForSplitting_some found).1 apart).splittableAfter before
  running := affords.running
  below other member := by
    simp only [partitions_update _ bounded, Finset.mem_insert] at member
    rcases member with rfl | member
    · exact less
    · exact affords.below other member

theorem Affords.finish {pindex cindex : Nat} (task : state.split.task = some (pindex, cindex)) :
    Affords mapping directory server
      { state with
        dir := { mapping := gigaUpdateMapping state.dir.mapping cindex, splittingIndex := none }, split := .idle }
      { tasks with running := none } where
  tracks := by
    -- The split is done: one pending split fewer, and the table one child richer.
    have bounded := gigaIndexForSplitting_lt (affords.tracks.child pindex cindex task)
    exact tracks_idle rfl rfl (affords.tracks.valid.update bounded) affords.tracks.placement
  own index positive := affords.own index (positive.trans_le (pending_ended tasks _))
  splittable index times less := by
    have running := affords.running pindex cindex task
    have found := affords.tracks.child pindex cindex task
    by_cases same : pindex = index
    · subst same
      have before := affords.splittable pindex (times + 1) (by rw [pending_running running]; omega)
      obtain ⟨child, computed, later⟩ := splittableAfter_succ.mp before
      cases Option.some.inj (found.symm.trans computed)
      exact later
    · rw [pending_ended_other running (by simp [same])] at less
      have before := affords.splittable index times less
      obtain ⟨child, other, -⟩ := gigaIsSplittable_eq_true.mp before.now
      have apart : parent cindex ≠ index := by
        rw [(gigaIndexForSplitting_parent found).1]
        exact same
      exact (sameChildren_update (gigaIndexForSplitting_lt found) (gigaIndexForSplitting_some other).1
        apart).splittableAfter before
  running := by rintro _ _ ⟨⟩
  below other member := by
    have bounded := gigaIndexForSplitting_lt (affords.tracks.child pindex cindex task)
    simp only [partitions_update _ bounded, Finset.mem_insert] at member
    rcases member with rfl | member
    · exact affords.child_lt task
    · exact affords.below other member

end

def Afforded (mapping : GigaMapping) (directory : Handle) (state : QueueState Handle servers) : Prop :=
  ∀ server, Affords mapping directory server (state.cluster server) (state.tasks server)

section
variable {mapping : GigaMapping} {directory : Handle} {state : QueueState Handle servers} {server : Fin servers}
variable (afforded : Afforded mapping directory state)
include afforded

theorem Afforded.set {here : ServerState servers} {tasks : TaskQueue Handle}
    (changed : Affords mapping directory server here tasks) :
    Afforded mapping directory
      { cluster := state.cluster.set server here, tasks := Function.update state.tasks server tasks } := by
  intro other
  by_cases same : other = server
  · subst same
    simp only [set_self, Function.update_self]
    exact changed
  · simp only [set_other same, Function.update_of_ne same]
    exact afforded other

theorem Afforded.setCluster {here : ServerState servers}
    (changed : Affords mapping directory server here (state.tasks server)) :
    Afforded mapping directory { state with cluster := state.cluster.set server here } := by
  have whole := afforded.set changed
  rwa [Function.update_eq_self] at whole

theorem Afforded.setTasks {tasks : TaskQueue Handle}
    (changed : Affords mapping directory server (state.cluster server) tasks) :
    Afforded mapping directory { state with tasks := Function.update state.tasks server tasks } := by
  have whole := afforded.set changed
  have same : state.cluster.set server (state.cluster server) = state.cluster := Function.update_eq_self ..
  rwa [same] at whole

theorem Afforded.perform {task : SplitTask Handle}
    (added : Affords mapping directory server (state.cluster server)
      { state.tasks server with queue := (state.tasks server).queue ++ [task] } ∨
        (state.tasks server).queue.getLast? = some task) :
    Afforded mapping directory { state with
      tasks := Function.update state.tasks server
        { state.tasks server with queue := performSplit (state.tasks server).queue task } } := by
  unfold performSplit
  split
  · exact afforded.setTasks (afforded server)
  · rename_i fresh
    exact afforded.setTasks (added.resolve_right fresh)

variable {shahash : Pvfs.FileName → Digest} {after : QueueState Handle servers}

theorem Afforded.create {filename : Pvfs.FileName} {checks overflow : Bool}
    (room : LeavesRoom shahash directory state (.create server filename checks overflow))
    (stepped : queueStep shahash directory state (.create server filename checks overflow) = some after) :
    Afforded mapping directory after := by
  obtain ⟨choice, computed, rfl⟩ := Option.map_eq_some_iff.mp stepped
  cases choice with
  | none => exact afforded
  | some index =>
    apply afforded.perform
    rcases room index computed with repeated | room
    · exact Or.inr repeated
    · left
      apply (afforded server).queued _ room
      -- The create was accepted here, so the partition is this server's.
      unfold createSplits at computed
      split at computed
      · cases computed
      · split at computed
        · cases computed
        · cases computed
        · rename_i accepted
          split at computed
          · obtain ⟨splittable, -, same⟩ := Option.map_eq_some_iff.mp computed
            split at same
            · cases same
              rw [Owns, ← (afforded server).tracks.placement.server]
              exact (locality_here.mp accepted).2
            · cases same
          · cases computed

theorem Afforded.beginSplit {pindex : Nat} {cluster : System servers}
    (running : (state.tasks server).running = some ⟨directory, pindex⟩)
    (stepped : Cluster.step state.cluster (.beginSplit server pindex) = some cluster) :
    Afforded mapping directory { state with cluster := cluster } := by
  obtain ⟨idle, own, cindex, computed, rfl⟩ := step_beginSplit stepped
  have here := afforded server
  apply afforded.setCluster
  apply here.thread (here.tracks.began own idle computed) rfl
  rintro _ _ ⟨⟩
  exact running

theorem Afforded.abandonSplit {cluster : System servers}
    (stepped : Cluster.step state.cluster (.abandonSplit server) = some cluster) :
    Afforded mapping directory
      { cluster, tasks := Function.update state.tasks server { state.tasks server with running := none } } := by
  obtain ⟨pindex, cindex, thread, rfl⟩ := step_abandonSplit stepped
  have here := afforded server
  have clear := here.tracks.splitting
  rw [thread] at clear
  apply afforded.set
  have idle : Affords mapping directory server { state.cluster server with split := .idle } (state.tasks server) := by
    refine here.thread ?_ rfl ?_
    · exact tracks_idle rfl clear here.tracks.valid here.tracks.placement
    · rintro _ _ ⟨⟩
  exact idle.fewer (fun _ => pending_ended _ _) (Or.inl rfl)

theorem Afforded.thread {dir : SkyeDirectory} {split : SplitThread}
    (same : dir.mapping = (state.cluster server).dir.mapping) (task : split.task = (state.cluster server).split.task)
    (splitting : dir.splittingIndex = split.splitting) :
    Afforded mapping directory
      { state with cluster := state.cluster.set server { state.cluster server with dir, split } } := by
  have here := afforded server
  apply afforded.setCluster
  apply here.thread (here.tracks.thread _ _ same task splitting) same
  simp only [task]
  exact here.running

theorem Afforded.startMove {cluster : System servers}
    (stepped : Cluster.step state.cluster (.startMove server) = some cluster) :
    Afforded mapping directory { state with cluster := cluster } := by
  obtain ⟨pindex, cindex, thread, rfl⟩ := step_startMove stepped
  exact afforded.thread rfl (by rw [thread]; rfl) rfl

theorem Afforded.lockAgain {cluster : System servers}
    (stepped : Cluster.step state.cluster (.lockAgain server) = some cluster) :
    Afforded mapping directory { state with cluster := cluster } := by
  obtain ⟨pindex, cindex, thread, -, chosen⟩ := step_lockAgain stepped
  have splitting := (afforded server).tracks.splitting
  rw [thread] at splitting
  rcases chosen with ⟨-, rfl⟩ | ⟨-, rfl⟩
  · exact afforded.thread rfl (by rw [thread]; rfl) splitting
  · exact afforded.thread rfl (by rw [thread]; rfl) splitting

theorem Afforded.finishSplit {cluster : System servers}
    (stepped : Cluster.step state.cluster (.finishSplit server) = some cluster) :
    Afforded mapping directory
      { cluster, tasks := Function.update state.tasks server { state.tasks server with running := none } } := by
  obtain ⟨pindex, cindex, thread, rfl⟩ := step_finishSplit stepped
  exact afforded.set ((afforded server).finish (by rw [thread]; rfl))

theorem Afforded.bucketAdd {target : Fin servers} {cluster : System servers}
    (stepped : step state.cluster (.bucketAdd server target) = some cluster) :
    Afforded mapping directory { state with cluster := cluster } := by
  obtain ⟨pindex, cindex, thread, -, -, different, rfl⟩ := step_bucketAdd stepped
  have here := afforded server
  have task : (state.cluster server).split.task = some (pindex, cindex) := by rw [thread]; rfl
  have inside := gigaIndexForSplitting_lt (here.tracks.child pindex cindex task)
  have splitting := here.tracks.splitting
  rw [thread] at splitting
  have told : Affords mapping directory server
      { state.cluster server with split := .informed pindex cindex } (state.tasks server) := by
    apply here.thread (here.tracks.thread _ (.informed _ _) rfl (by rw [thread]; rfl) splitting) rfl
    rintro _ _ ⟨⟩
    exact here.running pindex cindex task
  have added := (afforded target).add inside (here.child_lt task) (here.tracks.foreign task different)
  exact (afforded.setCluster told).setCluster added

end

theorem Afforded.step {mapping : GigaMapping} {directory : Handle} {state after : QueueState Handle servers}
    {shahash : Pvfs.FileName → Digest} {event : QueueEvent Handle servers}
    (afforded : Afforded mapping directory state) (room : LeavesRoom shahash directory state event)
    (stepped : queueStep shahash directory state event = some after) : Afforded mapping directory after := by
  cases event with
  | create server filename checks overflow => exact afforded.create room stepped
  | createElsewhere server task =>
    simp only [queueStep] at stepped
    split at stepped
    · cases stepped
    · rename_i elsewhere
      cases stepped
      apply afforded.perform
      left
      refine (afforded server).fewer ?_ (Or.inr ?_)
      swap
      · rfl
      intro index
      have other : task ≠ ⟨directory, index⟩ := fun same => elsewhere (congrArg SplitTask.parent same)
      rw [pending_append, if_neg other]
      rfl
  | dequeue server =>
    simp only [queueStep] at stepped
    split at stepped
    · rename_i task rest here
      cases stepped
      have before := afforded server
      rw [here] at before
      apply afforded.setTasks
      apply before.fewer
      · intro index
        exact (pending_taken _).le
      · left
        -- A running split has its task off the queue.
        cases thread : (state.cluster server).split with
        | idle => rfl
        | preparing | moving | announcing | informed =>
          have running := before.running _ _ (by rw [thread]; rfl)
          cases running
    · cases stepped
  | endTask server =>
    simp only [queueStep] at stepped
    split at stepped
    · rename_i idle
      cases stepped
      exact afforded.setTasks ((afforded server).fewer (fun _ => pending_ended _ _) (Or.inl idle))
    · cases stepped
  | split event =>
    cases event with
    | beginSplit server pindex =>
      simp only [queueStep] at stepped
      split at stepped
      · rename_i running
        obtain ⟨cluster, moved, rfl⟩ := Option.map_eq_some_iff.mp stepped
        exact afforded.beginSplit running moved
      · cases stepped
    | abandonSplit server =>
      obtain ⟨cluster, moved, rfl⟩ := Option.map_eq_some_iff.mp stepped
      exact afforded.abandonSplit moved
    | startMove server =>
      obtain ⟨cluster, moved, rfl⟩ := Option.map_eq_some_iff.mp stepped
      exact afforded.startMove moved
    | lockAgain server =>
      obtain ⟨cluster, moved, rfl⟩ := Option.map_eq_some_iff.mp stepped
      exact afforded.lockAgain moved
    | bucketAdd server target =>
      obtain ⟨cluster, moved, rfl⟩ := Option.map_eq_some_iff.mp stepped
      exact afforded.bucketAdd moved
    | finishSplit server =>
      obtain ⟨cluster, moved, rfl⟩ := Option.map_eq_some_iff.mp stepped
      exact afforded.finishSplit moved
    | beginRemove | removeLocal | callRemove | bucketRemove | endRemove => cases stepped

theorem afforded_start (directory : Handle) (zerothServer serverCount : UInt32) :
    Afforded (gigaInitMapping zerothServer serverCount) directory
      (queueStart zerothServer serverCount : QueueState Handle servers) := by
  intro server
  refine ⟨(settled_start (valid_init _ _)).tracks server, ?_, ?_, ?_, (guarded_of_reaches .here).below⟩
  · rintro index ⟨⟩
  · rintro index times ⟨⟩
  · rintro pindex cindex ⟨⟩

/-- In every run in which each create that queues a split leaves room for the splits already pending, no server ever
sets an index from twice the number of servers on. -/
theorem partitions_below_bound {shahash : Pvfs.FileName → Digest} {directory : Handle}
    {zerothServer serverCount : UInt32} {state : QueueState Handle servers}
    (reached : Reaches (queueStep shahash directory) (LeavesRoom shahash directory)
      (queueStart zerothServer serverCount) state)
    (server : Fin servers) {index : Nat} (set : index ∈ (state.cluster server).dir.mapping.partitions) :
    index < maxBktsPerServer * (state.cluster server).dir.mapping.serverCount.toNat := by
  have afforded : Afforded (gigaInitMapping zerothServer serverCount) directory state :=
    reached.invariant (afforded_start directory zerothServer serverCount)
      fun _ _ _ before room stepped => before.step room stepped
  rw [(afforded server).tracks.placement.2]
  exact (afforded server).below index set

end

/-- One server. A second create queues partition 0 again after its first task was taken off the queue. -/
def queuedTwice : List (QueueEvent Nat 1) :=
  [.create 0 [] true true, .dequeue 0, .create 0 [] true true, .split (.beginSplit 0 0), .split (.startMove 0),
    .split (.lockAgain 0), .split (.finishSplit 0), .dequeue 0, .split (.beginSplit 0 0), .split (.startMove 0),
    .split (.lockAgain 0), .split (.finishSplit 0)]

/-- The second split makes partition 2 on the only server. -/
theorem queued_twice_exceeds : ∃ state : QueueState Nat 1,
    execute (queueStep (flatDigest 0#8) 7) (queueStart 0 1) queuedTwice = some state ∧
      2 ∈ (state.cluster 0).dir.mapping.partitions ∧
      ¬ 2 < maxBktsPerServer * (state.cluster 0).dir.mapping.serverCount.toNat := by
  have run : (execute (queueStep (flatDigest 0#8) 7) (queueStart 0 1) queuedTwice).map
      (fun state => (getBitStatus (state.cluster 0).dir.mapping.bitmap 2,
        (state.cluster 0).dir.mapping.serverCount.toNat)) = some (true, 1) := by decide +kernel
  obtain ⟨state, executed, values⟩ := Option.map_eq_some_iff.mp run
  obtain ⟨status, count⟩ := Prod.mk.inj values
  refine ⟨state, executed, getBitStatus_iff.mp status, ?_⟩
  rw [count]
  decide

/-- The first split alone leaves room. -/
def queuedOnce : List (QueueEvent Nat 1) :=
  [.create 0 [] true true, .dequeue 0, .split (.beginSplit 0 0), .split (.startMove 0), .split (.lockAgain 0),
    .split (.finishSplit 0)]

theorem queued_once_below : ∃ state : QueueState Nat 1,
    execute (queueStep (flatDigest 0#8) 7) (queueStart 0 1) queuedOnce = some state ∧
      1 < maxBktsPerServer * (state.cluster 0).dir.mapping.serverCount.toNat := by
  have run : (execute (queueStep (flatDigest 0#8) 7) (queueStart 0 1) queuedOnce).map
      (fun state => getBitStatus (state.cluster 0).dir.mapping.bitmap 1) = some true := by decide +kernel
  obtain ⟨state, executed, status⟩ := Option.map_eq_some_iff.mp run
  have reached : Reaches (queueStep (flatDigest 0#8) 7)
      (LeavesRoom (flatDigest 0#8) 7) (queueStart 0 1) state :=
    Reaches.of_execute executed (by decide +kernel)
  exact ⟨state, executed, partitions_below_bound reached 0 (getBitStatus_iff.mp status)⟩

end SkyeFS.Cluster
