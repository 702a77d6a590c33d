import SkyeFS.Server.SplitNames
import SkyeFS.Server.SplitThread
import SkyeFS.Server.Rmdir

/-! Removing a directory while the partition that holds its entry splits.

The handler looks the entry up under the read lock of the parent and gives the lock
back. It then removes the buckets of the directory, the zeroth last, and at the end the
entry, in the bucket it found it in. The split thread may have moved the entry by then.
-/

set_option autoImplicit false

namespace SkyeFS.Server

open Index Pvfs Foundation

inductive RmdirPhase where
  | idle
  -- The entry was found in the bucket `index` of the parent, whose lock is free again.
  | located (index : Nat)
  -- `remove_all_buckets` returned 0.
  | emptied (index : Nat)
  -- `p00000` is removed.
  | unrooted (index : Nat)
  | redirected
  | done (result : Option Errno)
deriving DecidableEq

def RmdirPhase.bucket : RmdirPhase → Option Nat
  | .idle | .redirected | .done _ => none
  | .located index | .emptied index | .unrooted index => some index

structure RmdirState where
  parent : SplitState
  tree : Tree
  phase : RmdirPhase

inductive RmdirEvent where
  -- A step of `do_split` in the parent.
  | split (event : SplitEvent)
  -- `enter_bucket`, the lookup of the name and `cache_return`.
  | locate
  | removeAllBuckets (faults : Faults)
  | removeZeroth
  -- The last `PVFS_sys_remove`, which may fail by itself.
  | removeEntry (success : Bool)

section
variable (shahash : FileName → Digest) (servernum : Nat) (name : FileName)

def rmdirStep (state : RmdirState) : RmdirEvent → Option RmdirState
  | .split event =>
      if event.ofThread then (splitStep shahash servernum state.parent event).map ({ state with parent := · })
      else none
  | .locate =>
      match state.phase with
      | .idle =>
          if state.parent.thread.locked then none
          else
            match removeLookup shahash servernum state.parent.dir state.parent.store name with
            | none => none
            | some (.again _, _) => some { state with phase := .redirected }
            | some (.fail errno, _) => some { state with phase := .done (some errno) }
            | some (.ok removal, _) =>
                -- a file takes the other way through the handler
                if removal.isdir then some { state with phase := .located removal.index } else none
      | _ => none
  | .removeAllBuckets faults =>
      match state.phase with
      | .located index =>
          match Tree.removeAllBuckets faults servernum 0 (state.tree.fetch servernum) with
          | (some errno, after) => some { state with tree := after, phase := .done (some errno) }
          | (none, after) => some { state with tree := after, phase := .emptied index }
      | _ => none
  | .removeZeroth =>
      match state.phase with
      | .emptied index =>
          match sysRemoveBucket state.tree.store 0 with
          | .error errno => some { state with phase := .done (some errno) }
          | .ok store => some { state with tree := { state.tree with store }, phase := .unrooted index }
      | _ => none
  | .removeEntry success =>
      match state.phase with
      | .unrooted index =>
          if success then
            match removeEntry state.parent.store ⟨index, name, true⟩ state.tree.store.keys.isEmpty with
            | (.ok _, store) => some { state with
                parent := { state.parent with store }, phase := .done none }
            | (.fail errno, _) => some { state with phase := .done (some errno) }
            | (.again _, _) => none
          else some { state with phase := .done (some .eio) }
      | _ => none

/-- The entry is not moved while the request relies on its place, no other bucket is left when `p00000` goes, and the
last call does not fail by itself. -/
def Undisturbed (state : RmdirState) : RmdirEvent → Prop
  | .split (.moveNext success _) =>
      match state.phase.bucket, state.parent.thread with
      | some _, .batch _ _ _ _ _ (next :: _) => next = name → success = false
      | _, _ => True
  | .removeZeroth => ∀ bucket ∈ state.tree.store.keys, bucket = bucketName 0
  | .removeEntry success => success = true
  | .split _ | .locate | .removeAllBuckets _ => True

instance decidableUndisturbed (state : RmdirState) (event : RmdirEvent) :
    Decidable (Undisturbed name state event) := by
  unfold Undisturbed
  split
  · split <;> infer_instance
  all_goals infer_instance

/-- A finished request has removed the entry, or failed and left `p00000`. -/
def RmdirState.Atomic (state : RmdirState) : Prop :=
  match state.phase with
  | .done none => ∀ index, state.parent.store.find index name = none
  | .done (some _) | .redirected => (state.tree.store.bucket 0).isSome
  | .idle | .located _ | .emptied _ | .unrooted _ => True

/-- Where the request relies on it, the entry is in the bucket it was found in. Until `p00000` is removed it is there, and
it is removed as the last bucket. -/
def RmdirPhase.Rests (tree parent : Store) : RmdirPhase → Prop
  | .idle | .redirected | .done (some _) => (tree.bucket 0).isSome
  | .located index | .emptied index =>
      (tree.bucket 0).isSome ∧ ∃ handle, parent.find index name = some ⟨handle, true⟩
  | .unrooted index => tree.keys = [] ∧ ∃ handle, parent.find index name = some ⟨handle, true⟩
  | .done none => ∀ index, parent.find index name = none

structure RmdirState.Sound (state : RmdirState) : Prop where
  unique : ∀ {index other : Nat}, (state.parent.store.find index name).isSome →
    (state.parent.store.find other name).isSome → index = other
  vacant : state.parent.Vacant name
  rests : state.phase.Rests name state.tree.store state.parent.store

variable {shahash servernum name}

namespace RmdirState
variable {state after : RmdirState}

theorem Sound.carried {parent : SplitState} {event : SplitEvent} (sound : state.Sound name)
    (carries : Carries name shahash state.parent event parent.store) (vacant : parent.Vacant name)
    (undisturbed : Undisturbed name state (.split event)) : ({ state with parent } : RmdirState).Sound name := by
  cases carries with
  | stays same =>
    refine ⟨fun {index other} => ?_, vacant, ?_⟩
    · simp only [same]
      exact sound.unique
    · simpa only [RmdirPhase.Rests, same] using sound.rests
  | @moves pindex cindex _ _ _ _ _ object thread moves _ found placed =>
    subst moves
    -- Only the child's bucket holds the entry now.
    have only : ∀ {index : Nat}, (parent.store.find index name).isSome → index = cindex := by
      intro index isSome
      by_contra other
      rw [placed, if_neg other] at isSome
      split at isSome
      · cases isSome
      · rename_i elsewhere
        exact elsewhere (sound.unique isSome (Option.isSome_of_eq_some found))
    have rests := sound.rests
    simp only [Undisturbed, thread] at undisturbed
    refine ⟨fun one two => (only one).trans (only two).symm, vacant, ?_⟩
    dsimp only
    cases phase : state.phase with
    | idle => simpa only [phase, RmdirPhase.Rests] using rests
    | redirected => simpa only [phase, RmdirPhase.Rests] using rests
    | done result =>
      cases result with
      | some errno => simpa only [phase, RmdirPhase.Rests] using rests
      | none =>
        simp only [phase, RmdirPhase.Rests] at rests
        exact nomatch (rests pindex).symm.trans found
    | _ =>
      simp only [phase, RmdirPhase.bucket] at undisturbed
      cases undisturbed trivial

theorem locate_phase (stepped : rmdirStep shahash servernum name state .locate = some after) :
    after = { state with phase := after.phase } := by
  simp only [rmdirStep] at stepped
  split at stepped
  · split at stepped
    · cases stepped
    · split at stepped
      · cases stepped
      · cases stepped
        rfl
      · cases stepped
        rfl
      · split at stepped <;> cases stepped
        rfl
  · cases stepped

theorem Sound.locate (sound : state.Sound name) (stepped : rmdirStep shahash servernum name state .locate = some after) :
    after.Sound name := by
  have rests := sound.rests
  simp only [rmdirStep] at stepped
  split at stepped
  · rename_i idle
    simp only [idle, RmdirPhase.Rests] at rests
    split at stepped
    · cases stepped
    · split at stepped
      · cases stepped
      · cases stepped
        exact ⟨sound.unique, sound.vacant, rests⟩
      · cases stepped
        exact ⟨sound.unique, sound.vacant, rests⟩
      · rename_i removal _ looked
        split at stepped
        · rename_i isdir
          cases stepped
          rcases inBucket_some looked with ⟨-, failed⟩ | ⟨index, -, called⟩
          · exact absurd rfl (failed removal)
          · split at called
            · cases called
            · rename_i object found
              cases called
              refine ⟨sound.unique, sound.vacant, rests, object.handle, ?_⟩
              rw [found, ← isdir]
        · cases stepped
  · cases stepped

theorem Sound.removeAllBuckets {faults : Faults} (sound : state.Sound name)
    (stepped : rmdirStep shahash servernum name state (.removeAllBuckets faults) = some after) : after.Sound name := by
  have rests := sound.rests
  simp only [rmdirStep] at stepped
  split at stepped
  · rename_i index located
    simp only [located, RmdirPhase.Rests] at rests
    split at stepped
    · rename_i errno tree removed
      cases stepped
      refine ⟨sound.unique, sound.vacant, ?_⟩
      simp only [RmdirPhase.Rests, Tree.removeAllBuckets_zeroth removed]
      exact rests.1
    · rename_i tree removed
      cases stepped
      refine ⟨sound.unique, sound.vacant, ?_⟩
      simp only [RmdirPhase.Rests, Tree.removeAllBuckets_zeroth removed]
      exact rests
  · cases stepped

theorem Sound.removeZeroth (sound : state.Sound name) (alone : ∀ bucket ∈ state.tree.store.keys, bucket = bucketName 0)
    (stepped : rmdirStep shahash servernum name state .removeZeroth = some after) : after.Sound name := by
  have rests := sound.rests
  simp only [rmdirStep] at stepped
  split at stepped
  · rename_i index emptied
    simp only [emptied, RmdirPhase.Rests] at rests
    split at stepped
    · cases stepped
      exact ⟨sound.unique, sound.vacant, rests.1⟩
    · rename_i store removed
      cases stepped
      exact ⟨sound.unique, sound.vacant, Tree.keys_of_zeroth alone removed, rests.2⟩
  · cases stepped

theorem Sound.removeEntry (sound : state.Sound name)
    (stepped : rmdirStep shahash servernum name state (.removeEntry true) = some after) : after.Sound name := by
  have rests := sound.rests
  simp only [rmdirStep, if_true] at stepped
  split at stepped
  · rename_i index unrooted
    simp only [unrooted, RmdirPhase.Rests] at rests
    obtain ⟨gone, handle, found⟩ := rests
    simp only [Server.removeEntry, sysRemove, found, gone, List.isEmpty_nil, Bool.not_true, Bool.and_false,
      Bool.false_eq_true, if_false] at stepped
    cases stepped
    -- The entry was nowhere else.
    have none_left : ∀ other, (state.parent.store.unbind index name).find other name = none := by
      intro other
      by_contra present
      obtain ⟨held, different⟩ := Store.isSome_find_unbind (Option.isSome_iff_ne_none.mpr present)
      exact different ⟨sound.unique held (Option.isSome_of_eq_some found), rfl⟩
    refine ⟨fun {first _} isSome => ?_, fun _ => none_left _, none_left⟩
    rw [none_left first] at isSome
    cases isSome
  · cases stepped

theorem Sound.step {event : RmdirEvent} (sound : state.Sound name) (undisturbed : Undisturbed name state event)
    (stepped : rmdirStep shahash servernum name state event = some after) : after.Sound name := by
  cases event with
  | split event =>
    simp only [rmdirStep] at stepped
    split at stepped
    · rename_i own
      obtain ⟨parent, moved, rfl⟩ := Option.map_eq_some_iff.mp stepped
      have move := splitStep_move moved
      exact sound.carried ((rewrites_of_move own move).carries sound.vacant) (vacant_of_move sound.vacant own move)
        undisturbed
    · cases stepped
  | locate => exact sound.locate stepped
  | removeAllBuckets faults => exact sound.removeAllBuckets stepped
  | removeZeroth => exact sound.removeZeroth undisturbed stepped
  | removeEntry success =>
    cases undisturbed
    exact sound.removeEntry stepped

theorem Sound.atomic (sound : state.Sound name) : state.Atomic name := by
  have rests := sound.rests
  unfold Atomic
  split <;> rename_i phase <;> simp only [phase, RmdirPhase.Rests] at rests
  all_goals first | exact rests | trivial

end RmdirState

/-- Any request on a directory whose name is in one bucket of its parent, against any split there. -/
theorem rmdir_atomic {start state : RmdirState} {pindex : Nat} (thread : start.parent.thread = .start pindex)
    (idle : start.phase = .idle)
    (unique : ∀ {index other : Nat}, (start.parent.store.find index name).isSome →
      (start.parent.store.find other name).isSome → index = other)
    (zeroth : (start.tree.store.bucket 0).isSome)
    (reached : Reaches (rmdirStep shahash servernum name) (Undisturbed name) start state) : state.Atomic name := by
  have begins : start.Sound name := by
    refine ⟨unique, fun misplaced => ?_, ?_⟩
    · cases thread.symm.trans misplaced
    · rw [idle]
      exact zeroth
  exact (reached.invariant begins fun _ _ _ sound undisturbed stepped => sound.step undisturbed stepped).atomic

end

/-- The empty directory `d`, whose entry is the only one of its parent. -/
def emptyDirectory : RmdirState where
  parent := unsplitStart (AList.singleton ['d'] ⟨7, true⟩)
  tree := { zerothServer := 0, serverCount := 1, store := AList.singleton (bucketName 0) ∅, cached := fun _ => none }
  phase := .idle

def emptyDirectoryFound : RmdirState :=
  { emptyDirectory with tree := emptyDirectory.tree.fetch 0, phase := .emptied 0 }

theorem execute_emptyDirectory : execute (rmdirStep allMigrate 0 ['d']) emptyDirectory
    [.locate, .removeAllBuckets noFaults] = some emptyDirectoryFound := by
  have found : (rmdirStep allMigrate 0 ['d'] emptyDirectory .locate).map RmdirState.phase = some (.located 0) := by
    decide +kernel
  obtain ⟨after, located, phase⟩ := Option.map_eq_some_iff.mp found
  rw [RmdirState.locate_phase located, phase] at located
  have removed : Tree.removeAllBuckets noFaults 0 0 (emptyDirectory.tree.fetch 0) =
      (none, emptyDirectory.tree.fetch 0) := by
    rw [Tree.removeAllBuckets_short rfl (by decide), Tree.removePage_none (by decide)]
  rw [execute, located, Option.bind_some, execute]
  simp only [rmdirStep, removed]
  rfl

/-- The split moves the entry after the request has found it. -/
def movedEntry : List RmdirEvent :=
  [.locate, .removeAllBuckets noFaults] ++
    [.split (.begin_ false), .split (.makeChild .inPlace 1), .split .readdir, .split (.moveNext true 0),
      .removeZeroth, .removeEntry true]

/-- The request fails, and the directory it leaves in its parent has no bucket any more. -/
theorem moved_entry_loses_zeroth : ∃ state, execute (rmdirStep allMigrate 0 ['d']) emptyDirectory movedEntry = some state ∧
    state.phase = .done (some .enoent) ∧ (state.parent.store.find 1 ['d']).isSome ∧ state.tree.store.bucket 0 = none ∧
    ¬ state.Atomic ['d'] := by
  have runs : (execute (rmdirStep allMigrate 0 ['d']) emptyDirectory movedEntry).map (fun state =>
      (state.phase, (state.parent.store.find 1 ['d']).isSome, (state.tree.store.bucket 0).isNone)) =
        some (.done (some .enoent), true, true) := by
    rw [movedEntry, execute_append, execute_emptyDirectory]
    decide +kernel
  obtain ⟨state, executed, observed⟩ := Option.map_eq_some_iff.mp runs
  simp only [Prod.mk.injEq, Option.isNone_iff_eq_none] at observed
  obtain ⟨failed, present, gone⟩ := observed
  refine ⟨state, executed, failed, present, gone, fun atomic => ?_⟩
  simp only [RmdirState.Atomic, failed, gone] at atomic
  cases atomic

/-- The split finds the bucket empty, since the request was there first. -/
def keptEntry : List RmdirEvent :=
  [.split (.begin_ false), .split (.makeChild .inPlace 1), .removeZeroth, .removeEntry true, .split .readdir]

theorem rmdir_atomic_empty : ∃ state, execute (rmdirStep allMigrate 0 ['d']) emptyDirectory
      ([.locate, .removeAllBuckets noFaults] ++ keptEntry) = some state ∧
    state.phase = .done none ∧ state.Atomic ['d'] := by
  have runs : (execute (rmdirStep allMigrate 0 ['d']) emptyDirectoryFound keptEntry).map RmdirState.phase =
      some (.done none) := by decide +kernel
  obtain ⟨state, executed, done⟩ := Option.map_eq_some_iff.mp runs
  have found : Reaches (rmdirStep allMigrate 0 ['d']) (Undisturbed ['d']) emptyDirectory emptyDirectoryFound :=
    Reaches.of_execute execute_emptyDirectory ⟨trivial, fun _ _ => ⟨trivial, fun _ _ => trivial⟩⟩
  have removed : Reaches (rmdirStep allMigrate 0 ['d']) (Undisturbed ['d']) emptyDirectoryFound state :=
    Reaches.of_execute executed (by decide +kernel)
  have zero : ∀ {index : Nat}, (emptyDirectory.parent.store.find index ['d']).isSome → index = 0 := by
    intro index isSome
    by_contra other
    rw [Store.find, emptyDirectory, bucket_unsplitStart other] at isSome
    cases isSome
  refine ⟨state, ?_, done, ?_⟩
  · rw [execute_append, execute_emptyDirectory, Option.bind_some, executed]
  · refine rmdir_atomic rfl rfl ?_ ?_ (found.trans removed)
    · exact fun one two => (zero one).trans (zero two).symm
    · decide +kernel

end SkyeFS.Server
