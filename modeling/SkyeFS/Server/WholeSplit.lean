import SkyeFS.Server.SplitScan
import SkyeFS.Server.SplitThread

/-! A split that runs from start to end while the directory serves no request.

The split thread alone decides then: either the split comes to nothing and leaves table
and tree as they were, or it sets the bit of the child, whose bucket holds exactly the
names that migrate. Renames may fail on the way, since the thread scans again as long as
a pass has tried to move something. Only a bucket on the wrong server that cannot be
dropped stays behind.
-/

set_option autoImplicit false

namespace SkyeFS.Server

open Index Pvfs Foundation Foundation.SuffixTree

section
variable (shahash : FileName → Digest) (servernum : Nat)

/-- `do_split` for a partition of the server, up to its return. -/
def doSplit (dir : SkyeDirectory) (store : Store) (pindex : Nat) (events : List SplitEvent) :
    Option (SkyeDirectory × Store) :=
  if events.all SplitEvent.ofThread then
    (execute (splitStep shahash servernum) { dir, store, thread := .start pindex, removals := [] } events).bind
      fun last => if last.thread = .ended then some (last.dir, last.store) else none
  else none

end

theorem doSplit_childless {shahash : FileName → Digest} {servernum : Nat} {dir : SkyeDirectory} {store : Store}
    {pindex : Nat} (childless : gigaIndexForSplitting dir.mapping pindex = none) (events : List SplitEvent) :
    doSplit shahash servernum dir store pindex events = none := by
  -- Without an index for the child, the thread does not get past its first step.
  unfold doSplit
  split
  · rename_i own
    cases events with
    | nil => rfl
    | cons event rest =>
      have thread : event.ofThread = true := List.all_eq_true.mp own event List.mem_cons_self
      have stuck : splitStep shahash servernum { dir, store, thread := .start pindex, removals := [] } event = none := by
        cases event with
        | begin_ => simp [splitStep, SplitState.unread, childless]
        | makeChild | dropChild | readdir | moveNext | endBatch | lockAgain | finish => rfl
        | create | mkdir | rename | removeLookup | removeEntry | takeAway => cases thread
      rw [execute, stuck]
      rfl
  · rfl

/-- The event is not a failure to drop a bucket on the wrong server. -/
def SplitEvent.Tidy (event : SplitEvent) : Prop := event ≠ .dropChild false

instance (event : SplitEvent) : Decidable event.Tidy := inferInstanceAs (Decidable (event ≠ _))

namespace SplitSetting

variable {servernum : Nat} (setting : SplitSetting servernum) (shahash : FileName → Digest)

/-- The tree after the split: a bucket for the child, and every migrating name of the parent in it. -/
structure Divides (before after : Store) : Prop where
  keys : ∀ key, key ∈ after.keys ↔ key = bucketName setting.cindex ∨ key ∈ before.keys
  child : ∀ name, after.find setting.cindex name =
    if setting.Migrates shahash name then before.find setting.pindex name else none
  parent : ∀ name, after.find setting.pindex name =
    if setting.Migrates shahash name then none else before.find setting.pindex name
  others : ∀ index name, index ≠ setting.pindex → index ≠ setting.cindex → after.find index name = before.find index name

/-- Every entry of the parent is in one of the two buckets, and nothing else has changed. -/
structure Shares (before after : Store) : Prop where
  keys : ∀ key, key ∈ after.keys ↔ key = bucketName setting.cindex ∨ key ∈ before.keys
  entry : ∀ name,
    after.find setting.pindex name = before.find setting.pindex name ∧ after.find setting.cindex name = none ∨
      after.find setting.pindex name = none ∧ after.find setting.cindex name = before.find setting.pindex name
  others : ∀ index name, index ≠ setting.pindex → index ≠ setting.cindex → after.find index name = before.find index name

/-- What the thread has made of the tree so far. -/
def Progress (before : Store) (state : SplitState) : Prop :=
  match state.thread with
  | .start _ | .making _ _ => state.store = before
  | .misplaced _ _ => before.bucket setting.cindex = none ∧
      ∃ position, state.store = Listing.put position (bucketName setting.cindex) ∅ before
  | .scanning _ _ _ _ _ | .batch _ _ _ _ _ _ | .finishing _ _ _ | .announcing _ _ => setting.Shares before state.store
  | .ended => state.store = before ∧ ¬ setting.Opened state.dir ∨ setting.Shares before state.store ∧ setting.Opened state.dir

variable {setting shahash}

theorem shares_made {before : Store} {position : Nat} :
    setting.Shares before (Listing.put position (bucketName setting.cindex) ∅ before) where
  keys key := by
    rw [← AList.mem_keys, Listing.mem_put, AList.mem_keys]
  entry name := Or.inl ⟨find_made.2, find_made.1⟩
  others index name _ other := Store.find_put_of_ne other

theorem Shares.move {before store : Store} {position : Nat} {name : FileName} {object : Object}
    (shares : setting.Shares before store) (found : store.find setting.pindex name = some object)
    (present : (store.bucket setting.cindex).isSome) :
    setting.Shares before ((store.unbind setting.pindex name).bind position setting.cindex name object) where
  keys key := by
    rw [Store.keys_bind, Store.keys_unbind]
    exact shares.keys key
  entry entry := by
    by_cases same : name = entry
    · subst same
      rw [find_moved present, find_moved present, if_neg setting.cindex_ne_pindex.symm, if_pos rfl, if_pos rfl]
      rcases shares.entry name with ⟨kept, -⟩ | ⟨gone, -⟩
      · exact Or.inr ⟨rfl, found.symm.trans kept⟩
      · cases found.symm.trans gone
    · rw [find_moved_of_ne same, find_moved_of_ne same]
      exact shares.entry entry
  others index entry notParent notChild := by
    rw [Store.find_bind_of_ne fun both => notChild both.1, Store.find_unbind, if_neg fun both => notParent both.1]
    exact shares.others index entry notParent notChild

theorem Shares.divides {before after : Store} (shares : setting.Shares before after)
    (clean : ∀ name, (after.find setting.pindex name).isSome → ¬ setting.Migrates shahash name)
    (migrated : ∀ name, (after.find setting.cindex name).isSome → setting.Migrates shahash name) :
    setting.Divides shahash before after := by
  -- Once no migrating name is left in the parent's bucket, every entry is where its name belongs.
  have both : ∀ name,
      after.find setting.cindex name = (if setting.Migrates shahash name then before.find setting.pindex name else none) ∧
      after.find setting.pindex name =
        if setting.Migrates shahash name then none else before.find setting.pindex name := by
    intro name
    have left := clean name
    have right := migrated name
    rcases shares.entry name with ⟨parent, child⟩ | ⟨parent, child⟩
    · rw [parent] at left
      rw [parent, child]
      by_cases migrates : setting.Migrates shahash name
      · have none_ : before.find setting.pindex name = none := by
          by_contra held
          exact left (Option.isSome_iff_ne_none.mpr held) migrates
        rw [none_, ite_self]
        exact ⟨rfl, rfl⟩
      · rw [if_neg migrates, if_neg migrates]
        exact ⟨rfl, rfl⟩
    · rw [child] at right
      rw [parent, child]
      by_cases migrates : setting.Migrates shahash name
      · rw [if_pos migrates, if_pos migrates]
        exact ⟨rfl, rfl⟩
      · have none_ : before.find setting.pindex name = none := by
          by_contra held
          exact migrates (right (Option.isSome_iff_ne_none.mpr held))
        rw [none_, ite_self]
        exact ⟨rfl, rfl⟩
  exact ⟨shares.keys, fun name => (both name).1, fun name => (both name).2, shares.others⟩

theorem progress_afterPass {before : Store} {state : SplitState} {pindex cindex moved : Nat} {held : Bool}
    (shares : setting.Shares before state.store) :
    setting.Progress before { state with thread := afterPass pindex cindex moved held } := by
  unfold afterPass
  split <;> exact shares

theorem Progress.shares {before : Store} {state : SplitState} (progress : setting.Progress before state)
    (working : state.thread.working = true) : setting.Shares before state.store := by
  unfold Progress at progress
  cases thread : state.thread <;> rw [thread] at progress working <;> first | exact progress | cases working

section
variable {before : Store} {state : SplitState} {pindex cindex : Nat}

theorem Progress.unstarted (progress : setting.Progress before state) (thread : state.thread = .start pindex) :
    state.store = before := by
  unfold Progress at progress
  rw [thread] at progress
  exact progress

theorem Progress.unmade (progress : setting.Progress before state) (thread : state.thread = .making pindex cindex) :
    state.store = before := by
  unfold Progress at progress
  rw [thread] at progress
  exact progress

end

theorem Progress.step {before : Store} {state after : SplitState} {event : SplitEvent}
    (progress : setting.Progress before state) (sound : setting.Sound shahash state) (own : event.ofThread = true)
    (tidy : event.Tidy) (stepped : splitStep shahash servernum state event = some after) :
    setting.Progress before after := by
  cases splitStep_move stepped with
  | begin_ thread => exact progress.unstarted thread
  | decline thread =>
    obtain ⟨dir, -⟩ := sound.phase.of_start thread
    refine Or.inl ⟨progress.unstarted thread, ?_⟩
    rw [dir]
    exact setting.not_opened
  | mkdirFails thread =>
    obtain ⟨dir, -⟩ := sound.phase.of_making (.inl thread)
    refine Or.inl ⟨progress.unmade thread, ?_⟩
    rw [dir]
    exact setting.not_opened
  | removeFails => exact absurd rfl tidy
  | makeMisplaced thread absent =>
    obtain ⟨-, rfl, rfl⟩ := sound.phase.of_making (.inl thread)
    have unmade := progress.unmade thread
    exact ⟨unmade ▸ absent, _, by rw [unmade]⟩
  | makeInPlace thread absent =>
    obtain ⟨-, rfl, rfl⟩ := sound.phase.of_making (.inl thread)
    have unmade := progress.unmade thread
    show setting.Shares before _
    rw [unmade]
    exact shares_made
  | dropChild thread =>
    obtain ⟨-, rfl, rfl⟩ := sound.phase.of_making (.inr thread)
    unfold Progress at progress
    rw [thread] at progress
    obtain ⟨absent, position, made⟩ := progress
    show state.store.erase _ = before
    rw [made]
    exact Store.erase_put absent
  | readEmpty thread => exact progress_afterPass (progress.shares (by rw [thread]; rfl))
  | endPass thread => exact progress_afterPass (progress.shares (by rw [thread]; rfl))
  | readPage thread | skip thread | moveFailed thread | nextPage thread | lockAgain thread =>
    exact progress.shares (by rw [thread]; rfl)
  | move thread status found present =>
    obtain ⟨-, rfl, rfl⟩ := sound.phase.of_working thread rfl
    exact (progress.shares (by rw [thread]; rfl)).move found present
  | finish thread =>
    obtain ⟨dir, rfl, rfl⟩ := sound.phase.of_working thread rfl
    refine Or.inr ⟨progress.shares (by rw [thread]; rfl), ?_⟩
    simp only [dir]
    exact setting.opened_installed
  | answer => exact progress
  | bind free binds => cases binds <;> cases own
  | removeLookup | removeFailed | removeEntry | takeAway => cases own

theorem progress_of_reaches {start state : SplitState} (ready : setting.Ready shahash start)
    (reached : Reaches (splitStep shahash servernum) (fun _ event => event.ofThread = true ∧ event.Tidy) start state) :
    setting.Sound shahash state ∧ setting.Scan shahash state ∧ setting.Progress start.store state := by
  induction reached with
  | here =>
    refine ⟨ready_sound ready, ready_scan ready, ?_⟩
    rw [Progress, ready.thread]
  | next _ allowed stepped ih =>
    obtain ⟨sound, scan, progress⟩ := ih
    have move := splitStep_move stepped
    exact ⟨sound.step move, scan.step sound (steady_of_thread allowed.1) move,
      progress.step sound allowed.1 allowed.2 stepped⟩

theorem Phase.of_ended {dir : SkyeDirectory} (phase : setting.Phase dir .ended) :
    dir = ⟨setting.mapping, none⟩ ∧ ¬ setting.Opened dir ∨
      dir = ⟨gigaUpdateMapping setting.mapping setting.cindex, none⟩ ∧ setting.Opened dir := by
  cases phase with
  | closed => exact Or.inl ⟨rfl, setting.not_opened⟩
  | moving impossible => exact impossible.elim
  | installed => exact Or.inr ⟨rfl, setting.opened_installed⟩

/-- A whole split comes to nothing or divides the parent's bucket. -/
theorem doSplit_spec {dir : SkyeDirectory} {store after : Store} {events : List SplitEvent}
    (ready : setting.Ready shahash
      { dir := ⟨setting.mapping, none⟩, store, thread := .start setting.pindex, removals := [] })
    (tidy : ∀ event ∈ events, event.Tidy)
    (split : doSplit shahash servernum ⟨setting.mapping, none⟩ store setting.pindex events = some (dir, after)) :
    dir = ⟨setting.mapping, none⟩ ∧ after = store ∨
      dir = ⟨gigaUpdateMapping setting.mapping setting.cindex, none⟩ ∧ setting.Divides shahash store after := by
  unfold doSplit at split
  split at split
  · rename_i own
    obtain ⟨last, executed, ended⟩ := Option.bind_eq_some_iff.mp split
    split at ended
    · rename_i thread
      cases ended
      have reached : Reaches (splitStep shahash servernum) (fun _ event => event.ofThread = true ∧ event.Tidy) _ last :=
        Reaches.of_execute executed (meets_of_forall (fun event member _ =>
          And.intro (List.all_eq_true.mp own event member) (tidy event member)) _)
      obtain ⟨sound, scan, progress⟩ := progress_of_reaches ready reached
      unfold Progress at progress
      rw [thread] at progress
      rcases (thread ▸ sound.phase).of_ended with ⟨table, closed⟩ | ⟨table, opened⟩
      · obtain ⟨same, -⟩ := progress.resolve_right fun both => closed both.2
        exact Or.inl ⟨table, same⟩
      · obtain ⟨shares, -⟩ := progress.resolve_left fun both => both.2 opened
        have passed : setting.Passed last := by
          rw [Passed, thread]
          exact opened
        exact Or.inr ⟨table, shares.divides (scan.clean passed) fun name held => (sound.contents.child name held).2⟩
    · cases ended
  · cases split

end SplitSetting

end SkyeFS.Server
