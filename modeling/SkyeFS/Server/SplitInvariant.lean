import SkyeFS.Server.Split

/-! What holds in every state of a split, whatever requests come in between.

The entries of the parent bucket are names of the parent, the entries of the child
bucket are names of the parent that migrate, and the child bucket is empty as long as
no request is sent to it. From the moment the split is open, that is, from setting
`splitting_index` on, every name that migrates is served in the child bucket.
-/

set_option autoImplicit false

namespace SkyeFS.Server

open Index Pvfs Foundation Foundation.SuffixTree

/-- A partition of this server and the child it is split into. -/
structure SplitSetting (servernum : Nat) where
  mapping : GigaMapping
  pindex : Nat
  cindex : Nat
  valid : mapping.Valid
  small : mapping.Small
  owner : gigaGetServerForIndex mapping pindex = servernum
  child : gigaIndexForSplitting mapping pindex = some cindex
  bounded : cindex < 2 ^ (maxRadix - 1)

namespace SplitSetting

variable {servernum : Nat} (setting : SplitSetting servernum) (shahash : FileName → Digest)

/-- The partition of a name before the split. -/
def Routes (name : FileName) (index : Nat) : Prop := gigaGetIndexForFile shahash setting.mapping name = some index

def Migrates (name : FileName) : Prop := Suffix setting.cindex (hashNumber shahash name)

instance (name : FileName) : Decidable (setting.Migrates shahash name) :=
  inferInstanceAs (Decidable (Suffix _ _))

/-- Are migrating names served in the child bucket? -/
def Opened (dir : SkyeDirectory) : Prop :=
  dir.splittingIndex = some setting.pindex ∨ setting.cindex ∈ dir.mapping.partitions

instance (dir : SkyeDirectory) : Decidable (setting.Opened dir) := inferInstanceAs (Decidable (_ ∨ _))

/-- The bucket in which a name is served. -/
def Serves (dir : SkyeDirectory) (name : FileName) (index : Nat) : Prop :=
  ∃ found, setting.Routes shahash name found ∧
    index = if setting.Opened dir ∧ found = setting.pindex ∧ setting.Migrates shahash name
      then setting.cindex else found

/-- The thread is between setting `splitting_index` and the end. -/
def Moving : Thread → Prop
  | .scanning pindex cindex _ _ _ | .batch pindex cindex _ _ _ _ | .finishing pindex cindex _
  | .announcing pindex cindex => pindex = setting.pindex ∧ cindex = setting.cindex
  | .start _ | .making _ _ | .misplaced _ _ | .ended => False

/-- The thread has not opened the split, or has given it up. -/
def Closed : Thread → Prop
  | .start pindex => pindex = setting.pindex
  | .making pindex cindex | .misplaced pindex cindex => pindex = setting.pindex ∧ cindex = setting.cindex
  | .ended => True
  | .scanning _ _ _ _ _ | .batch _ _ _ _ _ _ | .finishing _ _ _ | .announcing _ _ => False

inductive Phase : SkyeDirectory → Thread → Prop where
  | closed {thread : Thread} : setting.Closed thread →
      Phase { mapping := setting.mapping, splittingIndex := none } thread
  | moving {thread : Thread} : setting.Moving thread →
      Phase { mapping := setting.mapping, splittingIndex := some setting.pindex } thread
  | installed :
      Phase { mapping := gigaUpdateMapping setting.mapping setting.cindex, splittingIndex := none } .ended

/-- The start of a split: the parent holds its own names, and a child bucket that an earlier attempt
left behind is empty. -/
structure Ready (state : SplitState) : Prop where
  dir : state.dir = { mapping := setting.mapping, splittingIndex := none }
  thread : state.thread = .start setting.pindex
  removals : state.removals = []
  parent : ∀ name, (state.store.find setting.pindex name).isSome → setting.Routes shahash name setting.pindex
  child : ∀ name, state.store.find setting.cindex name = none

/-- The split is open and nothing has moved. -/
def afterOpening (position : Nat) (start : SplitState) : SplitState :=
  { start with
    dir := { mapping := setting.mapping, splittingIndex := some setting.pindex }
    store := Listing.put position (bucketName setting.cindex) ∅ start.store
    thread := .scanning setting.pindex setting.cindex 0 0 false }

/-- The entries of the two buckets are where they may be. -/
structure Contents (dir : SkyeDirectory) (store : Store) : Prop where
  parent : ∀ name, (store.find setting.pindex name).isSome → setting.Routes shahash name setting.pindex
  child : ∀ name, (store.find setting.cindex name).isSome →
    setting.Routes shahash name setting.pindex ∧ setting.Migrates shahash name
  unopened : ¬ setting.Opened dir → ∀ name, store.find setting.cindex name = none
  present : setting.Opened dir → (store.bucket setting.cindex).isSome

structure Sound (state : SplitState) : Prop where
  phase : setting.Phase state.dir state.thread
  contents : setting.Contents shahash state.dir state.store
  parent : state.thread.creating = true ∨ setting.Opened state.dir → (state.store.bucket setting.pindex).isSome
  removals : ∀ removal ∈ state.removals, removal.isdir = false →
    state.thread.locked = false ∧ setting.Serves shahash state.dir removal.name removal.index

variable {setting shahash}

theorem cindex_absent : setting.cindex ∉ setting.mapping.partitions := (gigaIndexForSplitting_some setting.child).2.1

theorem cindex_ne_pindex : setting.cindex ≠ setting.pindex := by
  intro same
  exact setting.cindex_absent (same ▸ (gigaIndexForSplitting_some setting.child).1)

theorem inside : setting.cindex < capacity := setting.bounded.trans (by decide)

theorem Routes.mem {name : FileName} {index : Nat} (routes : setting.Routes shahash name index) :
    index ∈ setting.mapping.partitions :=
  ((gigaGetIndexForFile_eq_some shahash setting.valid).mp routes).2.mem

/-- No name is routed to the child before the split. -/
theorem Routes.ne_cindex {name : FileName} {index : Nat} (routes : setting.Routes shahash name index) :
    index ≠ setting.cindex :=
  fun same => setting.cindex_absent (same ▸ routes.mem)

theorem Routes.unique {name : FileName} {first second : Nat} (one : setting.Routes shahash name first)
    (two : setting.Routes shahash name second) : first = second :=
  Option.some.inj (one.symm.trans two)

theorem migrationStatus (name : FileName) : gigaFileMigrationStatus shahash name setting.cindex =
    some (decide (setting.Migrates shahash name)) := gigaFileMigrationStatus_eq shahash setting.bounded

theorem not_opened : ¬ setting.Opened { mapping := setting.mapping, splittingIndex := none } := by
  rintro (splitting | member)
  · cases splitting
  · exact setting.cindex_absent member

theorem opened_moving : setting.Opened { mapping := setting.mapping, splittingIndex := some setting.pindex } :=
  Or.inl rfl

theorem opened_installed : setting.Opened
    { mapping := gigaUpdateMapping setting.mapping setting.cindex, splittingIndex := none } := by
  refine Or.inr ?_
  rw [partitions_update _ setting.inside]
  exact Finset.mem_insert_self _ _

section
variable {dir : SkyeDirectory} {thread : Thread} {name : FileName}

theorem lookup_installed {found : Nat} (routes : setting.Routes shahash name found) :
    gigaGetIndexForFile shahash (gigaUpdateMapping setting.mapping setting.cindex) name =
      some (if found = setting.pindex ∧ setting.Migrates shahash name then setting.cindex else found) :=
  gigaGetIndexForFile_update shahash setting.valid setting.child setting.bounded routes

/-- The bucket that is entered for a name of this server is the one that serves it. -/
theorem Phase.select (phase : setting.Phase dir thread) {index : Nat}
    (found : gigaGetIndexForFile shahash dir.mapping name = some index) :
    ∃ selected, selectBucket shahash dir name index = some selected ∧ setting.Serves shahash dir name selected := by
  cases phase with
  | closed =>
    refine ⟨index, by simp [selectBucket], index, found, ?_⟩
    simp [setting.not_opened]
  | moving =>
    -- Only the partition that is splitting has its names told apart.
    by_cases splitting : index = setting.pindex
    · subst splitting
      refine ⟨if setting.Migrates shahash name then setting.cindex else setting.pindex, ?_, setting.pindex, found, ?_⟩
      · simp [selectBucket, setting.child, migrationStatus]
      · simp [setting.opened_moving]
    · refine ⟨index, ?_, index, found, ?_⟩
      · simp [selectBucket, Ne.symm splitting]
      · simp [splitting]
  | installed =>
    obtain ⟨before, routes⟩ := gigaGetIndexForFile_isSome shahash setting.valid setting.small name
    refine ⟨index, by simp [selectBucket], before, routes, ?_⟩
    simp only [setting.opened_installed, true_and]
    exact Option.some.inj (found.symm.trans (lookup_installed routes))

theorem Phase.entered {store : Store} (phase : setting.Phase dir thread) {index : Nat}
    (entered : enterBucket shahash servernum dir store name = some (.ok index)) :
    setting.Serves shahash dir name index := by
  obtain ⟨-, found, here, selection⟩ := enterBucket_ok.mp entered
  obtain ⟨selected, same, serves⟩ := phase.select (locality_here.mp here).1
  cases Option.some.inj (selection.symm.trans same)
  exact serves

/-- A name that is sent elsewhere is served by a bucket of another server. -/
theorem Phase.redirected {bitmap : GigaMapping} (phase : setting.Phase dir thread)
    (again : locality shahash servernum dir name = some (.again bitmap)) :
    bitmap = dir.mapping ∧ ∃ index, setting.Serves shahash dir name index ∧
      gigaGetServerForIndex setting.mapping index ≠ servernum := by
  obtain ⟨rfl, index, found, foreign⟩ := locality_again.mp again
  obtain ⟨selected, selection, serves⟩ := phase.select found
  refine ⟨rfl, selected, serves, ?_⟩
  cases phase with
  | closed | installed =>
    simp only [selectBucket, reduceCtorEq, if_false] at selection
    cases selection
    exact foreign
  | moving =>
    -- The splitting partition belongs to this server, so it is not the one of the name.
    have other : some setting.pindex ≠ some index := by
      intro same
      cases same
      exact foreign setting.owner
    simp only [selectBucket, other, if_false] at selection
    cases selection
    exact foreign

theorem Phase.outcome {store : Store} {reply : Reply Nat} (phase : setting.Phase dir thread)
    (entered : enterBucket shahash servernum dir store name = some reply) :
    ∃ index, setting.Serves shahash dir name index ∧
      (reply = .ok index ∨ reply = .fail .enoent ∧ store.bucket index = none ∨
        reply = .again dir.mapping ∧ gigaGetServerForIndex setting.mapping index ≠ servernum) := by
  obtain ⟨choice, decision, entered⟩ := Option.bind_eq_some_iff.mp entered
  cases choice with
  | again bitmap =>
    cases entered
    obtain ⟨rfl, index, serves, foreign⟩ := phase.redirected decision
    exact ⟨index, serves, Or.inr (Or.inr ⟨rfl, foreign⟩)⟩
  | here found =>
    obtain ⟨selected, selection, entered⟩ := Option.bind_eq_some_iff.mp entered
    obtain ⟨index, same, serves⟩ := phase.select (locality_here.mp decision).1
    cases Option.some.inj (selection.symm.trans same)
    refine ⟨selected, serves, ?_⟩
    split at entered
    · cases entered
      exact Or.inl rfl
    · rename_i absent
      split at entered
      · cases entered
        exact Or.inr (Or.inl ⟨rfl, Option.not_isSome_iff_eq_none.mp absent⟩)
      · cases entered

theorem Serves.unique {first second : Nat} (one : setting.Serves shahash dir name first)
    (two : setting.Serves shahash dir name second) : first = second := by
  obtain ⟨found, routes, rfl⟩ := one
  obtain ⟨other, otherRoutes, rfl⟩ := two
  cases routes.unique otherRoutes
  rfl

theorem Serves.parent (serves : setting.Serves shahash dir name setting.pindex) :
    setting.Routes shahash name setting.pindex ∧ ¬ (setting.Opened dir ∧ setting.Migrates shahash name) := by
  -- A name served in the parent's bucket belongs to the parent and is not the child's business.
  obtain ⟨found, routes, same⟩ := serves
  split at same
  · exact absurd same.symm setting.cindex_ne_pindex
  · rename_i kept
    subst same
    exact ⟨routes, fun both => kept ⟨both.1, rfl, both.2⟩⟩

theorem Serves.child (serves : setting.Serves shahash dir name setting.cindex) :
    setting.Opened dir ∧ setting.Routes shahash name setting.pindex ∧ setting.Migrates shahash name := by
  obtain ⟨found, routes, same⟩ := serves
  split at same
  · rename_i diverted
    obtain ⟨opened, rfl, migrates⟩ := diverted
    exact ⟨opened, routes, migrates⟩
  · exact absurd same.symm routes.ne_cindex

end

section
variable {dir : SkyeDirectory} {store : Store} (contents : setting.Contents shahash dir store)
include contents

theorem Contents.shrink {fewer : Store} (keys : fewer.keys = store.keys)
    (subset : ∀ index name, (fewer.find index name).isSome → (store.find index name).isSome) :
    setting.Contents shahash dir fewer where
  present opened := by
    rw [Store.bucket_isSome, keys, ← Store.bucket_isSome]
    exact contents.present opened
  parent name found := contents.parent name (subset _ _ found)
  child name found := contents.child name (subset _ _ found)
  unopened closed name := by
    by_contra present
    have found := subset _ _ (Option.isSome_iff_ne_none.mpr present)
    rw [contents.unopened closed name] at found
    cases found

theorem Contents.unbind (index : Nat) (name : FileName) : setting.Contents shahash dir (store.unbind index name) :=
  contents.shrink Store.keys_unbind fun _ _ found => (Store.isSome_find_unbind found).1

theorem Contents.clear (source : Source) : setting.Contents shahash dir (source.clear store) :=
  contents.shrink source.keys_clear fun _ _ found => source.isSome_find_clear found

theorem Contents.bind {position index : Nat} {name : FileName} {object : Object}
    (serves : setting.Serves shahash dir name index) :
    setting.Contents shahash dir (store.bind position index name object) where
  present opened := by
    rw [Store.bucket_isSome, Store.keys_bind, ← Store.bucket_isSome]
    exact contents.present opened
  parent entry found := by
    rcases Store.isSome_find_bind found with ⟨rfl, rfl⟩ | found
    · exact serves.parent.1
    · exact contents.parent entry found
  child entry found := by
    rcases Store.isSome_find_bind found with ⟨rfl, rfl⟩ | found
    · exact serves.child.2
    · exact contents.child entry found
  unopened closed entry := by
    by_contra present
    rcases Store.isSome_find_bind (Option.isSome_iff_ne_none.mpr present) with ⟨rfl, rfl⟩ | found
    · exact closed serves.child.1
    · rw [contents.unopened closed entry] at found
      cases found

theorem Contents.bind_elsewhere {position index : Nat} {name : FileName} {object : Object}
    (parent : setting.pindex ≠ index) (child : setting.cindex ≠ index) :
    setting.Contents shahash dir (store.bind position index name object) where
  present opened := by
    rw [Store.bucket_isSome, Store.keys_bind, ← Store.bucket_isSome]
    exact contents.present opened
  parent entry found := contents.parent entry
    ((Store.isSome_find_bind found).resolve_left fun same => parent same.1)
  child entry found := contents.child entry
    ((Store.isSome_find_bind found).resolve_left fun same => child same.1)
  unopened closed entry := by
    rw [Store.find_bind_of_ne fun same => child same.1]
    exact contents.unopened closed entry

theorem Contents.move {position : Nat} {name : FileName} {object : Object} (opened : setting.Opened dir)
    (found : (store.find setting.pindex name).isSome) (migrates : setting.Migrates shahash name) :
    setting.Contents shahash dir ((store.unbind setting.pindex name).bind position setting.cindex name object) := by
  refine (contents.unbind setting.pindex name).bind ⟨setting.pindex, contents.parent name found, ?_⟩
  rw [if_pos ⟨opened, rfl, migrates⟩]

theorem Contents.reopen {after : SkyeDirectory} (before : setting.Opened dir) (opened : setting.Opened after) :
    setting.Contents shahash after store :=
  ⟨contents.parent, contents.child, fun closed => absurd opened closed, fun _ => contents.present before⟩

theorem Contents.renew {fresh : Store} {after : SkyeDirectory} (empty : ∀ name, fresh.find setting.cindex name = none)
    (others : ∀ name, fresh.find setting.pindex name = store.find setting.pindex name)
    (present : setting.Opened after → (fresh.bucket setting.cindex).isSome) :
    setting.Contents shahash after fresh where
  present := present
  parent name found := contents.parent name (others name ▸ found)
  child name found := by
    rw [empty name] at found
    cases found
  unopened _ := empty

end

theorem find_made {store : Store} {position : Nat} {name : FileName} :
    Store.find (Listing.put position (bucketName setting.cindex) ∅ store) setting.cindex name = none ∧
      Store.find (Listing.put position (bucketName setting.cindex) ∅ store) setting.pindex name =
        store.find setting.pindex name := by
  simp [Store.find, Store.bucket_put, setting.cindex_ne_pindex.symm]

theorem present_made {store : Store} {position : Nat} :
    (Store.bucket (Listing.put position (bucketName setting.cindex) ∅ store) setting.cindex).isSome := by
  simp [Store.bucket_put]

theorem find_dropped {store : Store} {name : FileName} :
    Store.find (store.erase (bucketName setting.cindex)) setting.cindex name = none ∧
      Store.find (store.erase (bucketName setting.cindex)) setting.pindex name =
        store.find setting.pindex name := by
  simp [Store.find, Store.bucket_erase, setting.cindex_ne_pindex.symm]

theorem ready_sound {state : SplitState} (ready : setting.Ready shahash state) : setting.Sound shahash state where
  phase := by
    rw [ready.dir, ready.thread]
    exact .closed rfl
  contents := by
    refine ⟨ready.parent, fun name found => ?_, fun _ => ready.child, fun opened => ?_⟩
    · rw [ready.child name] at found
      cases found
    · rw [ready.dir] at opened
      exact absurd opened setting.not_opened
  parent begun := by
    rw [ready.dir, ready.thread] at begun
    rcases begun with creating | opened
    · cases creating
    · exact absurd opened setting.not_opened
  removals removal member := by
    rw [ready.removals] at member
    cases member

section
variable {start : SplitState} (ready : setting.Ready shahash start)
include ready

theorem Ready.begins {bucket : Bucket} (found : start.store.bucket setting.pindex = some bucket)
    (overflow : splitThreshold < bucket.keys.length) :
    splitStep shahash servernum start (.begin_ true) =
      some { start with thread := .making setting.pindex setting.cindex } := by
  have unread : start.unread = true := by simp [SplitState.unread, ready.removals]
  have child : gigaIndexForSplitting start.dir.mapping setting.pindex = some setting.cindex := by
    rw [ready.dir]
    exact setting.child
  simp [splitStep, ready.thread, unread, child, found, overflow.not_ge]

theorem Ready.makes (absent : start.store.bucket setting.cindex = none) (position : Nat) :
    splitStep shahash servernum { start with thread := .making setting.pindex setting.cindex }
      (.makeChild .inPlace position) = some (setting.afterOpening position start) := by
  simp [splitStep, absent, afterOpening, ready.dir]

/-- The split of an overflowing bucket opens. -/
theorem Ready.opens {bucket : Bucket} (found : start.store.bucket setting.pindex = some bucket)
    (overflow : splitThreshold < bucket.keys.length) (absent : start.store.bucket setting.cindex = none)
    (position : Nat) :
    execute (splitStep shahash servernum) start [.begin_ true, .makeChild .inPlace position] =
      some (setting.afterOpening position start) := by
  simp [execute, ready.begins found overflow, ready.makes absent]

end

section
variable {dir : SkyeDirectory} {thread : Thread} (phase : setting.Phase dir thread)
include phase

theorem Phase.table_of_splitting (splitting : dir.splittingIndex = some setting.pindex) :
    dir.mapping = setting.mapping := by
  cases phase with
  | closed | installed => cases splitting
  | moving => rfl

theorem Phase.table_of_unopened (unopened : ¬ setting.Opened dir) : dir.mapping = setting.mapping := by
  cases phase with
  | closed | moving => rfl
  | installed => exact absurd setting.opened_installed unopened

theorem Phase.of_start {pindex : Nat} (same : thread = .start pindex) :
    dir = { mapping := setting.mapping, splittingIndex := none } ∧ pindex = setting.pindex := by
  subst same
  cases phase with
  | closed still => exact ⟨rfl, still⟩
  | moving impossible => exact impossible.elim

theorem Phase.of_making {pindex cindex : Nat}
    (same : thread = .making pindex cindex ∨ thread = .misplaced pindex cindex) :
    dir = { mapping := setting.mapping, splittingIndex := none } ∧ pindex = setting.pindex ∧
      cindex = setting.cindex := by
  rcases same with rfl | rfl <;> cases phase with
  | closed still => exact ⟨rfl, still⟩
  | moving impossible => exact impossible.elim

theorem Phase.of_working {working : Thread} (same : thread = working) (works : working.working = true) :
    dir = { mapping := setting.mapping, splittingIndex := some setting.pindex } ∧ setting.Moving working := by
  subst same
  cases phase with
  | closed still => cases thread <;> first | exact still.elim | cases works
  | moving still => exact ⟨rfl, still⟩
  | installed => cases works

end

theorem Sound.thread {state : SplitState} {thread : Thread} (sound : setting.Sound shahash state)
    (phase : setting.Phase state.dir thread)
    (parent : thread.creating = false ∨ (state.store.bucket setting.pindex).isSome)
    (lock : thread.locked = true → state.thread.locked = true ∨ state.unread = true) :
    setting.Sound shahash { state with thread := thread } where
  phase := phase
  contents := sound.contents
  parent begun := by
    rcases begun with creating | opened
    · exact parent.resolve_left fun idle => absurd (idle.symm.trans creating) (by decide)
    · exact sound.parent (.inr opened)
  removals removal member file := by
    obtain ⟨free, serves⟩ := sound.removals removal member file
    refine ⟨?_, serves⟩
    -- A remove of a file holds the read lock, which the thread would have had to wait for.
    by_contra locked
    rcases lock (by simpa using locked) with before | unread
    · exact absurd (free.symm.trans before) (by decide)
    · have directory := List.all_eq_true.mp unread removal member
      exact absurd (file.symm.trans directory) (by decide)

theorem Sound.request {state : SplitState} {store : Store} {removals : List Removal}
    (sound : setting.Sound shahash state) (contents : setting.Contents shahash state.dir store)
    (keys : store.keys = state.store.keys) (fewer : ∀ removal ∈ removals, removal ∈ state.removals) :
    setting.Sound shahash { state with store := store, removals := removals } where
  phase := sound.phase
  contents := contents
  parent begun := by
    rw [Store.bucket_isSome, keys, ← Store.bucket_isSome]
    exact sound.parent begun
  removals removal member file := sound.removals removal (fewer removal member) file

theorem Sound.unread {state : SplitState} (sound : setting.Sound shahash state) (locked : state.thread.locked = true) :
    ∀ removal ∈ state.removals, removal.isdir = true := by
  -- With the write lock held, no remove of a file is under way.
  intro removal member
  by_contra file
  obtain ⟨free, -⟩ := sound.removals removal member (by simpa using file)
  exact absurd (free.symm.trans locked) (by decide)

theorem Sound.excluded {state : SplitState} {wanted : Removal → Prop} (sound : setting.Sound shahash state)
    (locked : state.thread.locked = true) : ∀ removal ∈ state.removals, removal.isdir = false → wanted removal :=
  fun removal member file => absurd (file.symm.trans (sound.unread locked removal member)) (by decide)

theorem moving_afterPass {moved : Nat} {held : Bool} :
    setting.Moving (afterPass setting.pindex setting.cindex moved held) := by
  unfold afterPass
  split <;> exact ⟨rfl, rfl⟩

theorem creating_afterPass {pindex cindex moved : Nat} {held : Bool} :
    (afterPass pindex cindex moved held).creating = false := by
  unfold afterPass
  split <;> rfl

theorem locked_afterPass {pindex cindex moved : Nat} {held : Bool} :
    (afterPass pindex cindex moved held).locked = held := by
  unfold afterPass
  split <;> rfl

theorem bucket_made {store : Store} {position : Nat} (present : (store.bucket setting.pindex).isSome) :
    (Store.bucket (Listing.put position (bucketName setting.cindex) ∅ store) setting.pindex).isSome := by
  rw [Store.bucket_put, if_neg setting.cindex_ne_pindex.symm]
  exact present

theorem bucket_dropped {store : Store} (present : (store.bucket setting.pindex).isSome) :
    (Store.bucket (store.erase (bucketName setting.cindex)) setting.pindex).isSome := by
  rw [Store.bucket_erase, if_neg setting.cindex_ne_pindex.symm]
  exact present

theorem Sound.failed {state : SplitState} (sound : setting.Sound shahash state)
    (dir : state.dir = { mapping := setting.mapping, splittingIndex := none }) :
    setting.Sound shahash { state with thread := .ended } := by
  refine sound.thread ?_ (.inl rfl) nofun
  rw [dir]
  exact .closed trivial

theorem Sound.made {state : SplitState} {thread : Thread} {dir : SkyeDirectory} {position : Nat}
    (sound : setting.Sound shahash state) (at_ : state.thread = .making setting.pindex setting.cindex)
    (phase : setting.Phase dir thread) :
    setting.Sound shahash { state with
      store := Listing.put position (bucketName setting.cindex) ∅ state.store, dir := dir, thread := thread } := by
  have parent := sound.parent (.inl (by rw [at_]; rfl))
  exact ⟨phase, sound.contents.renew (fun _ => find_made.1) (fun _ => find_made.2) fun _ => present_made,
    fun _ => bucket_made parent, sound.excluded (by rw [at_]; rfl)⟩

theorem Sound.moved {state : SplitState} {token moved outcount position : Nat} {name : FileName} {rest : List FileName}
    {object : Object} (sound : setting.Sound shahash state)
    (thread : state.thread = .batch setting.pindex setting.cindex token moved outcount (name :: rest))
    (migrates : setting.Migrates shahash name) (held : (state.store.find setting.pindex name).isSome) :
    setting.Sound shahash { state with
      store := (state.store.unbind setting.pindex name).bind position setting.cindex name object
      thread := .batch setting.pindex setting.cindex token (moved + 1) outcount rest } := by
  obtain ⟨dir, -⟩ := sound.phase.of_working thread rfl
  have opened : setting.Opened state.dir := by
    rw [dir]
    exact setting.opened_moving
  -- The move is a step of the thread together with a change of the tree.
  have advanced : setting.Sound shahash { state with
      thread := .batch setting.pindex setting.cindex token (moved + 1) outcount rest } :=
    sound.thread (dir ▸ .moving ⟨rfl, rfl⟩) (.inl rfl) fun _ => Or.inl (by rw [thread]; rfl)
  exact advanced.request (sound.contents.move opened held migrates) (Store.keys_bind.trans Store.keys_unbind)
    fun _ member => member

/-- Every step of the machine, whatever the request, keeps the invariant. -/
theorem Sound.step {state after : SplitState} {event : SplitEvent} (sound : setting.Sound shahash state)
    (move : SplitMove shahash servernum state event after) : setting.Sound shahash after := by
  cases move with
  | begin_ thread unread child present =>
    obtain ⟨dir, rfl⟩ := sound.phase.of_start thread
    rw [dir, setting.child] at child
    cases child
    refine sound.thread ?_ (.inr present) fun _ => Or.inr unread
    rw [dir]
    exact .closed ⟨rfl, rfl⟩
  | decline thread => exact sound.failed (sound.phase.of_start thread).1
  | mkdirFails thread => exact sound.failed (sound.phase.of_making (.inl thread)).1
  | removeFails thread => exact sound.failed (sound.phase.of_making (.inr thread)).1
  | makeMisplaced thread absent =>
    obtain ⟨dir, rfl, rfl⟩ := sound.phase.of_making (.inl thread)
    exact sound.made thread (dir ▸ .closed ⟨rfl, rfl⟩)
  | makeInPlace thread absent =>
    obtain ⟨dir, rfl, rfl⟩ := sound.phase.of_making (.inl thread)
    exact sound.made thread (dir ▸ .moving ⟨rfl, rfl⟩)
  | dropChild thread =>
    obtain ⟨dir, rfl, rfl⟩ := sound.phase.of_making (.inr thread)
    have parent := sound.parent (.inl (by rw [thread]; rfl))
    refine ⟨?_, sound.contents.renew (fun _ => find_dropped.1) (fun _ => find_dropped.2) fun opened => ?_,
      fun _ => bucket_dropped parent, sound.excluded (by rw [thread]; rfl)⟩
    · simp only [dir]
      exact .closed ⟨rfl, rfl⟩
    · simp only [dir] at opened
      exact absurd opened setting.not_opened
  | readEmpty thread ready empty =>
    obtain ⟨dir, rfl, rfl⟩ := sound.phase.of_working thread rfl
    refine sound.thread ?_ (.inl creating_afterPass) fun _ => ?_
    · rw [dir]
      exact .moving moving_afterPass
    · rw [thread]
      simpa [Thread.locked] using ready
  | readPage thread ready | lockAgain thread ready =>
    obtain ⟨dir, moving⟩ := sound.phase.of_working thread rfl
    refine sound.thread ?_ (.inl rfl) fun _ => ?_
    · rw [dir]
      exact .moving moving
    · rw [thread]
      simpa [Thread.locked] using ready
  | skip thread | moveFailed thread =>
    obtain ⟨dir, moving⟩ := sound.phase.of_working thread rfl
    refine sound.thread ?_ (.inl rfl) fun _ => Or.inl (by rw [thread]; rfl)
    rw [dir]
    exact .moving moving
  | move thread status found present =>
    obtain ⟨-, rfl, rfl⟩ := sound.phase.of_working thread rfl
    rw [migrationStatus] at status
    exact sound.moved thread (by simpa using status) (Option.isSome_of_eq_some found)
  | nextPage thread =>
    obtain ⟨dir, moving⟩ := sound.phase.of_working thread rfl
    refine sound.thread ?_ (.inl rfl) nofun
    rw [dir]
    exact .moving moving
  | endPass thread =>
    obtain ⟨dir, rfl, rfl⟩ := sound.phase.of_working thread rfl
    refine sound.thread ?_ (.inl creating_afterPass) fun locked => ?_
    · rw [dir]
      exact .moving moving_afterPass
    · rw [locked_afterPass] at locked
      cases locked
  | finish thread =>
    obtain ⟨dir, rfl, rfl⟩ := sound.phase.of_working thread rfl
    have opened : setting.Opened state.dir := by
      rw [dir]
      exact setting.opened_moving
    refine ⟨?_, ?_, fun _ => sound.parent (.inr opened), sound.excluded (by rw [thread]; rfl)⟩
    · simp only [dir]
      exact .installed
    · -- Setting the bit takes over from `splitting_index`: the split stays open.
      have contents := sound.contents
      rw [dir] at contents
      simp only [dir]
      exact contents.reopen setting.opened_moving setting.opened_installed
  | answer => exact sound
  | bind free binds entered found fresh =>
    have serves := sound.phase.entered entered
    exact sound.request ((sound.contents.clear _).bind serves) (Store.keys_bind.trans Source.keys_clear)
      fun _ member => member
  | removeLookup free entered =>
    refine ⟨sound.phase, sound.contents, sound.parent, fun removal member file => ?_⟩
    rcases List.mem_append.mp member with earlier | new
    · exact sound.removals removal earlier file
    · cases List.mem_singleton.mp new
      exact ⟨free, sound.phase.entered entered⟩
  | removeFailed =>
    exact sound.request sound.contents rfl fun _ member => List.mem_of_mem_eraseIdx member
  | removeEntry found =>
    exact sound.request (sound.contents.unbind _ _) Store.keys_unbind fun _ member => List.mem_of_mem_eraseIdx member
  | takeAway => exact sound.request (sound.contents.unbind _ _) Store.keys_unbind fun _ member => member

theorem sound_of_reaches {start state : SplitState} {allowed : SplitState → SplitEvent → Prop}
    (ready : setting.Ready shahash start)
    (reached : Reaches (splitStep shahash servernum) allowed start state) : setting.Sound shahash state :=
  reached.invariant (ready_sound ready) fun _ _ _ before _ stepped => before.step (splitStep_move stepped)

end SplitSetting

end SkyeFS.Server
