import SkyeFS.Server.Restart
import SkyeFS.Server.SplitScan

/-! A server that loads the directory while another one splits a partition of it.

The loading server takes the child's partition into its table as soon as the child's
bucket has its name, long before the splitter announces it with `bucket_add`. If it
owns the child, it then serves names whose entries are still in the parent's bucket.
-/

set_option autoImplicit false

namespace SkyeFS.Server

open Index Pvfs Foundation Foundation.SuffixTree

/-- The split on one server, and the directory in the cache of another one. -/
structure LoadState where
  split : SplitState
  peer : Option SkyeDirectory

inductive LoadEvent where
  -- A step of the splitter, or an entry taken out of a bucket by any server.
  | split (event : SplitEvent)
  -- The first `cache_fetch` of the peer.
  | load
  -- A create, mkdir or rename that the peer serves.
  | peer (event : SplitEvent)

section
variable (shahash : FileName → Digest) (servernum peernum : Nat) (zerothServer serverCount : UInt32)

def LoadState.fetch (state : LoadState) : SkyeDirectory :=
  state.peer.getD (newDirectory (fun _ => true) zerothServer serverCount state.split.store.keys)

/-- The peer's cache after a step of the splitter, whose last one calls `skye_rpc_bucket_add` on the
owner of the child. -/
def LoadState.informed (state : LoadState) (event : SplitEvent) : Option SkyeDirectory :=
  match event, state.split.thread with
  | .finish, .announcing _ cindex =>
      let server := gigaGetServerForIndex state.split.dir.mapping cindex
      if server ≠ servernum ∧ server = peernum then
        let dir := state.fetch zerothServer serverCount
        some { dir with mapping := gigaUpdateMapping dir.mapping cindex }
      else state.peer
  | _, _ => state.peer

/-- The peer is not splitting; its handlers need no more than its directory. -/
def peerServe (dir : SkyeDirectory) (store : Store) : SplitEvent → Option Store
  | .create name object position => (create shahash peernum dir store name object position).map Prod.snd
  | .mkdir name object position bucketError =>
      (mkdir shahash peernum dir store name object position bucketError).map Prod.snd
  | .rename source name position => (rename shahash peernum dir store source name position).map Prod.snd
  | _ => none

def loadStep (state : LoadState) : LoadEvent → Option LoadState
  | .split event => do
      let after ← splitStep shahash servernum state.split event
      some { split := after, peer := state.informed servernum peernum zerothServer serverCount event }
  | .load =>
      match state.peer with
      | some _ => none
      | none => some { state with peer := some (state.fetch zerothServer serverCount) }
  | .peer event => do
      let dir ← state.peer
      let store ← peerServe shahash peernum dir state.split.store event
      some { state with split := { state.split with store } }

variable {shahash servernum peernum zerothServer serverCount}

theorem peerServe_some {dir : SkyeDirectory} {store after : Store} {event : SplitEvent}
    (served : peerServe shahash peernum dir store event = some after) :
    after = store ∨ ∃ (source : Source) (name : FileName) (index position : Nat) (object : Object),
      enterBucket shahash peernum dir store name = some (.ok index) ∧
        after = (source.clear store).bind position index name object ∧
        ∀ state : SplitState, state.dir = dir → state.store = store → ∀ place entry, source = .bucket place entry →
          Takes shahash peernum state event place entry := by
  obtain ⟨source, name, binds⟩ : ∃ source name, Binds event source name := by
    cases event <;> simp only [peerServe, reduceCtorEq] at served
    · exact ⟨_, _, .create⟩
    · exact ⟨_, _, .mkdir⟩
    · exact ⟨_, _, .rename⟩
  -- The handlers are those of a server whose split thread is idle.
  have stepped : splitStep shahash peernum ⟨dir, store, .ended, []⟩ event = some ⟨dir, after, .ended, []⟩ := by
    cases binds <;> obtain ⟨result, computed, rfl⟩ := Option.map_eq_some_iff.mp served <;>
      simp [splitStep, handle, Thread.locked, computed]
  cases binds <;> cases splitStep_move stepped with
  | answer => exact Or.inl rfl
  | bind free binds entered found fresh moves file =>
    refine Or.inr ⟨_, _, _, _, _, entered, rfl, ?_⟩
    rintro state rfl rfl place entry rfl
    exact binds.takes entered moves (Option.isSome_of_eq_some found) file

end

namespace SplitSetting

variable {servernum : Nat} (setting : SplitSetting servernum) (shahash : FileName → Digest)

/-- The split is open and every migrating entry has left the parent's bucket. -/
structure Cleared (state : SplitState) : Prop where
  opened : setting.Opened state.dir
  clean : ∀ name, (state.store.find setting.pindex name).isSome → ¬ setting.Migrates shahash name

structure PeerTable (state : SplitState) (dir : SkyeDirectory) : Prop where
  idle : dir.splittingIndex = none
  valid : dir.mapping.Valid
  small : dir.mapping.Small
  placement : dir.mapping.SamePlacement setting.mapping
  moved : setting.cindex ∈ dir.mapping.partitions → setting.Cleared shahash state

structure Joined (all : Finset Nat) (state : LoadState) : Prop where
  sound : setting.Sound shahash state.split
  scan : setting.Scan shahash state.split
  listed : setting.Listed all state.split.store
  peer : ∀ dir, state.peer = some dir → setting.PeerTable shahash state.split dir

/-- The directory is loaded before the child has a bucket or after the last migrating entry has left
the parent's bucket, and no quiet pass is shifted. -/
def Timely (peernum : Nat) (state : LoadState) : LoadEvent → Prop
  | .load => state.split.store.bucket setting.cindex = none ∨ setting.Cleared shahash state.split
  | .split event => setting.Steady shahash state.split event
  | .peer event => ∀ dir, state.peer = some dir → ∀ name,
      Takes shahash peernum { state.split with dir } event setting.pindex name →
        ¬ setting.Shifts shahash state.split name

variable {setting shahash}

theorem Sound.opened_step {state after : SplitState} {event : SplitEvent} (sound : setting.Sound shahash state)
    (opened : setting.Opened state.dir) (move : SplitMove shahash servernum state event after) :
    setting.Opened after.dir := by
  cases move with
  | makeInPlace thread =>
    obtain ⟨-, rfl, -⟩ := sound.phase.of_making (.inl thread)
    exact Or.inl rfl
  | finish thread =>
    obtain ⟨dir, -, rfl⟩ := sound.phase.of_working thread rfl
    simp only [dir]
    exact setting.opened_installed
  | _ => exact opened

theorem Cleared.step {state after : SplitState} {event : SplitEvent} (cleared : setting.Cleared shahash state)
    (sound : setting.Sound shahash state) (move : SplitMove shahash servernum state event after) :
    setting.Cleared shahash after := by
  -- Once the split is open, no step brings a migrating entry into the parent's bucket.
  refine ⟨sound.opened_step cleared.opened move, fun name held => ?_⟩
  cases move with
  | makeMisplaced thread | makeInPlace thread =>
    obtain ⟨-, -, rfl⟩ := sound.phase.of_making (.inl thread)
    exact cleared.clean name (find_made.2 ▸ held)
  | dropChild thread =>
    obtain ⟨-, -, rfl⟩ := sound.phase.of_making (.inr thread)
    exact cleared.clean name (find_dropped.2 ▸ held)
  | move thread =>
    obtain ⟨-, rfl, rfl⟩ := sound.phase.of_working thread rfl
    rcases Store.isSome_find_bind held with ⟨same, -⟩ | kept
    · exact absurd same.symm setting.cindex_ne_pindex
    · exact cleared.clean name (Store.isSome_find_unbind kept).1
  | bind free binds entered =>
    rcases Store.isSome_find_bind held with ⟨rfl, rfl⟩ | kept
    · exact fun migrates => (sound.phase.entered entered).parent.2 ⟨cleared.opened, migrates⟩
    · exact cleared.clean name (Source.isSome_find_clear kept)
  | removeEntry | takeAway => exact cleared.clean name (Store.isSome_find_unbind held).1
  | _ => exact cleared.clean name held

theorem PeerTable.mono {state after : SplitState} {dir : SkyeDirectory} (table : setting.PeerTable shahash state dir)
    (keeps : setting.Cleared shahash state → setting.Cleared shahash after) : setting.PeerTable shahash after dir :=
  { table with moved := fun member => keeps (table.moved member) }

section
variable {peernum : Nat} {all : Finset Nat} (placed : setting.Placed all) (other : peernum ≠ servernum)

section
variable {state : SplitState} {dir : SkyeDirectory} {name : FileName} {index : Nat}
variable (table : setting.PeerTable shahash state dir)
include table

theorem PeerTable.here (here : locality shahash peernum dir name = some (.here setting.cindex)) :
    setting.Cleared shahash state ∧ setting.Migrates shahash name := by
  have deepest := ((gigaGetIndexForFile_eq_some shahash table.valid).mp (locality_here.mp here).1).2
  exact ⟨table.moved deepest.mem, deepest.suffix⟩

theorem PeerTable.select : selectBucket shahash dir name index = some index := by
  simp [selectBucket, table.idle]

include other

theorem PeerTable.entered {store : Store} (entered : enterBucket shahash peernum dir store name = some (.ok index)) :
    setting.pindex ≠ index ∧
      (index = setting.cindex → setting.Cleared shahash state ∧ setting.Migrates shahash name) := by
  -- The peer never enters the parent's bucket, and the child's only once everything has moved.
  obtain ⟨-, found, here, selection⟩ := enterBucket_ok.mp entered
  cases Option.some.inj (table.select.symm.trans selection)
  refine ⟨?_, ?_⟩
  · -- The parent's partition belongs to the splitter by every table.
    rintro rfl
    have own := (locality_here.mp here).2
    rw [table.placement.server, setting.owner] at own
    exact other own.symm
  · rintro rfl
    exact table.here here

end

section
include placed

theorem Joined.serve {state : LoadState} {dir : SkyeDirectory} {event : SplitEvent} {store : Store}
    (other : peernum ≠ servernum) (joined : setting.Joined shahash all state) (cached : state.peer = some dir)
    (timely : setting.Timely shahash peernum state (.peer event))
    (served : peerServe shahash peernum dir state.split.store event = some store) :
    setting.Joined shahash all { state with split := { state.split with store } } := by
  rcases peerServe_some served with rfl | ⟨source, name, index, position, object, entered, rfl, taken⟩
  · exact joined
  obtain ⟨notParent, child⟩ := (joined.peer dir cached).entered other entered
  -- A name of the child is one that the splitter would have put there itself.
  have contents : setting.Contents shahash state.split.dir
      ((source.clear state.split.store).bind position index name object) := by
    by_cases same : index = setting.cindex
    · subst same
      obtain ⟨cleared, migrates⟩ := child rfl
      refine (joined.sound.contents.clear source).bind ⟨setting.pindex, placed.routes_of_migrates migrates, ?_⟩
      rw [if_pos ⟨cleared.opened, rfl, migrates⟩]
    · exact (joined.sound.contents.clear source).bind_elsewhere notParent (Ne.symm same)
  have keys : ((source.clear state.split.store).bind position index name object).keys = state.split.store.keys := by
    rw [Store.keys_bind, Source.keys_clear]
  refine ⟨joined.sound.request contents keys fun _ member => member,
    joined.scan.bind joined.sound (fun entry same => ?_) fun same => absurd same notParent,
    joined.listed.of_keys keys, fun table loaded => ?_⟩
  · exact timely dir cached entry (taken { state.split with dir } rfl rfl _ _ same)
  refine (joined.peer table loaded).mono fun cleared => ⟨cleared.opened, fun entry held => ?_⟩
  rcases Store.isSome_find_bind held with ⟨same, -⟩ | kept
  · exact absurd same notParent
  · exact cleared.clean entry (Source.isSome_find_clear kept)

variable {zerothServer serverCount : UInt32}
  (placement : (gigaInitMapping zerothServer serverCount).SamePlacement setting.mapping)
include placement

theorem table_loaded {state : SplitState} (listed : setting.Listed all state.store)
    (timely : state.store.bucket setting.cindex = none ∨ setting.Cleared shahash state) :
    setting.PeerTable shahash state
      (newDirectory (fun _ => true) zerothServer serverCount state.store.keys) := by
  obtain ⟨valid, small, members⟩ := listed.loaded placed zerothServer serverCount
  refine ⟨rfl, valid, small, (placement_newDirectory fun _ => rfl).trans placement, fun member => ?_⟩
  refine timely.resolve_left fun absent => ?_
  rw [members, absent] at member
  exact placed.fresh member

theorem Joined.fetched {state : LoadState} (joined : setting.Joined shahash all state)
    (timely : state.split.store.bucket setting.cindex = none ∨ setting.Cleared shahash state.split) :
    setting.PeerTable shahash state.split (state.fetch zerothServer serverCount) := by
  unfold LoadState.fetch
  cases cached : state.peer with
  | none => exact table_loaded placed placement joined.listed timely
  | some dir => exact joined.peer dir cached

theorem Joined.split {state : LoadState} {event : SplitEvent} {after : SplitState}
    (joined : setting.Joined shahash all state) (steady : setting.Steady shahash state.split event)
    (move : SplitMove shahash servernum state.split event after) :
    setting.Joined shahash all
      { split := after, peer := state.informed servernum peernum zerothServer serverCount event } := by
  have keeps : setting.Cleared shahash state.split → setting.Cleared shahash after :=
    fun cleared => cleared.step joined.sound move
  refine ⟨joined.sound.step move, joined.scan.step joined.sound steady move,
    joined.listed.step placed joined.sound move, fun table informed => ?_⟩
  unfold LoadState.informed at informed
  split at informed
  · rename_i pindex cindex thread
    dsimp only at informed
    split at informed
    · cases informed
      obtain ⟨-, -, rfl⟩ := joined.sound.phase.of_working thread rfl
      -- The passes are over when the owner of the child is informed.
      have passed : setting.Passed state.split := by
        rw [Passed, thread]
        trivial
      have cleared : setting.Cleared shahash state.split :=
        ⟨opened_of_passed joined.sound passed, joined.scan.clean passed⟩
      have fetched := joined.fetched placed placement (Or.inr cleared)
      exact ⟨fetched.idle, fetched.valid.update setting.inside, fetched.small.update setting.bounded,
        fetched.placement, fun _ => keeps cleared⟩
    · exact (joined.peer table informed).mono keeps
  · exact (joined.peer table informed).mono keeps

theorem Joined.step {state after : LoadState} {event : LoadEvent} (other : peernum ≠ servernum)
    (joined : setting.Joined shahash all state) (timely : setting.Timely shahash peernum state event)
    (stepped : loadStep shahash servernum peernum zerothServer serverCount state event = some after) :
    setting.Joined shahash all after := by
  cases event with
  | split event =>
    obtain ⟨split, moved, made⟩ := Option.bind_eq_some_iff.mp stepped
    cases made
    exact joined.split placed placement timely (splitStep_move moved)
  | load =>
    cases cached : state.peer <;> simp only [loadStep, cached, reduceCtorEq] at stepped
    cases stepped
    refine ⟨joined.sound, joined.scan, joined.listed, fun dir loaded => ?_⟩
    cases loaded
    exact joined.fetched placed placement timely
  | peer event =>
    obtain ⟨dir, cached, request⟩ := Option.bind_eq_some_iff.mp stepped
    obtain ⟨store, served, made⟩ := Option.bind_eq_some_iff.mp request
    cases made
    exact joined.serve placed other cached timely served

theorem joined_of_reaches {start state : LoadState} (other : peernum ≠ servernum)
    (ready : setting.Ready shahash start.split) (listed : setting.Listed all start.split.store)
    (unloaded : start.peer = none)
    (reached : Reaches (loadStep shahash servernum peernum zerothServer serverCount)
      (setting.Timely shahash peernum) start state) : setting.Joined shahash all state := by
  refine reached.invariant ⟨ready_sound ready, ready_scan ready, listed, ?_⟩
    fun _ _ _ joined timely stepped => joined.step placed placement other timely stepped
  intro dir cached
  exact nomatch unloaded.symm.trans cached

omit placed placement in
theorem renamed_once {store : Store} {source : Source} {name : FileName} {object : Object} {position : Nat}
    (missing : store.find setting.pindex name = none) (found : store.find setting.cindex name = some object) :
    ∀ after, sysRename position store source setting.cindex name = .ok after →
      after.find setting.pindex name = none ∧ (after.find setting.cindex name).isSome := by
  intro after renamed
  rcases sysRename_ok renamed with rfl | ⟨moved, -, present, -, -, rfl⟩
  · exact ⟨missing, Option.isSome_of_eq_some found⟩
  · rw [Store.bucket_isSome, ← source.keys_clear, ← Store.bucket_isSome] at present
    refine ⟨?_, by rw [Store.find_bind present, if_pos ⟨rfl, rfl⟩]; rfl⟩
    rw [Store.find_bind_of_ne fun both => setting.cindex_ne_pindex both.1.symm]
    by_contra held
    have before := source.isSome_find_clear (Option.isSome_iff_ne_none.mpr held)
    rw [missing] at before
    cases before

/-- In a run whose loads come before the child has a bucket or after the last migrating entry has left
the parent's bucket, the other server accepts names of the child only once nothing is left to move.
Each of its handlers then finds the entry of such a name, if there is one, and none makes a second. -/
theorem peer_accepts_after_move {start state : LoadState} {dir : SkyeDirectory} {name : FileName}
    (other : peernum ≠ servernum) (ready : setting.Ready shahash start.split)
    (listed : setting.Listed all start.split.store) (unloaded : start.peer = none)
    (reached : Reaches (loadStep shahash servernum peernum zerothServer serverCount)
      (setting.Timely shahash peernum) start state)
    (cached : state.peer = some dir)
    (accepts : locality shahash peernum dir name = some (.here setting.cindex)) :
    (∀ entry, (state.split.store.find setting.pindex entry).isSome →
      gigaFileMigrationStatus shahash entry setting.cindex = some false) ∧
    ∀ object, state.split.store.find setting.pindex name = some object ∨
        state.split.store.find setting.cindex name = some object →
      lookup shahash peernum dir state.split.store name = some (.ok (.object object.handle)) ∧
      partition shahash peernum dir state.split.store name = some (.ok (.bucket (bucketName setting.cindex))) ∧
      removeLookup shahash peernum dir state.split.store name =
        some (.ok { index := setting.cindex, name, isdir := object.isdir }, state.split.store) ∧
      (∀ handle position, create shahash peernum dir state.split.store name handle position =
        some (.fail .eexist, state.split.store)) ∧
      (∀ handle position bucketError, mkdir shahash peernum dir state.split.store name handle position bucketError =
        some (.fail .eexist, state.split.store)) ∧
      ∀ source position, ∃ reply after,
        rename shahash peernum dir state.split.store source name position = some (reply, after) ∧
          after.find setting.pindex name = none ∧ (after.find setting.cindex name).isSome := by
  have joined := joined_of_reaches placed placement other ready listed unloaded reached
  have table := joined.peer dir cached
  obtain ⟨cleared, migrates⟩ := table.here accepts
  refine ⟨fun entry held => ?_, fun object present => ?_⟩
  · rw [migrationStatus]
    simpa using cleared.clean entry held
  have missing : state.split.store.find setting.pindex name = none := by
    by_contra parent
    exact cleared.clean name (Option.isSome_iff_ne_none.mpr parent) migrates
  have found : state.split.store.find setting.cindex name = some object :=
    present.resolve_left fun parent => nomatch missing.symm.trans parent
  have bucket := Store.bucket_of_find (Option.isSome_of_eq_some found)
  obtain ⟨content, held⟩ := Option.isSome_iff_exists.mp bucket
  have entered : enterBucket shahash peernum dir state.split.store name = some (.ok setting.cindex) :=
    enterBucket_ok.mpr ⟨bucket, setting.cindex, accepts, table.select⟩
  obtain ⟨routes, owner⟩ := locality_here.mp accepts
  refine ⟨?_, ?_, ?_, fun handle position => ?_, fun handle position bucketError => ?_, fun source position => ?_⟩
  · simp [lookup, accepts, held, found]
  · simp [partition, routes, gotIndex, owner, held, found]
  · rw [removeLookup, inBucket_entered entered, found]
  · rw [create, inBucket_entered entered, sysCreate_exists found]
  · rw [mkdir, inBucket_entered entered, sysCreate_exists found]
  · rw [rename, inBucket_entered entered]
    cases renamed : sysRename position state.split.store source setting.cindex name with
    | error errno => exact ⟨_, _, rfl, missing, Option.isSome_of_eq_some found⟩
    | ok after => exact ⟨_, _, rfl, renamed_once missing found after renamed⟩

end

end

end SplitSetting

/-- The unsplit directory on two servers, of which the second owns partition 1. -/
def paired : SplitSetting 0 where
  mapping := gigaInitMapping 0 2
  pindex := 0
  cindex := 1
  valid := valid_init 0 2
  small := small_init 0 2
  owner := by decide +kernel
  child := by decide +kernel
  bounded := unsplit.bounded

def pairedStart (bucket : Bucket) : LoadState where
  split := { unsplitStart bucket with dir := { mapping := gigaInitMapping 0 2, splittingIndex := none } }
  peer := none

theorem ready_pairedStart (shahash : FileName → Digest) (bucket : Bucket) :
    paired.Ready shahash (pairedStart bucket).split where
  dir := rfl
  thread := rfl
  removals := rfl
  parent name _ := gigaGetIndexForFile_init shahash 0 2 name
  child name := (ready_unsplitStart shahash bucket).child name

theorem placed_paired : paired.Placed {0} where
  closed := placed_unsplit.closed
  small := placed_unsplit.small
  known := by
    unfold paired
    rw [partitions_init]
  children child member positive := absurd (Finset.mem_singleton.mp member) positive

theorem listed_pairedStart (bucket : Bucket) : paired.Listed {0} (pairedStart bucket).split.store :=
  have listed := (durable_unsplitStart allMigrate bucket).listed
  ⟨listed.named, listed.present⟩

theorem opens_pairedStart {shahash : FileName → Digest} {bucket : Bucket}
    (overflow : splitThreshold < bucket.keys.length) :
    execute (loadStep shahash 0 1 0 2) (pairedStart bucket) [.split (.begin_ true), .split (.makeChild .inPlace 1)] =
      some { split := paired.afterOpening 1 (pairedStart bucket).split, peer := none } := by
  have ready := ready_pairedStart shahash bucket
  have unloaded : (pairedStart bucket).peer = none := rfl
  simp [execute, loadStep, ready.begins found_unsplitStart overflow, ready.makes (bucket_unsplitStart (by decide)),
    LoadState.informed, unloaded]

/-- The second server loads the directory when the child's bucket is made. It then accepts the file
`a`, which is still in the parent's bucket, does not find it, and makes a second one. -/
theorem early_load_misses :
    paired.Ready allMigrate (pairedStart crowded).split ∧
    ∃ state loaded dir, execute (loadStep allMigrate 0 1 0 2) (pairedStart crowded)
        [.split (.begin_ true), .split (.makeChild .inPlace 1)] = some state ∧
      loadStep allMigrate 0 1 0 2 state .load = some loaded ∧ loaded.peer = some dir ∧
      locality allMigrate 1 dir ['a'] = some (.here 1) ∧
      loaded.split.store.find 0 ['a'] = some ⟨7, false⟩ ∧
      (lookup allMigrate 1 dir loaded.split.store ['a']).bind Reply.errnum = some .enoent ∧
      ∃ after, loadStep allMigrate 0 1 0 2 loaded (.peer (.create ['a'] 9 0)) = some after ∧
        after.split.store.find 0 ['a'] = some ⟨7, false⟩ ∧ after.split.store.find 1 ['a'] = some ⟨9, false⟩ := by
  have runs : (execute (loadStep allMigrate 0 1 0 2) (pairedStart crowded)
      [.split (.begin_ true), .split (.makeChild .inPlace 1)]).map (fun state =>
        let dir : SkyeDirectory := ⟨state.split.store.keys.foldl addListed (gigaInitMapping 0 2), none⟩
        (state.peer.isNone, locality allMigrate 1 dir ['a'], state.split.store.find 0 ['a'],
          (lookup allMigrate 1 dir state.split.store ['a']).bind Reply.errnum,
          (peerServe allMigrate 1 dir state.split.store (.create ['a'] 9 0)).any fun store =>
            decide (store.find 0 ['a'] = some ⟨7, false⟩ ∧ store.find 1 ['a'] = some ⟨9, false⟩))) =
      some (true, some (.here 1), some ⟨7, false⟩, some .enoent, true) := by
    rw [opens_pairedStart overflow_crowded]
    decide +kernel
  obtain ⟨state, executed, observed⟩ := Option.map_eq_some_iff.mp runs
  simp only [Prod.mk.injEq, Option.isNone_iff_eq_none, Option.any_eq_true, decide_eq_true_eq] at observed
  obtain ⟨unloaded, accepts, held, missed, store, served, both⟩ := observed
  have created : ∃ after, loadStep allMigrate 0 1 0 2
      ⟨state.split, some ⟨state.split.store.keys.foldl addListed (gigaInitMapping 0 2), none⟩⟩
        (.peer (.create ['a'] 9 0)) = some after ∧ after.split.store = store := by simp [loadStep, served]
  obtain ⟨after, stepped, rfl⟩ := created
  refine ⟨ready_pairedStart _ _, state, ⟨state.split, some _⟩, _, executed, ?_, rfl, accepts, held, missed,
    after, stepped, both⟩
  simp only [loadStep, unloaded, LoadState.fetch, Option.getD_none, newDirectory_eq_foldl fun _ => rfl]

/-- The second server learns of the child when all is moved. -/
theorem peer_accepts_after_move_informed :
    ∃ state after dir, execute (loadStep allMigrate 0 1 0 2) (pairedStart (AList.singleton ['a'] ⟨7, false⟩))
        [.split (.begin_ false), .split (.makeChild .inPlace 1), .split .readdir, .split (.moveNext true 0),
          .split .endBatch, .split .readdir, .split .lockAgain] = some state ∧
      loadStep allMigrate 0 1 0 2 state (.split .finish) = some after ∧ after.peer = some dir ∧
      lookup allMigrate 1 dir after.split.store ['a'] = some (.ok (.object 7)) := by
  have runs : (execute (loadStep allMigrate 0 1 0 2) (pairedStart (AList.singleton ['a'] ⟨7, false⟩))
      [.split (.begin_ false), .split (.makeChild .inPlace 1), .split .readdir, .split (.moveNext true 0),
        .split .endBatch, .split .readdir, .split .lockAgain]).map (fun state =>
      (state.peer.isNone, state.split.thread, gigaGetServerForIndex state.split.dir.mapping 1,
        state.split.store.find 1 ['a'], locality allMigrate 1
          ⟨gigaUpdateMapping (state.split.store.keys.foldl addListed (gigaInitMapping 0 2)) 1, none⟩ ['a'])) =
      some (true, .announcing 0 1, 1, some ⟨7, false⟩, some (.here 1)) := by decide +kernel
  obtain ⟨state, executed, observed⟩ := Option.map_eq_some_iff.mp runs
  simp only [Prod.mk.injEq, Option.isNone_iff_eq_none] at observed
  obtain ⟨unloaded, thread, owner, held, accepts⟩ := observed
  have reached : Reaches (loadStep allMigrate 0 1 0 2) (paired.Timely allMigrate 1) _ state :=
    Reaches.of_execute executed (meets_of_forall (fun event member state => by
      fin_cases member <;> exact SplitSetting.steady_of_thread rfl) _)
  have finished : ∃ after, loadStep allMigrate 0 1 0 2 state (.split .finish) = some after ∧
      after.split.store = state.split.store ∧ after.peer =
        some ⟨gigaUpdateMapping (state.split.store.keys.foldl addListed (gigaInitMapping 0 2)) 1, none⟩ := by
    simp [loadStep, splitStep, thread, LoadState.informed, owner, LoadState.fetch, unloaded,
      newDirectory_eq_foldl fun _ => rfl]
  obtain ⟨after, stepped, kept, informed⟩ := finished
  have timely : paired.Timely allMigrate 1 state (.split .finish) := SplitSetting.steady_of_thread rfl
  have settled := SplitSetting.peer_accepts_after_move placed_paired (GigaMapping.SamePlacement.init (by decide))
    (by decide) (ready_pairedStart _ _) (listed_pairedStart _) rfl
    (reached.next timely stepped) informed accepts
  refine ⟨state, after, _, executed, stepped, informed, (settled.2 ⟨7, false⟩ (Or.inr ?_)).1⟩
  rw [kept]
  exact held

end SkyeFS.Server
