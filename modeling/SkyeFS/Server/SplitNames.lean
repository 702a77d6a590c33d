import SkyeFS.Server.SplitInvariant

/-! One entry for each name across a split.

While entries move, `enter_bucket` sends a migrating name to the child's bucket even
if its entry still waits in the parent's bucket. A create, mkdir or rename that arrives
then makes a second entry of the name. A run keeps names unique exactly when none of
its requests does that.
-/

set_option autoImplicit false

namespace SkyeFS.Server

open Index Pvfs Foundation Foundation.SuffixTree

namespace SplitSetting

variable {servernum : Nat} (setting : SplitSetting servernum) (shahash : FileName → Digest)

/-- The name does not have an entry in both buckets. -/
def Once (store : Store) (name : FileName) : Prop :=
  ¬ ((store.find setting.pindex name).isSome ∧ (store.find setting.cindex name).isSome)

def Unique (state : SplitState) : Prop := ∀ name, setting.Once state.store name

/-- The name is sent to the child's bucket while its entry is still in the parent's bucket. -/
def Diverted (state : SplitState) (name : FileName) : Prop :=
  (state.store.find setting.pindex name).isSome ∧
    enterBucket shahash servernum state.dir state.store name = some (.ok setting.cindex)

/-- The request puts an entry of the name into the child's bucket while the parent's bucket holds the
name, and does not take it from there. -/
def DuplicatesName (state : SplitState) (event : SplitEvent) (name : FileName) : Prop :=
  ∃ source, Binds event source name ∧ source ≠ .bucket setting.pindex name ∧
    (source.object state.store).isSome ∧ setting.Diverted shahash state name

def Duplicates (state : SplitState) (event : SplitEvent) : Prop :=
  ∃ name, setting.DuplicatesName shahash state event name

/-- The bit of the child is set, and the name now belongs to another server. -/
def HandedOver (state : SplitState) (name : FileName) : Prop :=
  setting.cindex ∈ state.dir.mapping.partitions ∧ setting.Migrates shahash name ∧
    gigaGetServerForIndex setting.mapping setting.cindex ≠ servernum

variable {setting shahash}

theorem spares_of_unbound {state : SplitState} {event : SplitEvent} {name : FileName}
    (unbound : ∀ source, ¬ Binds event source name) : ¬ setting.DuplicatesName shahash state event name :=
  fun ⟨source, binds, _⟩ => unbound source binds

theorem Once.shrink {store fewer : Store} {name : FileName} (once : setting.Once store name)
    (subset : ∀ index, (fewer.find index name).isSome → (store.find index name).isSome) : setting.Once fewer name :=
  fun both => once ⟨subset _ both.1, subset _ both.2⟩

theorem Once.bind {state : SplitState} {entry : FileName} (once : setting.Once state.store entry)
    (sound : setting.Sound shahash state) {event : SplitEvent} {source : Source} {name : FileName}
    {index position : Nat} {object : Object} (binds : Binds event source name)
    (entered : enterBucket shahash servernum state.dir state.store name = some (.ok index))
    (found : source.object state.store = some object) (spares : ¬ setting.DuplicatesName shahash state event entry) :
    setting.Once ((source.clear state.store).bind position index name object) entry := by
  have serves := sound.phase.entered entered
  rintro ⟨inParent, inChild⟩
  rcases Store.isSome_find_bind inParent with ⟨rfl, rfl⟩ | stays
  · -- The name is served by the parent, so the child does not hold it.
    rcases Store.isSome_find_bind inChild with ⟨same, -⟩ | waits
    · exact setting.cindex_ne_pindex same
    · have held := source.isSome_find_clear waits
      have opened : setting.Opened state.dir := by
        by_contra closed
        rw [sound.contents.unopened closed entry] at held
        cases held
      exact serves.parent.2 ⟨opened, (sound.contents.child entry held).2⟩
  · rcases Store.isSome_find_bind inChild with ⟨rfl, rfl⟩ | waits
    · -- The child gets the name while the parent keeps it: this is what the condition excludes.
      refine spares ⟨source, binds, ?_, by simp [found], source.isSome_find_clear stays, entered⟩
      rintro rfl
      exact (Store.isSome_find_unbind stays).2 ⟨rfl, rfl⟩
    · exact once ⟨source.isSome_find_clear stays, source.isSome_find_clear waits⟩

theorem Once.move {store : Store} {name entry : FileName} {position : Nat} {object : Object}
    (once : setting.Once store entry) :
    setting.Once ((store.unbind setting.pindex name).bind position setting.cindex name object) entry := by
  rintro ⟨inParent, inChild⟩
  rcases Store.isSome_find_bind inParent with ⟨same, -⟩ | inParent
  · exact setting.cindex_ne_pindex same.symm
  · obtain ⟨stays, other⟩ := Store.isSome_find_unbind inParent
    rcases Store.isSome_find_bind inChild with ⟨-, same⟩ | inChild
    · exact other ⟨rfl, same⟩
    · exact once ⟨stays, (Store.isSome_find_unbind inChild).1⟩

theorem Once.step {state after : SplitState} {event : SplitEvent} {name : FileName}
    (once : setting.Once state.store name) (sound : setting.Sound shahash state)
    (spares : ¬ setting.DuplicatesName shahash state event name)
    (move : SplitMove shahash servernum state event after) : setting.Once after.store name := by
  cases move with
  | begin_ | decline | mkdirFails | removeFails | readEmpty | readPage | skip | moveFailed | nextPage | endPass
  | lockAgain | finish | answer | removeLookup | removeFailed => exact once
  | makeMisplaced thread | makeInPlace thread =>
    -- A new child bucket is empty.
    obtain ⟨-, rfl, rfl⟩ := sound.phase.of_making (.inl thread)
    intro both
    rw [find_made.1] at both
    cases both.2
  | dropChild thread =>
    obtain ⟨-, rfl, rfl⟩ := sound.phase.of_making (.inr thread)
    intro both
    rw [find_dropped.1] at both
    cases both.2
  | move thread status found present =>
    obtain ⟨-, rfl, rfl⟩ := sound.phase.of_working thread rfl
    exact once.move
  | bind free binds entered found fresh => exact once.bind sound binds entered found spares
  | removeEntry | takeAway => exact once.shrink fun _ held => (Store.isSome_find_unbind held).1

theorem Unique.step {state after : SplitState} {event : SplitEvent} (unique : setting.Unique state)
    (sound : setting.Sound shahash state) (spares : ¬ setting.Duplicates shahash state event)
    (move : SplitMove shahash servernum state event after) : setting.Unique after :=
  fun name => (unique name).step sound (fun duplicates => spares ⟨name, duplicates⟩) move

theorem Duplicates.served {state after : SplitState} {event : SplitEvent}
    (duplicates : setting.Duplicates shahash state event) (unique : setting.Unique state)
    (stepped : splitStep shahash servernum state event = some after) :
    ∃ (source : Source) (name : FileName) (position : Nat) (object : Object),
      after.store = (source.clear state.store).bind position setting.cindex name object ∧
      source ≠ .bucket setting.pindex name ∧ (state.store.find setting.pindex name).isSome ∧
      (state.store.bucket setting.cindex).isSome := by
  -- A duplicating request is served: nothing in the child's bucket stands against it.
  obtain ⟨name, source, binds, other, found, held, entered⟩ := duplicates
  obtain ⟨object, located⟩ := Option.isSome_iff_exists.mp found
  have present := (enterBucket_ok.mp entered).1
  -- The parent holds the name, so in a state with unique names the child does not.
  have fresh : state.store.find setting.cindex name = none := by
    by_contra waits
    exact unique name ⟨held, Option.isSome_iff_ne_none.mpr waits⟩
  cases binds with
  | create =>
    rename_i number position
    refine ⟨_, name, position, ⟨number, false⟩, ?_, other, held, present⟩
    simp only [splitStep, create, inBucket_entered entered, sysCreate_fresh present fresh, handle] at stepped
    split at stepped <;> cases stepped
    rfl
  | mkdir =>
    rename_i number position bucketError
    refine ⟨_, name, position, ⟨number, true⟩, ?_, other, held, present⟩
    simp only [splitStep, mkdir, inBucket_entered entered, sysCreate_fresh present fresh, handle] at stepped
    split at stepped <;> cases stepped
    rfl
  | rename =>
    rename_i position
    refine ⟨source, name, position, object, ?_, other, held, present⟩
    simp only [splitStep, rename, inBucket_entered entered, sysRename_fresh located present fresh, handle] at stepped
    split at stepped <;> cases stepped
    rfl

theorem Duplicates.not_unique {state after : SplitState} {event : SplitEvent}
    (duplicates : setting.Duplicates shahash state event) (unique : setting.Unique state)
    (stepped : splitStep shahash servernum state event = some after) : ¬ setting.Unique after := by
  obtain ⟨source, name, position, object, bound, other, held, present⟩ := duplicates.served unique stepped
  have kept : ((source.clear state.store).bucket setting.cindex).isSome := by
    rw [source.bucket_clear]
    exact present
  intro still
  refine still name ⟨?_, ?_⟩
  · rw [bound, Store.find_bind kept, if_neg (fun both => setting.cindex_ne_pindex both.1.symm), source.find_clear other]
    exact held
  · rw [bound, Store.find_bind kept, if_pos ⟨rfl, rfl⟩]
    rfl

theorem ready_unique {state : SplitState} (ready : setting.Ready shahash state) : setting.Unique state := by
  intro name both
  rw [ready.child name] at both
  cases both.2

/-- Names stay unique along exactly the runs without a duplicating request. -/
theorem unique_iff_spared {start final : SplitState} {events : List SplitEvent} (ready : setting.Ready shahash start)
    (executed : execute (splitStep shahash servernum) start events = some final) :
    Always (splitStep shahash servernum) setting.Unique start events ↔
      Meets (splitStep shahash servernum) (fun state event => ¬ setting.Duplicates shahash state event) start events := by
  refine always_iff_meets (fun _ _ _ (sound : setting.Sound shahash _) stepped => sound.step (splitStep_move stepped))
    ?_ (ready_sound ready) (ready_unique ready) executed
  intro before event after sound unique stepped
  exact ⟨fun spares => unique.step sound spares (splitStep_move stepped),
    fun kept duplicates => duplicates.not_unique unique stepped kept⟩

section
variable {state : SplitState} (sound : setting.Sound shahash state) {name : FileName} {index : Nat}
  (serves : setting.Serves shahash state.dir name index)
include sound serves

/-- A name with an entry in the parent's bucket is served in one of the two buckets. -/
theorem Sound.serves_parent (inParent : (state.store.find setting.pindex name).isSome) :
    index = setting.pindex ∨ index = setting.cindex ∧ setting.Opened state.dir := by
  obtain ⟨found, routes, same⟩ := serves
  cases routes.unique (sound.contents.parent name inParent)
  split at same
  · rename_i diverted
    exact Or.inr ⟨same, diverted.1⟩
  · exact Or.inl same

theorem Sound.serves_child (inChild : (state.store.find setting.cindex name).isSome) :
    index = setting.cindex ∧ setting.Opened state.dir := by
  obtain ⟨found, routes, same⟩ := serves
  obtain ⟨expected, migrates⟩ := sound.contents.child name inChild
  have opened : setting.Opened state.dir := by
    by_contra closed
    rw [sound.contents.unopened closed name] at inChild
    cases inChild
  cases routes.unique expected
  rw [if_pos ⟨opened, rfl, migrates⟩] at same
  exact ⟨same, opened⟩

theorem Sound.serves_present
    (held : (state.store.find setting.pindex name).isSome ∨ (state.store.find setting.cindex name).isSome) :
    (state.store.bucket index).isSome ∧ (index = setting.pindex ∨ index = setting.cindex) := by
  rcases held with inParent | inChild
  · rcases sound.serves_parent serves inParent with rfl | ⟨rfl, opened⟩
    · exact ⟨Store.bucket_of_find inParent, Or.inl rfl⟩
    · exact ⟨sound.contents.present opened, Or.inr rfl⟩
  · obtain ⟨rfl, opened⟩ := sound.serves_child serves inChild
    exact ⟨sound.contents.present opened, Or.inr rfl⟩

end

/-- A request for a name with an entry gets into the bucket that serves it, unless the name has been
handed over. -/
theorem Sound.enters {state : SplitState} (sound : setting.Sound shahash state) {name : FileName}
    (held : (state.store.find setting.pindex name).isSome ∨ (state.store.find setting.cindex name).isSome) :
    setting.HandedOver shahash state name ∧
        locality shahash servernum state.dir name = some (.again state.dir.mapping) ∨
      ¬ setting.HandedOver shahash state name ∧ ∃ index, setting.Serves shahash state.dir name index ∧
        enterBucket shahash servernum state.dir state.store name = some (.ok index) := by
  have routes : setting.Routes shahash name setting.pindex :=
    held.elim (sound.contents.parent name) fun inChild => (sound.contents.child name inChild).1
  have opens : ∀ found, locality shahash servernum state.dir name = some (.here found) →
      ∃ index, setting.Serves shahash state.dir name index ∧
        enterBucket shahash servernum state.dir state.store name = some (.ok index) := by
    intro found here
    obtain ⟨index, selection, serves⟩ := sound.phase.select (locality_here.mp here).1
    exact ⟨index, serves, enterBucket_ok.mpr ⟨(sound.serves_present serves held).1, found, here, selection⟩⟩
  have table : ∀ dir : SkyeDirectory, dir.mapping = setting.mapping →
      locality shahash servernum dir name = some (.here setting.pindex) := by
    intro dir same
    rw [locality_here, same]
    exact ⟨routes, setting.owner⟩
  have phase := sound.phase
  cases dir : state.dir with
  | mk mapping splittingIndex =>
    rw [dir] at phase opens
    generalize state.thread = thread at phase
    unfold HandedOver
    rw [dir]
    cases phase with
    | closed | moving => exact Or.inr ⟨fun handed => setting.cindex_absent handed.1, opens _ (table _ rfl)⟩
    | installed =>
      have found := lookup_installed routes
      rw [if_congr (and_iff_right rfl) rfl rfl] at found
      by_cases migrates : setting.Migrates shahash name
      · rw [if_pos migrates] at found
        by_cases own : gigaGetServerForIndex setting.mapping setting.cindex = servernum
        · exact Or.inr ⟨fun handed => handed.2.2 own, opens _ (locality_here.mpr ⟨found, own⟩)⟩
        · refine Or.inl ⟨⟨?_, migrates, own⟩, locality_again.mpr ⟨rfl, _, found, own⟩⟩
          rw [partitions_update _ setting.inside]
          exact Finset.mem_insert_self _ _
      · rw [if_neg migrates] at found
        exact Or.inr ⟨fun handed => migrates handed.2.1, opens _ (locality_here.mpr ⟨found, setting.owner⟩)⟩

/-- The bucket that a request for a name gets into holds the name, unless the name was diverted. -/
theorem Sound.inside {state : SplitState} (sound : setting.Sound shahash state) {name : FileName} {index : Nat}
    (held : (state.store.find setting.pindex name).isSome ∨ (state.store.find setting.cindex name).isSome)
    (serves : setting.Serves shahash state.dir name index)
    (entered : enterBucket shahash servernum state.dir state.store name = some (.ok index))
    (spared : ¬ setting.Diverted shahash state name) : (state.store.find index name).isSome := by
  rcases held with inParent | inChild
  · rcases sound.serves_parent serves inParent with rfl | ⟨rfl, -⟩
    · exact inParent
    · exact absurd ⟨inParent, entered⟩ spared
  · obtain ⟨rfl, -⟩ := sound.serves_child serves inChild
    exact inChild

end SplitSetting

def Refused (state : SplitState) (reply : Reply Ref) (store : Store) : Prop :=
  reply = .fail .eexist ∧ store = state.store

namespace SplitSetting

variable {servernum : Nat} {setting : SplitSetting servernum} {shahash : FileName → Digest}

/-- A request for a new entry is answered. It is refused exactly when the name is neither diverted nor
handed over, and a name that was handed over is redirected. -/
theorem refused_iff {state : SplitState} {name : FileName} {call : Nat → Reply Ref × Store}
    (sound : setting.Sound shahash state) (once : setting.Once state.store name) (position : Nat) (object : Object)
    (makes : ∀ index, (state.store.bucket index).isSome → state.store.find index name = none →
      (call index).2 = state.store.bind position index name object)
    (fails : ∀ index held, state.store.find index name = some held → call index = (.fail .eexist, state.store))
    (held : (state.store.find setting.pindex name).isSome ∨ (state.store.find setting.cindex name).isSome) :
    ∃ reply store, inBucket shahash servernum state.dir state.store name call = some (reply, store) ∧
      (Refused state reply store ↔
        ¬ setting.Diverted shahash state name ∧ ¬ setting.HandedOver shahash state name) ∧
      (setting.HandedOver shahash state name → reply = .again state.dir.mapping ∧ store = state.store) := by
  rcases sound.enters held with ⟨handed, again⟩ | ⟨kept, index, serves, entered⟩
  · refine ⟨_, _, inBucket_redirected again, ?_, fun _ => ⟨rfl, rfl⟩⟩
    exact iff_of_false (fun refused => by cases refused.1) fun both => both.2 handed
  · refine ⟨_, _, inBucket_entered entered, ?_, fun handed => absurd handed kept⟩
    by_cases diverted : setting.Diverted shahash state name
    · refine iff_of_false ?_ fun both => both.1 diverted
      -- The parent holds the name, so the child does not, and gets a second entry.
      obtain ⟨inParent, child⟩ := diverted
      cases Option.some.inj (entered.symm.trans child)
      have present := (enterBucket_ok.mp entered).1
      have fresh : state.store.find setting.cindex name = none := by
        by_contra waits
        exact once ⟨inParent, Option.isSome_iff_ne_none.mpr waits⟩
      rintro ⟨-, same⟩
      have changed : (call setting.cindex).2.find setting.cindex name = some object := by
        rw [makes setting.cindex present fresh, Store.find_bind present, if_pos ⟨rfl, rfl⟩]
      rw [same, fresh] at changed
      cases changed
    · refine iff_of_true ?_ ⟨diverted, kept⟩
      obtain ⟨entry, found⟩ := Option.isSome_iff_exists.mp (sound.inside held serves entered diverted)
      rw [fails index entry found]
      exact ⟨rfl, rfl⟩

theorem duplicates_iff_diverted {state : SplitState} {event : SplitEvent} {name : FileName} {object : Object}
    (binds : Binds event (.elsewhere (some object)) name) :
    setting.Duplicates shahash state event ↔ setting.Diverted shahash state name := by
  constructor
  · rintro ⟨_, _, same, -, -, diverted⟩
    cases binds <;> cases same <;> exact diverted
  · intro diverted
    exact ⟨name, _, binds, nofun, rfl, diverted⟩

theorem once_of_reaches {start state : SplitState} {name : FileName} (ready : setting.Ready shahash start)
    (reached : Reaches (splitStep shahash servernum)
      (fun state event => ¬ setting.DuplicatesName shahash state event name) start state) :
    setting.Sound shahash state ∧ setting.Once state.store name := by
  induction reached with
  | here => exact ⟨ready_sound ready, ready_unique ready name⟩
  | next _ spares stepped ih =>
    have move := splitStep_move stepped
    exact ⟨ih.1.step move, ih.2.step ih.1 spares move⟩

/-- Along a run, names are unique in every state exactly when no request duplicates. In the states
reached without such a request, a create or mkdir of a name that has an entry is answered; it is refused
and changes nothing exactly when it is not itself such a request and the name has not been handed over
to another server, to which the client is then sent. -/
theorem split_names_unique {start : SplitState} (ready : setting.Ready shahash start) :
    (∀ events final, execute (splitStep shahash servernum) start events = some final →
      (Always (splitStep shahash servernum) setting.Unique start events ↔
        Meets (splitStep shahash servernum) (fun state event => ¬ setting.Duplicates shahash state event)
          start events)) ∧
    ∀ state name, Reaches (splitStep shahash servernum)
        (fun state event => ¬ setting.Duplicates shahash state event) start state →
      (state.store.find setting.pindex name).isSome ∨ (state.store.find setting.cindex name).isSome →
      (∀ number position, ∃ reply store,
        create shahash servernum state.dir state.store name number position = some (reply, store) ∧
        (Refused state reply store ↔ ¬ setting.Duplicates shahash state (.create name number position) ∧
          ¬ setting.HandedOver shahash state name) ∧
        (setting.HandedOver shahash state name → reply = .again state.dir.mapping ∧ store = state.store)) ∧
      (∀ number position bucketError, ∃ reply store,
        mkdir shahash servernum state.dir state.store name number position bucketError = some (reply, store) ∧
        (Refused state reply store ↔ ¬ setting.Duplicates shahash state (.mkdir name number position bucketError) ∧
          ¬ setting.HandedOver shahash state name) ∧
        (setting.HandedOver shahash state name → reply = .again state.dir.mapping ∧ store = state.store)) := by
  refine ⟨fun events final executed => unique_iff_spared ready executed, fun state name reached held => ?_⟩
  obtain ⟨sound, once⟩ := once_of_reaches ready
    (reached.mono fun _ _ spares duplicates => spares ⟨name, duplicates⟩)
  constructor
  · intro number position
    rw [duplicates_iff_diverted .create]
    refine refused_iff sound once position ⟨number, false⟩ (fun index present fresh => ?_)
      (fun index object found => ?_) held
    · rw [sysCreate_fresh present fresh]
    · rw [sysCreate_exists found]
  · intro number position bucketError
    rw [duplicates_iff_diverted .mkdir]
    refine refused_iff sound once position ⟨number, true⟩ (fun index present fresh => ?_)
      (fun index object found => ?_) held
    · rw [sysCreate_fresh present fresh]
    · rw [sysCreate_exists found]

end SplitSetting

/-- A directory of a single server that has not been split. -/
def unsplit : SplitSetting 0 where
  mapping := gigaInitMapping 0 1
  pindex := 0
  cindex := 1
  valid := valid_init 0 1
  small := small_init 0 1
  owner := by decide +kernel
  child := by decide +kernel
  bounded := by decide

/-- A directory about to be split, with the given entries in its one bucket. -/
def unsplitStart (bucket : Bucket) : SplitState where
  dir := { mapping := gigaInitMapping 0 1, splittingIndex := none }
  store := AList.singleton (bucketName 0) bucket
  thread := .start 0
  removals := []

theorem found_unsplitStart {bucket : Bucket} : (unsplitStart bucket).store.bucket 0 = some bucket := by
  rw [Store.bucket, unsplitStart, ← AList.insert_empty]
  exact AList.lookup_insert _

theorem bucket_unsplitStart {bucket : Bucket} {index : Nat} (other : index ≠ 0) :
    (unsplitStart bucket).store.bucket index = none := by
  refine AList.lookup_eq_none.mpr ?_
  simp [AList.mem_keys, unsplitStart, bucketName_injective.eq_iff, other]

theorem ready_unsplitStart (shahash : FileName → Digest) (bucket : Bucket) :
    unsplit.Ready shahash (unsplitStart bucket) where
  dir := rfl
  thread := rfl
  removals := rfl
  parent name _ := gigaGetIndexForFile_init shahash 0 1 name
  child name := by simp [Store.find, unsplit, bucket_unsplitStart]

theorem opens_unsplitStart {shahash : FileName → Digest} {bucket : Bucket}
    (overflow : splitThreshold < bucket.keys.length) :
    execute (splitStep shahash 0) (unsplitStart bucket) [.begin_ true, .makeChild .inPlace 1] =
      some (unsplit.afterOpening 1 (unsplitStart bucket)) :=
  (ready_unsplitStart shahash bucket).opens found_unsplitStart overflow (bucket_unsplitStart (by decide)) 1

/-- As many names as a bucket may hold without overflowing. -/
def filler : List FileName := (List.range splitThreshold).map fun number => List.replicate (number + 1) 'b'

theorem length_filler : filler.length = splitThreshold := by simp [filler]

theorem nodup_filler : filler.Nodup := by
  refine List.nodup_range.map fun first second same => ?_
  simpa using congrArg List.length same

theorem notMem_filler {letter : Char} (other : letter ≠ 'b') : [letter] ∉ filler := by
  simp [filler, List.replicate_succ, other.symm]

/-- An overflowing bucket, with the file `a` at its head. -/
def crowded : Bucket where
  entries := ⟨['a'], ⟨7, false⟩⟩ :: filler.map fun name => ⟨name, ⟨8, false⟩⟩
  nodupKeys := by
    rw [List.nodupKeys_cons]
    constructor
    · simpa [List.keys] using notMem_filler (by decide)
    · simpa [List.NodupKeys, List.keys, Function.comp_def] using nodup_filler

theorem keys_crowded : crowded.keys = ['a'] :: filler := by
  simp [crowded, AList.keys, List.keys, Function.comp_def]

theorem overflow_crowded : splitThreshold < crowded.keys.length := by
  simp [keys_crowded, length_filler]

/-- Every name ends in 1, so that all of them migrate. -/
def allMigrate : FileName → Digest := flatDigest 1#8

/-- The events of a create of a name whose entry waits in the parent's bucket. -/
def lateCreate : List SplitEvent := [.begin_ true, .makeChild .inPlace 1] ++ [.create ['a'] 9 0]

/-- The file `a` exists, and creating it again in the middle of the split succeeds. -/
theorem late_create_duplicates :
    unsplit.Ready allMigrate (unsplitStart crowded) ∧
    ∃ state, execute (splitStep allMigrate 0) (unsplitStart crowded) lateCreate = some state ∧
      state.store.find 0 ['a'] = some ⟨7, false⟩ ∧ state.store.find 1 ['a'] = some ⟨9, false⟩ ∧
      ¬ unsplit.Unique state := by
  have runs : (execute (splitStep allMigrate 0) (unsplitStart crowded) lateCreate).map
      (fun state => (state.store.find 0 ['a'], state.store.find 1 ['a'])) =
        some (some ⟨7, false⟩, some ⟨9, false⟩) := by
    rw [lateCreate, execute_append, opens_unsplitStart overflow_crowded]
    decide +kernel
  obtain ⟨state, executed, observed⟩ := Option.map_eq_some_iff.mp runs
  simp only [Prod.mk.injEq] at observed
  obtain ⟨inParent, inChild⟩ := observed
  refine ⟨ready_unsplitStart _ _, state, executed, inParent, inChild, fun unique => ?_⟩
  exact unique ['a'] ⟨by simp [unsplit, inParent], by simp [unsplit, inChild]⟩

theorem split_names_unique_late_create :
    ∃ final, execute (splitStep allMigrate 0) (unsplitStart crowded) lateCreate = some final ∧
      (Always (splitStep allMigrate 0) unsplit.Unique (unsplitStart crowded) lateCreate ↔
        Meets (splitStep allMigrate 0) (fun state event => ¬ unsplit.Duplicates allMigrate state event)
          (unsplitStart crowded) lateCreate) := by
  have runs : (execute (splitStep allMigrate 0) (unsplitStart crowded) lateCreate).isSome := by
    rw [lateCreate, execute_append, opens_unsplitStart overflow_crowded]
    decide +kernel
  obtain ⟨final, executed⟩ := Option.isSome_iff_exists.mp runs
  exact ⟨final, executed, (SplitSetting.split_names_unique (ready_unsplitStart _ _)).1 lateCreate final executed⟩

end SkyeFS.Server
