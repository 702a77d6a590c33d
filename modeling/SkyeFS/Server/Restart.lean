import SkyeFS.Server.SplitNames
import SkyeFS.Server.Cache

/-! What a restart makes of a directory whose split was interrupted.

Only buckets and their entries survive. The child's bucket gets its name before any
entry has moved, so a table that is rebuilt from the names routes to the child from
then on, also the names whose entries are still in the parent's bucket.
-/

set_option autoImplicit false

namespace SkyeFS.Server

open Index Pvfs Foundation Foundation.SuffixTree

namespace SplitSetting

variable {servernum : Nat} (setting : SplitSetting servernum) (shahash : FileName → Digest)

/-- The partitions of the directory, of which the splitter's table has some: those that it owns and
their children it knows. -/
structure Placed (all : Finset Nat) : Prop where
  closed : ParentClosed all
  small : ∀ index ∈ all, index < 2 ^ (maxRadix - 1)
  known : setting.mapping.partitions ⊆ all
  children : ∀ child ∈ all, child ≠ 0 → gigaGetServerForIndex setting.mapping (parent child) = servernum →
    child ∈ setting.mapping.partitions

/-- The buckets of a store are those of the partitions and perhaps that of the child. -/
structure Listed (all : Finset Nat) (store : Store) : Prop where
  named : ∀ name ∈ store.keys, ∃ index, name = bucketName index ∧ (index ∈ all ∨ index = setting.cindex)
  present : ∀ index ∈ all, bucketName index ∈ store.keys

/-- The entries of the buckets other than the child's are where the partitions say. -/
def Filed (all : Finset Nat) (store : Store) : Prop :=
  ∀ index name, index ≠ setting.cindex → (store.find index name).isSome →
    Deepest all (hashNumber shahash name) index

variable {setting shahash} {all : Finset Nat} (placed : setting.Placed all)

section
include placed

theorem Placed.fresh : setting.cindex ∉ all := by
  intro member
  obtain ⟨up, positive⟩ := gigaIndexForSplitting_parent setting.child
  refine setting.cindex_absent (placed.children _ member positive ?_)
  rw [up]
  exact setting.owner

theorem Placed.pindex_mem : setting.pindex ∈ all := placed.known (gigaIndexForSplitting_some setting.child).1

theorem Placed.deepest {name : FileName} {index : Nat} (routes : setting.Routes shahash name index)
    (own : gigaGetServerForIndex setting.mapping index = servernum) :
    Deepest all (hashNumber shahash name) index := by
  refine Deepest.agrees placed.known placed.closed
    ((gigaGetIndexForFile_eq_some shahash setting.valid).mp routes).2 fun child member up positive => ?_
  subst up
  exact placed.children child member positive own

theorem Placed.deepest_of_migrates {name : FileName} (migrates : setting.Migrates shahash name) :
    Deepest all (hashNumber shahash name) setting.pindex := by
  -- Every partition on the path of a name that ends in the child lies above the child.
  obtain ⟨up, positive⟩ := gigaIndexForSplitting_parent setting.child
  have towards : Suffix setting.pindex (hashNumber shahash name) := (up ▸ parent_suffix setting.cindex).trans migrates
  refine ⟨placed.pindex_mem, towards, fun other member suffix => ?_⟩
  rcases Nat.lt_or_ge setting.cindex other with below | above
  · -- A partition below the child would have the child among its ancestors.
    obtain ⟨child, inside, hangs, -, order⟩ :=
      placed.closed.child_towards member (migrates.of_le suffix below.le) below
    exact absurd (hangs ▸ placed.closed child inside (by omega)) placed.fresh
  · rcases (suffix_parent_iff positive).mp (suffix.of_le migrates above) with same | higher
    · exact absurd (same ▸ member) placed.fresh
    · rw [up] at higher
      exact higher.le

theorem Placed.routes_of_migrates {name : FileName} (migrates : setting.Migrates shahash name) :
    setting.Routes shahash name setting.pindex := by
  have deepest := placed.deepest_of_migrates migrates
  refine (gigaGetIndexForFile_eq_some shahash setting.valid).mpr ⟨setting.small, ?_⟩
  exact ⟨(gigaIndexForSplitting_some setting.child).1, deepest.suffix,
    fun other member suffix => deepest.maximal other (placed.known member) suffix⟩

end

section
variable {store : Store}

theorem Listed.of_keys {other : Store} (listed : setting.Listed all store) (keys : other.keys = store.keys) :
    setting.Listed all other := ⟨keys ▸ listed.named, keys ▸ listed.present⟩

theorem Listed.made {position : Nat} (listed : setting.Listed all store) :
    setting.Listed all (Listing.put position (bucketName setting.cindex) ∅ store) where
  named name member := by
    rcases Listing.mem_put.mp (AList.mem_keys.mpr member) with rfl | before
    · exact ⟨setting.cindex, rfl, Or.inr rfl⟩
    · exact listed.named name (AList.mem_keys.mp before)
  present index member :=
    AList.mem_keys.mp (Listing.mem_put.mpr (Or.inr (AList.mem_keys.mpr (listed.present index member))))

theorem Listed.dropped (placed : setting.Placed all) (listed : setting.Listed all store) :
    setting.Listed all (store.erase (bucketName setting.cindex)) where
  named name member := listed.named name (Listing.keys_erase_sublist.subset member)
  present index member := by
    have other : index ≠ setting.cindex := fun same => placed.fresh (same ▸ member)
    rw [← Store.bucket_isSome, Store.bucket_erase, if_neg other, Store.bucket_isSome]
    exact listed.present index member

theorem Filed.unbind (filed : setting.Filed shahash all store) (index : Nat) (name : FileName) :
    setting.Filed shahash all (store.unbind index name) :=
  fun _ _ other found => filed _ _ other (Store.isSome_find_unbind found).1

theorem Filed.clear (filed : setting.Filed shahash all store) (source : Source) :
    setting.Filed shahash all (source.clear store) :=
  fun _ _ other found => filed _ _ other (source.isSome_find_clear found)

theorem Filed.bind {position index : Nat} {name : FileName} {object : Object}
    (filed : setting.Filed shahash all store)
    (placed : index ≠ setting.cindex → Deepest all (hashNumber shahash name) index) :
    setting.Filed shahash all (store.bind position index name object) := by
  intro place entry other found
  rcases Store.isSome_find_bind found with ⟨rfl, rfl⟩ | before
  · exact placed other
  · exact filed place entry other before

end

theorem Phase.entered_own {dir : SkyeDirectory} {thread : Thread} {store : Store} {name : FileName} {index : Nat}
    (phase : setting.Phase dir thread) (entered : enterBucket shahash servernum dir store name = some (.ok index))
    (other : index ≠ setting.cindex) :
    setting.Routes shahash name index ∧ gigaGetServerForIndex setting.mapping index = servernum := by
  -- The bucket that the splitter enters for a name is its own, unless it is the child's.
  obtain ⟨before, routes, same⟩ := phase.entered entered
  obtain ⟨-, found, here, selection⟩ := enterBucket_ok.mp entered
  obtain ⟨computed, own⟩ := locality_here.mp here
  split at same
  · exact absurd same other
  subst same
  refine ⟨routes, ?_⟩
  cases phase with
  | closed | installed =>
    cases selection
    exact own
  | moving =>
    cases routes.unique computed
    exact own

theorem Listed.step {state after : SplitState} {event : SplitEvent} (listed : setting.Listed all state.store)
    (placed : setting.Placed all) (sound : setting.Sound shahash state)
    (move : SplitMove shahash servernum state event after) : setting.Listed all after.store := by
  cases move with
  | makeMisplaced thread | makeInPlace thread =>
    obtain ⟨-, -, rfl⟩ := sound.phase.of_making (.inl thread)
    exact listed.made
  | dropChild thread =>
    obtain ⟨-, -, rfl⟩ := sound.phase.of_making (.inr thread)
    exact listed.dropped placed
  | move => exact listed.of_keys (by simp)
  | bind => exact listed.of_keys (by rw [Store.keys_bind, Source.keys_clear])
  | removeEntry | takeAway => exact listed.of_keys Store.keys_unbind
  | _ => exact listed

theorem Filed.step {state after : SplitState} {event : SplitEvent} (filed : setting.Filed shahash all state.store)
    (placed : setting.Placed all) (sound : setting.Sound shahash state)
    (move : SplitMove shahash servernum state event after) : setting.Filed shahash all after.store := by
  cases move with
  | makeMisplaced thread | makeInPlace thread =>
    obtain ⟨-, -, rfl⟩ := sound.phase.of_making (.inl thread)
    exact fun index name other found => filed index name other (Store.find_put_of_ne other ▸ found)
  | dropChild thread =>
    obtain ⟨-, -, rfl⟩ := sound.phase.of_making (.inr thread)
    exact fun index name other found => filed index name other (Store.find_erase_of_ne other ▸ found)
  | move thread =>
    obtain ⟨-, rfl, rfl⟩ := sound.phase.of_working thread rfl
    exact (filed.unbind _ _).bind fun other => absurd rfl other
  | bind free binds entered =>
    -- The splitter knows every partition below its own, so its choice is that of the whole directory.
    refine (filed.clear _).bind fun other => ?_
    obtain ⟨routes, own⟩ := sound.phase.entered_own entered other
    exact placed.deepest routes own
  | removeEntry | takeAway => exact filed.unbind _ _
  | _ => exact filed

/-- What survives of a state of the split. -/
structure Durable (setting : SplitSetting servernum) (shahash : FileName → Digest) (all : Finset Nat) (store : Store) :
    Prop where
  listed : setting.Listed all store
  filed : setting.Filed shahash all store

theorem durable_of_reaches {start state : SplitState} {allowed : SplitState → SplitEvent → Prop}
    (placed : setting.Placed all) (ready : setting.Ready shahash start)
    (durable : setting.Durable shahash all start.store)
    (reached : Reaches (splitStep shahash servernum) allowed start state) :
    setting.Sound shahash state ∧ setting.Durable shahash all state.store := by
  induction reached with
  | here => exact ⟨ready_sound ready, durable⟩
  | next _ _ stepped ih =>
    have move := splitStep_move stepped
    exact ⟨ih.1.step move, ih.2.listed.step placed ih.1 move, ih.2.filed.step placed ih.1 move⟩

theorem Listed.mem_keys {store : Store} {index : Nat} (listed : setting.Listed all store) :
    bucketName index ∈ store.keys ↔ index ∈ all ∨ index = setting.cindex ∧ (store.bucket setting.cindex).isSome := by
  constructor
  · intro member
    obtain ⟨other, same, inside | rfl⟩ := listed.named _ member <;> cases bucketName_injective same
    · exact Or.inl inside
    · exact Or.inr ⟨rfl, Store.bucket_isSome.mpr member⟩
  · rintro (inside | ⟨rfl, present⟩)
    · exact listed.present index inside
    · exact Store.bucket_isSome.mp present

theorem Listed.loaded {store : Store} (listed : setting.Listed all store) (placed : setting.Placed all)
    (zerothServer serverCount : UInt32) :
    (newDirectory (fun _ => true) zerothServer serverCount store.keys).mapping.Valid ∧
      (newDirectory (fun _ => true) zerothServer serverCount store.keys).mapping.Small ∧
      (newDirectory (fun _ => true) zerothServer serverCount store.keys).mapping.partitions =
        if (store.bucket setting.cindex).isSome then insert setting.cindex all else all := by
  have buckets : Buckets store.keys := by
    intro name member
    obtain ⟨index, rfl, inside | rfl⟩ := listed.named name member
    · exact ⟨index, placed.small index inside, rfl⟩
    · exact ⟨setting.cindex, setting.bounded, rfl⟩
  obtain ⟨valid, small, members⟩ := newDirectory_spec buckets (fun _ => rfl) zerothServer serverCount
  refine ⟨valid, small, Finset.ext fun index => ?_⟩
  have root : index = 0 → index ∈ all := fun zero => zero ▸ placed.known setting.valid.root
  rw [members, listed.mem_keys]
  split <;> rename_i present
  · simp only [present, and_true, Finset.mem_insert]
    tauto
  · simp only [present, Bool.false_eq_true, and_false, or_false, or_iff_right_iff_imp]
    exact root

/-- What a rebuilt table selects: the partition of a name, or the child if its bucket exists and the
name ends in it. -/
theorem Listed.lookup {store : Store} (listed : setting.Listed all store) (placed : setting.Placed all)
    (zerothServer serverCount : UInt32) {name : FileName} {index : Nat}
    (deepest : Deepest all (hashNumber shahash name) index) :
    gigaGetIndexForFile shahash (newDirectory (fun _ => true) zerothServer serverCount store.keys).mapping name =
      some (if (store.bucket setting.cindex).isSome ∧ index = setting.pindex ∧ setting.Migrates shahash name
        then setting.cindex else index) := by
  obtain ⟨valid, small, members⟩ := listed.loaded placed zerothServer serverCount
  rw [gigaGetIndexForFile_eq_some shahash valid, members]
  refine ⟨small, ?_⟩
  by_cases present : (store.bucket setting.cindex).isSome
  · -- One more partition below `pindex` takes over the names that end in it.
    simp only [present, if_true, true_and]
    obtain ⟨-, -, radix, low, -, child, -⟩ := gigaIndexForSplitting_some setting.child
    have added := deepest_insert placed.pindex_mem (depth_le_iff.mp low) deepest
    rw [← child] at added
    exact added
  · simp only [present, Bool.false_eq_true, if_false, false_and]
    exact deepest

/-- After a crash at any point of a split, a restart finds every entry in the partition of its name
exactly when the child has no bucket yet or nothing is left to move. -/
theorem restart_finds_entries {start state : SplitState} (placed : setting.Placed all)
    (ready : setting.Ready shahash start) (durable : setting.Durable shahash all start.store)
    (reached : Reaches (splitStep shahash servernum) (fun _ _ => True) start state)
    (zerothServer serverCount : UInt32) :
    (∀ index name, (state.store.find index name).isSome →
      gigaGetIndexForFile shahash (newDirectory (fun _ => true) zerothServer serverCount state.store.keys).mapping
        name = some index) ↔
      (state.store.bucket setting.cindex = none ∨ ∀ name, (state.store.find setting.pindex name).isSome →
        gigaFileMigrationStatus shahash name setting.cindex = some false) := by
  obtain ⟨sound, listed, filed⟩ := durable_of_reaches placed ready durable reached
  constructor
  · -- A migrating entry that is left in the parent's bucket is looked for in the child's.
    intro found
    by_contra neither
    obtain ⟨present, name, held, migrates⟩ : (state.store.bucket setting.cindex).isSome ∧
        ∃ name, (state.store.find setting.pindex name).isSome ∧ setting.Migrates shahash name := by
      simpa [migrationStatus, Option.isSome_iff_ne_none] using neither
    have selected := listed.lookup placed zerothServer serverCount
      (filed setting.pindex name setting.cindex_ne_pindex.symm held)
    rw [if_pos ⟨present, rfl, migrates⟩, found setting.pindex name held] at selected
    exact setting.cindex_ne_pindex (Option.some.inj selected).symm
  · intro safe index name held
    by_cases child : index = setting.cindex
    · subst child
      obtain ⟨routes, migrates⟩ := sound.contents.child name held
      have present := Store.bucket_of_find held
      rw [listed.lookup placed zerothServer serverCount (placed.deepest routes setting.owner),
        if_pos ⟨present, rfl, migrates⟩]
    · rw [listed.lookup placed zerothServer serverCount (filed index name child held), if_neg]
      rintro ⟨present, rfl, migrates⟩
      rcases safe with absent | clean
      · rw [absent] at present
        cases present
      · have stays := clean name held
        rw [migrationStatus] at stays
        simp [migrates] at stays

end SplitSetting

theorem placed_unsplit : unsplit.Placed {0} where
  closed index member positive := absurd (Finset.mem_singleton.mp member) positive
  small index member := by
    rw [Finset.mem_singleton.mp member]
    decide
  known := by
    unfold unsplit
    rw [partitions_init]
  children child member positive := absurd (Finset.mem_singleton.mp member) positive

theorem durable_unsplitStart (shahash : FileName → Digest) (bucket : Bucket) :
    unsplit.Durable shahash {0} (unsplitStart bucket).store where
  listed := by
    constructor
    · intro name member
      exact ⟨0, List.mem_singleton.mp member, Or.inl (Finset.mem_singleton_self 0)⟩
    · intro index member
      rw [Finset.mem_singleton.mp member]
      exact List.mem_singleton.mpr rfl
  filed index name _ held := by
    have zero : index = 0 := by
      by_contra other
      simp [Store.find, bucket_unsplitStart other] at held
    subst zero
    refine ⟨Finset.mem_singleton_self 0, suffix_zero _, fun other member _ => ?_⟩
    rw [Finset.mem_singleton.mp member]

/-- A crash right after the child's bucket is made: the file `a` is in the parent's bucket, and the
rebuilt table looks for it in the child's. -/
theorem crash_before_move_misplaces :
    unsplit.Ready allMigrate (unsplitStart crowded) ∧
    ∃ state, execute (splitStep allMigrate 0) (unsplitStart crowded) [.begin_ true, .makeChild .inPlace 1] =
        some state ∧
      state.store.find 0 ['a'] = some ⟨7, false⟩ ∧
      gigaGetIndexForFile allMigrate (newDirectory (fun _ => true) 0 1 state.store.keys).mapping ['a'] = some 1 := by
  have runs : (execute (splitStep allMigrate 0) (unsplitStart crowded) [.begin_ true, .makeChild .inPlace 1]).map
      (fun state => (state.store.find 0 ['a'],
        gigaGetIndexForFile allMigrate (state.store.keys.foldl addListed (gigaInitMapping 0 1)) ['a'])) =
      some (some ⟨7, false⟩, some 1) := by
    rw [opens_unsplitStart overflow_crowded]
    decide +kernel
  obtain ⟨state, executed, observed⟩ := Option.map_eq_some_iff.mp runs
  simp only [Prod.mk.injEq] at observed
  refine ⟨ready_unsplitStart _ _, state, executed, observed.1, ?_⟩
  rw [newDirectory_eq_foldl fun _ => rfl]
  exact observed.2

theorem restart_finds_entries_moved :
    ∃ state, execute (splitStep allMigrate 0) (unsplitStart (AList.singleton ['a'] ⟨7, false⟩))
        [.begin_ false, .makeChild .inPlace 1, .readdir, .moveNext true 0] = some state ∧
      gigaGetIndexForFile allMigrate (newDirectory (fun _ => true) 0 1 state.store.keys).mapping ['a'] = some 1 := by
  have runs : (execute (splitStep allMigrate 0) (unsplitStart (AList.singleton ['a'] ⟨7, false⟩))
      [.begin_ false, .makeChild .inPlace 1, .readdir, .moveNext true 0]).map (fun state =>
        (state.store.names 0, state.store.find 1 ['a'])) = some ([], some ⟨7, false⟩) := by decide +kernel
  obtain ⟨state, executed, observed⟩ := Option.map_eq_some_iff.mp runs
  simp only [Prod.mk.injEq] at observed
  have reached : Reaches (splitStep allMigrate 0) (fun _ _ => True) _ state :=
    reaches_of_execute executed
  refine ⟨state, executed, (SplitSetting.restart_finds_entries placed_unsplit (ready_unsplitStart _ _)
    (durable_unsplitStart _ _) reached 0 1).mpr (Or.inr fun name held => ?_) 1 ['a'] (by rw [observed.2]; rfl)⟩
  have member := Store.mem_names.mpr held
  rw [show unsplit.pindex = 0 from rfl, observed.1] at member
  cases member

end SkyeFS.Server
