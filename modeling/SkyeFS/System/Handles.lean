import SkyeFS.Index.Splitting
import SkyeFS.System.World

/-! Does a partition that a server owns and has in its table always have its bucket?

`get_partition_handle` asserts it. Every step keeps the tables and the buckets together
except a few: a directory is there before its `p00000` and after it, a bucket that is
made on the wrong server is dropped again, a remove may take away the bucket of a split
that is still to be announced, and a load may add a partition from a page that it read
before the bucket was removed.
-/

set_option autoImplicit false

namespace SkyeFS.System

open Index Pvfs Server Foundation

def madeChild : Thread → Option Nat
  | .start _ | .making _ _ | .ended => none
  | .misplaced _ cindex | .scanning _ cindex _ _ _ | .batch _ cindex _ _ _ _ | .finishing _ cindex _
  | .announcing _ cindex => some cindex

def misplacedChild : Thread → Option Nat
  | .misplaced _ cindex => some cindex
  | .start _ | .making _ _ | .ended | .scanning _ _ _ _ _ | .batch _ _ _ _ _ _ | .finishing _ _ _ | .announcing _ _ => none

theorem madeChild_of_misplaced {thread : Thread} {cindex : Nat} (misplaced : misplacedChild thread = some cindex) :
    madeChild thread = some cindex := by
  cases thread <;> cases misplaced
  rfl

namespace Directory

def owner (directory : Directory) (index : Nat) : Nat :=
  gigaGetServerForIndex (gigaInitMapping directory.tree.zerothServer directory.tree.serverCount) index

/-- No split in progress has this child. -/
def Unmade (directory : Directory) (index : Nat) : Prop :=
  ∀ server < directory.tree.serverCount.toNat, madeChild (directory.threads server) ≠ some index

instance (directory : Directory) (index : Nat) : Decidable (directory.Unmade index) :=
  inferInstanceAs (Decidable (∀ server < _, _))

/-- No bucket is on the wrong server. -/
def Settled (directory : Directory) : Prop :=
  ∀ server < directory.tree.serverCount.toNat, misplacedChild (directory.threads server) = none

instance (directory : Directory) : Decidable directory.Settled := inferInstanceAs (Decidable (∀ server < _, _))

/-- A thread that reads a page does so while no bucket is on the wrong server. -/
def LoadsSettled (directory : Directory) : Option Loader → Prop
  | some (.reading _) => directory.Settled
  | some (.adding _ _ _) | none => True

/-- The bucket is not that of a split in progress, and its owner is not loading the directory. -/
def Removable (directory : Directory) : Option Nat → Prop
  | some index => directory.Unmade index ∧ directory.loaders (directory.owner index) = none
  | none => True

def RemovesOrderly (directory : Directory) : Remover → Prop
  | .page _ _ _ (name :: _) => directory.Removable (Tree.otherBucket name)
  | .page _ _ _ [] | .idle | .listing _ _ | .emptied _ | .unrooted _ => True

/-- Requests come after the mkdir of the directory has returned and before a remove takes `p00000` away. No server
reads a page of buckets while one of them is on the wrong server. No remove takes away the bucket of a split in progress,
nor one whose owner is loading the directory. -/
def Orderly (directory : Directory) : Event → Prop
  | .enter _ _ _ => directory.rooting = .ready
  | .fill server _ _ => directory.LoadsSettled (directory.loaders server)
  | .removeNext server _ _ => directory.RemovesOrderly (directory.removers server)
  | .fetch _ _ | .perform _ | .makeZeroth _ _ _ | .dropZeroth _ _ | .removePage _ _ _ | .removeZeroth _ _
  | .removeEntry _ _ _ | .dequeue _ _ _ | .split _ _ _ => True

/-- The server has the partition in its table, or in hand to add it. -/
def Knows (directory : Directory) (server index : Nat) : Prop :=
  (∃ dir, directory.tree.cached server = some dir ∧ index ∈ dir.mapping.partitions) ∨
    ∃ loader, directory.loaders server = some loader ∧ bucketName index ∈ loader.rest

/-- The partition has a bucket, and not on the wrong server. -/
structure Backed (directory : Directory) (index : Nat) : Prop where
  present : bucketName index ∈ directory.tree.store.keys
  placed : ∀ server, misplacedChild (directory.threads server) ≠ some index

structure Sound (directory : Directory) : Prop where
  indexed : Indexed directory.tree.store.keys
  rooted : directory.rooting = .ready → bucketName 0 ∈ directory.tree.store.keys
  placement : ∀ {server : Nat} {dir : SkyeDirectory}, directory.tree.cached server = some dir →
    dir.mapping.SamePlacement (gigaInitMapping directory.tree.zerothServer directory.tree.serverCount)
  listed : ∀ {server : Nat} {loader : Loader}, directory.loaders server = some loader → Indexed loader.rest
  -- What the owner of a partition knows.
  backed : ∀ {index : Nat}, index ≠ 0 → directory.Knows (directory.owner index) index → directory.Backed index
  running : ∀ {server : Nat}, directory.threads server ≠ .ended → server < directory.tree.serverCount.toNat
  making : ∀ {server pindex cindex : Nat}, directory.threads server = .making pindex cindex →
    0 < cindex ∧ cindex < capacity
  child : ∀ {server cindex : Nat}, madeChild (directory.threads server) = some cindex →
    0 < cindex ∧ bucketName cindex ∈ directory.tree.store.keys
  -- Two threads never have the same child.
  single : ∀ {server other cindex : Nat}, madeChild (directory.threads server) = some cindex →
    madeChild (directory.threads other) = some cindex → server = other
  paged : ∀ {server token outcount : Nat} {origin : Place} {rest : List FileName},
    directory.removers server = .page origin token outcount rest → Indexed rest

section
variable {directory : Directory} {server : Nat}

theorem Sound.maker {cindex : Nat} (sound : directory.Sound) (has : madeChild (directory.threads server) = some cindex) :
    server < directory.tree.serverCount.toNat := by
  refine sound.running fun ended => ?_
  rw [ended] at has
  cases has

theorem Sound.inside {index : Nat} (sound : directory.Sound) (present : bucketName index ∈ directory.tree.store.keys) :
    index < capacity := by
  obtain ⟨number, bounded, same⟩ := sound.indexed _ present
  rw [bucketName_injective same]
  exact bounded

theorem sound_empty (zerothServer serverCount : UInt32) : (empty zerothServer serverCount).Sound where
  indexed := nofun
  rooted := nofun
  placement := nofun
  listed := nofun
  backed _ known := by rcases known with ⟨_, ⟨⟩, _⟩ | ⟨_, ⟨⟩, _⟩
  running busy := absurd rfl busy
  making := nofun
  child := nofun
  single := nofun
  paged := nofun

theorem Sound.setRemover {remover : Remover} (sound : directory.Sound)
    (paged : ∀ {token outcount : Nat} {origin : Place} {rest : List FileName},
      remover = .page origin token outcount rest → Indexed rest) :
    (directory.setRemover server remover).Sound := by
  refine { sound with backed := fun nonzero known => ?_, paged := fun {other token outcount origin rest} at_ => ?_ }
  · obtain ⟨present, placed⟩ := sound.backed nonzero known
    exact ⟨present, placed⟩
  · simp only [Directory.setRemover, Function.update_apply] at at_
    split at at_
    · exact paged at_
    · exact sound.paged at_

theorem Sound.more {store : Store} (sound : directory.Sound) (indexed : Indexed store.keys)
    (subset : ∀ bucket ∈ directory.tree.store.keys, bucket ∈ store.keys) : (directory.setStore store).Sound := by
  refine { sound with
    indexed := indexed
    rooted := fun ready => subset _ (sound.rooted ready)
    backed := fun nonzero known => ?_
    child := fun has => ⟨(sound.child has).1, subset _ (sound.child has).2⟩ }
  obtain ⟨present, placed⟩ := sound.backed nonzero known
  exact ⟨subset _ present, placed⟩

theorem Sound.rewrite {store : Store} (sound : directory.Sound) (same : store.keys = directory.tree.store.keys) :
    (directory.setStore store).Sound := by
  refine sound.more ?_ ?_
  · rw [same]
    exact sound.indexed
  · intro bucket member
    rw [same]
    exact member

theorem Sound.erase {index : Nat} (sound : directory.Sound) (root : index = 0 → directory.rooting ≠ .ready)
    (unknown : index ≠ 0 → ¬ directory.Knows (directory.owner index) index) (unmade : directory.Unmade index) :
    (directory.setStore (directory.tree.store.erase (bucketName index))).Sound := by
  have kept : ∀ {other : Nat}, other ≠ index → bucketName other ∈ directory.tree.store.keys →
      bucketName other ∈ (directory.tree.store.erase (bucketName index)).keys := by
    intro other different member
    exact AList.mem_keys.mp (AList.mem_erase.mpr ⟨bucketName_injective.ne different, AList.mem_keys.mpr member⟩)
  refine { sound with
    indexed := fun name member => sound.indexed name (Listing.keys_erase_sublist.subset member)
    rooted := fun ready => kept (fun zero => root zero.symm ready) (sound.rooted ready)
    backed := fun {other} nonzero known => ?_
    child := fun {other cindex} has => ?_ }
  · obtain ⟨present, placed⟩ := sound.backed nonzero known
    refine ⟨kept (fun same => ?_) present, placed⟩
    subst same
    exact unknown nonzero known
  · refine ⟨(sound.child has).1, kept (fun same => ?_) (sound.child has).2⟩
    subst same
    exact unmade other (sound.maker has) has

theorem Sound.reroot {rooting : Rooting} (sound : directory.Sound)
    (rooted : rooting = .ready → bucketName 0 ∈ directory.tree.store.keys) :
    ({ directory with rooting } : Directory).Sound := by
  refine { sound with rooted := rooted, backed := fun nonzero known => ?_ }
  obtain ⟨present, placed⟩ := sound.backed nonzero known
  exact ⟨present, placed⟩

theorem Sound.recache {table : Option SkyeDirectory} {loader : Option Loader} (sound : directory.Sound)
    (placement : ∀ dir, table = some dir →
      dir.mapping.SamePlacement (gigaInitMapping directory.tree.zerothServer directory.tree.serverCount))
    (listed : ∀ later, loader = some later → Indexed later.rest)
    (backed : ∀ index ≠ 0, directory.owner index = server →
      ((∃ dir, table = some dir ∧ index ∈ dir.mapping.partitions) ∨
        ∃ later, loader = some later ∧ bucketName index ∈ later.rest) → directory.Backed index) :
    ((directory.setCached server table).setLoader server loader).Sound := by
  refine { sound with
    placement := fun {other dir} cached => ?_
    listed := fun {other later} at_ => ?_
    backed := fun {index} nonzero known => ?_ }
  · simp only [setLoader, setCached, Function.update_apply] at cached
    split at cached
    · exact placement dir cached
    · exact sound.placement cached
  · simp only [setLoader, setCached, Function.update_apply] at at_
    split at at_
    · exact listed later at_
    · exact sound.listed at_
  · change Knows _ (directory.owner index) index at known
    have old : directory.Backed index := by
      by_cases own : directory.owner index = server
      · rw [own] at known
        exact backed index nonzero own (by simpa only [Knows, setLoader, setCached, Function.update_self] using known)
      · refine sound.backed nonzero ?_
        simpa only [Knows, setLoader, setCached, Function.update_of_ne own] using known
    exact ⟨old.present, old.placed⟩

theorem Sound.cache {dir : SkyeDirectory} (sound : directory.Sound)
    (placement : dir.mapping.SamePlacement (gigaInitMapping directory.tree.zerothServer directory.tree.serverCount))
    (backed : ∀ index ∈ dir.mapping.partitions, index ≠ 0 → directory.owner index = server → directory.Backed index) :
    (directory.setCached server (some dir)).Sound := by
  have same : (directory.setCached server (some dir)).setLoader server (directory.loaders server) =
      directory.setCached server (some dir) := by
    simp only [setLoader, setCached, Function.update_eq_self]
  rw [← same]
  refine sound.recache (fun found table => ?_) (fun later at_ => sound.listed at_) fun index nonzero own known => ?_
  · cases table
    exact placement
  · rcases known with ⟨_, ⟨⟩, member⟩ | held
    · exact backed index member nonzero own
    · exact sound.backed nonzero (Or.inr (own ▸ held))

theorem Sound.resplit {dir : SkyeDirectory} {splitting : Option Nat} (sound : directory.Sound)
    (cached : directory.tree.cached server = some dir) :
    (directory.setCached server (some { dir with splittingIndex := splitting })).Sound := by
  have placement := sound.placement cached
  refine sound.cache placement fun index member nonzero own => ?_
  exact sound.backed nonzero (Or.inl ⟨dir, own ▸ cached, member⟩)

theorem Sound.add {dir : SkyeDirectory} {cindex : Nat} {splitting : Option Nat} (sound : directory.Sound)
    (cached : directory.tree.cached server = some dir) (backed : directory.Backed cindex) :
    (directory.setCached server
      (some { mapping := gigaUpdateMapping dir.mapping cindex, splittingIndex := splitting })).Sound := by
  have placement := sound.placement cached
  refine sound.cache placement fun index member nonzero own => ?_
  rw [partitions_update dir.mapping (sound.inside backed.present), Finset.mem_insert] at member
  rcases member with rfl | older
  · exact backed
  · exact sound.backed nonzero (Or.inl ⟨dir, own ▸ cached, older⟩)

theorem Sound.setThread {thread : Thread} (sound : directory.Sound)
    (running : thread ≠ .ended → server < directory.tree.serverCount.toNat)
    (making : ∀ {pindex cindex : Nat}, thread = .making pindex cindex → 0 < cindex ∧ cindex < capacity)
    (child : ∀ {cindex : Nat}, madeChild thread = some cindex →
      0 < cindex ∧ bucketName cindex ∈ directory.tree.store.keys ∧
        ∀ other ≠ server, madeChild (directory.threads other) ≠ some cindex)
    (unknown : ∀ {cindex : Nat}, misplacedChild thread = some cindex → ¬ directory.Knows (directory.owner cindex) cindex) :
    (directory.setThread server thread).Sound := by
  refine { sound with
    backed := fun {index} nonzero known => ?_
    running := fun {other} busy => ?_
    making := fun {other pindex cindex} at_ => ?_
    child := fun {other cindex} has => ?_
    single := fun {first second cindex} one two => ?_ }
  · obtain ⟨present, placed⟩ := sound.backed nonzero known
    refine ⟨present, fun other misplaced => ?_⟩
    simp only [Directory.setThread, Function.update_apply] at misplaced
    split at misplaced
    · exact unknown misplaced known
    · exact placed other misplaced
  · simp only [Directory.setThread, Function.update_apply] at busy
    split at busy
    · rename_i same
      rw [same]
      exact running busy
    · exact sound.running busy
  · simp only [Directory.setThread, Function.update_apply] at at_
    split at at_
    · exact making at_
    · exact sound.making at_
  · simp only [Directory.setThread, Function.update_apply] at has
    split at has
    · exact ⟨(child has).1, (child has).2.1⟩
    · exact sound.child has
  · simp only [Directory.setThread, Function.update_apply] at one two
    split at one <;> split at two
    · rename_i same other
      exact same.trans other.symm
    · rename_i same other
      exact absurd two ((child one).2.2 second other)
    · rename_i other same
      exact absurd one ((child two).2.2 first other)
    · exact sound.single one two

theorem madeChild_of_thread {thread : Thread} {cindex : Nat} (at_ : directory.threads server = thread)
    (has : madeChild thread = some cindex) : madeChild (directory.threads server) = some cindex := by
  rw [at_]
  exact has

theorem Sound.rest {thread : Thread} (sound : directory.Sound)
    (running : thread ≠ .ended → server < directory.tree.serverCount.toNat)
    (making : ∀ {pindex cindex : Nat}, thread = .making pindex cindex → 0 < cindex ∧ cindex < capacity)
    (childless : madeChild thread = none) : (directory.setThread server thread).Sound := by
  refine sound.setThread running making (fun has => ?_) fun misplaced => ?_
  · rw [childless] at has
    cases has
  · rw [madeChild_of_misplaced misplaced] at childless
    cases childless

theorem Sound.advance {thread : Thread} {cindex : Nat} (sound : directory.Sound)
    (before : madeChild (directory.threads server) = some cindex) (after : madeChild thread = some cindex)
    (placed : misplacedChild thread = none) : (directory.setThread server thread).Sound := by
  refine sound.setThread (fun _ => sound.maker before) (fun at_ => ?_) (fun has => ?_) fun misplaced => ?_
  · rw [at_] at after
    cases after
  · obtain rfl := Option.some.inj (after.symm.trans has)
    refine ⟨(sound.child before).1, (sound.child before).2, fun other different same => ?_⟩
    exact different (sound.single same before)
  · rw [placed] at misplaced
    cases misplaced

theorem dir_cached {dir : SkyeDirectory} (cached : directory.tree.cached server = some dir) :
    directory.tree.dir server = dir := by
  rw [Tree.dir, cached, Option.getD_some]

theorem Sound.owner_dir (sound : directory.Sound) (index : Nat) :
    gigaGetServerForIndex (directory.tree.dir server).mapping index = directory.owner index := by
  cases cached : directory.tree.cached server with
  | none =>
    rw [Tree.dir, cached]
    exact (placement_newDirectory fun _ => rfl).server index
  | some dir =>
    rw [dir_cached cached]
    exact (sound.placement cached).server index

theorem Sound.fetch (sound : directory.Sound) : (directory.fetch server).Sound := by
  unfold Directory.fetch
  split
  · exact sound
  · refine sound.recache (fun dir table => ?_) (fun later at_ name member => ?_) fun index nonzero own known => ?_
    · rw [← Option.some.inj table]
      exact ⟨rfl, rfl⟩
    · rw [← Option.some.inj at_] at member
      cases member
    · rcases known with ⟨dir, table, member⟩ | ⟨later, at_, held⟩
      · rw [← Option.some.inj table, partitions_init, Finset.mem_singleton] at member
        exact absurd member nonzero
      · rw [← Option.some.inj at_] at held
        cases held

theorem Sound.fill {loader : Loader} {dir : SkyeDirectory} {success : Bool} (sound : directory.Sound)
    (loads : directory.loaders server = some loader) (cached : directory.tree.cached server = some dir)
    (settled : directory.LoadsSettled (some loader)) : (directory.fill server loader dir success).Sound := by
  -- A step of a load. The partitions of a page have buckets when it is read, and the owner's load keeps them from
  -- being removed until they are added.
  obtain ⟨⟨next, mapping⟩, filled⟩ : ∃ after, fillStep directory.tree.store.keys success dir.mapping loader = after :=
    ⟨_, rfl⟩
  have indexed := sound.listed loads
  have held : ∀ index ≠ 0, directory.owner index = server → bucketName index ∈ loader.rest → directory.Backed index :=
    fun index nonzero own member => sound.backed nonzero (Or.inr ⟨loader, own ▸ loads, member⟩)
  simp only [Directory.fill, filled]
  refine sound.recache (fun found table => ?_) (fun later at_ name member => ?_) fun index nonzero own known => ?_
  · cases table
    exact (placement_fillStep filled).trans (sound.placement cached)
  · subst at_
    rcases fillStep_rest filled member with older | ⟨-, listed⟩
    · exact indexed name older
    · exact sound.indexed name listed
  · rcases known with ⟨_, ⟨⟩, member⟩ | ⟨later, rfl, member⟩
    · rcases fillStep_added indexed filled member with older | older
      · exact sound.backed nonzero (Or.inl ⟨dir, own ▸ cached, older⟩)
      · exact held index nonzero own older
    · rcases fillStep_rest filled member with older | ⟨⟨token, rfl⟩, listed⟩
      · exact held index nonzero own older
      · refine ⟨listed, fun other misplaced => ?_⟩
        rw [settled other (sound.maker (madeChild_of_misplaced misplaced))] at misplaced
        cases misplaced

theorem Sound.put {index position : Nat} (sound : directory.Sound) (inside : index < capacity) :
    (directory.setStore (Listing.put position (bucketName index) ∅ directory.tree.store)).Sound := by
  refine sound.more (fun name member => ?_) fun name member => ?_
  · rcases Listing.mem_put.mp (AList.mem_keys.mpr member) with rfl | older
    · exact ⟨index, inside, rfl⟩
    · exact sound.indexed name (AList.mem_keys.mp older)
  · exact AList.mem_keys.mp (Listing.mem_put.mpr (Or.inr (AList.mem_keys.mpr member)))

theorem mem_keys_put {store : Store} {index position : Nat} :
    bucketName index ∈ (Listing.put position (bucketName index) (∅ : Bucket) store).keys :=
  AList.mem_keys.mp (Listing.mem_put.mpr (Or.inl rfl))

theorem Sound.makeZeroth {outcome : MkdirOutcome} {position : Nat} (sound : directory.Sound) :
    (directory.makeZeroth outcome position).Sound := by
  have made : (directory.setStore (Listing.put position (bucketName 0) ∅ directory.tree.store)).Sound :=
    sound.put (by decide)
  unfold Directory.makeZeroth
  split
  · exact sound.reroot nofun
  · cases outcome with
    | inPlace => exact made.reroot fun _ => mem_keys_put
    | misplaced => exact made.reroot nofun
    | failed => exact sound.reroot nofun

theorem Sound.unroot {rooting : Rooting} (sound : directory.Sound) (unready : rooting ≠ .ready) :
    ({ directory.setStore (directory.tree.store.erase (bucketName 0)) with rooting } : Directory).Sound := by
  have rerooted : ({ directory with rooting } : Directory).Sound := sound.reroot fun ready => absurd ready unready
  refine rerooted.erase (fun _ => unready) (fun nonzero => absurd rfl nonzero) fun other _ has => ?_
  exact absurd (sound.child has).1 (lt_irrefl 0)

theorem Sound.dropZeroth {success : Bool} (sound : directory.Sound) : (directory.dropZeroth success).Sound := by
  unfold Directory.dropZeroth
  split
  · exact sound.unroot nofun
  · exact sound.reroot nofun

theorem Sound.removeZeroth {origin : Place} (sound : directory.Sound) : (directory.removeZeroth server origin).Sound := by
  unfold Directory.removeZeroth
  split
  · exact sound.setRemover nofun
  · rename_i store removed
    have unready : Rooting.unrooted ≠ .ready := nofun
    rw [(sysRemoveBucket_ok removed).2.2]
    exact (sound.unroot unready).setRemover nofun

theorem Sound.removeBucket {index : Nat} {dir : SkyeDirectory} {result : Option Errno} {tree : Tree}
    (sound : directory.Sound) (nonzero : index ≠ 0) (inside : index < capacity)
    (cached : directory.tree.cached (directory.owner index) = some dir) (unmade : directory.Unmade index)
    (loaded : directory.loaders (directory.owner index) = none)
    (removed : directory.tree.removeBucket (directory.owner index) index = (result, tree)) :
    ({ directory with tree } : Directory).Sound := by
  -- A bucket is removed on the server that owns it, from PVFS and from the table.
  unfold Tree.removeBucket at removed
  rw [dir_cached cached] at removed
  split at removed
  · cases removed
    have same : directory.tree.fetch (directory.owner index) = directory.tree := by
      rw [Tree.fetch, dir_cached cached, ← cached, Function.update_eq_self]
    rw [same]
    exact sound
  · rename_i fewer store taken
    obtain ⟨erased, rfl⟩ := removeBucket_ok taken
    obtain ⟨-, -, rfl⟩ := sysRemoveBucket_ok erased
    have members : (gigaUpdateMappingRemove dir.mapping index).partitions = dir.mapping.partitions.erase index :=
      partitions_remove dir.mapping inside
    have placement := sound.placement cached
    have cleared : (directory.setCached (directory.owner index)
        (some { dir with mapping := gigaUpdateMappingRemove dir.mapping index })).Sound := by
      refine sound.cache placement fun other member nonzero own => ?_
      rw [members] at member
      exact sound.backed nonzero (Or.inl ⟨dir, own ▸ cached, Finset.mem_of_mem_erase member⟩)
    cases removed
    refine cleared.erase (fun zero => absurd zero nonzero) (fun _ known => ?_) unmade
    change Knows _ (directory.owner index) index at known
    simp only [Knows, setCached, Function.update_self, loaded, reduceCtorEq, false_and, exists_false, or_false,
      Option.some.injEq, exists_eq_left', members] at known
    exact Finset.notMem_erase index _ known

theorem otherBucket_some {name : FileName} {index : Nat} (indexed : ∃ number < capacity, name = bucketName number)
    (listed : Tree.otherBucket name = some index) : index ≠ 0 ∧ index < capacity := by
  obtain ⟨number, inside, rfl⟩ := indexed
  rw [Tree.otherBucket, scanBucketName_bucketName, Option.filter_eq_some_iff] at listed
  obtain ⟨same, nonzero⟩ := listed
  cases same
  exact ⟨by simpa using nonzero, inside⟩

theorem Sound.removeListed {reachable : Nat → Bool} {name : FileName} {rest : List FileName} {result : Option Errno}
    {tree : Tree} (sound : directory.Sound) (indexed : ∃ number < capacity, name = bucketName number)
    (removable : directory.Removable (Tree.otherBucket name))
    (proceeds : directory.proceeds server reachable (name :: rest))
    (removed : Tree.removeListed ⟨fun _ => true, reachable⟩ server directory.tree name = (result, tree)) :
    ({ directory with tree } : Directory).Sound := by
  unfold Tree.removeListed at removed
  split at removed
  · cases removed
    exact sound
  · rename_i index listed
    obtain ⟨nonzero, inside⟩ := otherBucket_some indexed listed
    rw [listed] at removable
    simp only [Directory.proceeds, listed, Option.map_some, Option.all_some, sound.owner_dir] at proceeds
    dsimp only at removed
    rw [sound.owner_dir] at removed
    split at removed
    · rename_i answers
      have ready : directory.ready server (directory.owner index) = true := by
        rcases (Bool.or_eq_true _ _).mp proceeds with ready | refused
        · exact ready
        · simp only [Bool.and_eq_true, decide_eq_true_eq] at refused
          rcases answers with own | answers
          · exact absurd own refused.1
          · exact absurd (answers.symm.trans refused.2) (by decide)
      simp only [Directory.ready, Bool.and_eq_true] at ready
      obtain ⟨dir, cached⟩ := Option.isSome_iff_exists.mp ready.1
      exact sound.removeBucket nonzero inside cached removable.1 removable.2 removed
    · cases removed
      exact sound

theorem Sound.removeNext {reachable : Nat → Bool} {origin : Place} {token outcount : Nat} {rest : List FileName}
    (sound : directory.Sound) (at_ : directory.removers server = .page origin token outcount rest)
    (orderly : directory.RemovesOrderly (directory.removers server))
    (proceeds : directory.proceeds server reachable rest) :
    (directory.removeNext server reachable origin token outcount rest).Sound := by
  have indexed := sound.paged at_
  cases rest with
  | nil =>
    refine sound.setRemover fun next => ?_
    split at next <;> cases next
  | cons name rest =>
    rw [at_] at orderly
    simp only [Directory.removeNext]
    split
    · rename_i tree gone
      refine (sound.removeListed (indexed name (by simp)) orderly proceeds gone).setRemover fun next => ?_
      cases next
      exact fun other member => indexed other (by simp [member])
    · rename_i errno tree failed
      exact (sound.removeListed (indexed name (by simp)) orderly proceeds failed).setRemover nofun

theorem Sound.announced {pindex cindex : Nat} (sound : directory.Sound)
    (at_ : directory.threads server = .announcing pindex cindex) : directory.Backed cindex := by
  -- The bucket of a split that is not on the wrong server is on no other split's wrong server.
  have has : madeChild (directory.threads server) = some cindex := madeChild_of_thread at_ rfl
  refine ⟨(sound.child has).2, fun other misplaced => ?_⟩
  obtain rfl : server = other := sound.single has (madeChild_of_misplaced misplaced)
  rw [at_] at misplaced
  cases misplaced

section
variable {shahash : FileName → Digest} {dir : SkyeDirectory} {after : SplitState} {event : SplitEvent}

theorem Sound.goes_on {store : Store} {thread : Thread} (cached : directory.tree.cached server = some dir)
    (base : ((directory.setThread server thread).setStore store).Sound) :
    (((directory.setStore store).setCached server (some dir)).setThread server thread).Sound :=
  base.resplit cached

theorem madeChild_afterPass {pindex cindex moved : Nat} {held : Bool} :
    madeChild (afterPass pindex cindex moved held) = some cindex := by
  unfold afterPass
  split <;> rfl

theorem misplacedChild_afterPass {pindex cindex moved : Nat} {held : Bool} :
    misplacedChild (afterPass pindex cindex moved held) = none := by
  unfold afterPass
  split <;> rfl

theorem Sound.makes {pindex cindex position : Nat} {thread : Thread} {splitting : Option Nat} (sound : directory.Sound)
    (cached : directory.tree.cached server = some dir) (at_ : directory.threads server = .making pindex cindex)
    (absent : directory.tree.store.bucket cindex = none) (made : madeChild thread = some cindex) :
    (((directory.setStore (Listing.put position (bucketName cindex) ∅ directory.tree.store)).setCached server
      (some { dir with splittingIndex := splitting })).setThread server thread).Sound := by
  -- The bucket of the child is made. There was none, so no thread had made it and its owner does not know it.
  obtain ⟨positive, inside⟩ := sound.making at_
  have missing : bucketName cindex ∉ directory.tree.store.keys := by
    rw [← Store.bucket_isSome, absent]
    nofun
  have base : ((directory.setThread server thread).setStore
      (Listing.put position (bucketName cindex) ∅ directory.tree.store)).Sound := by
    refine (sound.put inside).setThread (fun _ => sound.running (by rw [at_]; nofun)) (fun making => ?_) (fun has => ?_)
      fun misplaced => ?_
    · rw [making] at made
      cases made
    · obtain rfl := Option.some.inj (made.symm.trans has)
      exact ⟨positive, mem_keys_put, fun other _ same => missing (sound.child same).2⟩
    · obtain rfl := Option.some.inj (made.symm.trans (madeChild_of_misplaced misplaced))
      exact fun known => missing (sound.backed positive.ne' known).present
  exact base.resplit cached

theorem Sound.drops {pindex cindex : Nat} (sound : directory.Sound) (cached : directory.tree.cached server = some dir)
    (at_ : directory.threads server = .misplaced pindex cindex) :
    (((directory.setStore (directory.tree.store.erase (bucketName cindex))).setCached server (some dir)).setThread server
      (.making pindex cindex)).Sound := by
  have has : madeChild (directory.threads server) = some cindex := madeChild_of_thread at_ rfl
  obtain ⟨positive, present⟩ := sound.child has
  have rests : (directory.setThread server (.making pindex cindex)).Sound := by
    refine sound.rest (fun _ => sound.maker has) (fun making => ?_) rfl
    cases making
    exact ⟨positive, sound.inside present⟩
  refine Sound.goes_on cached (rests.erase (fun zero => absurd zero positive.ne') (fun _ known => ?_) fun other _ made => ?_)
  · exact (sound.backed positive.ne' known).placed server (by rw [at_]; rfl)
  · simp only [Directory.setThread, Function.update_apply] at made
    split at made
    · cases made
    · rename_i different
      exact different (sound.single made has)

theorem Sound.split_step (sound : directory.Sound) (cached : directory.tree.cached server = some dir)
    (own : event.ofThread = true) (unfinished : event ≠ .finish)
    (move : SplitMove shahash server ⟨dir, directory.tree.store, directory.threads server, []⟩ event after) :
    (((directory.setStore after.store).setCached server (some after.dir)).setThread server after.thread).Sound := by
  have goes : ∀ {thread : Thread}, (directory.setThread server thread).Sound →
      (((directory.setStore directory.tree.store).setCached server (some dir)).setThread server thread).Sound :=
    fun base => Sound.goes_on cached (base.rewrite rfl)
  have advances : ∀ {thread : Thread} {cindex : Nat}, madeChild (directory.threads server) = some cindex →
      madeChild thread = some cindex → misplacedChild thread = none →
      (((directory.setStore directory.tree.store).setCached server (some dir)).setThread server thread).Sound :=
    fun before same placed => goes (sound.advance before same placed)
  cases move with
  | @begin_ _ pindex cindex thread unread child =>
    have at_ : directory.threads server = .start pindex := thread
    refine goes (sound.rest (fun _ => sound.running (by rw [at_]; nofun)) (fun making => ?_) rfl)
    cases making
    obtain ⟨-, -, radix, -, -, same, -⟩ := gigaIndexForSplitting_some child
    have power := Nat.two_pow_pos radix
    exact ⟨by omega, gigaIndexForSplitting_lt child⟩
  | decline | mkdirFails | removeFails => exact goes (sound.rest nofun nofun rfl)
  | makeMisplaced thread absent | makeInPlace thread absent => exact sound.makes cached thread absent rfl
  | dropChild thread => exact sound.drops cached thread
  | readEmpty thread | endPass thread =>
    exact advances (madeChild_of_thread thread rfl) madeChild_afterPass misplacedChild_afterPass
  | readPage thread | skip thread | moveFailed thread | nextPage thread | lockAgain thread =>
    exact advances (madeChild_of_thread thread rfl) rfl rfl
  | @move pindex cindex token moved outcount position name rest object thread migrates found present =>
    have goes : (directory.setThread server (.batch pindex cindex token (moved + 1) outcount rest)).Sound :=
      sound.advance (madeChild_of_thread thread rfl) rfl rfl
    refine Sound.goes_on cached (goes.rewrite ?_)
    rw [Store.keys_bind, Store.keys_unbind]
    rfl
  | finish => exact absurd rfl unfinished
  | answer =>
    have same : ((directory.setStore directory.tree.store).setCached server (some dir)).setThread server
        (directory.threads server) = directory := by
      simp only [setStore, setCached, Directory.setThread, ← cached, Function.update_eq_self]
    dsimp only
    rw [same]
    exact sound
  | bind free binds => cases binds <;> cases own
  | removeLookup | removeFailed | removeEntry | takeAway => cases own

theorem Sound.finish_step {told : Directory} {pindex cindex : Nat} (sound : told.Sound)
    (cached : told.tree.cached server = some dir) (at_ : told.threads server = .announcing pindex cindex) :
    (((told.setStore told.tree.store).setCached server
      (some { mapping := gigaUpdateMapping dir.mapping cindex, splittingIndex := none })).setThread server .ended).Sound := by
  have ended : ((told.setCached server
      (some { mapping := gigaUpdateMapping dir.mapping cindex, splittingIndex := none })).setThread server .ended).Sound :=
    (sound.add cached (sound.announced at_)).rest (fun busy => absurd rfl busy) nofun rfl
  exact ended.rewrite rfl

theorem Sound.bucketAdd {owner pindex cindex : Nat} (sound : directory.Sound)
    (at_ : directory.threads server = .announcing pindex cindex)
    (ready : directory.ready server owner) : (directory.bucketAdd owner cindex).Sound := by
  simp only [Directory.ready, Bool.and_eq_true] at ready
  obtain ⟨known, cached⟩ := Option.isSome_iff_exists.mp ready.1
  unfold Directory.bucketAdd
  rw [dir_cached cached]
  exact sound.add cached (sound.announced at_)

end

end

end Directory

def Orderly (world : World) (event : Event) : Prop :=
  match event.handle.bind world.dirs with
  | some directory => directory.Orderly event
  | none => True

namespace World

/-- Nothing has failed, and every directory is sound. -/
structure Sound (world : World) : Prop where
  running : world.aborted = false
  dirs : ∀ {handle : Nat} {directory : Directory}, world.dirs handle = some directory → directory.Sound

section
variable {world after : World} {handle : Nat} {directory : Directory}

theorem Sound.set (sound : world.Sound) (changed : directory.Sound) : (world.set handle directory).Sound := by
  refine ⟨sound.running, fun {other found} at_ => ?_⟩
  simp only [World.set, Function.update_apply] at at_
  split at at_
  · cases at_
    exact changed
  · exact sound.dirs at_

theorem Sound.write {outcome : Except Errno Store} (sound : world.Sound) (old : directory.Sound)
    (same : ∀ {store : Store}, outcome = .ok store → store.keys = directory.tree.store.keys) :
    (world.write handle directory outcome).Sound := by
  cases outcome with
  | error errno => exact sound
  | ok store => exact sound.set (old.rewrite (same rfl))

theorem Sound.refs {refs : List Nat} (sound : world.Sound) : ({ world with refs } : World).Sound :=
  ⟨sound.running, sound.dirs⟩

theorem Sound.pending {pending : List Pending} (sound : world.Sound) : ({ world with pending } : World).Sound :=
  ⟨sound.running, sound.dirs⟩

end

section
variable {shahash : FileName → Digest} {serverCount : UInt32} {world after : World} {server handle : Nat}
  {directory : Directory}

theorem Sound.enter {dir : SkyeDirectory} {call : Call} (sound : world.Sound) (old : directory.Sound)
    (ready : directory.rooting = .ready) (cached : directory.tree.cached server = some dir)
    (stepped : enterStep shahash world server handle directory dir call = some after) : after.Sound := by
  -- The bucket that `get_partition_handle` looks up is there.
  obtain ⟨local_, located, stepped⟩ := Option.bind_eq_some_iff.mp stepped
  cases local_ with
  | again bitmap =>
    cases stepped
    exact sound
  | here index =>
    dsimp only at stepped
    split at stepped
    · have present : (directory.tree.store.bucket index).isSome := by
        obtain ⟨looked, owner⟩ := locality_here.mp located
        rw [Store.bucket_isSome]
        by_cases zero : index = 0
        · rw [zero]
          exact old.rooted ready
        · rw [← Directory.dir_cached cached, old.owner_dir] at owner
          exact (old.backed zero (Or.inl ⟨dir, owner ▸ cached, gigaGetIndexForFile_mem shahash looked⟩)).present
      rw [if_pos present] at stepped
      cases stepped
      exact sound.pending
    · obtain ⟨selected, -, stepped⟩ := Option.bind_eq_some_iff.mp stepped
      split at stepped <;> cases stepped
      · exact sound.pending
      · exact sound

theorem keys_sysCreate {store made : Store} {position index : Nat} {name : FileName} {object : Object}
    (created : sysCreate position store index name object = .ok made) : made.keys = store.keys := by
  obtain ⟨-, -, rfl⟩ := sysCreate_ok created
  exact Store.keys_bind

theorem keys_sysRemove {store fewer : Store} {emptied : Bool} {index : Nat} {name : FileName}
    (removed : sysRemove emptied store index name = .ok fewer) : fewer.keys = store.keys := by
  rw [sysRemove_ok removed, Store.keys_unbind]

theorem keys_sysRename {store moved : Store} {position index : Nat} {source : Source} {name : FileName}
    (renamed : sysRename position store source index name = .ok moved) : moved.keys = store.keys := by
  rcases sysRename_ok renamed with rfl | ⟨object, -, -, -, -, rfl⟩
  · rfl
  · rw [Store.keys_bind, source.keys_clear]

theorem Sound.perform {task : Pending} (sound : world.Sound) (found : world.dirs task.handle = some directory)
    (stepped : performStep serverCount world task directory = some after) : after.Sound := by
  have old := sound.dirs found
  unfold performStep at stepped
  dsimp only at stepped
  split at stepped
  · split at stepped <;> cases stepped
    · exact sound.refs
    · exact sound
  · cases stepped
    exact sound.write old keys_sysCreate
  · split at stepped
    · cases stepped
    · split at stepped
      · cases stepped
        exact sound
      · rename_i made created
        cases stepped
        exact (sound.set (old.rewrite (keys_sysCreate created))).set (Directory.sound_empty _ _)
  · split at stepped
    · cases stepped
      exact sound
    · split at stepped
      · obtain ⟨child, at_, stepped⟩ := Option.bind_eq_some_iff.mp stepped
        split at stepped <;> cases stepped
        exact sound.set ((sound.dirs at_).setRemover nofun)
      · cases stepped
        exact sound.write old keys_sysRemove
  · obtain ⟨from_, at_, stepped⟩ := Option.bind_eq_some_iff.mp stepped
    split at stepped
    · cases stepped
      exact sound.write old keys_sysRename
    · split at stepped
      · cases stepped
        exact sound
      · rename_i moved renamed
        cases stepped
        exact (sound.set (old.rewrite (keys_sysRename renamed))).set ((sound.dirs at_).rewrite Store.keys_unbind)

theorem Sound.removeEntry {origin : Place} {success : Bool} (sound : world.Sound) (old : directory.Sound)
    (stepped : removeEntryStep world server handle directory origin success = some after) : after.Sound := by
  have forgotten : ((directory.setCached server none).setLoader server none).Sound := by
    refine old.recache nofun nofun fun index _ _ known => ?_
    rcases known with ⟨_, ⟨⟩, _⟩ | ⟨_, ⟨⟩, _⟩
  have destroyed : (world.set handle
      (((directory.setCached server none).setLoader server none).setRemover server .idle)).Sound :=
    sound.set (forgotten.setRemover nofun)
  unfold removeEntryStep at stepped
  dsimp only at stepped
  split at stepped
  · obtain ⟨parent, at_, stepped⟩ := Option.bind_eq_some_iff.mp stepped
    cases stepped
    exact destroyed.write (destroyed.dirs at_) keys_sysRemove
  · cases stepped
    exact destroyed

theorem splitStep_finish {state ended : SplitState} (stepped : splitStep shahash server state .finish = some ended) :
    ∃ pindex cindex, state.thread = .announcing pindex cindex ∧
      ended = { state with
        dir := { mapping := gigaUpdateMapping state.dir.mapping cindex, splittingIndex := none }, thread := .ended } := by
  cases thread : state.thread <;> simp only [splitStep, thread, reduceCtorEq] at stepped
  cases stepped
  exact ⟨_, _, rfl, rfl⟩

theorem informed_some {dir : SkyeDirectory} {pindex cindex owner child : Nat}
    (at_ : directory.threads server = .announcing pindex cindex)
    (informed : directory.informed server dir .finish = some (owner, child)) : child = cindex ∧ owner ≠ server := by
  simp only [Directory.informed, at_] at informed
  split at informed <;> cases informed
  rename_i foreign
  exact ⟨rfl, foreign⟩

theorem told_of_unfinished {dir : SkyeDirectory} {event : SplitEvent} {told : Directory} (unfinished : event ≠ .finish)
    (tells : directory.tell server dir event = some told) : told = directory := by
  cases event with
  | finish => exact absurd rfl unfinished
  | _ =>
    cases tells
    rfl

theorem Sound.split {event : SplitEvent} (sound : world.Sound) (old : directory.Sound)
    (stepped : splitThreadStep shahash world server handle directory event = some after) : after.Sound := by
  obtain ⟨dir, cached, stepped⟩ := Option.bind_eq_some_iff.mp stepped
  dsimp only at stepped
  split at stepped
  · rename_i guard
    obtain ⟨state, moved, stepped⟩ := Option.bind_eq_some_iff.mp stepped
    obtain ⟨told, tells, stepped⟩ := Option.bind_eq_some_iff.mp stepped
    cases stepped
    refine sound.set ?_
    by_cases last : event = .finish
    · subst last
      obtain ⟨pindex, cindex, thread, rfl⟩ := splitStep_finish moved
      have at_ : directory.threads server = .announcing pindex cindex := thread
      unfold Directory.tell at tells
      split at tells
      · cases tells
        exact old.finish_step cached at_
      · rename_i owner child informed
        split at tells
        case isFalse => cases tells
        rename_i ready
        cases tells
        obtain ⟨rfl, foreign⟩ := informed_some at_ informed
        have informs : (directory.bucketAdd owner child).Sound := old.bucketAdd at_ ready
        refine informs.finish_step ?_ at_
        simp only [Directory.bucketAdd, Directory.setCached, Function.update_of_ne foreign.symm, cached]
    · rw [told_of_unfinished last tells]
      exact old.split_step cached guard.1 last (splitStep_move moved)
  · cases stepped

theorem Sound.inDirectory {event : Event} (sound : world.Sound) (found : world.dirs handle = some directory)
    (orderly : directory.Orderly event)
    (stepped : directoryStep shahash world handle directory event = some after) : after.Sound := by
  have old := sound.dirs found
  cases event with
  | fetch server _ =>
    cases stepped
    exact sound.set old.fetch
  | fill server _ success =>
    obtain ⟨loader, loads, stepped⟩ := Option.bind_eq_some_iff.mp stepped
    obtain ⟨dir, cached, stepped⟩ := Option.bind_eq_some_iff.mp stepped
    cases stepped
    dsimp only [Directory.Orderly] at orderly
    rw [loads] at orderly
    exact sound.set (old.fill loads cached orderly)
  | enter server _ call =>
    obtain ⟨dir, cached, stepped⟩ := Option.bind_eq_some_iff.mp stepped
    split at stepped
    · exact sound.enter old orderly cached stepped
    · cases stepped
  | perform slot => cases stepped
  | makeZeroth _ outcome position =>
    simp only [directoryStep] at stepped
    split at stepped <;> cases stepped
    exact (sound.set old.makeZeroth).refs
  | dropZeroth _ success =>
    simp only [directoryStep] at stepped
    split at stepped <;> cases stepped
    exact sound.set old.dropZeroth
  | removePage server _ success =>
    simp only [directoryStep] at stepped
    split at stepped <;> cases stepped
    refine sound.set (old.setRemover fun page => ?_)
    split at page <;> cases page
    exact fun name member => old.indexed name (List.mem_of_mem_drop (List.mem_of_mem_take member))
  | removeNext server _ reachable =>
    simp only [directoryStep] at stepped
    split at stepped
    · rename_i origin token outcount rest at_
      split at stepped <;> cases stepped
      rename_i proceeds
      exact sound.set (old.removeNext at_ orderly proceeds)
    · cases stepped
  | removeZeroth server _ =>
    simp only [directoryStep] at stepped
    split at stepped <;> cases stepped
    exact sound.set old.removeZeroth
  | removeEntry server _ success =>
    simp only [directoryStep] at stepped
    split at stepped
    · exact sound.removeEntry old stepped
    · cases stepped
  | dequeue server _ pindex =>
    simp only [directoryStep] at stepped
    split at stepped <;> cases stepped
    rename_i free
    exact sound.set (old.rest (fun _ => free.1) nofun rfl)
  | split server _ event => exact sound.split old stepped

theorem Sound.step {event : Event} (sound : world.Sound) (orderly : Orderly world event)
    (stepped : worldStep shahash serverCount world event = some after) : after.Sound := by
  unfold worldStep at stepped
  split at stepped
  · cases stepped
  · split at stepped
    · rename_i slot
      obtain ⟨task, -, stepped⟩ := Option.bind_eq_some_iff.mp stepped
      obtain ⟨directory, found, stepped⟩ := Option.bind_eq_some_iff.mp stepped
      have taken : ({ world with pending := world.pending.eraseIdx slot } : World).Sound := sound.pending
      exact taken.perform found stepped
    · obtain ⟨handle, about, stepped⟩ := Option.bind_eq_some_iff.mp stepped
      obtain ⟨directory, found, stepped⟩ := Option.bind_eq_some_iff.mp stepped
      unfold Orderly at orderly
      rw [about, Option.bind_some, found] at orderly
      exact sound.inDirectory found orderly stepped

end

end World

/-- A directory that is in no cache, when the servers start. -/
structure Directory.Resting (directory : Directory) : Prop where
  rooted : (directory.tree.store.bucket 0).isSome
  indexed : Indexed directory.tree.store.keys
  uncached : ∀ server, directory.tree.cached server = none
  unloaded : ∀ server, directory.loaders server = none
  ended : ∀ server, directory.threads server = .ended
  idle : ∀ server, directory.removers server = .idle

theorem Directory.Resting.sound {directory : Directory} (resting : directory.Resting) : directory.Sound := by
  have absent : ∀ {server : Nat} {dir : SkyeDirectory}, directory.tree.cached server ≠ some dir := by
    intro server dir cached
    cases (resting.uncached server).symm.trans cached
  have idle : ∀ {server : Nat} {loader : Loader}, directory.loaders server ≠ some loader := by
    intro server loader loads
    cases (resting.unloaded server).symm.trans loads
  have childless : ∀ {server cindex : Nat}, madeChild (directory.threads server) ≠ some cindex := by
    intro server cindex has
    rw [resting.ended] at has
    cases has
  exact {
    indexed := resting.indexed
    rooted := fun _ => Store.bucket_isSome.mp resting.rooted
    placement := fun cached => absurd cached absent
    listed := fun loads => absurd loads idle
    backed := fun _ known => known.elim (fun ⟨_, cached, _⟩ => absurd cached absent) fun ⟨_, loads, _⟩ => absurd loads idle
    running := fun busy => absurd (resting.ended _) busy
    making := fun {server _ _} making => by cases (resting.ended server).symm.trans making
    child := fun has => absurd has childless
    single := fun has => absurd has childless
    paged := fun {server _ _ _ _} paged => by cases (resting.idle server).symm.trans paged }

/-- A root directory that no server has cached. -/
def emptyRoot (serverCount : UInt32) : Directory where
  tree := { zerothServer := 0, serverCount, store := AList.singleton (bucketName 0) ∅, cached := fun _ => none }
  loaders _ := none
  threads _ := .ended
  removers _ := .idle
  rooting := .ready

def emptySystem (serverCount : UInt32) : World where
  dirs handle := if handle = 1 then some (emptyRoot serverCount) else none
  refs := [1]
  pending := []
  aborted := false

/-- A server loads a directory with so many buckets, fewer than a page. -/
def load (server handle buckets : Nat) : List Event :=
  .fetch server handle :: List.replicate (buckets + 2) (.fill server handle true)

/-- A client has made the directory `d` with handle 2, as far as its entry; another one looks it up and uses it. -/
def earlyRequest : List Event :=
  load 0 1 1 ++ [.enter 0 1 (.mkdir ['d'] 2 0 0), .perform 0, .enter 0 1 (.lookup ['d']), .perform 0] ++ load 0 2 0 ++
    [.enter 0 2 (.lookup ['f'])]

/-- The remove of `d`, after the request has entered the root and the directory is in the cache. -/
def removal (buckets : Nat) : List Event :=
  [.enter 0 1 (.remove ['d']), .perform 0, .removePage 0 2 true] ++
    List.replicate (buckets + 1) (.removeNext 0 2 fun _ => true)

/-- A client makes the directory and removes it, and another one still uses its handle. -/
def lateRequest : List Event :=
  load 0 1 1 ++ [.enter 0 1 (.mkdir ['d'] 2 0 0), .perform 0, .makeZeroth 2 .inPlace 0] ++ load 0 2 1 ++ removal 1 ++
    [.removeZeroth 0 2, .removeEntry 0 2 true] ++ load 0 2 0 ++ [.enter 0 2 (.lookup ['f'])]

theorem resting_emptyRoot (serverCount : UInt32) : (emptyRoot serverCount).Resting where
  rooted := by
    rw [Store.bucket_isSome]
    exact List.mem_singleton_self _
  indexed name member := ⟨0, by decide, List.mem_singleton.mp member⟩
  uncached _ := rfl
  unloaded _ := rfl
  ended _ := rfl
  idle _ := rfl

instance (directory : Directory) : DecidablePred directory.LoadsSettled
  | some (.reading _) => inferInstanceAs (Decidable directory.Settled)
  | some (.adding _ _ _) | none => inferInstanceAs (Decidable True)

instance (directory : Directory) : DecidablePred directory.Removable
  | some _ => inferInstanceAs (Decidable (_ ∧ _))
  | none => inferInstanceAs (Decidable True)

instance (directory : Directory) : DecidablePred directory.RemovesOrderly
  | .page _ _ _ (name :: _) => inferInstanceAs (Decidable (directory.Removable (Tree.otherBucket name)))
  | .page _ _ _ [] | .idle | .listing _ _ | .emptied _ | .unrooted _ => inferInstanceAs (Decidable True)

instance (directory : Directory) : DecidablePred directory.Orderly
  | .enter _ _ _ => inferInstanceAs (Decidable (directory.rooting = .ready))
  | .fill server _ _ => inferInstanceAs (Decidable (directory.LoadsSettled (directory.loaders server)))
  | .removeNext server _ _ => inferInstanceAs (Decidable (directory.RemovesOrderly (directory.removers server)))
  | .fetch _ _ | .perform _ | .makeZeroth _ _ _ | .dropZeroth _ _ | .removePage _ _ _ | .removeZeroth _ _
  | .removeEntry _ _ _ | .dequeue _ _ _ | .split _ _ _ => inferInstanceAs (Decidable True)

instance (world : World) (event : Event) : Decidable (Orderly world event) :=
  match found : event.handle.bind world.dirs with
  | some directory => decidable_of_iff (directory.Orderly event) (by rw [Orderly, found])
  | none => .isTrue (by rw [Orderly, found]; trivial)

/-- Two servers. A client makes `d`, whose `p00000` is first made on the wrong server, and an entry in it. The directory
splits, the new bucket is on the wrong server at first, and the other server loads the directory before the split ends. -/
def grow : List Event :=
  load 0 1 1 ++ [.enter 0 1 (.mkdir ['d'] 2 0 0), .perform 0, .makeZeroth 2 .misplaced 0, .dropZeroth 2 true,
    .makeZeroth 2 .inPlace 0] ++ load 0 2 1 ++ [.enter 0 2 (.create ['f'] 3 0), .perform 0] ++
    [.dequeue 0 2 0, .split 0 2 (.begin_ false), .split 0 2 (.makeChild .misplaced 1), .split 0 2 (.dropChild true),
      .split 0 2 (.makeChild .inPlace 1)] ++ load 1 2 2 ++
    [.split 0 2 .readdir, .split 0 2 (.moveNext true 0), .split 0 2 .endBatch, .split 0 2 .readdir, .split 0 2 .lockAgain,
      .split 0 2 .finish, .enter 1 2 (.lookup ['f']), .perform 0]

/-- A remove of `d` fails at the new bucket, which is not empty, and succeeds after the entry is removed. The directory is
loaded once more. -/
def shrink : List Event :=
  [.enter 0 1 (.remove ['d']), .perform 0, .removePage 0 2 true, .removeNext 0 2 (fun _ => true),
    .removeNext 0 2 (fun _ => true), .enter 1 2 (.remove ['f']), .perform 0] ++ removal 2 ++
    [.removeZeroth 0 2, .removeEntry 0 2 true] ++ load 0 2 0

end SkyeFS.System
