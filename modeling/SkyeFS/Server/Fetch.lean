import SkyeFS.Foundation.Transition
import SkyeFS.Server.Cache

/-! The threads of one server that fetch the same directory.

`fetch` looks the directory up in the hash table. If it is not there, `new_directory`
adds an entry with partition zero only, and `fill_bitmap` completes it page by page. No
lock is held meanwhile, so other threads may look the directory up, or add it once more.
-/

set_option autoImplicit false

namespace SkyeFS.Server

open Index Pvfs Foundation

/-- An entry of the hash table, with the buckets there were when it was added and that no handler has removed through
it since. -/
structure CachedDirectory where
  dir : SkyeDirectory
  entered : List FileName

/-- No bucket of that time is missing in the table, except those to be read. -/
def CachedDirectory.CompleteBut (cached : CachedDirectory) (unread : List FileName) : Prop :=
  ∀ index, bucketName index ∈ cached.entered →
    index ∈ cached.dir.mapping.partitions ∨ bucketName index ∈ unread

def CachedDirectory.Complete (cached : CachedDirectory) : Prop :=
  ∀ index, bucketName index ∈ cached.entered → index ∈ cached.dir.mapping.partitions

inductive FetchThread where
  | idle
  -- The hash table had no entry.
  | missed
  -- In the page loop.
  | filling (entry : Nat) (loader : Loader)
  -- After `cache_fetch` or `cache_fetch_w`.
  | obtained (entry : Nat)
deriving DecidableEq

def FetchThread.fills : FetchThread → Option Nat
  | .filling entry _ => some entry
  | .idle | .missed | .obtained _ => none

def FetchThread.fill (entry : Nat) : Option Loader → FetchThread
  | some loader => .filling entry loader
  | none => .obtained entry

structure FetchState where
  store : Store
  entries : List CachedDirectory
  threads : Nat → FetchThread

inductive FetchEvent where
  -- `HASH_FIND`. Of several entries it gives any: their order changes when the table grows.
  | hashFind (thread entry : Nat)
  | hashAdd (thread : Nat)
  -- A step of `fill_bitmap`, which fails if it is a page read without success.
  | fillBitmap (thread : Nat) (success : Bool)
  | cacheReturn (thread : Nat)
  -- A split, on any server, makes a bucket.
  | makeBucket (index position : Nat)
  -- The handler adds a partition, after a split or in `skye_rpc_bucket_add`.
  | updateMapping (thread index : Nat)
  -- The handler removes a bucket, in `remove_all_buckets` or `skye_rpc_bucket_remove`.
  | removeBucket (thread index : Nat)
  -- Another server removes a bucket.
  | dropBucket (index : Nat)

namespace FetchState

def goto (state : FetchState) (thread : Nat) (phase : FetchThread) : FetchState :=
  { state with threads := Function.update state.threads thread phase }

def replace (state : FetchState) (entry : Nat) (cached : CachedDirectory) : FetchState :=
  { state with entries := state.entries.set entry cached }

end FetchState

section
variable (workers : Nat) (zerothServer serverCount : UInt32)

def fetchStep (state : FetchState) : FetchEvent → Option FetchState
  | .hashFind thread entry =>
      match state.threads thread with
      | .idle =>
          if thread < workers then
            if state.entries = [] then some (state.goto thread .missed)
            else if entry < state.entries.length then some (state.goto thread (.obtained entry))
            else none
          else none
      | _ => none
  | .hashAdd thread =>
      match state.threads thread with
      | .missed =>
          let dir : SkyeDirectory := { mapping := gigaInitMapping zerothServer serverCount, splittingIndex := none }
          some { state.goto thread (.filling state.entries.length (.reading 0)) with
            entries := state.entries ++ [{ dir, entered := state.store.keys }] }
      | _ => none
  | .fillBitmap thread success =>
      match state.threads thread with
      | .filling entry loader => do
          let cached ← state.entries[entry]?
          let (next, mapping) := fillStep state.store.keys success cached.dir.mapping loader
          some ((state.goto thread (.fill entry next)).replace entry { cached with dir.mapping := mapping })
      | _ => none
  | .cacheReturn thread =>
      match state.threads thread with
      | .obtained _ => some (state.goto thread .idle)
      | _ => none
  | .makeBucket index position =>
      if index < capacity then some { state with store := Listing.put position (bucketName index) ∅ state.store }
      else none
  | .updateMapping thread index =>
      match state.threads thread with
      | .obtained entry => do
          let cached ← state.entries[entry]?
          if index < capacity then
            some (state.replace entry { cached with dir.mapping := gigaUpdateMapping cached.dir.mapping index })
          else none
      | _ => none
  | .removeBucket thread index =>
      match state.threads thread with
      | .obtained entry => do
          let cached ← state.entries[entry]?
          match removeBucket cached.dir state.store index with
          | .error _ => some state
          | .ok (dir, store) =>
              let entered := cached.entered.filter (· ≠ bucketName index)
              some { state.replace entry { dir, entered } with store }
      | _ => none
  | .dropBucket index => some { state with store := state.store.erase (bucketName index) }

/-- No thread finds an entry that another one is filling, no page fails, and no bucket is removed while an
entry is filled. -/
def Unhurried (state : FetchState) : FetchEvent → Prop
  | .hashFind _ entry => ∀ thread < workers, (state.threads thread).fills ≠ some entry
  | .fillBitmap _ success => success = true
  | .removeBucket _ _ | .dropBucket _ => ∀ thread < workers, (state.threads thread).fills = none
  | .hashAdd _ | .cacheReturn _ | .makeBucket _ _ | .updateMapping _ _ => True

instance (state : FetchState) : DecidablePred (Unhurried workers state)
  | .hashFind _ entry => inferInstanceAs (Decidable (∀ thread < workers, (state.threads thread).fills ≠ some entry))
  | .fillBitmap _ success => inferInstanceAs (Decidable (success = true))
  | .removeBucket _ _ | .dropBucket _ => inferInstanceAs (Decidable (∀ thread < workers, (state.threads thread).fills = none))
  | .hashAdd _ | .cacheReturn _ | .makeBucket _ _ | .updateMapping _ _ => inferInstanceAs (Decidable True)

end

/-- Every directory that a handler has obtained is complete. -/
def FetchState.SeenComplete (state : FetchState) : Prop :=
  ∀ thread entry, state.threads thread = .obtained entry →
    ∃ cached, state.entries[entry]? = some cached ∧ cached.Complete

namespace CachedDirectory
variable {cached : CachedDirectory}

theorem complete_iff : cached.Complete ↔ cached.CompleteBut [] := by
  simp [Complete, CompleteBut]

theorem CompleteBut.mono {unread more : List FileName} (complete : cached.CompleteBut unread)
    (subset : ∀ name ∈ unread, name ∈ more) : cached.CompleteBut more :=
  fun index entered => (complete index entered).imp_right (subset _)

theorem CompleteBut.grow {unread : List FileName} {mapping : GigaMapping} (complete : cached.CompleteBut unread)
    (grows : cached.dir.mapping.partitions ⊆ mapping.partitions) :
    ({ cached with dir.mapping := mapping } : CachedDirectory).CompleteBut unread :=
  fun index entered => (complete index entered).imp_left fun member => grows member

theorem Complete.grow {now : CachedDirectory} (complete : cached.Complete)
    (grows : ∀ unread, cached.CompleteBut unread → now.CompleteBut unread) : now.Complete :=
  complete_iff.mpr (grows _ (complete_iff.mp complete))

theorem CompleteBut.remove {unread : List FileName} {index : Nat} (complete : cached.CompleteBut unread)
    (inside : index < capacity) :
    ({ dir := { cached.dir with mapping := gigaUpdateMappingRemove cached.dir.mapping index },
       entered := cached.entered.filter (· ≠ bucketName index) } : CachedDirectory).CompleteBut unread := by
  intro other entered
  obtain ⟨entered, different⟩ := List.mem_filter.mp entered
  rw [partitions_remove cached.dir.mapping inside, Finset.mem_erase]
  refine (complete other entered).imp_left fun member => ⟨fun same => ?_, member⟩
  subst same
  simp at different

end CachedDirectory

structure FetchState.Sound (workers : Nat) (state : FetchState) : Prop where
  indexed : Indexed state.store.keys
  bounded : ∀ {thread : Nat}, state.threads thread ≠ .idle → thread < workers
  filling : ∀ {thread entry : Nat} {loader : Loader}, state.threads thread = .filling entry loader →
    Indexed loader.rest ∧
      ∃ cached, state.entries[entry]? = some cached ∧ cached.CompleteBut (loader.unread state.store.keys)
  -- Only an entry that its thread is filling is incomplete.
  filled : ∀ {entry : Nat} {cached : CachedDirectory}, state.entries[entry]? = some cached →
    (∀ thread, (state.threads thread).fills ≠ some entry) → cached.Complete
  obtained : state.SeenComplete

namespace FetchState
variable {workers : Nat} {state after : FetchState}

theorem Sound.worker {thread entry : Nat} (sound : state.Sound workers)
    (fills : (state.threads thread).fills = some entry) : thread < workers := by
  refine sound.bounded fun idle => ?_
  rw [idle] at fills
  cases fills

theorem Sound.change {entries : List CachedDirectory} {thread : Nat} {phase : FetchThread} (sound : state.Sound workers)
    (worker : thread < workers)
    (grows : ∀ {entry : Nat} {cached : CachedDirectory}, state.entries[entry]? = some cached →
      ∃ now, entries[entry]? = some now ∧ ∀ unread, cached.CompleteBut unread → now.CompleteBut unread)
    (filling : ∀ {entry : Nat} {loader : Loader}, phase = .filling entry loader → Indexed loader.rest ∧
      ∃ cached, entries[entry]? = some cached ∧ cached.CompleteBut (loader.unread state.store.keys))
    (obtained : ∀ {entry : Nat}, phase = .obtained entry → ∃ cached, entries[entry]? = some cached ∧ cached.Complete)
    (filled : ∀ {entry : Nat} {cached : CachedDirectory}, entries[entry]? = some cached → phase.fills ≠ some entry →
      (∀ other ≠ thread, (state.threads other).fills ≠ some entry) → cached.Complete) :
    ({ state.goto thread phase with entries } : FetchState).Sound workers where
  indexed := sound.indexed
  bounded {other} at_ := by
    simp only [goto, Function.update_apply] at at_
    split at at_
    · rename_i same
      rwa [same]
    · exact sound.bounded at_
  filling {other entry loader} at_ := by
    simp only [goto, Function.update_apply] at at_
    split at at_
    · exact filling at_
    · obtain ⟨indexed, cached, found, complete⟩ := sound.filling at_
      obtain ⟨now, kept, more⟩ := grows found
      exact ⟨indexed, now, kept, more _ complete⟩
  filled {entry cached} found quiet := by
    refine filled found ?_ fun other different => ?_
    · have self := quiet thread
      simpa only [goto, Function.update_self] using self
    · have others := quiet other
      simpa only [goto, Function.update_of_ne different] using others
  obtained other entry at_ := by
    simp only [goto, Function.update_apply] at at_
    split at at_
    · exact obtained at_
    · obtain ⟨cached, found, complete⟩ := sound.obtained other entry at_
      obtain ⟨now, kept, more⟩ := grows found
      exact ⟨now, kept, complete.grow more⟩

theorem Sound.goto {thread : Nat} {phase : FetchThread} (sound : state.Sound workers)
    (worker : thread < workers) (quiet : (state.threads thread).fills = none) (idle : phase.fills = none)
    (obtained : ∀ {entry : Nat}, phase = .obtained entry →
      ∃ cached, state.entries[entry]? = some cached ∧ cached.Complete) : (state.goto thread phase).Sound workers := by
  refine sound.change worker (fun found => ⟨_, found, fun _ complete => complete⟩) (fun at_ => ?_) obtained ?_
  · rw [at_] at idle
    cases idle
  · intro entry cached found _ others
    refine sound.filled found fun other => ?_
    by_cases same : other = thread
    · rw [same, quiet]
      exact (Option.some_ne_none entry).symm
    · exact others other same

theorem Sound.enter {thread : Nat} {dir : SkyeDirectory} (sound : state.Sound workers)
    (missed : state.threads thread = .missed) :
    ({ state.goto thread (.filling state.entries.length (.reading 0)) with
      entries := state.entries ++ [{ dir, entered := state.store.keys }] } : FetchState).Sound workers := by
  have last : (state.entries ++ [{ dir, entered := state.store.keys }])[state.entries.length]? =
      some { dir, entered := state.store.keys } := by simp
  refine sound.change (sound.bounded (by rw [missed]; nofun))
    (fun {entry cached} found => ⟨cached, ?_, fun _ complete => complete⟩) (fun at_ => ?_) nofun ?_
  · rw [List.getElem?_append_left (List.getElem?_eq_some_iff.mp found).1, found]
  · cases at_
    refine ⟨?_, _, last, fun index entered => Or.inr entered⟩
    intro name member
    cases member
  · intro entry cached found quiet others
    -- The new entry is the one that the thread fills from now on.
    have older : entry < state.entries.length := by
      have bound := (List.getElem?_eq_some_iff.mp found).1
      rw [List.length_append, List.length_singleton] at bound
      rcases Nat.lt_succ_iff_lt_or_eq.mp bound with older | newest
      · exact older
      · exact absurd (congrArg some newest.symm) quiet
    rw [List.getElem?_append_left older] at found
    refine sound.filled found fun other => ?_
    by_cases same : other = thread
    · rw [same, missed]
      nofun
    · exact others other same

theorem set_grows {entries : List CachedDirectory} {entry : Nat} {cached now : CachedDirectory}
    (found : entries[entry]? = some cached) (grows : ∀ unread, cached.CompleteBut unread → now.CompleteBut unread)
    {other : Nat} {older : CachedDirectory} (before : entries[other]? = some older) :
    ∃ after, (entries.set entry now)[other]? = some after ∧
      ∀ unread, older.CompleteBut unread → after.CompleteBut unread := by
  by_cases same : other = entry
  · subst same
    cases before.symm.trans found
    exact ⟨now, List.getElem?_set_self (List.getElem?_eq_some_iff.mp found).1, grows⟩
  · rw [List.getElem?_set_ne (Ne.symm same)]
    exact ⟨older, before, fun _ complete => complete⟩

theorem Sound.fill {thread entry : Nat} {loader : Loader} {next : Option Loader} {mapping : GigaMapping}
    {cached : CachedDirectory} (sound : state.Sound workers) (at_ : state.threads thread = .filling entry loader)
    (found : state.entries[entry]? = some cached)
    (filled : fillStep state.store.keys true cached.dir.mapping loader = (next, mapping)) :
    ((state.goto thread (.fill entry next)).replace entry { cached with dir.mapping := mapping }).Sound workers := by
  let now : CachedDirectory := { cached with dir.mapping := mapping }
  obtain ⟨indexed, same, known, complete⟩ := sound.filling at_
  cases found.symm.trans known
  have placed : (state.entries.set entry now)[entry]? = some now :=
    List.getElem?_set_self (List.getElem?_eq_some_iff.mp found).1
  have left : ∀ index, bucketName index ∈ cached.entered →
      index ∈ mapping.partitions ∨ ∃ later ∈ next, bucketName index ∈ later.unread state.store.keys :=
    fun index entered => (fillStep_unread indexed filled).mpr (complete index entered)
  have ended : next = none → now.Complete := by
    rintro rfl index entered
    exact (left index entered).resolve_right fun ⟨_, later, _⟩ => absurd later (Option.not_mem_none _)
  have worker := sound.worker (congrArg FetchThread.fills at_)
  have grows := fillStep_grows indexed filled
  refine sound.change worker (set_grows found fun _ more => more.grow grows) (fun after => ?_) (fun after => ?_) ?_
  · cases next with
    | none => cases after
    | some later =>
      cases after
      refine ⟨fun name member => ?_, now, placed, fun index entered => ?_⟩
      · rcases fillStep_rest filled member with held | ⟨-, listed⟩
        · exact indexed name held
        · exact sound.indexed name listed
      · refine (left index entered).imp_right fun ⟨other, same, unread⟩ => ?_
        cases same
        exact unread
  · cases next with
    | none =>
      cases after
      exact ⟨now, placed, ended rfl⟩
    | some later => cases after
  · intro other older found' quiet others
    by_cases same : other = entry
    · subst same
      cases placed.symm.trans found'
      cases next with
      | none => exact ended rfl
      | some later => exact absurd rfl quiet
    · rw [List.getElem?_set_ne (Ne.symm same)] at found'
      refine sound.filled found' fun reader fills => ?_
      by_cases itself : reader = thread
      · subst itself
        rw [at_] at fills
        exact same (Option.some.inj fills).symm
      · exact others reader itself fills

theorem Sound.makeBucket {index position : Nat} (sound : state.Sound workers) (inside : index < capacity) :
    ({ state with store := Listing.put position (bucketName index) ∅ state.store } : FetchState).Sound workers where
  indexed name member := by
    rcases Listing.mem_put.mp (AList.mem_keys.mpr member) with rfl | older
    · exact ⟨index, inside, rfl⟩
    · exact sound.indexed name (AList.mem_keys.mp older)
  bounded := sound.bounded
  filling {thread entry loader} at_ := by
    obtain ⟨indexed, cached, found, complete⟩ := sound.filling at_
    refine ⟨indexed, cached, found, complete.mono fun name unread => ?_⟩
    cases loader with
    | reading token => exact Listing.mem_drop_put unread
    | adding token outcount rest =>
      refine List.mem_append.mpr ((List.mem_append.mp unread).imp_right fun behind => ?_)
      split <;> rename_i full
      · rw [if_pos full] at behind
        exact Listing.mem_drop_put behind
      · rwa [if_neg full] at behind
  filled := sound.filled
  obtained := sound.obtained

theorem Sound.replace {entry : Nat} {cached now : CachedDirectory} (sound : state.Sound workers)
    (found : state.entries[entry]? = some cached) (grows : ∀ unread, cached.CompleteBut unread → now.CompleteBut unread) :
    (state.replace entry now).Sound workers where
  indexed := sound.indexed
  bounded := sound.bounded
  filling {thread other loader} at_ := by
    obtain ⟨indexed, older, before, complete⟩ := sound.filling at_
    obtain ⟨after, kept, more⟩ := set_grows found grows before
    exact ⟨indexed, after, kept, more _ complete⟩
  filled {other after} at_ quiet := by
    dsimp only [FetchState.replace] at at_
    by_cases same : other = entry
    · subst same
      rw [List.getElem?_set_self (List.getElem?_eq_some_iff.mp found).1] at at_
      cases at_
      exact (sound.filled found quiet).grow grows
    · rw [List.getElem?_set_ne (Ne.symm same)] at at_
      exact sound.filled at_ quiet
  obtained thread other at_ := by
    obtain ⟨older, before, complete⟩ := sound.obtained thread other at_
    obtain ⟨after, kept, more⟩ := set_grows found grows before
    exact ⟨after, kept, complete.grow more⟩

theorem Sound.erase {index : Nat} (sound : state.Sound workers)
    (loaded : ∀ thread < workers, (state.threads thread).fills = none) :
    ({ state with store := state.store.erase (bucketName index) } : FetchState).Sound workers where
  indexed name member := sound.indexed name (Listing.keys_erase_sublist.subset member)
  bounded := sound.bounded
  filling {thread entry loader} at_ := by
    have fills : (state.threads thread).fills = some entry := congrArg FetchThread.fills at_
    rw [loaded thread (sound.worker fills)] at fills
    cases fills
  filled := sound.filled
  obtained := sound.obtained

theorem Sound.removeBucket {entry index : Nat} {cached : CachedDirectory} {dir : SkyeDirectory} {store : Store}
    (sound : state.Sound workers) (loaded : ∀ thread < workers, (state.threads thread).fills = none)
    (found : state.entries[entry]? = some cached)
    (removed : removeBucket cached.dir state.store index = .ok (dir, store)) :
    ({ state.replace entry { dir, entered := cached.entered.filter (· ≠ bucketName index) } with store } :
      FetchState).Sound workers := by
  obtain ⟨erased, rfl⟩ := removeBucket_ok removed
  obtain ⟨-, present, rfl⟩ := sysRemoveBucket_ok erased
  have inside : index < capacity := by
    obtain ⟨number, bounded, same⟩ := sound.indexed _ present
    rwa [bucketName_injective same]
  exact (sound.replace found fun _ complete => complete.remove inside).erase loaded

theorem Sound.step {zerothServer serverCount : UInt32} {event : FetchEvent} (sound : state.Sound workers)
    (unhurried : Unhurried workers state event)
    (stepped : fetchStep workers zerothServer serverCount state event = some after) : after.Sound workers := by
  cases event with
  | hashFind thread entry =>
    cases at_ : state.threads thread <;> simp only [fetchStep, at_, reduceCtorEq] at stepped
    have quiet : (state.threads thread).fills = none := congrArg FetchThread.fills at_
    split at stepped
    · rename_i worker
      split at stepped
      · cases stepped
        exact sound.goto worker quiet rfl nofun
      · split at stepped <;> cases stepped
        rename_i bound
        refine sound.goto worker quiet rfl fun obtained => ?_
        cases obtained
        have found := List.getElem?_eq_getElem bound
        exact ⟨_, found, sound.filled found fun other fills => unhurried other (sound.worker fills) fills⟩
    · cases stepped
  | hashAdd thread =>
    cases at_ : state.threads thread <;> simp only [fetchStep, at_, reduceCtorEq] at stepped
    cases stepped
    exact sound.enter at_
  | fillBitmap thread success =>
    cases unhurried
    cases at_ : state.threads thread <;> simp only [fetchStep, at_, reduceCtorEq] at stepped
    obtain ⟨cached, found, stepped⟩ := Option.bind_eq_some_iff.mp stepped
    cases stepped
    exact sound.fill at_ found rfl
  | cacheReturn thread =>
    cases at_ : state.threads thread <;> simp only [fetchStep, at_, reduceCtorEq] at stepped
    cases stepped
    exact sound.goto (sound.bounded (by rw [at_]; nofun)) (congrArg FetchThread.fills at_) rfl nofun
  | makeBucket index position =>
    simp only [fetchStep] at stepped
    split at stepped <;> cases stepped
    rename_i inside
    exact sound.makeBucket inside
  | updateMapping thread index =>
    cases at_ : state.threads thread <;> simp only [fetchStep, at_, reduceCtorEq] at stepped
    obtain ⟨cached, found, stepped⟩ := Option.bind_eq_some_iff.mp stepped
    split at stepped <;> cases stepped
    rename_i inside
    refine sound.replace found fun _ complete => complete.grow ?_
    rw [partitions_update cached.dir.mapping inside]
    exact Finset.subset_insert _ _
  | removeBucket thread index =>
    cases at_ : state.threads thread <;> simp only [fetchStep, at_, reduceCtorEq] at stepped
    obtain ⟨cached, found, stepped⟩ := Option.bind_eq_some_iff.mp stepped
    split at stepped <;> cases stepped
    · exact sound
    · rename_i dir store removed
      exact sound.removeBucket unhurried found removed
  | dropBucket index =>
    cases stepped
    exact sound.erase unhurried

end FetchState

section
variable {workers : Nat} {zerothServer serverCount : UInt32}

/-- Whatever the threads do, from an empty cache on. -/
theorem fetched_complete {start state : FetchState} (indexed : Indexed start.store.keys) (empty : start.entries = [])
    (idle : ∀ thread, start.threads thread = .idle)
    (reached : Reaches (fetchStep workers zerothServer serverCount) (Unhurried workers) start state) :
    state.SeenComplete := by
  have begins : start.Sound workers := by
    refine ⟨indexed, fun {thread} busy => absurd (idle thread) busy, ?_, ?_, ?_⟩
    · intro thread entry loader at_
      cases (idle thread).symm.trans at_
    · intro entry cached found
      rw [empty] at found
      cases found
    · intro thread entry at_
      cases (idle thread).symm.trans at_
  exact (reached.invariant begins fun _ _ _ sound unhurried stepped => sound.step unhurried stepped).obtained

theorem replace_goto_replace {state : FetchState} {thread entry : Nat} {first second : FetchThread}
    {cached now : CachedDirectory} :
    (((state.goto thread first).replace entry cached).goto thread second).replace entry now =
      (state.goto thread second).replace entry now := by
  simp [FetchState.goto, FetchState.replace]

variable (workers zerothServer serverCount)

theorem fetchStep_fillBitmap {state : FetchState} {thread entry : Nat} {loader : Loader} {cached : CachedDirectory}
    (at_ : state.threads thread = .filling entry loader) (found : state.entries[entry]? = some cached) (success : Bool) :
    fetchStep workers zerothServer serverCount state (.fillBitmap thread success) =
      some ((state.goto thread (.fill entry (fillStep state.store.keys success cached.dir.mapping loader).1)).replace entry
        { cached with dir.mapping := (fillStep state.store.keys success cached.dir.mapping loader).2 }) := by
  simp only [fetchStep, at_, found, Option.bind_eq_bind, Option.bind_some]

theorem execute_page {state : FetchState} {thread entry token outcount : Nat} {rest : List FileName}
    {cached : CachedDirectory} (at_ : state.threads thread = .filling entry (.adding token outcount rest))
    (found : state.entries[entry]? = some cached) :
    execute (fetchStep workers zerothServer serverCount) state (List.replicate rest.length (.fillBitmap thread true)) =
      some ((state.goto thread (.filling entry (.adding token outcount []))).replace entry
        { cached with dir.mapping := rest.foldl addListed cached.dir.mapping }) := by
  induction rest generalizing state cached with
  | nil =>
    have same : state.entries.set entry cached = state.entries := by
      obtain ⟨bound, rfl⟩ := List.getElem?_eq_some_iff.mp found
      exact List.set_getElem_self bound
    simp [execute, FetchState.goto, FetchState.replace, ← at_, same]
  | cons name rest ih =>
    have bound : entry < state.entries.length := (List.getElem?_eq_some_iff.mp found).1
    rw [List.length_cons, List.replicate_succ, execute, fetchStep_fillBitmap workers zerothServer serverCount at_ found,
      Option.bind_some, ih (by simp [FetchState.goto, FetchState.replace, fillStep, FetchThread.fill])
        (List.getElem?_set_self bound), replace_goto_replace]
    rfl

theorem execute_wholePage {state : FetchState} {thread entry token : Nat} {cached : CachedDirectory}
    {page : List FileName} (at_ : state.threads thread = .filling entry (.reading token))
    (found : state.entries[entry]? = some cached) (listed : sysReaddir state.store.keys token bucketIncount = page) :
    execute (fetchStep workers zerothServer serverCount) state (List.replicate (page.length + 2) (.fillBitmap thread true)) =
      some ((state.goto thread
        (.fill entry (if page.length = bucketIncount then some (.reading (nextToken token page.length)) else none))).replace
          entry { cached with dir.mapping := page.foldl addListed cached.dir.mapping }) := by
  have bound : entry < state.entries.length := (List.getElem?_eq_some_iff.mp found).1
  let reads := (state.goto thread (.filling entry (.adding token page.length page))).replace entry cached
  have read : fetchStep workers zerothServer serverCount state (.fillBitmap thread true) = some reads := by
    rw [fetchStep_fillBitmap workers zerothServer serverCount at_ found]
    subst listed
    rfl
  have reading : reads.threads thread = .filling entry (.adding token page.length page) := Function.update_self ..
  let adds := (state.goto thread (.filling entry (.adding token page.length []))).replace entry
    { cached with dir.mapping := page.foldl addListed cached.dir.mapping }
  have added : execute (fetchStep workers zerothServer serverCount) reads
      (List.replicate page.length (.fillBitmap thread true)) = some adds := by
    rw [execute_page workers zerothServer serverCount reading (List.getElem?_set_self bound), replace_goto_replace]
  have adding : adds.threads thread = .filling entry (.adding token page.length []) := Function.update_self ..
  have last := fetchStep_fillBitmap workers zerothServer serverCount adding
    (List.getElem?_set_self bound) true
  rw [replace_goto_replace] at last
  rw [List.replicate_succ, execute, read, Option.bind_some, List.replicate_succ', execute_append, added, Option.bind_some,
    execute, last]
  rfl

/-- A thread that is not disturbed fills its entry as `fill_bitmap` does, with the same failures. -/
theorem execute_fillBitmap (readable : Nat → Bool) {state : FetchState} {thread entry token : Nat}
    {cached : CachedDirectory} (at_ : state.threads thread = .filling entry (.reading token))
    (found : state.entries[entry]? = some cached) :
    ∃ events : List FetchEvent, execute (fetchStep workers zerothServer serverCount) state events =
      some ((state.goto thread (.obtained entry)).replace entry
        { cached with dir.mapping := fillBitmap readable state.store.keys token cached.dir.mapping }) := by
  generalize listed : state.store.keys = listing
  generalize table : cached.dir.mapping = mapping
  have bound : entry < state.entries.length := (List.getElem?_eq_some_iff.mp found).1
  fun_induction fillBitmap readable listing token mapping generalizing state cached with
  | case1 =>
    rename_i token mapping reads page filled full ih
    subst listed table
    have read : execute (fetchStep workers zerothServer serverCount) state
        (List.replicate (page.length + 2) (.fillBitmap thread true)) =
          some ((state.goto thread (.filling entry (.reading (nextToken token page.length)))).replace entry
            { cached with dir.mapping := filled }) := by
      rw [execute_wholePage workers zerothServer serverCount at_ found (rfl : _ = page), if_pos full]
      rfl
    obtain ⟨events, executed⟩ := @ih ((state.goto thread _).replace entry _) { cached with dir.mapping := filled }
      (Function.update_self ..) (List.getElem?_set_self bound) rfl rfl (by simpa [FetchState.goto, FetchState.replace] using bound)
    exact ⟨_ ++ events, by rw [execute_append, read, Option.bind_some, executed, replace_goto_replace]⟩
  | case2 =>
    rename_i token mapping reads page filled short
    subst listed table
    have read := execute_wholePage workers zerothServer serverCount at_ found (rfl : _ = page)
    rw [if_neg short] at read
    exact ⟨_, read⟩
  | case3 =>
    subst listed table
    refine ⟨[.fillBitmap thread false], ?_⟩
    rw [execute, fetchStep_fillBitmap workers zerothServer serverCount at_ found]
    rfl

/-- The first fetch of a directory, by a thread that is not disturbed, gives what `new_directory` returns. -/
theorem execute_newDirectory (readable : Nat → Bool) {state : FetchState} {thread : Nat} (empty : state.entries = [])
    (worker : thread < workers) (idle : state.threads thread = .idle) :
    ∃ events : List FetchEvent,
      execute (fetchStep workers zerothServer serverCount) state (.hashFind thread 0 :: .hashAdd thread :: events) =
        some { state.goto thread (.obtained 0) with
          entries := [⟨newDirectory readable zerothServer serverCount state.store.keys, state.store.keys⟩] } := by
  let dir : SkyeDirectory := { mapping := gigaInitMapping zerothServer serverCount, splittingIndex := none }
  let entered : FetchState := { state.goto thread (.filling 0 (.reading 0)) with entries := [⟨dir, state.store.keys⟩] }
  have missed : fetchStep workers zerothServer serverCount state (.hashFind thread 0) = some (state.goto thread .missed) := by
    simp only [fetchStep, idle, empty, worker, if_true]
  have added : fetchStep workers zerothServer serverCount (state.goto thread .missed) (.hashAdd thread) = some entered := by
    simp [fetchStep, FetchState.goto, empty, entered, dir]
  have filling : entered.threads thread = .filling 0 (.reading 0) := by simp [entered, FetchState.goto]
  have first : entered.entries[0]? = some ⟨dir, state.store.keys⟩ := rfl
  obtain ⟨events, filled⟩ := execute_fillBitmap workers zerothServer serverCount readable filling first
  refine ⟨events, ?_⟩
  rw [execute, missed, Option.bind_some, execute, added, Option.bind_some, filled]
  simp [entered, FetchState.goto, FetchState.replace, newDirectory, dir]

end

/-- A directory of two servers with the buckets of partitions 0 and 1, which is in no cache. -/
def splitDirectory : FetchState where
  store := Listing.put 1 (bucketName 1) ∅ (AList.singleton (bucketName 0) ∅)
  entries := []
  threads _ := .idle

/-- A thread that finds the entry of another one too early. -/
def earlyFind : List FetchEvent := [.hashFind 0 0, .hashAdd 0, .hashFind 1 0]

/-- A thread whose only page fails. -/
def failedPage : List FetchEvent := [.hashFind 0 0, .hashAdd 0, .fillBitmap 0 false]

/-- The thread has the only entry, with bucket 1 among those it was added with, and this is its bit of partition 1. -/
def Sees (thread : Nat) (entered bit : Bool) (state : FetchState) : Prop :=
  state.threads thread = .obtained 0 ∧
    state.entries.map (fun cached => (cached.entered.contains (bucketName 1), getBitStatus cached.dir.mapping.bitmap 1)) =
      [(entered, bit)]

instance (thread : Nat) (entered bit : Bool) (state : FetchState) : Decidable (Sees thread entered bit state) :=
  inferInstanceAs (Decidable (_ ∧ _))

theorem Sees.not_seenComplete {thread : Nat} {state : FetchState} (sees : Sees thread true false state) :
    ¬ state.SeenComplete := by
  intro complete
  obtain ⟨cached, found, whole⟩ := complete thread 0 sees.1
  have observed := congrArg (·[0]?) sees.2
  simp only [List.getElem?_map, found, Option.map_some, List.getElem?_cons_zero, Option.some.injEq,
    Prod.mk.injEq] at observed
  have member := getBitStatus_iff.mpr (whole 1 (List.contains_iff_mem.mp observed.1))
  exact absurd (member.symm.trans observed.2) (by decide)

/-- Both a thread that comes too early and one whose page fails obtain the directory without partition 1. -/
theorem fetched_incomplete :
    (∃ state, execute (fetchStep 2 0 2) splitDirectory earlyFind = some state ∧ Sees 1 true false state ∧
      ¬ state.SeenComplete) ∧
    ∃ state, execute (fetchStep 2 0 2) splitDirectory failedPage = some state ∧ Sees 0 true false state ∧
      ¬ state.SeenComplete := by
  have early : (execute (fetchStep 2 0 2) splitDirectory earlyFind).map (fun state => decide (Sees 1 true false state)) =
      some true := by decide +kernel
  have failed : (execute (fetchStep 2 0 2) splitDirectory failedPage).map (fun state => decide (Sees 0 true false state)) =
      some true := by decide +kernel
  obtain ⟨first, firstRun, firstSees⟩ := Option.map_eq_some_iff.mp early
  obtain ⟨second, secondRun, secondSees⟩ := Option.map_eq_some_iff.mp failed
  have one := of_decide_eq_true firstSees
  have two := of_decide_eq_true secondSees
  exact ⟨⟨first, firstRun, one, one.not_seenComplete⟩, second, secondRun, two, two.not_seenComplete⟩

/-- One thread loads the directory, another one that finds it removes bucket 1 through the entry, and the first finds it
once more. -/
def loadAndRemove : List FetchEvent :=
  [.hashFind 0 0, .hashAdd 0, .fillBitmap 0 true, .fillBitmap 0 true, .fillBitmap 0 true, .fillBitmap 0 true,
    .cacheReturn 0, .hashFind 1 0, .removeBucket 1 1, .hashFind 0 0]

theorem fetched_complete_after_remove :
    ∃ state, execute (fetchStep 2 0 2) splitDirectory loadAndRemove = some state ∧ Sees 0 false false state ∧
      state.SeenComplete := by
  have runs : (execute (fetchStep 2 0 2) splitDirectory loadAndRemove).map
      (fun state => decide (Sees 0 false false state)) = some true := by decide +kernel
  obtain ⟨state, executed, sees⟩ := Option.map_eq_some_iff.mp runs
  have unhurried : Meets (fetchStep 2 0 2) (Unhurried 2) splitDirectory loadAndRemove := by decide +kernel
  have indexed : Indexed splitDirectory.store.keys := by
    have listed : splitDirectory.store.keys = [bucketName 0, bucketName 1] := by decide +kernel
    rw [listed]
    intro name member
    rcases List.mem_pair.mp member with rfl | rfl
    · exact ⟨0, by decide, rfl⟩
    · exact ⟨1, by decide, rfl⟩
  exact ⟨state, executed, of_decide_eq_true sees,
    fetched_complete indexed rfl (fun _ => rfl) (Reaches.of_execute executed unhurried)⟩

end SkyeFS.Server
