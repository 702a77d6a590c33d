import SkyeFS.Server.Split

/-! What each handler does to the locks and reference counts of the cache.

The account of a directory counts what one run of a handler acquired and gave back.
A handler is a function of the outcomes of its PVFS and RPC calls, with one branch for
each way it leaves. Outcomes that only reach the reply are left out, and so are failed
assertions and `err_dump`, which end the process.
-/

set_option autoImplicit false

namespace SkyeFS.Server

structure Account where
  -- Acquisitions of the rwlock.
  acquired : Nat
  released : Nat
  -- References that fetches took.
  taken : Nat
  dropped : Nat
  -- References of the hash table that were dropped.
  tableDropped : Nat
deriving DecidableEq

abbrev Ledger (Dir : Type) := Dir → Account

section
variable {Dir : Type} [DecidableEq Dir]

def emptyLedger : Ledger Dir := fun _ => ⟨0, 0, 0, 0, 0⟩

def Ledger.change (ledger : Ledger Dir) (dir : Dir) (entry : Account → Account) : Ledger Dir :=
  Function.update ledger dir (entry (ledger dir))

def fetched (account : Account) : Account :=
  { account with acquired := account.acquired + 1, taken := account.taken + 1 }

def cacheFetch (ledger : Ledger Dir) (dir : Dir) : Ledger Dir := ledger.change dir fetched

def cacheFetchW (ledger : Ledger Dir) (dir : Dir) : Ledger Dir := ledger.change dir fetched

def cacheReturn (ledger : Ledger Dir) (dir : Dir) : Ledger Dir :=
  ledger.change dir fun account => { account with released := account.released + 1, dropped := account.dropped + 1 }

/-- The caller's reference and the one of the hash table, but not the lock. -/
def cacheDestroy (ledger : Ledger Dir) (dir : Dir) : Ledger Dir :=
  ledger.change dir fun account =>
    { account with dropped := account.dropped + 1, tableDropped := account.tableDropped + 1 }

/-- A thread that already holds the lock gets `EDEADLK` and no second acquisition. -/
def rwlockWrlock (ledger : Ledger Dir) (dir : Dir) : Ledger Dir :=
  ledger.change dir fun account =>
    if account.released < account.acquired then account else { account with acquired := account.acquired + 1 }

def rwlockUnlock (ledger : Ledger Dir) (dir : Dir) : Ledger Dir :=
  ledger.change dir fun account => { account with released := account.released + 1 }

def lookupExits (parent : Dir) (foreign : Bool) (ledger : Ledger Dir) : Ledger Dir :=
  let ledger := cacheFetch ledger parent
  if foreign then cacheReturn ledger parent else cacheReturn ledger parent

/-- After any number of jumps to `gotindex`. -/
def partitionExits (parent : Dir) (foreign found : Bool) (ledger : Ledger Dir) : Ledger Dir :=
  let ledger := cacheFetch ledger parent
  if foreign then cacheReturn ledger parent
  else if found then cacheReturn ledger parent else cacheReturn ledger parent

/-- `skye_rpc_create_1_svc` and `skye_rpc_mkdir_1_svc` leave after `enter_bucket`, after their PVFS call or at the end. -/
def createExits (parent : Dir) (entered created : Bool) (ledger : Ledger Dir) : Ledger Dir :=
  let ledger := cacheFetch ledger parent
  if !entered then cacheReturn ledger parent
  else if !created then cacheReturn ledger parent else cacheReturn ledger parent

def renameExits (parent : Dir) (entered : Bool) (ledger : Ledger Dir) : Ledger Dir :=
  let ledger := cacheFetch ledger parent
  if !entered then cacheReturn ledger parent else cacheReturn ledger parent

/-- `skye_rpc_bucket_add_1_svc` and `skye_rpc_bucket_remove_1_svc`. -/
def bucketExits (dir : Dir) (ledger : Ledger Dir) : Ledger Dir := cacheReturn (cacheFetchW ledger dir) dir

structure RemoveOutcome where
  entered : Bool
  found : Bool
  isdir : Bool
  -- `remove_all_buckets`.
  emptied : Bool
  -- `PVFS_sys_remove("p00000")`.
  zeroth : Bool
  -- `PVFS_sys_remove(filename)`.
  entry : Bool

def removeExits (parent child : Dir) (outcome : RemoveOutcome) (ledger : Ledger Dir) : Ledger Dir :=
  let ledger := cacheFetch ledger parent
  if !outcome.entered then cacheReturn ledger parent
  else if !outcome.found then cacheReturn ledger parent
  else if outcome.isdir then
    let ledger := cacheFetchW (cacheReturn ledger parent) child
    if !outcome.emptied then cacheReturn ledger child
    else if !outcome.zeroth then cacheReturn ledger child
    -- both answers of the last PVFS_sys_remove come here
    else if outcome.entry then cacheDestroy ledger child else cacheDestroy ledger child
  else cacheReturn ledger parent

/-- One page that `do_split` reads: its length, and how many of its names migrate. -/
structure SplitPage where
  outcount : Nat
  moved : Nat

structure SplitOutcome where
  looked : Bool
  overflow : Bool
  made : Bool
  -- The pages of each pass over the parent bucket.
  passes : List (List SplitPage)

/-- One pass. The jump to `next_batch` leaves the lock held. `none` if the pages do not make one pass. -/
def splitPass (dir : Dir) : List SplitPage → Ledger Dir → Option (Nat × Ledger Dir)
  | [], _ => none
  | page :: rest, ledger =>
      let ledger := rwlockWrlock ledger dir
      let ledger := if page.outcount = 0 then ledger else rwlockUnlock ledger dir
      if page.outcount = moveIncount then
        (splitPass dir rest ledger).map fun (moved, ledger) => (page.moved + moved, ledger)
      else if rest.isEmpty then some (page.moved, ledger) else none

/-- Passes until one moves nothing. -/
def splitPasses (dir : Dir) : List (List SplitPage) → Ledger Dir → Option (Ledger Dir)
  | [], _ => none
  | pass :: rest, ledger =>
      (splitPass dir pass ledger).bind fun (moved, ledger) =>
        if 0 < moved then splitPasses dir rest ledger else if rest.isEmpty then some ledger else none

def splitExits (dir : Dir) (outcome : SplitOutcome) (ledger : Ledger Dir) : Option (Ledger Dir) :=
  let ledger := cacheFetchW ledger dir
  if !outcome.looked then some (cacheReturn ledger dir)
  else if !outcome.overflow then some (cacheReturn ledger dir)
  else if !outcome.made then some (cacheReturn ledger dir)
  else
    (splitPasses dir outcome.passes (rwlockUnlock ledger dir)).map fun ledger =>
      cacheReturn (rwlockWrlock ledger dir) dir

/-- A handler, or the split thread's `do_split`, with the outcomes of its calls. -/
inductive Invocation (Dir : Type) where
  | lookup (parent : Dir) (foreign : Bool)
  | partition (parent : Dir) (foreign found : Bool)
  | create (parent : Dir) (entered created : Bool)
  | mkdir (parent : Dir) (entered made : Bool)
  | remove (parent child : Dir) (outcome : RemoveOutcome)
  | rename (parent : Dir) (entered : Bool)
  | bucketAdd (dir : Dir)
  | bucketRemove (dir : Dir)
  | split (dir : Dir) (outcome : SplitOutcome)

def Invocation.run (ledger : Ledger Dir) : Invocation Dir → Option (Ledger Dir)
  | .lookup parent foreign => some (lookupExits parent foreign ledger)
  | .partition parent foreign found => some (partitionExits parent foreign found ledger)
  | .create parent entered created => some (createExits parent entered created ledger)
  | .mkdir parent entered made => some (createExits parent entered made ledger)
  | .remove parent child outcome => some (removeExits parent child outcome ledger)
  | .rename parent entered => some (renameExits parent entered ledger)
  | .bucketAdd dir => some (bucketExits dir ledger)
  | .bucketRemove dir => some (bucketExits dir ledger)
  | .split dir outcome => splitExits dir outcome ledger

/-- A directory removal that reaches `cache_destroy`: its buckets are gone. -/
def Invocation.Destroys : Invocation Dir → Prop
  | .remove _ _ outcome => outcome.entered ∧ outcome.found ∧ outcome.isdir ∧ outcome.emptied ∧ outcome.zeroth
  | _ => False

def Invocation.removes (dir : Dir) : Invocation Dir → Bool
  | .remove _ child outcome =>
      child = dir && outcome.entered && outcome.found && outcome.isdir && outcome.emptied && outcome.zeroth && outcome.entry
  | _ => false

/-- Every acquisition is released once, every reference of a fetch dropped once, and the reference of the hash table
dropped for a removed directory only. -/
structure Account.Balanced (account : Account) (removed : Bool) : Prop where
  lock : account.released = account.acquired
  reference : account.dropped = account.taken
  table : account.tableDropped = if removed then 1 else 0

@[simp]
theorem change_self (ledger : Ledger Dir) (dir : Dir) (entry : Account → Account) :
    ledger.change dir entry dir = entry (ledger dir) := Function.update_self ..

theorem change_other {ledger : Ledger Dir} {dir other : Dir} {entry : Account → Account} (different : other ≠ dir) :
    ledger.change dir entry other = ledger other := Function.update_of_ne different ..

def Ledger.Settled (ledger : Ledger Dir) : Prop := ∀ dir, (ledger dir).Balanced false

omit [DecidableEq Dir] in
theorem settled_empty : (emptyLedger : Ledger Dir).Settled := fun _ => ⟨rfl, rfl, rfl⟩

structure Ledger.Fetched (ledger : Ledger Dir) (dir : Dir) : Prop where
  others : ∀ other, other ≠ dir → (ledger other).Balanced false
  reference : (ledger dir).taken = (ledger dir).dropped + 1
  table : (ledger dir).tableDropped = 0
  lock : (ledger dir).acquired = (ledger dir).released ∨ (ledger dir).acquired = (ledger dir).released + 1

structure Ledger.Locked (ledger : Ledger Dir) (dir : Dir) : Prop extends ledger.Fetched dir where
  held : (ledger dir).acquired = (ledger dir).released + 1

theorem Ledger.Settled.fetch {ledger : Ledger Dir} (settled : ledger.Settled) (dir : Dir) :
    (cacheFetch ledger dir).Locked dir := by
  obtain ⟨lock, reference, table⟩ := settled dir
  refine ⟨⟨?_, ?_, ?_, Or.inr ?_⟩, ?_⟩
  · intro other different
    rw [cacheFetch, change_other different]
    exact settled other
  · simp [cacheFetch, fetched, reference]
  · simpa [cacheFetch, fetched] using table
  · simp [cacheFetch, fetched, lock]
  · simp [cacheFetch, fetched, lock]

theorem Ledger.Locked.return {ledger : Ledger Dir} {dir : Dir} (locked : ledger.Locked dir) :
    (cacheReturn ledger dir).Settled := by
  intro other
  by_cases same : other = dir
  · subst same
    refine ⟨?_, ?_, ?_⟩
    · simp [cacheReturn, locked.held]
    · simp [cacheReturn, locked.reference]
    · simp [cacheReturn, locked.table]
  · rw [cacheReturn, change_other same]
    exact locked.others other same

theorem Ledger.Locked.destroy {ledger : Ledger Dir} {dir : Dir} (locked : ledger.Locked dir) (removed : Bool) :
    ¬ (cacheDestroy ledger dir dir).Balanced removed := by
  intro balanced
  have lock := balanced.lock
  simp [cacheDestroy, locked.held] at lock

section
variable {ledger : Ledger Dir} {dir : Dir}

theorem Ledger.Fetched.wrlock (fetched : ledger.Fetched dir) : (rwlockWrlock ledger dir).Locked dir := by
  have others : ∀ other, other ≠ dir → (rwlockWrlock ledger dir other).Balanced false := by
    intro other different
    rw [rwlockWrlock, change_other different]
    exact fetched.others other different
  rcases fetched.lock with free | held
  · have acquires : ¬ (ledger dir).released < (ledger dir).acquired := by omega
    refine ⟨⟨others, ?_, ?_, Or.inr ?_⟩, ?_⟩
    · simpa [rwlockWrlock, acquires] using fetched.reference
    · simpa [rwlockWrlock, acquires] using fetched.table
    · simp [rwlockWrlock, free]
    · simp [rwlockWrlock, free]
  · -- The thread holds the lock already and is told so.
    have already : (ledger dir).released < (ledger dir).acquired := by omega
    refine ⟨⟨others, ?_, ?_, Or.inr ?_⟩, ?_⟩
    · simpa [rwlockWrlock, already] using fetched.reference
    · simpa [rwlockWrlock, already] using fetched.table
    · simpa [rwlockWrlock, already] using held
    · simpa [rwlockWrlock, already] using held

theorem Ledger.Locked.unlock (locked : ledger.Locked dir) : (rwlockUnlock ledger dir).Fetched dir := by
  refine ⟨?_, ?_, ?_, Or.inl ?_⟩
  · intro other different
    rw [rwlockUnlock, change_other different]
    exact locked.others other different
  · simpa [rwlockUnlock] using locked.reference
  · simpa [rwlockUnlock] using locked.table
  · simp [rwlockUnlock, locked.held]

theorem Ledger.Fetched.pass {pages : List SplitPage} (fetched : ledger.Fetched dir) {moved : Nat} {after : Ledger Dir}
    (passed : splitPass dir pages ledger = some (moved, after)) : after.Fetched dir := by
  -- Step and run lemma of the inner loop: a page is read under the lock, which stays held after an empty page.
  induction pages generalizing ledger moved with
  | nil => cases passed
  | cons page rest ih =>
    have batch : (if page.outcount = 0 then rwlockWrlock ledger dir
        else rwlockUnlock (rwlockWrlock ledger dir) dir).Fetched dir := by
      split
      · exact fetched.wrlock.toFetched
      · exact fetched.wrlock.unlock
    rw [splitPass] at passed
    split at passed
    · obtain ⟨⟨later, final⟩, continued, same⟩ := Option.map_eq_some_iff.mp passed
      cases same
      exact ih batch continued
    · split at passed
      · cases passed
        exact batch
      · cases passed

theorem Ledger.Fetched.passes {passes : List (List SplitPage)} (fetched : ledger.Fetched dir) {after : Ledger Dir}
    (passed : splitPasses dir passes ledger = some after) : after.Fetched dir := by
  induction passes generalizing ledger with
  | nil => cases passed
  | cons pass rest ih =>
    obtain ⟨⟨moved, next⟩, first, continued⟩ := Option.bind_eq_some_iff.mp passed
    have kept := fetched.pass first
    simp only at continued
    split at continued
    · exact ih kept continued
    · split at continued
      · cases continued
        exact kept
      · cases continued

theorem Ledger.Settled.split (settled : ledger.Settled) {outcome : SplitOutcome} {after : Ledger Dir}
    (served : splitExits dir outcome ledger = some after) : after.Settled := by
  have locked : (cacheFetchW ledger dir).Locked dir := settled.fetch dir
  unfold splitExits at served
  split at served
  · cases served
    exact locked.return
  · split at served
    · cases served
      exact locked.return
    · split at served
      · cases served
        exact locked.return
      · obtain ⟨moved, passed, rfl⟩ := Option.map_eq_some_iff.mp served
        exact (locked.unlock.passes passed).wrlock.return

theorem Ledger.Settled.remove (settled : ledger.Settled) {parent child : Dir} {outcome : RemoveOutcome}
    (returns : ¬ (Invocation.remove parent child outcome).Destroys) :
    (removeExits parent child outcome ledger).Settled := by
  have returned := (settled.fetch parent).return
  have locked : (cacheFetchW (cacheReturn (cacheFetch ledger parent) parent) child).Locked child :=
    returned.fetch child
  unfold removeExits
  split
  · exact returned
  · rename_i entered
    split
    · exact returned
    · rename_i found
      split
      · rename_i isdir
        split
        · exact locked.return
        · rename_i emptied
          split
          · exact locked.return
          · rename_i zeroth
            exact absurd ⟨by simpa using entered, by simpa using found, isdir, by simpa using emptied,
              by simpa using zeroth⟩ returns
      · exact returned

theorem Ledger.Settled.destroys (settled : ledger.Settled) {parent child : Dir} {outcome : RemoveOutcome}
    (destroys : (Invocation.remove parent child outcome).Destroys) (removed : Bool) :
    ¬ (removeExits parent child outcome ledger child).Balanced removed := by
  obtain ⟨entered, found, isdir, emptied, zeroth⟩ := destroys
  have locked : (cacheFetchW (cacheReturn (cacheFetch ledger parent) parent) child).Locked child :=
    (settled.fetch parent).return.fetch child
  simp only [removeExits, entered, found, isdir, emptied, zeroth, Bool.not_true, Bool.false_eq_true, if_false, if_true,
    ite_self]
  exact locked.destroy removed

end

/-- Without `cache_destroy` a handler gives back all it took. -/
theorem Invocation.settled {invocation : Invocation Dir} (returns : ¬ invocation.Destroys) {ledger after : Ledger Dir}
    (settled : ledger.Settled) (served : invocation.run ledger = some after) : after.Settled := by
  cases invocation with
  | lookup parent foreign =>
    cases served
    simp only [lookupExits, ite_self]
    exact (settled.fetch parent).return
  | partition parent foreign found =>
    cases served
    simp only [partitionExits, ite_self]
    exact (settled.fetch parent).return
  | create parent entered created =>
    cases served
    simp only [createExits, ite_self]
    exact (settled.fetch parent).return
  | mkdir parent entered made =>
    cases served
    simp only [createExits, ite_self]
    exact (settled.fetch parent).return
  | remove parent child outcome =>
    cases served
    exact settled.remove returns
  | rename parent entered =>
    cases served
    simp only [renameExits, ite_self]
    exact (settled.fetch parent).return
  | bucketAdd dir =>
    cases served
    exact (settled.fetch dir).return
  | bucketRemove dir =>
    cases served
    exact (settled.fetch dir).return
  | split dir outcome => exact settled.split served

theorem Invocation.destroys_of_removes {invocation : Invocation Dir} {dir : Dir}
    (removes : invocation.removes dir = true) : invocation.Destroys := by
  cases invocation with
  | remove parent child outcome =>
    simp only [Invocation.removes, Bool.and_eq_true] at removes
    obtain ⟨⟨⟨⟨⟨⟨-, entered⟩, found⟩, isdir⟩, emptied⟩, zeroth⟩, -⟩ := removes
    exact ⟨entered, found, isdir, emptied, zeroth⟩
  | lookup | partition | create | mkdir | rename | bucketAdd | bucketRemove | split => cases removes

/-- A handler that returns has balanced the account of every directory exactly when it did not destroy one. -/
theorem accounts_balanced_iff {invocation : Invocation Dir} {after : Ledger Dir}
    (served : invocation.run emptyLedger = some after) :
    (∀ dir, (after dir).Balanced (invocation.removes dir)) ↔ ¬ invocation.Destroys := by
  constructor
  · intro balanced destroys
    cases invocation with
    | remove parent child outcome =>
      cases served
      exact settled_empty.destroys destroys _ (balanced child)
    | lookup | partition | create | mkdir | rename | bucketAdd | bucketRemove | split => exact destroys
  · intro returns dir
    have kept : invocation.removes dir = false := by
      rw [Bool.eq_false_iff]
      exact fun removes => returns (Invocation.destroys_of_removes removes)
    rw [kept]
    exact Invocation.settled returns settled_empty served dir

/-- A split that reads an empty page: the lock of that page is the one that the next read asks for. -/
def emptyPageSplit : Invocation Bool :=
  .split true ⟨true, true, true, [[⟨moveIncount, 1⟩, ⟨0, 0⟩], [⟨moveIncount - 1, 0⟩]]⟩

theorem emptyPageSplit_balanced : ∃ after, emptyPageSplit.run emptyLedger = some after ∧
    ∀ dir, (after dir).Balanced (emptyPageSplit.removes dir) := by
  obtain ⟨after, served⟩ : ∃ after, emptyPageSplit.run emptyLedger = some after := ⟨_, rfl⟩
  exact ⟨after, served, (accounts_balanced_iff served).mpr fun destroys => destroys⟩

/-- The directory that was just removed, with success, keeps the write lock of the handler that returned. -/
theorem removed_directory_stays_locked :
    let removal : Invocation Bool := .remove false true ⟨true, true, true, true, true, true⟩
    removal.removes true = true ∧ (removal.run emptyLedger).map (· true) = some ⟨1, 0, 1, 1, 1⟩ ∧
      ∃ after, removal.run emptyLedger = some after ∧ ¬ ∀ dir, (after dir).Balanced (removal.removes dir) := by
  refine ⟨rfl, by decide, _, rfl, ?_⟩
  intro balanced
  have lock := (balanced true).lock
  revert lock
  decide

end

end SkyeFS.Server
