import Mathlib.Tactic.FinCases
import SkyeFS.Server.Cache
import SkyeFS.Server.Handlers

/-! Removing a directory.

`skye_rpc_remove` of a directory first removes its buckets one by one, each on the
server that owns it, then bucket zero and then the directory. A bucket is removed from
PVFS and from the owner's table before the next one is looked at, so a request that
fails at a later bucket has already removed the earlier ones.
-/

set_option autoImplicit false

namespace SkyeFS.Server

open Index Pvfs Foundation

/-- A directory in PVFS and in the caches of the servers. -/
structure Tree where
  zerothServer : UInt32
  serverCount : UInt32
  store : Store
  cached : Nat → Option SkyeDirectory

/-- Calls that fail for other reasons than what is in the tree: the page reads of
`remove_all_buckets`, by their tokens, and the calls to other servers. -/
structure Faults where
  readable : Nat → Bool
  reachable : Nat → Bool

def noFaults : Faults := ⟨fun _ => true, fun _ => true⟩

namespace Tree

def dir (tree : Tree) (server : Nat) : SkyeDirectory :=
  (tree.cached server).getD
    (newDirectory (fun _ => true) tree.zerothServer tree.serverCount tree.store.keys)

def fetch (tree : Tree) (server : Nat) : Tree :=
  { tree with cached := Function.update tree.cached server (some (tree.dir server)) }

/-- `remove_bucket` on the server's own cached directory. On another server the handler of
`skye_rpc_bucket_remove` fetches the directory first. -/
def removeBucket (tree : Tree) (server index : Nat) : Option Errno × Tree :=
  match Server.removeBucket (tree.dir server) tree.store index with
  | .error errno => (some errno, tree.fetch server)
  | .ok (dir, store) => (none, { tree with store, cached := Function.update tree.cached server (some dir) })

variable (faults : Faults) (servernum : Nat)

/-- The index of a listed bucket, except of the zeroth. Only buckets are ever listed. -/
def otherBucket (name : FileName) : Option Nat := (scanBucketName name).filter (· ≠ 0)

def removeListed (tree : Tree) (name : FileName) : Option Errno × Tree :=
  match otherBucket name with
  | none => (none, tree)
  | some index =>
      let server := gigaGetServerForIndex (tree.dir servernum).mapping index
      if server = servernum ∨ faults.reachable server then tree.removeBucket server index
      else (some .eio, tree)

/-- The loop over one page; the first error ends it. -/
def removePage : List FileName → Tree → Option Errno × Tree
  | [], tree => (none, tree)
  | name :: rest, tree =>
      match removeListed faults servernum tree name with
      | (none, after) => removePage rest after
      | (some errno, after) => (some errno, after)

theorem removeBucket_ok {tree after : Tree} {server index : Nat}
    (removed : tree.removeBucket server index = (none, after)) :
    tree.store.names index = [] ∧ after.store = tree.store.erase (bucketName index) := by
  unfold removeBucket at removed
  split at removed <;> rename_i erased <;> cases removed
  obtain ⟨empty, -, same⟩ := sysRemoveBucket_ok (Server.removeBucket_ok erased).1
  exact ⟨empty, same⟩

/-- What exists, where, and by which tables the servers route. -/
structure Same (before after : Tree) : Prop where
  store : after.store = before.store
  mapping : ∀ server, (after.dir server).mapping = (before.dir server).mapping

theorem same_refl (tree : Tree) : Same tree tree := ⟨rfl, fun _ => rfl⟩

theorem Same.trans {first second third : Tree} (one : Same first second) (two : Same second third) :
    Same first third :=
  ⟨two.store.trans one.store, fun server => (two.mapping server).trans (one.mapping server)⟩

theorem same_fetch (tree : Tree) (server : Nat) : Same tree (tree.fetch server) := by
  -- A load changes no table: it finds what is there.
  refine ⟨rfl, fun other => ?_⟩
  by_cases same : other = server
  · subst same
    simp [dir, fetch]
  · simp [dir, fetch, Function.update_of_ne same]

theorem removeBucket_failed {tree after : Tree} {server index : Nat} {errno : Errno}
    (failed : tree.removeBucket server index = (some errno, after)) :
    Same tree after ∧ (errno = .enotempty → tree.store.names index ≠ []) := by
  unfold removeBucket at failed
  split at failed <;> cases failed
  rename_i refused
  refine ⟨same_fetch tree server, fun reason => ?_⟩
  subst reason
  replace refused := removeBucket_error refused
  unfold sysRemoveBucket at refused
  split at refused
  · cases refused
  · rename_i content found
    split at refused <;> cases refused
    rename_i held
    simpa [Store.names, found] using held

variable {faults servernum}

theorem removeListed_sublist {tree after : Tree} {name : FileName} {result : Option Errno}
    (removed : removeListed faults servernum tree name = (result, after)) :
    after.store.keys.Sublist tree.store.keys := by
  unfold removeListed at removed
  split at removed
  · cases removed
    exact List.Sublist.refl _
  · dsimp only at removed
    split at removed
    · cases result with
      | none =>
        rw [(removeBucket_ok removed).2]
        exact Listing.keys_erase_sublist
      | some errno =>
        rw [(removeBucket_failed removed).1.store]
    · cases removed
      exact List.Sublist.refl _

theorem removePage_sublist {page : List FileName} {tree after : Tree} {result : Option Errno}
    (removed : removePage faults servernum page tree = (result, after)) :
    after.store.keys.Sublist tree.store.keys := by
  induction page generalizing tree with
  | nil =>
    cases removed
    exact List.Sublist.refl _
  | cons name rest ih =>
    unfold removePage at removed
    split at removed
    · rename_i between first
      exact (ih removed).trans (removeListed_sublist first)
    · rename_i errno between first
      cases removed
      exact removeListed_sublist first

variable (faults servernum)

/-- The page loop. The token counts the names that were read, though the buckets behind them have
moved forward by then. -/
def removeAllBuckets (token : Nat) (tree : Tree) : Option Errno × Tree :=
  if faults.readable token then
    let page := sysReaddir tree.store.keys token bucketIncount
    match _removed : removePage faults servernum page tree with
    | (some errno, after) => (some errno, after)
    | (none, after) =>
        if page.length = bucketIncount then removeAllBuckets (nextToken token page.length) after
        else (none, after)
  else (some .eio, tree)
termination_by tree.store.keys.length - pageStart token
decreasing_by
  rename_i full
  have read : (sysReaddir tree.store.keys token bucketIncount).length = bucketIncount := full
  have fewer := (removePage_sublist _removed).length_le
  rw [pageStart_nextToken (by rw [read]; decide), read]
  rw [sysReaddir, List.length_take, List.length_drop] at read
  unfold bucketIncount at read ⊢
  omega

def removeBuckets (tree : Tree) : Option Errno × Tree :=
  match removeAllBuckets faults servernum 0 (tree.fetch servernum) with
  | (some errno, after) => (some errno, after)
  | (none, after) =>
      match sysRemoveBucket after.store 0 with
      | .error errno => (some errno, after)
      | .ok store => (none, { after with store })

def firstBucket (listing : List FileName) : Option Nat := listing.findSome? otherBucket

variable {faults servernum}

theorem removeAllBuckets_sublist {token : Nat} {tree after : Tree} {result : Option Errno}
    (removed : removeAllBuckets faults servernum token tree = (result, after)) :
    after.store.keys.Sublist tree.store.keys := by
  fun_induction removeAllBuckets faults servernum token tree with
  | case1 token tree _ page errno between step =>
    cases removed
    exact removePage_sublist step
  | case2 token tree _ page between step full ih => exact (ih removed).trans (removePage_sublist step)
  | case3 token tree _ page between step short =>
    cases removed
    exact removePage_sublist step
  | case4 token tree unreadable =>
    cases removed
    exact List.Sublist.refl _

theorem notMem_keys_erase {store : Store} {index : Nat} : bucketName index ∉ (store.erase (bucketName index)).keys := by
  rw [← Store.bucket_isSome, Store.bucket_erase, if_pos rfl]
  nofun

theorem removeListed_zeroth {tree after : Tree} {name : FileName} {result : Option Errno}
    (removed : removeListed faults servernum tree name = (result, after)) :
    after.store.bucket 0 = tree.store.bucket 0 := by
  unfold removeListed at removed
  split at removed
  · cases removed
    rfl
  · rename_i index listed
    have other : index ≠ 0 := by simpa using (Option.filter_eq_some_iff.mp listed).2
    dsimp only at removed
    split at removed
    · cases result with
      | none => rw [(removeBucket_ok removed).2, Store.bucket_erase, if_neg other.symm]
      | some errno => rw [(removeBucket_failed removed).1.store]
    · cases removed
      rfl

theorem removePage_zeroth {page : List FileName} {tree after : Tree} {result : Option Errno}
    (removed : removePage faults servernum page tree = (result, after)) :
    after.store.bucket 0 = tree.store.bucket 0 := by
  induction page generalizing tree with
  | nil =>
    cases removed
    rfl
  | cons name rest ih =>
    unfold removePage at removed
    split at removed
    · rename_i between first
      exact (ih removed).trans (removeListed_zeroth first)
    · rename_i errno between first
      cases removed
      exact removeListed_zeroth first

theorem removeAllBuckets_zeroth {token : Nat} {tree after : Tree} {result : Option Errno}
    (removed : removeAllBuckets faults servernum token tree = (result, after)) :
    after.store.bucket 0 = tree.store.bucket 0 := by
  fun_induction removeAllBuckets faults servernum token tree with
  | case1 token tree _ page errno between step =>
    cases removed
    exact removePage_zeroth step
  | case2 token tree _ page between step full ih => exact (ih removed).trans (removePage_zeroth step)
  | case3 token tree _ page between step short =>
    cases removed
    exact removePage_zeroth step
  | case4 token tree unreadable =>
    cases removed
    rfl

theorem keys_of_zeroth {store fewer : Store} (alone : ∀ bucket ∈ store.keys, bucket = bucketName 0)
    (removed : sysRemoveBucket store 0 = .ok fewer) : fewer.keys = [] := by
  refine List.eq_nil_iff_forall_not_mem.mpr fun name member => ?_
  rw [(sysRemoveBucket_ok removed).2.2] at member
  have listed : name ∈ store.keys := Listing.keys_erase_sublist.subset member
  rw [alone name listed] at member
  exact notMem_keys_erase member

theorem removeAllBuckets_short {token : Nat} {tree : Tree} (readable : faults.readable token = true)
    (short : (sysReaddir tree.store.keys token bucketIncount).length ≠ bucketIncount) :
    removeAllBuckets faults servernum token tree =
      removePage faults servernum (sysReaddir tree.store.keys token bucketIncount) tree := by
  unfold removeAllBuckets
  rw [if_pos readable]
  dsimp only
  split <;> rename_i step <;> rw [step]
  rw [if_neg short]

theorem removePage_none {page : List FileName} {tree : Tree} (others : firstBucket page = none) :
    removePage faults servernum page tree = (none, tree) := by
  have skipped := List.findSome?_eq_none_iff.mp others
  clear others
  induction page with
  | nil => rfl
  | cons name rest ih =>
    simp only [removePage, removeListed, skipped name (by simp)]
    exact ih fun other member => skipped other (by simp [member])

/-- What happens at the first bucket that is not the zeroth decides about the page: everything stays
if it is not empty or its owner cannot be reached, and it is gone for good otherwise. -/
theorem removePage_some {page : List FileName} {tree after : Tree} {result : Option Errno} {index : Nat}
    (first : firstBucket page = some index)
    (removed : removePage faults servernum page tree = (result, after)) :
    (∃ errno, result = some errno ∧ Same tree after ∧ (errno = .enotempty → tree.store.names index ≠ [])) ∨
      tree.store.names index = [] ∧ bucketName index ∉ after.store.keys := by
  induction page with
  | nil => cases first
  | cons name rest ih =>
    rw [firstBucket, List.findSome?_cons] at first
    cases listed : otherBucket name with
    | none =>
      simp only [listed] at first
      simp only [removePage, removeListed, listed] at removed
      exact ih first removed
    | some found =>
      simp only [listed] at first
      cases first
      simp only [removePage, removeListed, listed] at removed
      split at removed
      · rename_i between step
        split at step
        · -- Nothing that the rest of the page does brings the bucket back.
          obtain ⟨empty, erased⟩ := removeBucket_ok step
          refine Or.inr ⟨empty, fun member => ?_⟩
          have before := (removePage_sublist removed).subset member
          rw [erased] at before
          exact notMem_keys_erase before
        · cases step
      · rename_i errno between step
        cases removed
        refine Or.inl ⟨errno, rfl, ?_⟩
        split at step
        · exact removeBucket_failed step
        · cases step
          exact ⟨same_refl tree, nofun⟩

section
variable {listing : List FileName} (named : ∀ name ∈ listing, ∃ index, name = bucketName index)
  (distinct : listing.Nodup)
include named

theorem eq_zeroth_of_none (others : firstBucket listing = none) {name : FileName} (member : name ∈ listing) :
    name = bucketName 0 := by
  obtain ⟨index, rfl⟩ := named name member
  have skipped := List.findSome?_eq_none_iff.mp others _ member
  rw [otherBucket, scanBucketName_bucketName, Option.filter_some] at skipped
  by_cases zero : index = 0
  · rw [zero]
  · simp [zero] at skipped

theorem mem_of_first {index : Nat} (first : firstBucket listing = some index) : bucketName index ∈ listing := by
  obtain ⟨name, member, listed⟩ := List.exists_of_findSome?_eq_some first
  obtain ⟨scanned, rfl⟩ := named name member
  rw [otherBucket, scanBucketName_bucketName, Option.filter_eq_some_iff] at listed
  cases listed.1
  exact member

include distinct

theorem length_of_none (others : firstBucket listing = none) : listing.length ≤ 1 :=
  (List.subperm_of_subset distinct fun _ member =>
    List.mem_singleton.mpr (eq_zeroth_of_none named others member)).length_le

theorem firstBucket_take : firstBucket (listing.take bucketIncount) = firstBucket listing := by
  -- The first page shows whether there is another bucket than the zeroth, and which comes first.
  cases others : firstBucket (listing.take bucketIncount) with
  | none =>
    -- Bucket names are distinct, so a page with only the zeroth is not full and thus the whole listing.
    have short := length_of_none (fun name member => named name (List.mem_of_mem_take member))
      (distinct.sublist (List.take_sublist _ _)) others
    have whole : listing.take bucketIncount = listing := by
      refine List.take_of_length_le ?_
      rw [List.length_take] at short
      unfold bucketIncount at short ⊢
      omega
    rw [← others, whole]
  | some index =>
    conv_rhs => rw [← List.take_append_drop bucketIncount listing]
    rw [firstBucket] at others ⊢
    rw [List.findSome?_append, others, Option.some_or]

end

section
variable {tree after : Tree} {result : Option Errno}
  (named : ∀ name ∈ tree.store.keys, ∃ index, name = bucketName index)
include named

theorem removeAllBuckets_none (others : firstBucket tree.store.keys = none)
    (removed : removeAllBuckets faults servernum 0 tree = (result, after)) : after = tree := by
  have page : firstBucket (sysReaddir tree.store.keys 0 bucketIncount) = none :=
    (firstBucket_take named tree.store.keys_nodup).trans others
  have short : (sysReaddir tree.store.keys 0 bucketIncount).length ≠ bucketIncount := by
    have few := length_of_none named tree.store.keys_nodup others
    rw [sysReaddir, List.length_take, List.length_drop]
    unfold bucketIncount
    omega
  by_cases readable : faults.readable 0 = true
  · rw [removeAllBuckets_short readable short, removePage_none page] at removed
    cases removed
    rfl
  · rw [removeAllBuckets, if_neg readable] at removed
    cases removed
    rfl

theorem removeAllBuckets_some {index : Nat} (first : firstBucket tree.store.keys = some index)
    (removed : removeAllBuckets faults servernum 0 tree = (result, after)) :
    (∃ errno, result = some errno ∧ Same tree after ∧ (errno = .enotempty → tree.store.names index ≠ [])) ∨
      tree.store.names index = [] ∧ bucketName index ∉ after.store.keys := by
  have page : firstBucket (sysReaddir tree.store.keys 0 bucketIncount) = some index :=
    (firstBucket_take named tree.store.keys_nodup).trans first
  unfold removeAllBuckets at removed
  split at removed
  · dsimp only at removed
    split at removed
    · rename_i errno between step
      cases removed
      exact removePage_some page step
    · rename_i between step
      rcases removePage_some page step with ⟨errno, failed, -⟩ | ⟨empty, gone⟩
      · cases failed
      · refine Or.inr ⟨empty, fun member => gone ?_⟩
        split at removed
        · exact (removeAllBuckets_sublist removed).subset member
        · cases removed
          exact member
  · cases removed
    exact Or.inl ⟨_, rfl, same_refl tree, nofun⟩

theorem removeBuckets_none (others : firstBucket tree.store.keys = none)
    (removed : tree.removeBuckets faults servernum = (result, after)) :
    result ≠ none ∧ Same tree after ∨ result = none ∧ after.store.keys = [] := by
  have fetched := same_fetch tree servernum
  unfold removeBuckets at removed
  split at removed <;> rename_i between buckets
  · have kept : between = tree.fetch servernum := removeAllBuckets_none (by exact named) (by exact others) buckets
    cases removed
    rw [kept]
    exact Or.inl ⟨nofun, fetched⟩
  · have kept : between = tree.fetch servernum := removeAllBuckets_none (by exact named) (by exact others) buckets
    rw [kept] at removed
    split at removed <;> rename_i zeroth <;> cases removed
    · exact Or.inl ⟨nofun, fetched⟩
    · exact Or.inr ⟨rfl, keys_of_zeroth (fun _ listed => eq_zeroth_of_none named others listed) zeroth⟩

theorem removeBuckets_some {index : Nat} (first : firstBucket tree.store.keys = some index)
    (removed : tree.removeBuckets faults servernum = (result, after)) :
    (∃ errno, result = some errno ∧ Same tree after ∧ (errno = .enotempty → tree.store.names index ≠ [])) ∨
      tree.store.names index = [] ∧ bucketName index ∉ after.store.keys := by
  have fetched := same_fetch tree servernum
  unfold removeBuckets at removed
  split at removed <;> rename_i between buckets
  · cases removed
    refine (removeAllBuckets_some (by exact named) (by exact first) buckets).imp_left ?_
    rintro ⟨errno, failed, same, reason⟩
    exact ⟨errno, failed, fetched.trans same, reason⟩
  · rcases removeAllBuckets_some (by exact named) (by exact first) buckets with ⟨_, failed, -⟩ | ⟨empty, gone⟩
    · cases failed
    · refine Or.inr ⟨empty, fun member => gone ?_⟩
      split at removed <;> rename_i zeroth <;> cases removed
      · exact member
      · rw [(sysRemoveBucket_ok zeroth).2.2] at member
        exact Listing.keys_erase_sublist.subset member

theorem same_of_held (removed : tree.removeBuckets faults servernum = (result, after))
    (unfinished : result = none → after.store.keys ≠ [])
    (held : ∀ index, firstBucket tree.store.keys = some index → tree.store.names index ≠ []) :
    result ≠ none ∧ Same tree after := by
  -- If the first other bucket holds an entry, a removal that leaves a bucket has failed and changed nothing.
  cases first : firstBucket tree.store.keys with
  | none =>
    rcases removeBuckets_none named first removed with failed | ⟨succeeded, empty⟩
    · exact failed
    · exact absurd empty (unfinished succeeded)
  | some index =>
    rcases removeBuckets_some named first removed with ⟨errno, rfl, same, -⟩ | ⟨empty, -⟩
    · exact ⟨nofun, same⟩
    · exact absurd empty (held index first)

theorem gone_of_empty (removed : tree.removeBuckets faults servernum = (result, after))
    (reason : ∀ errno, result = some errno → errno = .enotempty) {index : Nat}
    (first : firstBucket tree.store.keys = some index) (empty : tree.store.names index = []) :
    bucketName index ∉ after.store.keys := by
  -- The first other bucket is gone if it was empty, unless a call failed for another reason.
  rcases removeBuckets_some named first removed with ⟨errno, failed, -, held⟩ | ⟨-, gone⟩
  · exact absurd empty (held (reason errno failed))
  · exact gone

end

end Tree

/-- `skye_rpc_remove_1_svc`, with the tree of the directory that the name stands for, if it does. -/
def remove (shahash : FileName → Digest) (faults : Faults) (servernum : Nat) (parent : SkyeDirectory) (store : Store)
    (name : FileName) (tree : Tree) : Option (Reply Unit × Store × Tree) := do
  match ← removeLookup shahash servernum parent store name with
  | (.again bitmap, _) => some (.again bitmap, store, tree)
  | (.fail errno, _) => some (.fail errno, store, tree)
  | (.ok removal, _) =>
      if removal.isdir then
        match tree.removeBuckets faults servernum with
        | (some errno, after) => some (.fail errno, store, after)
        | (none, after) =>
            let (reply, left) := removeEntry store removal after.store.keys.isEmpty
            -- cache_destroy, whether or not the directory could be removed
            some (reply, left, { after with cached := Function.update after.cached servernum none })
      else
        let (reply, left) := removeEntry store removal true
        some (reply, left, tree)

section
variable {shahash : FileName → Digest} {faults : Faults} {servernum : Nat} {parent : SkyeDirectory}
variable {store left : Store} {name : FileName} {tree after : Tree}

theorem removeLookup_fail {errno : Errno}
    (looked : removeLookup shahash servernum parent store name = some (.fail errno, left)) : errno = .enoent := by
  obtain ⟨entered, computed, looked⟩ := Option.bind_eq_some_iff.mp looked
  cases entered with
  | again bitmap => cases looked
  | fail reason =>
    cases looked
    obtain ⟨choice, -, computed⟩ := Option.bind_eq_some_iff.mp computed
    cases choice with
    | again bitmap => cases computed
    | here index =>
      obtain ⟨selected, -, computed⟩ := Option.bind_eq_some_iff.mp computed
      split at computed
      · cases computed
      · split at computed <;> cases computed
        rfl
  | ok index =>
    dsimp only at looked
    split at looked <;> cases looked
    rfl

theorem removeEntry_enotempty {removal : Removal} {emptied : Bool}
    (failed : removeEntry store removal emptied = (.fail .enotempty, left)) : emptied = false ∧ left = store := by
  unfold removeEntry at failed
  split at failed <;> rename_i removed <;> cases failed
  refine ⟨?_, rfl⟩
  unfold sysRemove at removed
  split at removed
  · cases removed
  · split at removed <;> cases removed
    rename_i held
    simpa using (Bool.and_eq_true_iff.mp held).2

/-- A remove that fails because of a directory that is not empty failed at one of its buckets, or at
the directory itself with some bucket left. -/
theorem remove_enotempty (failed : remove shahash faults servernum parent store name tree =
      some (.fail .enotempty, left, after)) :
    left = store ∧ (tree.removeBuckets faults servernum = (some .enotempty, after) ∨
      ∃ emptied, tree.removeBuckets faults servernum = (none, emptied) ∧ emptied.store.keys ≠ [] ∧
        after.store = emptied.store) := by
  obtain ⟨⟨reply, unused⟩, looked, failed⟩ := Option.bind_eq_some_iff.mp failed
  cases reply with
  | again bitmap => cases failed
  | fail errno =>
    -- The lookup of the name itself fails with another error.
    cases removeLookup_fail looked
    cases failed
  | ok removal =>
    dsimp only at failed
    split at failed
    · split at failed
      · rename_i errno between buckets
        cases failed
        exact ⟨rfl, Or.inl buckets⟩
      · rename_i between buckets
        simp only [Option.some.injEq, Prod.mk.injEq] at failed
        obtain ⟨refused, same, rfl⟩ := failed
        obtain ⟨kept, rfl⟩ := removeEntry_enotempty (Prod.ext refused same)
        exact ⟨rfl, Or.inr ⟨between, buckets, by simpa using kept, rfl⟩⟩
    · -- A file is never refused for not being empty.
      simp only [Option.some.injEq, Prod.mk.injEq] at failed
      obtain ⟨refused, same, -⟩ := failed
      cases (removeEntry_enotempty (Prod.ext refused same)).1

/-- A failed removal of a non-empty directory changes nothing exactly when the first bucket that PVFS
lists, other than the zeroth, holds an entry or does not exist. -/
theorem failed_rmdir_unchanged (named : ∀ bucket ∈ tree.store.keys, ∃ index, bucket = bucketName index)
    (failed : remove shahash faults servernum parent store name tree = some (.fail .enotempty, left, after)) :
    (left = store ∧ after.store = tree.store ∧ ∀ server, (after.dir server).mapping = (tree.dir server).mapping ∧
        ∀ entry, gigaGetIndexForFile shahash (after.dir server).mapping entry =
          gigaGetIndexForFile shahash (tree.dir server).mapping entry) ↔
      ∀ index, Tree.firstBucket tree.store.keys = some index → tree.store.names index ≠ [] := by
  obtain ⟨rfl, outcome⟩ := remove_enotempty failed
  constructor
  · rintro ⟨-, unchanged, -⟩ index first empty
    have member := Tree.mem_of_first named first
    rw [← unchanged] at member
    rcases outcome with stopped | ⟨emptied, finished, -, same⟩
    · exact Tree.gone_of_empty named stopped (fun _ errno => (Option.some.inj errno).symm) first empty member
    · exact Tree.gone_of_empty named finished nofun first empty (same ▸ member)
  · intro held
    have same : Tree.Same tree after := by
      rcases outcome with stopped | ⟨emptied, finished, remaining, -⟩
      · exact (Tree.same_of_held named stopped nofun held).2
      · exact absurd rfl (Tree.same_of_held named finished (fun _ => remaining) held).1
    exact ⟨rfl, same.store, fun server => ⟨same.mapping server, fun entry => by rw [same.mapping server]⟩⟩

end

/-- A directory on two servers: the bucket of server 1 is empty, that of server 0 holds the file `f`. -/
def halfEmpty : Tree where
  zerothServer := 0
  serverCount := 2
  store := ⟨[⟨bucketName 0, AList.singleton ['f'] ⟨9, false⟩⟩, ⟨bucketName 1, ∅⟩], by unfold List.NodupKeys; decide⟩
  cached _ := some ⟨gigaUpdateMapping (gigaInitMapping 0 2) 1, none⟩

def halfEmptyParent : Store := AList.singleton (bucketName 0) (AList.singleton ['d'] ⟨7, true⟩)

/-- The request for it at server 0, where no call fails by itself. -/
def halfEmptyRmdir : Option (Reply Unit × Store × Tree) :=
  remove (fun _ => Vector.replicate 20 0#8) ⟨fun _ => true, fun _ => true⟩ 0 ⟨gigaInitMapping 0 2, none⟩
    halfEmptyParent ['d'] halfEmpty

theorem halfEmptyRmdir_fails : ∃ left after, halfEmptyRmdir = some (.fail .enotempty, left, after) ∧
    after.store.bucket 1 = none ∧ 1 ∉ (after.dir 1).mapping.partitions := by
  have runs : halfEmptyRmdir.map (fun result => (result.1.errnum, (result.2.2.store.bucket 1).isNone,
      getBitStatus (result.2.2.dir 1).mapping.bitmap 1)) = some (some .enotempty, true, false) := by
    unfold halfEmptyRmdir remove Tree.removeBuckets
    rw [Tree.removeAllBuckets_short rfl (by decide)]
    decide +kernel
  obtain ⟨⟨reply, left, after⟩, computed, observed⟩ := Option.map_eq_some_iff.mp runs
  simp only [Prod.mk.injEq, Reply.errnum_eq_some, Option.isNone_iff_eq_none] at observed
  obtain ⟨rfl, gone, cleared⟩ := observed
  refine ⟨left, after, computed, gone, fun member => ?_⟩
  exact absurd ((getBitStatus_iff.mpr member).symm.trans cleared) (by decide)

/-- The empty bucket of server 1 is gone although the request failed. -/
theorem failed_rmdir_drops_bucket :
    ∃ left after, halfEmptyRmdir = some (.fail .enotempty, left, after) ∧
      (halfEmpty.store.bucket 1).isSome ∧ after.store.bucket 1 = none ∧
      1 ∈ (halfEmpty.dir 1).mapping.partitions ∧ 1 ∉ (after.dir 1).mapping.partitions := by
  obtain ⟨left, after, failed, gone, cleared⟩ := halfEmptyRmdir_fails
  exact ⟨left, after, failed, by decide +kernel, gone, by decide +kernel, cleared⟩

theorem failed_rmdir_unchanged_half :
    ∃ left after, halfEmptyRmdir = some (.fail .enotempty, left, after) ∧
      ((left = halfEmptyParent ∧ after.store = halfEmpty.store ∧
          ∀ server, (after.dir server).mapping = (halfEmpty.dir server).mapping ∧
            ∀ entry, gigaGetIndexForFile (fun _ => Vector.replicate 20 0#8) (after.dir server).mapping entry =
              gigaGetIndexForFile (fun _ : FileName => Vector.replicate 20 0#8) (halfEmpty.dir server).mapping entry) ↔
        ∀ index, Tree.firstBucket halfEmpty.store.keys = some index → halfEmpty.store.names index ≠ []) := by
  obtain ⟨left, after, failed, -⟩ := halfEmptyRmdir_fails
  have named : ∀ bucket ∈ halfEmpty.store.keys, ∃ index, bucket = bucketName index := by
    intro bucket member
    fin_cases member
    · exact ⟨0, rfl⟩
    · exact ⟨1, rfl⟩
  exact ⟨left, after, failed, failed_rmdir_unchanged named failed⟩

end SkyeFS.Server
