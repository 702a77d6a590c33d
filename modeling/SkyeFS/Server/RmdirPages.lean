import SkyeFS.Server.Rmdir

/-! How many buckets of an empty directory `remove_all_buckets` removes when no call fails.

The loop pages by position through the listing that it removes from. The buckets behind
a full page move to the front while the page is worked off, and the next page is read
from the place where it would have been before.
-/

set_option autoImplicit false

namespace SkyeFS.Server.Tree

open Index Pvfs Foundation

/-- Only buckets are listed and none of them has an entry. -/
structure Vacant (store : Store) : Prop where
  named : ∀ name ∈ store.keys, ∃ index, name = bucketName index
  empty : ∀ index, store.names index = []

/-- What working off a page leaves of a listing. -/
def remaining (page listing : List FileName) : List FileName :=
  listing.filter fun name => name = bucketName 0 ∨ page.contains name = false

theorem remaining_eq (page listing : List FileName) :
    remaining page listing = listing.filter fun name => name = bucketName 0 ∨ name ∉ page := by simp [remaining]

theorem remaining_nil (listing : List FileName) : remaining [] listing = listing := by simp [remaining]

theorem remaining_cons (name : FileName) (rest listing : List FileName) :
    remaining rest (remaining [name] listing) = remaining (name :: rest) listing := by
  simp only [remaining, List.filter_filter]
  refine List.filter_congr fun other _ => ?_
  by_cases zeroth : other = bucketName 0 <;> simp [zeroth, Bool.and_comm]

theorem remaining_drop {page listing : List FileName} {start : Nat} (distinct : listing.Nodup)
    (read : ∀ name ∈ page, name ∈ listing.drop start) :
    remaining page listing = listing.take start ++ remaining page (listing.drop start) := by
  have split := distinct
  rw [← List.take_append_drop start listing, List.nodup_append] at split
  have before : remaining page (listing.take start) = listing.take start := by
    rw [remaining_eq]
    refine List.filter_eq_self.mpr fun name early => decide_eq_true (Or.inr fun late => ?_)
    exact split.2.2 name early name (read name late) rfl
  conv_lhs => rw [← List.take_append_drop start listing]
  rw [remaining, List.filter_append]
  exact congrArg (· ++ _) before

theorem remaining_take {listing : List FileName} (distinct : listing.Nodup) (count : Nat) :
    remaining (listing.take count) listing = (listing.take count).filter (· = bucketName 0) ++ listing.drop count := by
  have split := distinct
  rw [← List.take_append_drop count listing, List.nodup_append] at split
  conv_lhs =>
    arg 2
    rw [← List.take_append_drop count listing]
  rw [remaining_eq, List.filter_append]
  congr 1
  · refine List.filter_congr fun name early => ?_
    simp [early]
  · refine List.filter_eq_self.mpr fun name late => decide_eq_true (Or.inr fun early => ?_)
    exact split.2.2 name early name late rfl

theorem remaining_eq_singleton_iff {listing : List FileName} (distinct : listing.Nodup) (rooted : bucketName 0 ∈ listing)
    (count : Nat) :
    remaining (listing.take count) listing = [bucketName 0] ↔
      listing.length ≤ count ∨ listing.length = count + 1 ∧ listing.getLast? = some (bucketName 0) := by
  have length : (listing.drop count).length = listing.length - count := List.length_drop
  rw [remaining_take distinct, List.append_eq_singleton_iff]
  constructor
  · rintro (⟨-, behind⟩ | ⟨-, behind⟩)
    · rw [behind, List.length_singleton] at length
      refine Or.inr ⟨by omega, ?_⟩
      rw [← List.take_append_drop count listing, behind, List.getLast?_concat]
    · rw [behind, List.length_nil] at length
      exact Or.inl (by omega)
  · rintro (whole | ⟨long, last⟩)
    · refine Or.inr ⟨?_, List.drop_eq_nil_of_le whole⟩
      rw [List.take_of_length_le whole, List.filter_eq, List.count_eq_one_of_mem distinct rooted, List.replicate_one]
    · obtain ⟨name, behind⟩ := List.length_eq_one_iff.mp (length.trans (by omega))
      have parts := List.take_append_drop count listing
      rw [behind] at parts
      rw [← parts, List.getLast?_concat, Option.some.injEq] at last
      subst last
      refine Or.inl ⟨List.filter_eq_nil_iff.mpr fun other early => ?_, behind⟩
      rw [← parts, List.nodup_append] at distinct
      simpa using distinct.2.2 other early _ List.mem_cons_self

theorem Vacant.erase {store : Store} (vacant : Vacant store) (index : Nat) :
    Vacant (store.erase (bucketName index)) where
  named name member := vacant.named name (Listing.keys_erase_sublist.subset member)
  empty other := by
    have before := vacant.empty other
    unfold Store.names at before ⊢
    rw [Store.bucket_erase]
    split
    · rfl
    · exact before

variable {faults : Faults} (servernum : Nat) (readable : ∀ token, faults.readable token = true)
  (reachable : ∀ server, faults.reachable server = true)

theorem removeBucket_vacant {tree : Tree} (server : Nat) {index : Nat} (vacant : Vacant tree.store)
    (listed : bucketName index ∈ tree.store.keys) :
    ∃ after, tree.removeBucket server index = (none, after) ∧ after.store = tree.store.erase (bucketName index) := by
  obtain ⟨content, found⟩ := Option.isSome_iff_exists.mp (Store.bucket_isSome.mpr listed)
  have none : content.keys = [] := by simpa [Store.names, found] using vacant.empty index
  have removed : sysRemoveBucket tree.store index = .ok (tree.store.erase (bucketName index)) := by
    simp [sysRemoveBucket, found, none]
  simp [removeBucket, Server.removeBucket, removed]

include reachable

theorem removeListed_vacant {tree : Tree} {name : FileName} (vacant : Vacant tree.store)
    (listed : name ∈ tree.store.keys) :
    ∃ after, removeListed faults servernum tree name = (none, after) ∧ Vacant after.store ∧
      after.store.keys = remaining [name] tree.store.keys := by
  obtain ⟨index, rfl⟩ := vacant.named name listed
  unfold removeListed
  rw [otherBucket, scanBucketName_bucketName, Option.filter_some]
  by_cases zero : index = 0
  · -- The zeroth is passed over.
    subst zero
    refine ⟨tree, rfl, vacant, ?_⟩
    refine (List.filter_eq_self.mpr fun other _ => ?_).symm
    simp [em]
  · obtain ⟨after, removed, store⟩ := removeBucket_vacant
      (gigaGetServerForIndex (tree.dir servernum).mapping index) vacant listed
    refine ⟨after, ?_, store ▸ vacant.erase index, ?_⟩
    · simpa [zero, reachable] using removed
    · rw [store, Listing.keys_erase_eq_filter]
      refine List.filter_congr fun other _ => ?_
      by_cases same : other = bucketName 0
      · simp [same, bucketName_injective.eq_iff, Ne.symm zero]
      · simp [same]

theorem removePage_vacant {page : List FileName} {tree : Tree} (vacant : Vacant tree.store) (distinct : page.Nodup)
    (listed : ∀ name ∈ page, name ∈ tree.store.keys) :
    ∃ after, removePage faults servernum page tree = (none, after) ∧ Vacant after.store ∧
      after.store.keys = remaining page tree.store.keys := by
  induction page generalizing tree with
  | nil => exact ⟨tree, rfl, vacant, (remaining_nil _).symm⟩
  | cons name rest ih =>
    obtain ⟨fresh, distinct⟩ := List.nodup_cons.mp distinct
    obtain ⟨between, first, vacant, keys⟩ := removeListed_vacant servernum reachable vacant
      (listed name List.mem_cons_self)
    -- A later name of the page is another one, so it is still listed.
    have still : ∀ other ∈ rest, other ∈ between.store.keys := by
      intro other member
      rw [keys, remaining, List.mem_filter]
      have different : other ≠ name := fun same => fresh (same ▸ member)
      exact ⟨listed other (List.mem_cons_of_mem _ member), by simp [different]⟩
    obtain ⟨after, others, vacant, left⟩ := ih vacant distinct still
    refine ⟨after, ?_, vacant, ?_⟩
    · rw [removePage, first]
      exact others
    · rw [left, keys, remaining_cons]

theorem removePage_read (token : Nat) {tree : Tree} (vacant : Vacant tree.store) :
    ∃ after, removePage faults servernum (sysReaddir tree.store.keys token bucketIncount) tree = (none, after) ∧
      Vacant after.store ∧
      after.store.keys = tree.store.keys.take (pageStart token) ++
        remaining (sysReaddir tree.store.keys token bucketIncount) (tree.store.keys.drop (pageStart token)) := by
  have read : ∀ name ∈ sysReaddir tree.store.keys token bucketIncount, name ∈ tree.store.keys.drop (pageStart token) :=
    fun name member => List.mem_of_mem_take member
  have distinct : (sysReaddir tree.store.keys token bucketIncount).Nodup :=
    tree.store.keys_nodup.sublist ((List.take_sublist _ _).trans (List.drop_sublist _ _))
  obtain ⟨after, removed, vacant, keys⟩ := removePage_vacant servernum reachable vacant distinct
    fun name member => List.mem_of_mem_drop (read name member)
  exact ⟨after, removed, vacant, keys.trans (remaining_drop tree.store.keys_nodup read)⟩

include readable

/-- Nothing fails, and the buckets before the place where the loop reads are kept. -/
theorem removeAllBuckets_vacant (token : Nat) {tree : Tree} (vacant : Vacant tree.store) :
    ∃ after, removeAllBuckets faults servernum token tree = (none, after) ∧
      (tree.store.keys.take (pageStart token)).Sublist after.store.keys := by
  fun_induction removeAllBuckets faults servernum token tree with
  | case1 token tree _ page errno between step =>
    obtain ⟨after, removed, -⟩ := removePage_read servernum reachable token vacant
    cases step.symm.trans removed
  | case2 token tree _ page between step full ih =>
    obtain ⟨after, removed, vacant, keys⟩ := removePage_read servernum reachable token vacant
    cases step.symm.trans removed
    obtain ⟨last, rest, kept⟩ := ih vacant
    refine ⟨last, rest, List.Sublist.trans ?_ kept⟩
    -- The buckets before this page are also before the next one.
    rw [pageStart_nextToken (by rw [full]; decide), keys, List.take_append, List.take_take,
      Nat.min_eq_right (Nat.le_add_right _ _)]
    exact List.sublist_append_left _ _
  | case3 token tree _ page between step short =>
    obtain ⟨after, removed, vacant, keys⟩ := removePage_read servernum reachable token vacant
    cases step.symm.trans removed
    exact ⟨between, rfl, keys ▸ List.sublist_append_left _ _⟩
  | case4 token tree unreadable => exact absurd (readable token) unreadable

theorem removeAllBuckets_front {tree : Tree} (vacant : Vacant tree.store) :
    ∃ after, removeAllBuckets faults servernum 0 tree = (none, after) ∧
      after.store.keys.Sublist (remaining (tree.store.keys.take bucketIncount) tree.store.keys) ∧
      ((remaining (tree.store.keys.take bucketIncount) tree.store.keys).take bucketIncount).Sublist after.store.keys := by
  -- The first page leaves its zeroth bucket and what is behind it. What is then in front is never read.
  obtain ⟨between, first, vacant, keys⟩ := removePage_read servernum reachable 0 vacant
  have front : between.store.keys = remaining (tree.store.keys.take bucketIncount) tree.store.keys := keys
  rw [← front]
  by_cases full : (sysReaddir tree.store.keys 0 bucketIncount).length = bucketIncount
  · obtain ⟨after, rest, kept⟩ := removeAllBuckets_vacant servernum readable reachable (nextToken 0 bucketIncount) vacant
    refine ⟨after, ?_, removeAllBuckets_sublist rest, kept⟩
    unfold removeAllBuckets
    rw [if_pos (readable 0)]
    dsimp only
    split <;> rename_i removed <;> cases removed.symm.trans first
    rw [if_pos full, full]
    exact rest
  · rw [removeAllBuckets_short (readable 0) full]
    exact ⟨between, first, List.Sublist.refl _, List.take_sublist _ _⟩

/-- The loop removes all buckets but the zeroth exactly when the first page does. -/
theorem removeAllBuckets_singleton {tree after : Tree} {result : Option Errno} (vacant : Vacant tree.store)
    (removed : removeAllBuckets faults servernum 0 tree = (result, after)) :
    result = none ∧ (after.store.keys = [bucketName 0] ↔
      remaining (tree.store.keys.take bucketIncount) tree.store.keys = [bucketName 0]) := by
  obtain ⟨last, step, fewer, kept⟩ := removeAllBuckets_front servernum readable reachable vacant
  cases removed.symm.trans step
  refine ⟨rfl, fun alone => ?_, fun alone => ?_⟩
  · -- Two buckets in front would both be kept.
    have short := kept.length_le
    rw [alone, List.length_take, List.length_singleton] at short
    have all : (remaining (tree.store.keys.take bucketIncount) tree.store.keys).length ≤ after.store.keys.length := by
      rw [alone, List.length_singleton]
      unfold bucketIncount at short ⊢
      omega
    rw [← alone, fewer.eq_of_length_le all]
  · rw [alone] at fewer kept
    exact fewer.antisymm kept

/-- With every call succeeding, the empty directory is left with its zeroth bucket exactly if the first page showed
all the others. -/
theorem remove_all_buckets_iff {tree : Tree} (vacant : Vacant tree.store) (rooted : bucketName 0 ∈ tree.store.keys) :
    ((removeAllBuckets faults servernum 0 tree).1 = none ∧
        (removeAllBuckets faults servernum 0 tree).2.store.keys = [bucketName 0]) ↔
      tree.store.keys.length ≤ bucketIncount ∨
        tree.store.keys.length = bucketIncount + 1 ∧ tree.store.keys.getLast? = some (bucketName 0) := by
  obtain ⟨returned, alone⟩ := removeAllBuckets_singleton servernum readable reachable vacant Prod.mk.eta.symm
  rw [and_iff_right returned, alone]
  exact remaining_eq_singleton_iff tree.store.keys_nodup rooted bucketIncount

omit readable reachable

/-- An empty directory on one server with that many buckets, listed by their indices. -/
def emptyTree (count : Nat) : Tree where
  zerothServer := 0
  serverCount := 1
  store :=
    { entries := (List.range count).map fun index => ⟨bucketName index, ∅⟩
      nodupKeys := by
        rw [List.NodupKeys, List.keys, List.map_map]
        exact List.nodup_range.map bucketName_injective }
  cached _ := none

theorem keys_emptyTree (count : Nat) : (emptyTree count).store.keys = (List.range count).map bucketName := by
  simp [emptyTree, AList.keys, List.keys]

theorem vacant_emptyTree (count : Nat) : Vacant (emptyTree count).store where
  named name member := by
    rw [keys_emptyTree, List.mem_map] at member
    exact member.imp fun _ listed => listed.2.symm
  empty index := by
    unfold Store.names
    cases found : (emptyTree count).store.bucket index with
    | none => rfl
    | some content =>
      have entry := List.mem_map.mp (AList.mem_lookup_iff.mp (Option.mem_def.mpr found))
      obtain ⟨_, -, same⟩ := entry
      rw [← eq_of_heq (Sigma.mk.inj same).2]
      rfl

/-- One bucket more than a page, the zeroth listed first: the last one is not looked at. -/
theorem remove_all_buckets_skips :
    ∃ after, removeAllBuckets noFaults 0 0 (emptyTree 33) = (none, after) ∧
      bucketName 32 ∈ after.store.keys := by
  have reads : ∀ token, noFaults.readable token = true := fun _ => rfl
  obtain ⟨after, removed, -, kept⟩ := removeAllBuckets_front 0 reads (fun _ => rfl) (vacant_emptyTree 33)
  refine ⟨after, removed, kept.subset ?_⟩
  rw [keys_emptyTree]
  decide +kernel

theorem remove_all_buckets_page :
    (removeAllBuckets noFaults 0 0 (emptyTree 32)).1 = none ∧
      (removeAllBuckets noFaults 0 0 (emptyTree 32)).2.store.keys = [bucketName 0] := by
  have reads : ∀ token, noFaults.readable token = true := fun _ => rfl
  have length : (emptyTree 32).store.keys.length = bucketIncount := by rw [keys_emptyTree]; decide
  exact (remove_all_buckets_iff 0 reads (fun _ => rfl) (vacant_emptyTree 32)
    (by rw [keys_emptyTree]; decide)).mpr (Or.inl length.le)

end SkyeFS.Server.Tree
