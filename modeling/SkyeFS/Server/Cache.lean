import SkyeFS.Server.Directory
import SkyeFS.Pvfs.Store

/-! How a server builds its table of a directory that it has not cached.

`new_directory` starts from a table with partition zero and `fill_bitmap` adds the
partition of every bucket that PVFS lists, 32 names at a time. Which buckets exist is
all that is read: a bucket counts from the moment it has its name.
-/

set_option autoImplicit false

namespace SkyeFS.Server

open Index Pvfs

/-- `pvfs_dirent_incount` of the loops over the buckets of a directory. -/
def bucketIncount : Nat := 32

/-- A name that is no bucket's is reported and left out. -/
def addListed (mapping : GigaMapping) (name : FileName) : GigaMapping :=
  match scanBucketName name with
  | some index => gigaUpdateMapping mapping index
  | none => mapping

/-- The page loop. A page that cannot be read ends it. -/
def fillBitmap (readable : Nat → Bool) (listing : List FileName) (token : Nat) (mapping : GigaMapping) :
    GigaMapping :=
  if readable token then
    let page := sysReaddir listing token bucketIncount
    let filled := page.foldl addListed mapping
    if page.length = bucketIncount then fillBitmap readable listing (nextToken token page.length) filled
    else filled
  else mapping
termination_by listing.length - pageStart token
decreasing_by
  rename_i full
  have read : (sysReaddir listing token bucketIncount).length = bucketIncount := full
  rw [pageStart_nextToken (by rw [read]; decide), read]
  rw [sysReaddir, List.length_take, List.length_drop] at read
  unfold bucketIncount at read ⊢
  omega

/-- `zeroth_server` is the PVFS server of the directory itself. -/
def newDirectory (readable : Nat → Bool) (zerothServer serverCount : UInt32) (listing : List FileName) :
    SkyeDirectory where
  mapping := fillBitmap readable listing 0 (gigaInitMapping zerothServer serverCount)
  splittingIndex := none

/-- A thread in the page loop: before it reads a page, or with the names of a page of `outcount` that are to be added. -/
inductive Loader where
  | reading (token : Nat)
  | adding (token outcount : Nat) (rest : List FileName)
deriving DecidableEq

/-- One step of the loop, with the table after it. No thread is left in the loop behind a short page, nor behind one that
cannot be read. -/
def fillStep (listing : List FileName) (success : Bool) (mapping : GigaMapping) : Loader → Option Loader × GigaMapping
  | .reading token =>
      let page := sysReaddir listing token bucketIncount
      (if success then some (.adding token page.length page) else none, mapping)
  | .adding token outcount [] =>
      (if outcount = bucketIncount then some (.reading (nextToken token outcount)) else none, mapping)
  | .adding token outcount (name :: rest) => (some (.adding token outcount rest), addListed mapping name)

def sysRemoveBucket (store : Store) (index : Nat) : Except Errno Store :=
  match store.bucket index with
  | none => .error .enoent
  | some content => if content.keys.isEmpty then .ok (store.erase (bucketName index)) else .error .enotempty

/-- What `remove_bucket` removes it also takes out of the table. -/
def removeBucket (dir : SkyeDirectory) (store : Store) (index : Nat) : Except Errno (SkyeDirectory × Store) := do
  let fewer ← sysRemoveBucket store index
  return ({ dir with mapping := gigaUpdateMappingRemove dir.mapping index }, fewer)

theorem sysRemoveBucket_ok {store fewer : Store} {index : Nat} (removed : sysRemoveBucket store index = .ok fewer) :
    store.names index = [] ∧ bucketName index ∈ store.keys ∧ fewer = store.erase (bucketName index) := by
  unfold sysRemoveBucket at removed
  split at removed
  · cases removed
  · rename_i content found
    split at removed <;> cases removed
    rename_i empty
    refine ⟨by simpa [Store.names, found] using empty, ?_, rfl⟩
    rw [← Store.bucket_isSome, found]
    rfl

theorem removeBucket_ok {dir after : SkyeDirectory} {store fewer : Store} {index : Nat}
    (removed : removeBucket dir store index = .ok (after, fewer)) :
    sysRemoveBucket store index = .ok fewer ∧
      after = { dir with mapping := gigaUpdateMappingRemove dir.mapping index } := by
  unfold removeBucket at removed
  cases erased : sysRemoveBucket store index with
  | error errno =>
    rw [erased] at removed
    cases removed
  | ok kept =>
    rw [erased] at removed
    cases removed
    exact ⟨rfl, rfl⟩

theorem removeBucket_error {dir : SkyeDirectory} {store : Store} {index : Nat} {errno : Errno}
    (refused : removeBucket dir store index = .error errno) : sysRemoveBucket store index = .error errno := by
  unfold removeBucket at refused
  cases erased : sysRemoveBucket store index with
  | error other =>
    rw [erased] at refused
    cases refused
    rfl
  | ok kept =>
    rw [erased] at refused
    cases refused

theorem fillBitmap_eq_foldl {readable : Nat → Bool} (reads : ∀ token, readable token = true)
    (listing : List FileName) (token : Nat) (mapping : GigaMapping) :
    fillBitmap readable listing token mapping = (listing.drop (pageStart token)).foldl addListed mapping := by
  fun_induction fillBitmap readable listing token mapping with
  | case1 token mapping _ page filled full ih =>
    -- A full page is followed by the page behind it.
    rw [ih, pageStart_nextToken (by rw [full]; decide), full, ← List.drop_drop, ← List.foldl_append]
    exact congrArg _ (List.take_append_drop _ _)
  | case2 token mapping _ page filled short =>
    have last : page = listing.drop (pageStart token) := by
      refine List.take_of_length_le ?_
      have length : page.length = min bucketIncount (listing.drop (pageStart token)).length := List.length_take
      omega
    exact congrArg _ last
  | case3 token mapping unreadable => exact absurd (reads token) unreadable

theorem newDirectory_eq_foldl {readable : Nat → Bool} (reads : ∀ token, readable token = true)
    (zerothServer serverCount : UInt32) (listing : List FileName) :
    newDirectory readable zerothServer serverCount listing =
      { mapping := listing.foldl addListed (gigaInitMapping zerothServer serverCount), splittingIndex := none } := by
  rw [newDirectory, fillBitmap_eq_foldl reads]
  rfl

theorem placement_addListed {mapping : GigaMapping} {name : FileName} :
    (addListed mapping name).SamePlacement mapping := by
  unfold addListed
  split <;> exact ⟨rfl, rfl⟩

theorem placement_foldl {listing : List FileName} {mapping : GigaMapping} :
    (listing.foldl addListed mapping).SamePlacement mapping := by
  induction listing generalizing mapping with
  | nil => exact ⟨rfl, rfl⟩
  | cons name rest ih => exact ih.trans placement_addListed

theorem placement_newDirectory {readable : Nat → Bool} (reads : ∀ token, readable token = true)
    {zerothServer serverCount : UInt32} {listing : List FileName} :
    (newDirectory readable zerothServer serverCount listing).mapping.SamePlacement
      (gigaInitMapping zerothServer serverCount) := by
  rw [newDirectory_eq_foldl reads]
  exact placement_foldl

/-- The listing of a directory: buckets only, with indices that the lookup accepts. -/
def Buckets (listing : List FileName) : Prop :=
  ∀ name ∈ listing, ∃ index < 2 ^ (maxRadix - 1), name = bucketName index

theorem addListed_bucketName (mapping : GigaMapping) (index : Nat) :
    addListed mapping (bucketName index) = gigaUpdateMapping mapping index := by
  simp [addListed, scanBucketName_bucketName]

def Indexed (listing : List FileName) : Prop := ∀ name ∈ listing, ∃ index < capacity, name = bucketName index

theorem mem_foldl_addListed {page : List FileName} (indexed : Indexed page) {mapping : GigaMapping} {index : Nat} :
    index ∈ (page.foldl addListed mapping).partitions ↔ index ∈ mapping.partitions ∨ bucketName index ∈ page := by
  induction page generalizing mapping with
  | nil => simp
  | cons name rest ih =>
    obtain ⟨added, inside, rfl⟩ := indexed name (by simp)
    rw [List.foldl_cons, addListed_bucketName, ih fun other member => indexed other (by simp [member]),
      partitions_update mapping inside, Finset.mem_insert, List.mem_cons, bucketName_injective.eq_iff, or_assoc,
      or_left_comm]

/-- What the names of a loader's page, and those of the pages behind it, are. -/
def Loader.unread (listing : List FileName) : Loader → List FileName
  | .reading token => listing.drop (pageStart token)
  | .adding token outcount rest =>
      rest ++ if outcount = bucketIncount then listing.drop (pageStart (nextToken token outcount)) else []

def Loader.rest : Loader → List FileName
  | .reading _ => []
  | .adding _ _ rest => rest

theorem unread_adding (listing : List FileName) (token : Nat) :
    let page := sysReaddir listing token bucketIncount
    (Loader.adding token page.length page).unread listing = (Loader.reading token).unread listing := by
  -- The page that is read next is the first part of what is left to read.
  intro page
  have behind : page ++ (listing.drop (pageStart token)).drop bucketIncount = listing.drop (pageStart token) :=
    List.take_append_drop _ _
  have length : page.length = min bucketIncount (listing.drop (pageStart token)).length := List.length_take
  dsimp only [Loader.unread]
  split
  · rename_i full
    rw [pageStart_nextToken (by rw [full]; decide), full, ← List.drop_drop, behind]
  · rename_i short
    have nothing : (listing.drop (pageStart token)).drop bucketIncount = [] := List.drop_eq_nil_of_le (by omega)
    rwa [nothing] at behind

theorem fillStep_unread {listing : List FileName} {mapping after : GigaMapping} {loader : Loader}
    {next : Option Loader} (indexed : Indexed loader.rest) (filled : fillStep listing true mapping loader = (next, after))
    {index : Nat} : (index ∈ after.partitions ∨ ∃ later ∈ next, bucketName index ∈ later.unread listing) ↔
      index ∈ mapping.partitions ∨ bucketName index ∈ loader.unread listing := by
  -- A step loses no partition, and takes a name off what is left to read only when it adds its partition.
  match loader with
  | .reading token =>
    cases filled
    rw [← unread_adding listing token]
    simp
  | .adding token outcount [] =>
    cases filled
    split <;> rename_i full <;> simp [Loader.unread, full]
  | .adding token outcount (name :: rest) =>
    cases filled
    obtain ⟨added, inside, rfl⟩ := indexed name (by simp [Loader.rest])
    rw [addListed_bucketName, partitions_update mapping inside]
    simp [Loader.unread, bucketName_injective.eq_iff, or_assoc, or_left_comm]

theorem fillStep_table {listing : List FileName} {success : Bool} {mapping after : GigaMapping} {loader : Loader}
    {next : Option Loader} (filled : fillStep listing success mapping loader = (next, after)) :
    after = mapping ∨ ∃ name ∈ loader.rest, after = addListed mapping name := by
  match loader with
  | .reading token | .adding token outcount [] =>
    cases filled
    exact Or.inl rfl
  | .adding token outcount (name :: rest) =>
    cases filled
    exact Or.inr ⟨name, List.mem_cons_self, rfl⟩

theorem fillStep_grows {listing : List FileName} {success : Bool} {mapping after : GigaMapping} {loader : Loader}
    {next : Option Loader} (indexed : Indexed loader.rest)
    (filled : fillStep listing success mapping loader = (next, after)) : mapping.partitions ⊆ after.partitions := by
  rcases fillStep_table filled with rfl | ⟨name, held, rfl⟩
  · exact subset_rfl
  · obtain ⟨added, inside, rfl⟩ := indexed name held
    rw [addListed_bucketName, partitions_update mapping inside]
    exact Finset.subset_insert _ _

theorem fillStep_added {listing : List FileName} {success : Bool} {mapping after : GigaMapping} {loader : Loader}
    {next : Option Loader} (indexed : Indexed loader.rest)
    (filled : fillStep listing success mapping loader = (next, after)) {index : Nat}
    (member : index ∈ after.partitions) : index ∈ mapping.partitions ∨ bucketName index ∈ loader.rest := by
  rcases fillStep_table filled with rfl | ⟨name, held, rfl⟩
  · exact Or.inl member
  · obtain ⟨added, inside, rfl⟩ := indexed name held
    rw [addListed_bucketName, partitions_update mapping inside, Finset.mem_insert] at member
    rcases member with rfl | older
    · exact Or.inr held
    · exact Or.inl older

theorem placement_fillStep {listing : List FileName} {success : Bool} {mapping after : GigaMapping} {loader : Loader}
    {next : Option Loader} (filled : fillStep listing success mapping loader = (next, after)) :
    after.SamePlacement mapping := by
  rcases fillStep_table filled with rfl | ⟨name, -, rfl⟩
  · exact ⟨rfl, rfl⟩
  · exact placement_addListed

theorem fillStep_rest {listing : List FileName} {success : Bool} {mapping after : GigaMapping} {loader later : Loader}
    (filled : fillStep listing success mapping loader = (some later, after)) {name : FileName}
    (member : name ∈ later.rest) : name ∈ loader.rest ∨ (∃ token, loader = .reading token) ∧ name ∈ listing := by
  match loader with
  | .reading token =>
    simp only [fillStep, Prod.mk.injEq, Option.ite_none_right_eq_some, Option.some.injEq] at filled
    obtain ⟨⟨-, rfl⟩, -⟩ := filled
    exact Or.inr ⟨⟨token, rfl⟩, List.mem_of_mem_drop (List.mem_of_mem_take member)⟩
  | .adding token outcount [] =>
    simp only [fillStep, Prod.mk.injEq, Option.ite_none_right_eq_some, Option.some.injEq] at filled
    obtain ⟨⟨-, rfl⟩, -⟩ := filled
    cases member
  | .adding token outcount (first :: rest) =>
    cases filled
    exact Or.inl (List.mem_cons_of_mem first member)

section
variable {listing : List FileName} (buckets : Buckets listing)
include buckets

theorem Buckets.indexed : Indexed listing := by
  intro name member
  obtain ⟨index, bounded, rfl⟩ := buckets name member
  exact ⟨index, bounded.trans (by decide), rfl⟩

theorem foldl_addListed {mapping : GigaMapping} (valid : mapping.Valid) (small : mapping.Small) :
    (listing.foldl addListed mapping).Valid ∧ (listing.foldl addListed mapping).Small ∧
      ∀ index, index ∈ (listing.foldl addListed mapping).partitions ↔
        index ∈ mapping.partitions ∨ bucketName index ∈ listing := by
  rw [← and_assoc]
  refine ⟨?_, fun index => mem_foldl_addListed buckets.indexed⟩
  induction listing generalizing mapping with
  | nil => exact ⟨valid, small⟩
  | cons name rest ih =>
    obtain ⟨added, bounded, rfl⟩ := buckets name (by simp)
    rw [List.foldl_cons, addListed_bucketName]
    exact ih (fun other member => buckets other (by simp [member])) (valid.update (bounded.trans (by decide)))
      (small.update bounded)

/-- A loaded table has the partitions of the buckets that are there. -/
theorem newDirectory_spec {readable : Nat → Bool} (reads : ∀ token, readable token = true)
    (zerothServer serverCount : UInt32) :
    (newDirectory readable zerothServer serverCount listing).mapping.Valid ∧
      (newDirectory readable zerothServer serverCount listing).mapping.Small ∧
      ∀ index, index ∈ (newDirectory readable zerothServer serverCount listing).mapping.partitions ↔
        index = 0 ∨ bucketName index ∈ listing := by
  have filled := foldl_addListed buckets (valid_init zerothServer serverCount) (small_init zerothServer serverCount)
  simp only [partitions_init, Finset.mem_singleton] at filled
  rw [newDirectory_eq_foldl reads]
  exact filled

end

/-- Loading reads the partitions off the names of the buckets: whatever their number and order, a bit is set
exactly for a bucket that is listed. -/
theorem fillBitmap_recovers {partitions : Finset Nat} (bounded : ∀ index ∈ partitions, index < 2 ^ maxRadix)
    (root : 0 ∈ partitions) {listing : List FileName} (listed : listing.Perm (partitions.toList.map bucketName))
    (zerothServer serverCount : UInt32) (index : Nat) :
    getBitStatus (fillBitmap (fun _ => true) listing 0 (gigaInitMapping zerothServer serverCount)).bitmap index = true ↔
      index ∈ partitions := by
  have indexed : Indexed listing := by
    intro name member
    obtain ⟨added, inside, rfl⟩ := List.mem_map.mp (listed.mem_iff.mp member)
    exact ⟨added, (bounded added (Finset.mem_toList.mp inside)).trans_le (by decide), rfl⟩
  have named : bucketName index ∈ listing ↔ index ∈ partitions := by
    rw [listed.mem_iff, List.mem_map_of_injective bucketName_injective, Finset.mem_toList]
  rw [getBitStatus_iff, fillBitmap_eq_foldl fun _ => rfl]
  refine (mem_foldl_addListed indexed).trans ?_
  rw [partitions_init, Finset.mem_singleton, named]
  -- The bit of partition zero is set before anything is read.
  exact or_iff_right_of_imp fun zeroth => zeroth ▸ root

/-- Two full pages and the empty one behind them, listed from the highest index down. -/
theorem fillBitmap_recovers_two_pages :
    ∃ listing : List FileName, listing = (List.range 64).reverse.map bucketName ∧
      ∀ index, getBitStatus (fillBitmap (fun _ => true) listing 0 (gigaInitMapping 0 3)).bitmap index = true ↔
        index ∈ Finset.range 64 := by
  have order : (List.range 64).reverse.Perm (Finset.range 64).toList :=
    (List.perm_ext_iff_of_nodup (List.nodup_reverse.mpr List.nodup_range) (Finset.nodup_toList _)).mpr (by simp)
  exact ⟨_, rfl, fillBitmap_recovers (fun index member => (Finset.mem_range.mp member).trans (by decide))
    (Finset.mem_range.mpr (by decide)) (order.map bucketName) 0 3⟩

end SkyeFS.Server
