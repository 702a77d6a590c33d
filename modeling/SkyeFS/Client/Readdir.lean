import SkyeFS.Client.Direntry
import SkyeFS.Client.Errnos
import SkyeFS.Client.Opendir
import SkyeFS.Foundation.Scan

/-! What `skye_ll_opendir` puts in its buffer when its calls may fail.

`pvfs_readdir` calls a function on every name of every page. A page that cannot be read
ends it with an error; a nonzero result of the function only ends the loop over the
page. `skye_ll_opendir` calls it twice, on the directory and inside on every bucket, and
looks at neither the result of the outer call nor at how far the inner ones came.
-/

set_option autoImplicit false

namespace SkyeFS.Client

open Pvfs Foundation

/-! ### The loops -/

section
variable {State Item : Type}

def readPage (callback : State → Item → State × Int) (state : State) : List Item → State
  | [] => state
  | dirent :: rest =>
      let (state, ret) := callback state dirent
      if ret ≠ 0 then state else readPage callback state rest

/-- `returns` gives what `PVFS_sys_readdir` returns for the page at a position. -/
def pvfsReaddir (getErrnoMapping : Int → Int) (returns : Nat → Int) (callback : State → Item → State × Int)
    (listing : List Item) (position : Nat) (state : State) : State × Int :=
  if returns position < 0 then (state, pvfs2errno getErrnoMapping (returns position))
  else
    let page := (listing.drop position).take readdirIncount
    let state := readPage callback state page
    if page.length = readdirIncount then
      pvfsReaddir getErrnoMapping returns callback listing (position + page.length) state
    else (state, 0)
termination_by listing.length - position
decreasing_by
  rename_i full
  have read : ((listing.drop position).take readdirIncount).length = readdirIncount := full
  rw [List.length_take, List.length_drop] at read ⊢
  unfold readdirIncount at read ⊢
  omega

end

/-- What the calls of one `skye_ll_opendir` come back with. The names in a directory are distinct, so that no place is
asked for twice. -/
structure OpendirReturns where
  calloc : Bool
  -- `PVFS_sys_readdir` on the directory at a position.
  directory : Nat → Int
  -- `PVFS_sys_readdir` on a bucket at a position.
  bucket : FileName → Nat → Int
  -- `realloc` for an entry of a bucket.
  realloc : FileName → FileName → Bool

inductive OpendirReply where
  | replyOpen (buf : List UInt8)
  | err (errno : Int)

def dirents (content : Bucket) : List Dirent := content.entries.map fun entry => ⟨entry.1, entry.2.handle⟩

section
variable (getErrnoMapping : Int → Int) (fuse : DirentryWriter) (returns : OpendirReturns)

/-- `db->size` is the length of the buffer. -/
def addToBuf (bucket : FileName) (db : List UInt8) (dirent : Dirent) : List UInt8 × Int :=
  let entrysize := fuse.size dirent.name
  if returns.realloc bucket dirent.name then (db ++ fuse.write ⟨dirent, db.length + entrysize⟩, 0) else (db, -1)

def recurse (db : List UInt8) (entry : (_ : FileName) × Bucket) : List UInt8 × Int :=
  if entry.1.head? ≠ some 'p' then (db, 0)
  else
    pvfsReaddir getErrnoMapping (returns.bucket entry.1) (addToBuf fuse returns entry.1) (dirents entry.2) 0 db

def skyeLlOpendir (store : Store) : OpendirReply :=
  if returns.calloc then
    .replyOpen
      (pvfsReaddir getErrnoMapping returns.directory (recurse getErrnoMapping fuse returns) store.entries 0 []).1
  else .err eIo

end

/-! ### What the loops collect -/

section
variable {State Item Out : Type} {getErrnoMapping : Int → Int} {returns : Nat → Int}
  {callback : State → Item → State × Int} {emit : List Out → State} {got : Item → List Out} {goesOn : Item → Bool}

/-- The function adds its part of an item to what it has, and returns zero if the loop may go on. -/
def Adds (callback : State → Item → State × Int) (emit : List Out → State) (got : Item → List Out)
    (goesOn : Item → Bool) : Prop :=
  ∀ out item, (callback (emit out) item).1 = emit (out ++ got item) ∧
    ((callback (emit out) item).2 = 0 ↔ goesOn item = true)

theorem readPage_eq_collect (adds : Adds callback emit got goesOn) (out : List Out) (page : List Item) :
    readPage callback (emit out) page = emit (out ++ collect got goesOn page) := by
  induction page generalizing out with
  | nil => rw [readPage, collect, List.append_nil]
  | cons item rest ih =>
    obtain ⟨added, zero⟩ := adds out item
    simp only [readPage, collect, ne_eq, zero, added]
    by_cases goes : goesOn item = true
    · rw [if_neg (not_not_intro goes), if_pos goes, ih, List.append_assoc]
    · rw [if_pos goes, if_neg goes, List.append_nil]

def readable (returns : Nat → Int) (number : Nat) : Bool := 0 ≤ returns (number * readdirIncount)

/-- How the call ends that has these pages to read. Its result tells a failure if the errnos do. -/
def Scanned (getErrnoMapping : Int → Int) (returns : Nat → Int) (emit : List Out → State) (got : Item → List Out)
    (goesOn : Item → Bool) (listing : List Item) (out : List Out) (numbers : List Nat) (ended : State × Int) : Prop :=
  ended.1 = emit (out ++ scanPages readdirIncount (readable returns) got goesOn listing numbers) ∧
    ((∀ position, returns position < 0 → getErrnoMapping (returns position) ≠ 0) →
      (ended.2 = 0 ↔ ∀ number ∈ numbers, readable returns number = true))

section
variable {listing : List Item} {out : List Out} {number : Nat}

theorem readable_iff : readable returns number = true ↔ 0 ≤ returns (number * readdirIncount) := decide_eq_true_iff

theorem Scanned.last (reads : readable returns number = true) :
    Scanned getErrnoMapping returns emit got goesOn listing out [number]
      (emit (out ++ collect got goesOn (page readdirIncount listing number)), 0) := by
  refine ⟨?_, fun _ => iff_of_true rfl (List.forall_mem_singleton.mpr reads)⟩
  rw [scanPages_cons reads, scanPages, collect, List.append_nil]

theorem Scanned.next {rest : List Nat} {ended : State × Int} (reads : readable returns number = true)
    (scanned : Scanned getErrnoMapping returns emit got goesOn listing
      (out ++ collect got goesOn (page readdirIncount listing number)) rest ended) :
    Scanned getErrnoMapping returns emit got goesOn listing out (number :: rest) ended := by
  refine ⟨?_, fun nonzero => (scanned.2 nonzero).trans ?_⟩
  · rw [scanPages_cons reads, ← List.append_assoc]
    exact scanned.1
  · rw [List.forall_mem_cons, and_iff_right reads]

theorem Scanned.stop (unreadable : readable returns number ≠ true) (rest : List Nat) :
    Scanned getErrnoMapping returns emit got goesOn listing out (number :: rest)
      (pvfsReaddir getErrnoMapping returns callback listing (number * readdirIncount) (emit out)) := by
  have fails : returns (number * readdirIncount) < 0 := lt_of_not_ge (mt readable_iff.mpr unreadable)
  rw [pvfsReaddir, if_pos fails]
  refine ⟨?_, fun nonzero => iff_of_false (fun zero => nonzero _ fails ?_) fun all => ?_⟩
  · rw [scanPages_stop unreadable, List.append_nil]
  · simpa [pvfs2errno] using zero
  · exact unreadable (all number List.mem_cons_self)

theorem pvfsReaddir_readable (reads : 0 ≤ returns (number * readdirIncount)) (state : State) :
    pvfsReaddir getErrnoMapping returns callback listing (number * readdirIncount) state =
      if number < listing.length / readdirIncount then
        pvfsReaddir getErrnoMapping returns callback listing ((number + 1) * readdirIncount)
          (readPage callback state (page readdirIncount listing number))
      else (readPage callback state (page readdirIncount listing number), 0) := by
  have full : (page readdirIncount listing number).length = readdirIncount ↔ number < listing.length / readdirIncount :=
    page_full_iff (by decide) number
  rw [pvfsReaddir, if_neg (not_lt.mpr reads)]
  by_cases more : number < listing.length / readdirIncount
  · have length := full.mpr more
    rw [if_pos more, Nat.succ_mul]
    unfold page at length ⊢
    simp only [length, if_true]
  · have short := mt full.mp more
    rw [if_neg more]
    unfold page at short ⊢
    simp only [short, if_false]

theorem pvfsReaddir_from (adds : Adds callback emit got goesOn) {left : Nat}
    (number : Nat) (out : List Out) (last : number + left = listing.length / readdirIncount) :
    Scanned getErrnoMapping returns emit got goesOn listing out (List.range' number (left + 1))
      (pvfsReaddir getErrnoMapping returns callback listing (number * readdirIncount) (emit out)) := by
  induction left generalizing number out with
  | zero =>
    by_cases reads : readable returns number = true
    · rw [pvfsReaddir_readable (readable_iff.mp reads), if_neg (by omega), readPage_eq_collect adds]
      exact .last reads
    · exact .stop reads _
  | succ left ih =>
    by_cases reads : readable returns number = true
    · rw [pvfsReaddir_readable (readable_iff.mp reads), if_pos (by omega), readPage_eq_collect adds]
      exact .next reads (ih (number + 1) _ (by omega))
    · exact .stop reads _

theorem pvfsReaddir_scan (getErrnoMapping : Int → Int) (returns : Nat → Int) (adds : Adds callback emit got goesOn)
    (listing : List Item) (out : List Out) :
    (pvfsReaddir getErrnoMapping returns callback listing 0 (emit out)).1 =
        emit (out ++ scan readdirIncount (readable returns) got goesOn listing) ∧
      ((∀ position, returns position < 0 → getErrnoMapping (returns position) ≠ 0) →
        ((pvfsReaddir getErrnoMapping returns callback listing 0 (emit out)).2 = 0 ↔
          ∀ number ≤ listing.length / readdirIncount, readable returns number = true)) := by
  have scanned : Scanned getErrnoMapping returns emit got goesOn listing out _ _ :=
    pvfsReaddir_from adds 0 out (Nat.zero_add _)
  rw [Nat.zero_mul, ← List.range_eq_range'] at scanned
  obtain ⟨state, ret⟩ := scanned
  refine ⟨state, fun nonzero => (ret nonzero).trans ?_⟩
  simp only [List.mem_range, Nat.lt_succ_iff]

end

end

/-! ### The buffer -/

def isPartition (entry : (_ : FileName) × Bucket) : Bool := entry.1.head? = some 'p'

/-- What a name of the directory has to contribute. -/
def partitionDirents (entry : (_ : FileName) × Bucket) : List Dirent := if isPartition entry then dirents entry.2 else []

def listed (store : Store) : List Dirent := store.entries.flatMap partitionDirents

/-- The buffer consists of records, among them one for every entry. -/
def Contains (fuse : DirentryWriter) (db : List UInt8) (wanted : List Dirent) : Prop :=
  ∃ recorded, db = fuse.bytes recorded ∧ wanted.Subperm recorded

section
variable (returns : OpendirReturns)

def bucketGot (bucket : FileName) (dirents : List Dirent) : List Dirent :=
  scan readdirIncount (readable (returns.bucket bucket))
    (fun dirent => if returns.realloc bucket dirent.name then [dirent] else [])
    (fun dirent => returns.realloc bucket dirent.name) dirents

/-- All pages of a bucket can be read, also an empty one at the end. -/
def bucketRead (bucket : FileName) (dirents : List Dirent) : Bool :=
  (List.range (dirents.length / readdirIncount + 1)).all (readable (returns.bucket bucket))

def entryGot (entry : (_ : FileName) × Bucket) : List Dirent :=
  if isPartition entry then bucketGot returns entry.1 (dirents entry.2) else []

def entryGoesOn (entry : (_ : FileName) × Bucket) : Bool :=
  !isPartition entry || bucketRead returns entry.1 (dirents entry.2)

end

section
variable {getErrnoMapping : Int → Int} {fuse : DirentryWriter} {returns : OpendirReturns}

theorem addToBuf_adds (fuse : DirentryWriter) (returns : OpendirReturns) (bucket : FileName) :
    Adds (addToBuf fuse returns bucket) fuse.bytes
      (fun dirent => if returns.realloc bucket dirent.name then [dirent] else [])
      (fun dirent => returns.realloc bucket dirent.name) := by
  intro out dirent
  by_cases grown : returns.realloc bucket dirent.name = true
  · simp only [addToBuf, grown, if_true, DirentryWriter.bytes_concat, true_and]
  · simp [addToBuf, grown]

theorem recurse_adds (fuse : DirentryWriter)
    (nonzero : ∀ bucket position, returns.bucket bucket position < 0 →
      getErrnoMapping (returns.bucket bucket position) ≠ 0) :
    Adds (recurse getErrnoMapping fuse returns) fuse.bytes (entryGot returns) (entryGoesOn returns) := by
  intro out entry
  by_cases partition : entry.1.head? = some 'p'
  · obtain ⟨state, ret⟩ := pvfsReaddir_scan getErrnoMapping (returns.bucket entry.1)
      (addToBuf_adds fuse returns entry.1) (dirents entry.2) out
    have reads : (∀ number ≤ (dirents entry.2).length / readdirIncount,
        readable (returns.bucket entry.1) number = true) ↔ bucketRead returns entry.1 (dirents entry.2) = true := by
      simp [bucketRead]
    replace ret := (ret (nonzero entry.1)).trans reads
    simp only [recurse, entryGot, entryGoesOn, isPartition, partition, not_true_eq_false, ne_eq, if_false, if_true,
      decide_true, Bool.not_true, Bool.false_or]
    exact ⟨state, ret⟩
  · simp [recurse, entryGot, entryGoesOn, isPartition, partition]

theorem skyeLlOpendir_eq
    (nonzero : ∀ bucket position, returns.bucket bucket position < 0 →
      getErrnoMapping (returns.bucket bucket position) ≠ 0) (store : Store) :
    skyeLlOpendir getErrnoMapping fuse returns store =
      if returns.calloc then
        .replyOpen (fuse.bytes (scan readdirIncount (readable returns.directory) (entryGot returns) (entryGoesOn returns)
          store.entries))
      else .err eIo := by
  obtain ⟨state, -⟩ := pvfsReaddir_scan getErrnoMapping returns.directory (recurse_adds fuse nonzero) store.entries []
  rw [skyeLlOpendir]
  exact congrArg (fun db => if returns.calloc then OpendirReply.replyOpen db else .err eIo) state

/-- Nothing that fails lies on the way to an entry. -/
structure Undisturbed (returns : OpendirReturns) (store : Store) : Prop where
  grows : ∀ entry ∈ store.entries, ∀ dirent ∈ partitionDirents entry, returns.realloc entry.1 dirent.name = true
  -- A page of a bucket that has entries.
  bucket : ∀ entry ∈ store.entries, ∀ number, page readdirIncount (partitionDirents entry) number ≠ [] →
    0 ≤ returns.bucket entry.1 (number * readdirIncount)
  -- A page of the directory at or before one that lists a bucket with entries.
  directory : ∀ number, (∃ entry ∈ page readdirIncount store.entries number, partitionDirents entry ≠ []) →
    ∀ earlier ≤ number, 0 ≤ returns.directory (earlier * readdirIncount)
  -- Any page of a bucket, also an empty one at its end, if a bucket with entries follows on the same page of the
  -- directory.
  before : ∀ number, (page readdirIncount store.entries number).Pairwise fun earlier later =>
    isPartition earlier = true → partitionDirents later ≠ [] →
      ∀ last ≤ (dirents earlier.2).length / readdirIncount, 0 ≤ returns.bucket earlier.1 (last * readdirIncount)

theorem grown_sublist {bucket : FileName} (dirent : Dirent) :
    (if returns.realloc bucket dirent.name then [dirent] else []).Sublist [dirent] := by
  split
  · exact List.Sublist.refl _
  · exact List.nil_sublist _

theorem bucketGot_sublist (bucket : FileName) (dirents : List Dirent) :
    (bucketGot returns bucket dirents).Sublist dirents := by
  conv_rhs => rw [← List.flatMap_singleton' dirents]
  exact scan_sublist (fun dirent _ => grown_sublist dirent) (by decide)

theorem bucketGot_eq_iff (bucket : FileName) (dirents : List Dirent) :
    bucketGot returns bucket dirents = dirents ↔
      (∀ dirent ∈ dirents, returns.realloc bucket dirent.name = true) ∧
        ∀ number, page readdirIncount dirents number ≠ [] → 0 ≤ returns.bucket bucket (number * readdirIncount) := by
  have positive : 0 < readdirIncount := by decide
  have unbroken_iff : bucketGot returns bucket dirents = dirents ↔
      Unbroken readdirIncount (readable (returns.bucket bucket))
        (fun dirent => if returns.realloc bucket dirent.name then [dirent] else []) (fun dirent => [dirent])
        (fun dirent => returns.realloc bucket dirent.name) dirents := by
    rw [← scan_eq_iff (fun dirent _ => grown_sublist dirent) positive, List.flatMap_singleton']
    rfl
  rw [unbroken_iff]
  constructor
  · intro unbroken
    refine ⟨fun dirent member => ?_, fun number some => ?_⟩
    · by_contra fails
      have got := unbroken.whole dirent member
      rw [if_neg fails] at got
      cases got
    · obtain ⟨dirent, member⟩ := List.exists_mem_of_ne_nil _ some
      exact readable_iff.mp (unbroken.read number ⟨dirent, member, List.cons_ne_nil _ _⟩ number le_rfl)
  · rintro ⟨grows, reads⟩
    refine ⟨fun dirent member => if_pos (grows dirent member), fun number ⟨dirent, member, _⟩ earlier before => ?_,
      fun number => ?_⟩
    · -- A page before one with entries has entries.
      refine readable_iff.mpr (reads earlier fun none => List.ne_nil_of_mem member ?_)
      rw [page_eq_nil_iff positive] at none ⊢
      exact none.trans (Nat.mul_le_mul_right _ before)
    · exact List.pairwise_of_forall_mem_list fun earlier member _ _ _ => grows earlier (mem_of_mem_page member)

theorem entryGot_sublist (entry : (_ : FileName) × Bucket) :
    (entryGot returns entry).Sublist (partitionDirents entry) := by
  unfold entryGot partitionDirents
  split
  · exact bucketGot_sublist entry.1 (dirents entry.2)
  · exact List.Sublist.refl []

theorem entryGot_eq_iff {entry : (_ : FileName) × Bucket} :
    entryGot returns entry = partitionDirents entry ↔
      (∀ dirent ∈ partitionDirents entry, returns.realloc entry.1 dirent.name = true) ∧
        ∀ number, page readdirIncount (partitionDirents entry) number ≠ [] →
          0 ≤ returns.bucket entry.1 (number * readdirIncount) := by
  unfold entryGot partitionDirents
  split
  · exact bucketGot_eq_iff entry.1 (dirents entry.2)
  · simp [page]

theorem entryGoesOn_iff {entry : (_ : FileName) × Bucket} :
    entryGoesOn returns entry = true ↔
      (isPartition entry = true → ∀ last ≤ (dirents entry.2).length / readdirIncount,
        0 ≤ returns.bucket entry.1 (last * readdirIncount)) := by
  simp [entryGoesOn, bucketRead, readable, Bool.or_eq_true, or_iff_not_imp_left]

theorem scan_eq_listed_iff (store : Store) :
    scan readdirIncount (readable returns.directory) (entryGot returns) (entryGoesOn returns) store.entries =
      listed store ↔ Undisturbed returns store := by
  rw [listed, scan_eq_iff (fun entry _ => entryGot_sublist entry) (by decide)]
  constructor
  · intro unbroken
    refine ⟨fun entry member => ?_, fun entry member => ?_, fun number some earlier before => ?_, fun number => ?_⟩
    · exact (entryGot_eq_iff.mp (unbroken.whole entry member)).1
    · exact (entryGot_eq_iff.mp (unbroken.whole entry member)).2
    · exact readable_iff.mp (unbroken.read number some earlier before)
    · exact (unbroken.goesOn number).imp fun goes partition some => entryGoesOn_iff.mp (goes some) partition
  · intro undisturbed
    refine ⟨fun entry member => ?_, fun number some earlier before => ?_, fun number => ?_⟩
    · exact entryGot_eq_iff.mpr ⟨undisturbed.grows entry member, undisturbed.bucket entry member⟩
    · exact readable_iff.mpr (undisturbed.directory number some earlier before)
    · exact (undisturbed.before number).imp fun reads some => entryGoesOn_iff.mpr fun partition => reads partition some

theorem Contains.total_le {db : List UInt8} {wanted : List Dirent} (contains : Contains fuse db wanted) :
    fuse.total wanted ≤ db.length := by
  obtain ⟨recorded, rfl, all⟩ := contains
  rw [DirentryWriter.length_bytes]
  exact DirentryWriter.total_subperm all

/-- `skye_ll_opendir` never replies with a buffer in which an entry is missing, if and only if it has no buffer at all
or no failure lies on the way to an entry. -/
theorem opendir_complete_iff (nonzero : ∀ n < 0, getErrnoMapping n ≠ 0) (store : Store) :
    (∀ db, skyeLlOpendir getErrnoMapping fuse returns store = .replyOpen db → Contains fuse db (listed store)) ↔
      (returns.calloc = true → Undisturbed returns store) := by
  have inside : (scan readdirIncount (readable returns.directory) (entryGot returns) (entryGoesOn returns)
      store.entries).Sublist (listed store) := scan_sublist (fun entry _ => entryGot_sublist entry) (by decide)
  rw [skyeLlOpendir_eq fun bucket position => nonzero _, ← scan_eq_listed_iff]
  by_cases allocated : returns.calloc = true
  · simp only [allocated, if_true, OpendirReply.replyOpen.injEq, forall_eq', true_imp_iff]
    constructor
    · intro contains
      -- The records are as long as all entries at least, and those collected are some of the entries.
      have long := contains.total_le
      rw [DirentryWriter.length_bytes] at long
      exact DirentryWriter.eq_of_total inside long
    · intro whole
      exact ⟨listed store, congrArg _ whole, List.Subperm.refl _⟩
  · simp [allocated]

end

/-- Two buckets, the first of which has one entry. -/
def twoBuckets (second : Bucket) : Store where
  entries := [⟨bucketName 0, AList.singleton ['a'] ⟨100, false⟩⟩, ⟨bucketName 1, second⟩]
  nodupKeys := by simpa [List.nodupKeys_cons] using bucketName_injective.ne Nat.zero_ne_one

/-- Only the second bucket cannot be read. -/
def secondFails : OpendirReturns where
  calloc := true
  directory _ := 0
  bucket name _ := if name = bucketName 1 then -5 else 0
  realloc _ _ := true

/-- The open succeeds without the entry of the second bucket. -/
theorem opendir_loses_bucket :
    ∃ db, skyeLlOpendir (fun n => -n) fuseDirent.toDirentryWriter secondFails
        (twoBuckets (AList.singleton ['b'] ⟨101, false⟩)) = .replyOpen db ∧
      ¬ Contains fuseDirent.toDirentryWriter db (listed (twoBuckets (AList.singleton ['b'] ⟨101, false⟩))) := by
  refine ⟨_, (skyeLlOpendir_eq (fun _ _ negative => by omega) _).trans (if_pos rfl), fun contains => ?_⟩
  have long := contains.total_le
  rw [DirentryWriter.length_bytes] at long
  revert long
  decide +kernel

/-- A bucket without entries that is listed last may fail. -/
theorem opendir_complete_without_last :
    ∃ db, skyeLlOpendir (fun n => -n) fuseDirent.toDirentryWriter secondFails (twoBuckets ∅) = .replyOpen db ∧
      Contains fuseDirent.toDirentryWriter db (listed (twoBuckets ∅)) := by
  have entries : (twoBuckets ∅).entries =
      [⟨bucketName 0, AList.singleton ['a'] ⟨100, false⟩⟩, ⟨bucketName 1, ∅⟩] := rfl
  have empty : partitionDirents ⟨bucketName 1, ∅⟩ = [] := rfl
  have reads (position : Nat) : 0 ≤ secondFails.bucket (bucketName 0) position := by
    simp only [secondFails, if_neg (bucketName_injective.ne Nat.zero_ne_one), le_refl]
  have undisturbed : Undisturbed secondFails (twoBuckets ∅) := by
    refine ⟨fun _ _ _ _ => rfl, ?_, fun _ _ _ _ => le_rfl, fun number => ?_⟩
    · rw [entries]
      simp only [List.forall_mem_cons, empty]
      exact ⟨fun number _ => reads _, fun number some => absurd (by simp [page]) some, by simp⟩
    · refine List.Pairwise.sublist ((List.take_sublist _ _).trans (List.drop_sublist _ _)) ?_
      rw [entries]
      simp [empty]
  have nonzero : ∀ n < 0, (fun n : Int => -n) n ≠ 0 := fun n negative => by simpa using negative.ne
  have replied : skyeLlOpendir (fun n => -n) fuseDirent.toDirentryWriter secondFails (twoBuckets ∅) = .replyOpen _ := rfl
  exact ⟨_, replied, (opendir_complete_iff nonzero (twoBuckets ∅)).mpr (fun _ => undisturbed) _ replied⟩

/-! ### Without failures -/

structure OpendirReturns.Succeed (returns : OpendirReturns) : Prop where
  calloc : returns.calloc = true
  directory : ∀ position, 0 ≤ returns.directory position
  bucket : ∀ bucket position, 0 ≤ returns.bucket bucket position
  realloc : ∀ bucket name, returns.realloc bucket name = true

section
variable {getErrnoMapping : Int → Int} {fuse : DirentryWriter} {returns : OpendirReturns}

theorem skyeLlOpendir_succeed (succeed : returns.Succeed) (store : Store) :
    skyeLlOpendir getErrnoMapping fuse returns store = .replyOpen (fuse.bytes (listed store)) := by
  have undisturbed : Undisturbed returns store :=
    ⟨fun _ _ _ _ => succeed.realloc _ _, fun _ _ _ _ => succeed.bucket _ _, fun _ _ _ _ => succeed.directory _,
      fun _ => List.pairwise_of_forall fun _ _ _ _ _ _ => succeed.bucket _ _⟩
  rw [skyeLlOpendir_eq fun bucket position negative => absurd negative (not_lt.mpr (succeed.bucket _ _)),
    if_pos succeed.calloc, (scan_eq_listed_iff store).mpr undisturbed]

end

def entryNames (store : Store) (name : FileName) : List FileName :=
  if name.head? = some 'p' then bucketNames store name else []

namespace Opendir

def unread (store : Store) : Opendir → List FileName
  | .inner _ _ _ bucket position => (bucketNames store bucket).drop position
  | .outer _ | .page _ _ _ | .done => []

def remains (store : Store) (client : Opendir) : List FileName :=
  client.unread store ++ (client.ahead store.keys).flatMap (entryNames store)

theorem opendirStep_remains {store : Store} {client after : Opendir} {added : List FileName}
    (follows : client.Follows store.keys) (stepped : opendirStep store client = some (after, added)) :
    client.remains store = added ++ after.remains store := by
  cases client with
  | outer next =>
    cases stepped
    simp only [remains, unread, ahead, List.nil_append, take_append_drop_page]
  | page next outcount rest =>
    cases rest with
    | nil =>
      cases stepped
      split
      · rfl
      · rename_i short
        simp only [remains, unread, ahead, List.drop_eq_nil_of_le (follows.2 short), List.append_nil]
        rfl
    | cons first rest =>
      rw [opendirStep] at stepped
      split at stepped
      · rename_i partition
        cases stepped
        simp only [remains, unread, ahead, List.cons_append, List.flatMap_cons, List.drop_zero, List.nil_append,
          entryNames, if_pos partition]
      · rename_i other
        cases stepped
        simp only [remains, unread, ahead, List.cons_append, List.flatMap_cons, List.nil_append, entryNames, if_neg other]
  | inner next outcount rest bucket position =>
    have present : bucket ∈ store := follows_mem follows
    obtain ⟨content, found⟩ := Option.isSome_iff_exists.mp (AList.lookup_isSome.mpr present)
    have names : bucketNames store bucket = content.keys := by rw [bucketNames, found]; rfl
    simp only [opendirStep, found, Option.some.injEq, Prod.mk.injEq] at stepped
    obtain ⟨rfl, rfl⟩ := stepped
    split
    · simp only [remains, unread, ahead, names, ← List.append_assoc, take_append_drop_page]
    · rename_i short
      rw [List.length_take] at short
      have last : (content.keys.drop position).length ≤ readdirIncount := by omega
      simp only [remains, unread, ahead, names, List.nil_append, List.take_of_length_le last]
  | done => cases stepped

end Opendir

theorem map_listed (store : Store) : (listed store).map Dirent.name = store.keys.flatMap (entryNames store) := by
  rw [listed, List.map_flatMap, AList.keys, List.keys, List.flatMap_map]
  refine List.flatMap_congr fun entry member => ?_
  have found : store.lookup entry.1 = some entry.2 := AList.mem_lookup_iff.mpr member
  rw [partitionDirents, entryNames, bucketNames, found]
  by_cases partition : entry.1.head? = some 'p'
  · have opened : isPartition entry = true := decide_eq_true partition
    rw [if_pos opened, if_pos partition, dirents, List.map_map]
    rfl
  · have skipped : isPartition entry ≠ true := by simpa [isPartition] using partition
    rw [if_neg skipped, if_neg partition, List.map_nil]

section
variable {shahash : FileName → Index.Digest} {servernum : Nat} {store : Store} {state after : OpendirState}

/-- What is in the buffer and what is still to be read make up the listing. -/
structure Collects (store : Store) (state : OpendirState) : Prop where
  unchanged : state.split.store = store
  follows : state.client.Follows store.keys
  whole : state.buffer ++ state.client.remains store = (listed store).map Dirent.name

theorem Collects.step (collects : Collects store state)
    (stepped : listingStep shahash servernum state .client = some after) : Collects store after := by
  obtain ⟨⟨client, names⟩, read, stepped⟩ := Option.bind_eq_some_iff.mp stepped
  cases stepped
  rw [collects.unchanged] at read
  refine ⟨collects.unchanged, Opendir.opendirStep_follows collects.follows read, ?_⟩
  rw [List.append_assoc, ← Opendir.opendirStep_remains collects.follows read, collects.whole]

/-- The steps between which another thread may move entries make up the call: left alone, they end with the names of
the entries that the buffer has. -/
theorem listing_alone (begins : state.client = .outer 0) (empty : state.buffer = []) :
    ∃ after, Continues shahash servernum state after ∧ after.client = .done ∧
      after.buffer = (listed state.split.store).map Dirent.name := by
  have begun : Collects state.split.store state := by
    refine ⟨rfl, ?_, ?_⟩
    · rw [begins]
      trivial
    · rw [begins, empty, map_listed]
      rfl
  obtain ⟨after, continues, finished⟩ := @opendir_ends shahash servernum state
  have collects := continues.2.invariant begun fun _ event _ collects client stepped =>
    collects.step (client ▸ stepped)
  have whole := collects.whole
  rw [finished, Opendir.remains, Opendir.unread, Opendir.ahead, List.flatMap_nil, List.append_nil, List.append_nil] at whole
  exact ⟨after, continues, finished, whole⟩

end

end SkyeFS.Client
