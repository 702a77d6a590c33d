import SkyeFS.Server.Directory
import SkyeFS.Pvfs.Store

/-! The request handlers of a server, on its cached directory and the PVFS tree.

A handler runs under the read lock of the directory. It answers `-EAGAIN` for names
of other servers, enters the bucket of the name and makes its PVFS call there. While
a partition is splitting, `enter_bucket` already sends the names of the child to the
child. Each handler computes its reply and the tree it leaves.
-/

set_option autoImplicit false

namespace SkyeFS.Server

open Index Pvfs

/-- What a client is sent: a result, another table to route by, or an error. -/
inductive Reply (Value : Type) where
  | ok (value : Value)
  | again (bitmap : GigaMapping)
  | fail (errno : Errno)

def Reply.errnum {Value : Type} : Reply Value → Option Errno
  | .ok _ | .again _ => none
  | .fail errno => some errno

theorem Reply.errnum_eq_some {Value : Type} {reply : Reply Value} {errno : Errno} :
    reply.errnum = some errno ↔ reply = .fail errno := by
  cases reply <;> simp [Reply.errnum]

/-- A remove request between its lookup and its `PVFS_sys_remove`. -/
structure Removal where
  index : Nat
  name : FileName
  isdir : Bool
deriving DecidableEq

section
variable (shahash : FileName → Digest) (servernum : Nat) (dir : SkyeDirectory) (store : Store)

/-- The bucket of an accepted name: the child's while the name's partition is splitting and the
name migrates. -/
def selectBucket (name : FileName) (index : Nat) : Option Nat :=
  if dir.splittingIndex = some index then do
    let cindex ← gigaIndexForSplitting dir.mapping index
    let migrates ← gigaFileMigrationStatus shahash name cindex
    some (if migrates then cindex else index)
  else some index

/-- A missing bucket fails the lookup of a splitting directory and the assertion of
`get_partition_handle` otherwise. -/
def enterBucket (name : FileName) : Option (Reply Nat) := do
  match ← locality shahash servernum dir name with
  | .again bitmap => some (.again bitmap)
  | .here index =>
      let selected ← selectBucket shahash dir name index
      if (store.bucket selected).isSome then some (.ok selected)
      else if dir.splittingIndex = some index then some (.fail .enoent) else none

def inBucket {Value : Type} (name : FileName) (call : Nat → Reply Value × Store) :
    Option (Reply Value × Store) := do
  match ← enterBucket shahash servernum dir store name with
  | .again bitmap => some (.again bitmap, store)
  | .fail errno => some (.fail errno, store)
  | .ok index => some (call index)

def create (name : FileName) (handle position : Nat) : Option (Reply Ref × Store) :=
  inBucket shahash servernum dir store name fun index =>
    match sysCreate position store index name { handle, isdir := false } with
    | .error .enoent => (.fail .eacces, store)
    | .error errno => (.fail errno, store)
    | .ok after => (.ok (.object handle), after)

/-- The new directory stays even if its own bucket `p00000` cannot be made; `bucketError` is that
error. -/
def mkdir (name : FileName) (handle position : Nat) (bucketError : Option Errno) : Option (Reply Ref × Store) :=
  inBucket shahash servernum dir store name fun index =>
    match sysCreate position store index name { handle, isdir := true } with
    | .error errno => (.fail errno, store)
    | .ok after => (bucketError.elim (.ok (.object handle)) .fail, after)

def rename (source : Source) (name : FileName) (position : Nat) : Option (Reply Unit × Store) :=
  inBucket shahash servernum dir store name fun index =>
    match sysRename position store source index name with
    | .error errno => (.fail errno, store)
    | .ok after => (.ok (), after)

/-- The first half of a remove: the bucket, and whether a file or a directory is there. -/
def removeLookup (name : FileName) : Option (Reply Removal × Store) :=
  inBucket shahash servernum dir store name fun index =>
    match store.find index name with
    | none => (.fail .enoent, store)
    | some object => (.ok { index, name, isdir := object.isdir }, store)

def removeEntry (removal : Removal) (emptied : Bool) : Reply Unit × Store :=
  match sysRemove emptied store removal.index removal.name with
  | .error errno => (.fail errno, store)
  | .ok after => (.ok (), after)

/-- The fallback composes the path of the entry in the child bucket, but looks the bare name up among
the buckets. -/
def lookup (name : FileName) : Option (Reply Ref) := do
  match ← locality shahash servernum dir name with
  | .again bitmap => some (.again bitmap)
  | .here index =>
      let _ ← store.bucket index
      match store.find index name with
      | some object => some (.ok (.object object.handle))
      | none =>
          if dir.splittingIndex = some index then do
            let _ ← gigaIndexForSplitting dir.mapping index
            if name ∈ store then some (.ok (.bucket name)) else some (.fail .enoent)
          else some (.fail .enoent)

/-- The label `gotindex` of `skye_rpc_partition_1_svc`. A name that is missing from a splitting partition is looked for
in the child, after another locality check. The child is never the splitting partition, so two rounds are enough. -/
def gotIndex (name : FileName) : Nat → Nat → Option (Reply Ref)
  | 0, _ => none
  | rounds + 1, index =>
      if gigaGetServerForIndex dir.mapping index ≠ servernum then some (.again dir.mapping)
      else
        match store.find index name with
        | some _ => if (store.bucket index).isSome then some (.ok (.bucket (bucketName index))) else some (.fail .enoent)
        | none =>
            if dir.splittingIndex = some index then
              (gigaIndexForSplitting dir.mapping index).bind (gotIndex name rounds)
            else some (.fail .enoent)

def partition (name : FileName) : Option (Reply Ref) :=
  (gigaGetIndexForFile shahash dir.mapping name).bind (gotIndex servernum dir store name 2)

end

section
variable {shahash : FileName → Digest} {servernum : Nat} {dir : SkyeDirectory} {store after : Store}
variable {name : FileName}

theorem enterBucket_ok {index : Nat} :
    enterBucket shahash servernum dir store name = some (.ok index) ↔
      (store.bucket index).isSome ∧ ∃ found, locality shahash servernum dir name = some (.here found) ∧
        selectBucket shahash dir name found = some index := by
  constructor
  · intro entered
    obtain ⟨choice, decision, entered⟩ := Option.bind_eq_some_iff.mp entered
    cases choice with
    | again bitmap => cases entered
    | here found =>
      obtain ⟨selected, selection, entered⟩ := Option.bind_eq_some_iff.mp entered
      split at entered
      · rename_i present
        cases entered
        exact ⟨present, found, decision, selection⟩
      · split at entered <;> cases entered
  · rintro ⟨present, found, decision, selection⟩
    simp [enterBucket, decision, selection, present]

theorem inBucket_some {Value : Type} {call : Nat → Reply Value × Store} {reply : Reply Value}
    (served : inBucket shahash servernum dir store name call = some (reply, after)) :
    (after = store ∧ ∀ value, reply ≠ .ok value) ∨
      ∃ index, enterBucket shahash servernum dir store name = some (.ok index) ∧ call index = (reply, after) := by
  obtain ⟨entered, computed, served⟩ := Option.bind_eq_some_iff.mp served
  cases entered with
  | again bitmap =>
    cases served
    exact Or.inl ⟨rfl, nofun⟩
  | fail errno =>
    cases served
    exact Or.inl ⟨rfl, nofun⟩
  | ok index => exact Or.inr ⟨index, computed, Option.some.inj served⟩

theorem gotIndex_again {rounds index : Nat} {bitmap : GigaMapping} (still : dir.splittingIndex ≠ some index) :
    gotIndex servernum dir store name (rounds + 1) index = some (.again bitmap) ↔
      bitmap = dir.mapping ∧ gigaGetServerForIndex dir.mapping index ≠ servernum := by
  rw [gotIndex]
  by_cases own : gigaGetServerForIndex dir.mapping index = servernum
  · rw [if_neg (not_not.mpr own), if_neg still]
    refine ⟨fun served => ?_, fun both => absurd own both.2⟩
    split at served
    · split at served <;> cases served
    · cases served
  · rw [if_pos own]
    constructor
    · intro served
      cases served
      exact ⟨rfl, own⟩
    · rintro ⟨rfl, -⟩
      rfl

/-- The partition handler redirects a name of another server, and a name that is missing from a splitting partition
whose child goes to another server. -/
theorem partition_again {bitmap : GigaMapping} :
    partition shahash servernum dir store name = some (.again bitmap) ↔ bitmap = dir.mapping ∧
      ∃ index, gigaGetIndexForFile shahash dir.mapping name = some index ∧
        (gigaGetServerForIndex dir.mapping index ≠ servernum ∨
          gigaGetServerForIndex dir.mapping index = servernum ∧ dir.splittingIndex = some index ∧
            store.find index name = none ∧ ∃ child, gigaIndexForSplitting dir.mapping index = some child ∧
              gigaGetServerForIndex dir.mapping child ≠ servernum) := by
  have other : ∀ {index child}, dir.splittingIndex = some index →
      gigaIndexForSplitting dir.mapping index = some child → dir.splittingIndex ≠ some child := by
    intro index child splitting found same
    obtain ⟨present, missing, -⟩ := gigaIndexForSplitting_some found
    exact missing (Option.some.inj (splitting.symm.trans same) ▸ present)
  constructor
  · intro served
    obtain ⟨index, found, served⟩ := Option.bind_eq_some_iff.mp served
    by_cases splitting : dir.splittingIndex = some index
    · rw [gotIndex] at served
      split at served
      · rename_i foreign
        cases served
        exact ⟨rfl, index, found, Or.inl foreign⟩
      · rename_i own
        split at served
        · split at served <;> cases served
        · rename_i missing
          obtain ⟨child, computed, served⟩ := Option.bind_eq_some_iff.mp served
          obtain ⟨same, foreign⟩ := (gotIndex_again (other splitting computed)).mp served
          exact ⟨same, index, found, Or.inr ⟨not_not.mp own, splitting, missing, child, computed, foreign⟩⟩
    · obtain ⟨same, foreign⟩ := (gotIndex_again splitting).mp served
      exact ⟨same, index, found, Or.inl foreign⟩
  · rintro ⟨rfl, index, found, foreign | ⟨own, splitting, missing, child, computed, foreign⟩⟩
    · simp [partition, found, gotIndex, foreign]
    · simp only [partition, found, Option.bind_some]
      rw [gotIndex, if_neg (not_not.mpr own), missing, if_pos splitting, computed]
      exact (gotIndex_again (other splitting computed)).mpr ⟨rfl, foreign⟩

theorem inBucket_entered {Value : Type} {call : Nat → Reply Value × Store} {index : Nat}
    (entered : enterBucket shahash servernum dir store name = some (.ok index)) :
    inBucket shahash servernum dir store name call = some (call index) := by
  simp [inBucket, entered]

theorem inBucket_redirected {Value : Type} {call : Nat → Reply Value × Store} {bitmap : GigaMapping}
    (again : locality shahash servernum dir name = some (.again bitmap)) :
    inBucket shahash servernum dir store name call = some (.again bitmap, store) := by
  simp [inBucket, enterBucket, again]

end

end SkyeFS.Server
