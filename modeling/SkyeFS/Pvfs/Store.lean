import SkyeFS.Foundation.Listing
import Mathlib.Data.List.TakeWhile

/-! The part of PVFS that holds one directory.

A SkyeFS directory is a PVFS directory of buckets named `p%05d`, and a bucket is a
PVFS directory of the entries of one partition. Each operation is one atomic call
on that tree. Listings have an order, which only `PVFS_sys_readdir` shows; where a
new entry appears in it is up to PVFS, so the operations take the position.
-/

set_option autoImplicit false

namespace SkyeFS.Pvfs

open Foundation

abbrev FileName := List Char

inductive Errno where
  | enoent
  | eexist
  | enotempty
  | eacces
  | eio
deriving DecidableEq

/-- `EAGAIN`, which is no error of PVFS: it redirects a client. -/
def eAgain : Int := 11

structure Object where
  handle : Nat
  isdir : Bool
deriving DecidableEq

/-- Handles are unique in PVFS, so that of a bucket is never that of an entry. -/
inductive Ref where
  | object (handle : Nat)
  | bucket (name : FileName)
deriving DecidableEq

abbrev Bucket := Listing FileName Object

/-- The buckets of one directory by their names. -/
abbrev Store := Listing FileName Bucket

/-- `snprintf("p%05d")`. -/
def bucketName (index : Nat) : FileName := 'p' :: (Nat.toDigits 10 index).leftpad 5 '0'

/-- `sscanf("p%u")`, of a name without blanks and signs whose number has 32 bits, as `bucketName` writes them. -/
def scanBucketName : FileName → Option Nat
  | 'p' :: rest =>
      let digits := rest.takeWhile Char.isDigit
      if digits.isEmpty then none else some (Nat.ofDigitChars 10 digits 0)
  | _ => none

theorem ofDigitChars_leftpad (length : Nat) (digits : List Char) :
    Nat.ofDigitChars 10 (digits.leftpad length '0') 0 = Nat.ofDigitChars 10 digits 0 := by
  have zeros : ∀ count, Nat.ofDigitChars 10 (List.replicate count '0') 0 = 0 := by
    intro count
    induction count with
    | zero => rfl
    | succ count ih => exact ih
  unfold Nat.ofDigitChars at zeros ⊢
  rw [List.leftpad, List.foldl_append, zeros]

theorem scanBucketName_bucketName (index : Nat) : scanBucketName (bucketName index) = some index := by
  have digits : ∀ char ∈ (Nat.toDigits 10 index).leftpad 5 '0', char.isDigit = true := by
    intro char member
    rcases List.mem_append.mp member with padding | digit
    · rw [(List.mem_replicate.mp padding).2]
      decide
    · exact Nat.isDigit_of_mem_toDigits (by decide) (by decide) digit
  have whole := List.takeWhile_eq_self_iff.mpr digits
  have nonempty : ((Nat.toDigits 10 index).leftpad 5 '0').isEmpty = false := by
    have long : 0 < ((Nat.toDigits 10 index).leftpad 5 '0').length := by
      rw [List.leftpad, List.length_append, List.length_replicate]
      omega
    rw [← Bool.not_eq_true, List.isEmpty_iff_length_eq_zero]
    omega
  simp only [scanBucketName, bucketName, whole, nonempty, Bool.false_eq_true, if_false]
  rw [ofDigitChars_leftpad, Nat.ofDigitChars_toDigits (by decide) (by decide)]

theorem bucketName_injective : Function.Injective bucketName := by
  intro first second same
  have scanned := congrArg scanBucketName same
  rw [scanBucketName_bucketName, scanBucketName_bucketName] at scanned
  exact Option.some.inj scanned

/-- The position after the one that the token names; a zero token stands for `PVFS_READDIR_START`. -/
def pageStart (token : Nat) : Nat := if token = 0 then 0 else token + 1

/-- The token after a page, as every reading loop of the servers computes it. -/
def nextToken (token outcount : Nat) : Nat := if token = 0 then outcount - 1 else token + outcount

def sysReaddir (listing : List FileName) (token incount : Nat) : List FileName :=
  (listing.drop (pageStart token)).take incount

theorem pageStart_nextToken {token outcount : Nat} (several : 1 < outcount) :
    pageStart (nextToken token outcount) = pageStart token + outcount := by
  unfold pageStart nextToken
  split <;> split <;> omega

namespace Store

def bucket (store : Store) (index : Nat) : Option Bucket := store.lookup (bucketName index)

def find (store : Store) (index : Nat) (name : FileName) : Option Object :=
  (store.bucket index).bind (AList.lookup name)

def names (store : Store) (index : Nat) : List FileName := ((store.bucket index).map AList.keys).getD []

/-- Replace the contents of an existing bucket, which keeps its place among the buckets. -/
def write (store : Store) (index : Nat) (bucket : Bucket) : Store :=
  Listing.put store.keys.length (bucketName index) bucket store

theorem bucket_write {store : Store} {index other : Nat} {content : Bucket} :
    (store.write index content).bucket other = if other = index then some content else store.bucket other := by
  rw [bucket, write, Listing.lookup_put]
  simp only [bucketName_injective.eq_iff]
  rfl

theorem find_write {store : Store} {index other : Nat} {content : Bucket} {name : FileName} :
    (store.write index content).find other name =
      if other = index then content.lookup name else store.find other name := by
  rw [find, bucket_write]
  split <;> rfl

theorem names_write {store : Store} {index other : Nat} {content : Bucket} :
    (store.write index content).names other = if other = index then content.keys else store.names other := by
  rw [names, bucket_write]
  split <;> rfl

theorem keys_write {store : Store} {index : Nat} {content present : Bucket}
    (found : store.bucket index = some present) : (store.write index content).keys = store.keys := by
  have member : bucketName index ∈ store := AList.lookup_isSome.mp (by rw [← bucket, found]; rfl)
  rw [write, Listing.put, dif_pos member, AList.keys_replace]

theorem mem_names {store : Store} {index : Nat} {name : FileName} :
    name ∈ store.names index ↔ (store.find index name).isSome := by
  unfold names find
  cases store.bucket index with
  | none => simp
  | some content => simp [AList.lookup_isSome, AList.mem_keys]

def bind (store : Store) (position index : Nat) (name : FileName) (object : Object) : Store :=
  match store.bucket index with
  | none => store
  | some content => store.write index (Listing.put position name object content)

def unbind (store : Store) (index : Nat) (name : FileName) : Store :=
  match store.bucket index with
  | none => store
  | some content => store.write index (content.erase name)

section
variable {store : Store} {position index other : Nat} {name entry : FileName} {object : Object}

@[simp]
theorem keys_bind : (store.bind position index name object).keys = store.keys := by
  unfold bind
  split
  · rfl
  · rename_i found
    exact keys_write found

@[simp]
theorem keys_unbind : (store.unbind index name).keys = store.keys := by
  unfold unbind
  split
  · rfl
  · rename_i found
    exact keys_write found

theorem bucket_isSome : (store.bucket index).isSome ↔ bucketName index ∈ store.keys :=
  AList.lookup_isSome.trans AList.mem_keys

theorem bucket_of_find (found : (store.find index name).isSome) : (store.bucket index).isSome := by
  cases bucket : store.bucket index with
  | none => simp [find, bucket] at found
  | some => rfl

theorem find_bind (present : (store.bucket index).isSome) :
    (store.bind position index name object).find other entry =
      if other = index ∧ entry = name then some object else store.find other entry := by
  unfold bind
  split
  · rename_i absent
    simp [absent] at present
  · rename_i content found
    rw [find_write, Listing.lookup_put]
    by_cases same : other = index
    · subst same
      simp [find, found]
    · simp [same]

theorem find_bind_of_ne (different : ¬ (other = index ∧ entry = name)) :
    (store.bind position index name object).find other entry = store.find other entry := by
  by_cases present : (store.bucket index).isSome
  · rw [find_bind present, if_neg different]
  · rw [bind, Option.not_isSome_iff_eq_none.mp present]

theorem find_unbind : (store.unbind index name).find other entry =
    if other = index ∧ entry = name then none else store.find other entry := by
  unfold unbind
  split
  · rename_i absent
    split
    · rename_i same
      simp [find, same.1, absent]
    · rfl
  · rename_i content found
    rw [find_write]
    by_cases same : other = index
    · subst same
      by_cases removed : entry = name
      · subst removed
        simp
      · simp [removed, find, found, AList.lookup_erase_ne removed]
    · simp [same]

theorem isSome_find_bind (found : ((store.bind position index name object).find other entry).isSome) :
    other = index ∧ entry = name ∨ (store.find other entry).isSome := by
  by_cases present : (store.bucket index).isSome
  · rw [find_bind present] at found
    split at found
    · rename_i same
      exact Or.inl same
    · exact Or.inr found
  · rw [bind, Option.not_isSome_iff_eq_none.mp present] at found
    exact Or.inr found

theorem isSome_find_unbind (found : ((store.unbind index name).find other entry).isSome) :
    (store.find other entry).isSome ∧ ¬ (other = index ∧ entry = name) := by
  rw [find_unbind] at found
  split at found
  · cases found
  · rename_i different
    exact ⟨found, different⟩

theorem bucket_put {content : Bucket} : bucket (Listing.put position (bucketName index) content store) other =
    if other = index then some content else store.bucket other := by
  rw [bucket, Listing.lookup_put]
  simp only [bucketName_injective.eq_iff]
  rfl

theorem erase_put {content : Bucket} (absent : store.bucket index = none) :
    AList.erase (bucketName index) (Listing.put position (bucketName index) content store) = store :=
  Listing.erase_put (AList.lookup_eq_none.mp absent)

theorem bucket_erase : bucket (store.erase (bucketName index)) other =
    if other = index then none else store.bucket other := by
  unfold bucket
  split
  · rename_i same
    subst same
    exact AList.lookup_erase _ _
  · rename_i different
    exact AList.lookup_erase_ne (bucketName_injective.ne different)

theorem find_put_of_ne {content : Bucket} (different : other ≠ index) :
    find (Listing.put position (bucketName index) content store) other entry = store.find other entry := by
  rw [find, bucket_put, if_neg different]
  rfl

theorem names_of_bucket {content : Bucket} (found : store.bucket index = some content) :
    store.names index = content.keys := by
  simp [names, found]

theorem find_erase_of_ne (different : other ≠ index) :
    find (store.erase (bucketName index)) other entry = store.find other entry := by
  rw [find, bucket_erase, if_neg different]
  rfl

theorem mem_take_bind {count : Nat} (member : entry ∈ ((store.bind position index name object).names other).take count) :
    other = index ∧ entry = name ∨ entry ∈ (store.names other).take count := by
  unfold bind at member
  split at member
  · exact Or.inr member
  · rename_i content found
    rw [names_write] at member
    split at member
    · rename_i same
      subst same
      rw [names_of_bucket found]
      exact (Listing.mem_take_put member).imp_left fun equal => ⟨rfl, equal⟩
    · exact Or.inr member

theorem names_bind_of_ne (different : other ≠ index) :
    (store.bind position index name object).names other = store.names other := by
  unfold bind
  split
  · rfl
  · rw [names_write, if_neg different]

theorem names_unbind_of_ne (different : other ≠ index) : (store.unbind index name).names other = store.names other := by
  unfold unbind
  split
  · rfl
  · rw [names_write, if_neg different]

theorem names_unbind_head {rest : List FileName} (first : store.names index = name :: rest) :
    (store.unbind index name).names index = rest := by
  cases found : store.bucket index with
  | none => simp [names, found] at first
  | some content =>
    rw [names_of_bucket found] at first
    simp only [unbind, found]
    rw [names_write, if_pos rfl, Listing.keys_erase_head first]

theorem names_unbind : (store.unbind index name).names index = (store.names index).filter (· ≠ name) := by
  unfold unbind
  split
  · rename_i missing
    simp [names, missing]
  · rename_i content found
    rw [names_write, if_pos rfl, Listing.keys_erase_eq_filter, names_of_bucket found]

theorem nodup_names : (store.names index).Nodup := by
  unfold names
  cases store.bucket index with
  | none => exact List.nodup_nil
  | some content => exact content.keys_nodup

theorem length_names_unbind : ((store.unbind index name).names other).length ≤ (store.names other).length := by
  unfold unbind
  split
  · exact le_rfl
  · rename_i content found
    rw [names_write]
    split
    · rename_i same
      subst same
      rw [names_of_bucket found]
      exact Listing.length_keys_erase
    · exact le_rfl

theorem mem_take_unbind {count : Nat} (member : entry ∈ ((store.unbind index name).names other).take count) :
    entry ∈ (store.names other).take count ∨
      other = index ∧ name ∈ (store.names other).take count ∧ (store.names other)[count]? = some entry := by
  unfold unbind at member
  split at member
  · exact Or.inl member
  · rename_i content found
    rw [names_write] at member
    split at member
    · rename_i same
      subst same
      rw [AList.keys_erase] at member
      rw [names_of_bucket found]
      exact (Listing.mem_take_erase member).imp_right fun shifted => ⟨rfl, shifted⟩
    · exact Or.inl member

end

end Store

/-- Where a renamed entry comes from: a bucket of this directory, or another directory. -/
inductive Source where
  | bucket (index : Nat) (name : FileName)
  | elsewhere (object : Option Object)
deriving DecidableEq

def Source.object (store : Store) : Source → Option Object
  | .bucket index name => store.find index name
  | .elsewhere object => object

def Source.clear (store : Store) : Source → Store
  | .bucket index name => store.unbind index name
  | .elsewhere _ => store

theorem Source.find_clear {store : Store} {source : Source} {index : Nat} {name : FileName}
    (other : source ≠ .bucket index name) : (source.clear store).find index name = store.find index name := by
  cases source with
  | bucket from_ entry =>
    rw [Source.clear, Store.find_unbind, if_neg]
    rintro ⟨rfl, rfl⟩
    exact other rfl
  | elsewhere object => rfl

theorem Source.keys_clear {store : Store} {source : Source} : (source.clear store).keys = store.keys := by
  cases source with
  | bucket from_ entry => exact Store.keys_unbind
  | elsewhere object => rfl

theorem Source.bucket_clear {store : Store} {source : Source} {index : Nat} :
    ((source.clear store).bucket index).isSome = (store.bucket index).isSome := by
  rw [Bool.eq_iff_iff, Store.bucket_isSome, Store.bucket_isSome, source.keys_clear]

theorem Source.length_names_clear {store : Store} {source : Source} {index : Nat} :
    ((source.clear store).names index).length ≤ (store.names index).length := by
  cases source with
  | bucket from_ entry => exact Store.length_names_unbind
  | elsewhere object => exact le_rfl

theorem Source.isSome_find_clear {store : Store} {source : Source} {index : Nat} {name : FileName}
    (found : ((source.clear store).find index name).isSome) : (store.find index name).isSome := by
  cases source with
  | bucket from_ entry => exact (Store.isSome_find_unbind found).1
  | elsewhere object => exact found

def sysCreate (position : Nat) (store : Store) (index : Nat) (name : FileName) (object : Object) :
    Except Errno Store :=
  if (store.bucket index).isNone then .error .enoent
  else if (store.find index name).isSome then .error .eexist
  else .ok (store.bind position index name object)

/-- A directory goes only once its own buckets are gone. -/
def sysRemove (emptied : Bool) (store : Store) (index : Nat) (name : FileName) : Except Errno Store :=
  match store.find index name with
  | none => .error .enoent
  | some object => if object.isdir && !emptied then .error .enotempty else .ok (store.unbind index name)

/-- Move one entry, replacing an existing file. A SkyeFS directory is never replaced, since it
holds its bucket `p00000`. -/
def sysRename (position : Nat) (store : Store) (source : Source) (index : Nat) (name : FileName) :
    Except Errno Store :=
  match source.object store with
  | none => .error .enoent
  | some object =>
      if (store.bucket index).isNone then .error .enoent
      else if source = .bucket index name then .ok store
      else if (store.find index name).any Object.isdir then .error .enotempty
      else .ok ((source.clear store).bind position index name object)

section
variable {position index : Nat} {store after : Store} {name : FileName}

theorem sysCreate_fresh {object : Object} (present : (store.bucket index).isSome)
    (fresh : store.find index name = none) :
    sysCreate position store index name object = .ok (store.bind position index name object) := by
  have exists_ : (store.bucket index).isNone = false := by simpa using present
  simp [sysCreate, exists_, fresh]

theorem sysCreate_exists {object held : Object} (found : store.find index name = some held) :
    sysCreate position store index name object = .error .eexist := by
  have exists_ : (store.bucket index).isNone = false := by
    simpa using Store.bucket_of_find (Option.isSome_of_eq_some found)
  simp [sysCreate, exists_, found]

theorem sysRename_fresh {source : Source} {object : Object} (found : source.object store = some object)
    (present : (store.bucket index).isSome) (fresh : store.find index name = none) :
    sysRename position store source index name = .ok ((source.clear store).bind position index name object) := by
  have exists_ : (store.bucket index).isNone = false := by simpa using present
  have distinct : source ≠ .bucket index name := by
    rintro rfl
    exact nomatch fresh.symm.trans found
  simp [sysRename, found, exists_, distinct, fresh]

theorem sysCreate_ok {object : Object} (created : sysCreate position store index name object = .ok after) :
    (store.bucket index).isSome ∧ store.find index name = none ∧
      after = store.bind position index name object := by
  unfold sysCreate at created
  split at created
  · cases created
  · rename_i present
    split at created
    · cases created
    · rename_i fresh
      cases created
      exact ⟨by simpa [Option.isSome_iff_ne_none] using present, by simpa using fresh, rfl⟩

theorem sysRemove_ok {emptied : Bool} (removed : sysRemove emptied store index name = .ok after) :
    after = store.unbind index name := by
  unfold sysRemove at removed
  split at removed
  · cases removed
  · split at removed
    · cases removed
    · cases removed
      rfl

theorem sysRemove_found {emptied : Bool} (removed : sysRemove emptied store index name = .ok after) :
    (store.find index name).any (fun object => !object.isdir || emptied) = true := by
  unfold sysRemove at removed
  split at removed
  · cases removed
  · rename_i object found
    split at removed
    · cases removed
    · rename_i removable
      rw [found]
      simpa [imp_iff_not_or] using removable

/-- A rename leaves the tree alone, when source and target are one entry, or moves the entry. -/
theorem sysRename_ok {source : Source} (renamed : sysRename position store source index name = .ok after) :
    after = store ∨ ∃ object, source.object store = some object ∧ (store.bucket index).isSome ∧
      source ≠ .bucket index name ∧ (store.find index name).any Object.isdir = false ∧
      after = (source.clear store).bind position index name object := by
  unfold sysRename at renamed
  split at renamed
  · cases renamed
  · rename_i object found
    split at renamed
    · cases renamed
    · rename_i present
      split at renamed
      · cases renamed
        exact Or.inl rfl
      · rename_i distinct
        split at renamed
        · cases renamed
        · rename_i replaced
          cases renamed
          exact Or.inr ⟨object, found, by simpa [Option.isSome_iff_ne_none] using present, distinct,
            by simpa using replaced, rfl⟩

end

end SkyeFS.Pvfs
