import SkyeFS.Foundation.Records
import SkyeFS.Pvfs.Store

/-! The records of a directory listing, as `fuse_add_direntry` writes them one behind the
other. Each carries the offset of the next, at which a reader goes on.
-/

set_option autoImplicit false

namespace SkyeFS.Client

open Pvfs Foundation

structure Dirent where
  name : FileName
  handle : Nat
deriving DecidableEq

/-- What `fuse_add_direntry` is given of an entry, with the offset that the next one has. -/
structure Direntry where
  dirent : Dirent
  off : Nat
deriving DecidableEq

/-- `fuse_add_direntry`: the size it returns without a buffer, and the record it writes to one. -/
structure DirentryWriter where
  size : FileName → Nat
  write : Direntry → List UInt8
  positive : ∀ name, 0 < size name
  length_write : ∀ direntry, (write direntry).length = size direntry.dirent.name

/-- A writer together with the reader on the other side. -/
structure DirentryFormat extends DirentryWriter, RecordFormat Direntry UInt8

namespace DirentryWriter
variable (fuse : DirentryWriter)

/-- The records of some entries behind the first `start` bytes. -/
def layout (start : Nat) : List Dirent → List Direntry
  | [] => []
  | dirent :: rest => ⟨dirent, start + fuse.size dirent.name⟩ :: layout (start + fuse.size dirent.name) rest

def bytes (dirents : List Dirent) : List UInt8 := (fuse.layout 0 dirents).flatMap fuse.write

def total : List Dirent → Nat
  | [] => 0
  | dirent :: rest => fuse.size dirent.name + total rest

variable {fuse}

theorem layout_append {start : Nat} {first second : List Dirent} :
    fuse.layout start (first ++ second) = fuse.layout start first ++ fuse.layout (start + fuse.total first) second := by
  induction first generalizing start with
  | nil => rfl
  | cons dirent rest ih =>
    rw [List.cons_append, layout, layout, ih, List.cons_append, Nat.add_assoc]
    rfl

theorem length_layout {start : Nat} {dirents : List Dirent} :
    ((fuse.layout start dirents).flatMap fuse.write).length = fuse.total dirents := by
  induction dirents generalizing start with
  | nil => rfl
  | cons dirent rest ih =>
    rw [layout, List.flatMap_cons, List.length_append, ih, fuse.length_write]
    rfl

theorem length_bytes {dirents : List Dirent} : (fuse.bytes dirents).length = fuse.total dirents := length_layout

theorem bytes_append {first second : List Dirent} :
    fuse.bytes (first ++ second) = fuse.bytes first ++ (fuse.layout (fuse.total first) second).flatMap fuse.write := by
  rw [bytes, layout_append, List.flatMap_append, Nat.zero_add]
  rfl

theorem bytes_concat {dirents : List Dirent} {dirent : Dirent} :
    fuse.bytes (dirents ++ [dirent]) =
      fuse.bytes dirents ++ fuse.write ⟨dirent, (fuse.bytes dirents).length + fuse.size dirent.name⟩ := by
  rw [bytes_append, length_bytes, layout, layout, List.flatMap_singleton]

theorem map_layout {start : Nat} {dirents : List Dirent} : (fuse.layout start dirents).map Direntry.dirent = dirents := by
  induction dirents generalizing start with
  | nil => rfl
  | cons dirent rest ih => rw [layout, List.map_cons, ih]

theorem take_layout {start count : Nat} {dirents : List Dirent} :
    (fuse.layout start dirents).take count = fuse.layout start (dirents.take count) := by
  induction dirents generalizing start count with
  | nil => simp [layout]
  | cons dirent rest ih =>
    cases count with
    | zero => rfl
    | succ count => rw [layout, List.take_succ_cons, List.take_succ_cons, layout, ih]

theorem last_layout {start : Nat} {dirents : List Dirent} :
    (fuse.layout start dirents).getLast?.elim start Direntry.off = start + fuse.total dirents := by
  induction dirents generalizing start with
  | nil => rfl
  | cons dirent rest ih =>
    have sum : fuse.total (dirent :: rest) = fuse.size dirent.name + fuse.total rest := rfl
    rw [sum, ← Nat.add_assoc, ← ih, layout, List.getLast?_cons]
    cases (fuse.layout (start + fuse.size dirent.name) rest).getLast? <;> rfl

theorem total_append {first second : List Dirent} :
    fuse.total (first ++ second) = fuse.total first + fuse.total second := by
  induction first with
  | nil => rw [List.nil_append, total, Nat.zero_add]
  | cons dirent rest ih => rw [List.cons_append, total, ih, total, Nat.add_assoc]

theorem total_eq_zero {dirents : List Dirent} (zero : fuse.total dirents = 0) : dirents = [] := by
  cases dirents with
  | nil => rfl
  | cons dirent rest =>
    have positive := fuse.positive dirent.name
    have sum : fuse.size dirent.name + fuse.total rest = 0 := zero
    omega

theorem total_perm {first second : List Dirent} (perm : first.Perm second) :
    fuse.total first = fuse.total second := by
  induction perm with
  | nil => rfl
  | cons dirent _ ih => rw [total, total, ih]
  | swap dirent other rest => simp only [total, Nat.add_left_comm]
  | trans _ _ one two => exact one.trans two

theorem total_sublist (fuse : DirentryWriter) {first second : List Dirent} (inside : first.Sublist second) :
    ∃ rest, second.Perm (first ++ rest) ∧ fuse.total second = fuse.total first + fuse.total rest := by
  obtain ⟨rest, perm⟩ := inside.exists_perm_append
  exact ⟨rest, perm, (total_perm perm).trans total_append⟩

theorem total_subperm {first second : List Dirent} (inside : first.Subperm second) :
    fuse.total first ≤ fuse.total second := by
  obtain ⟨middle, perm, sublist⟩ := inside
  obtain ⟨rest, -, sum⟩ := total_sublist fuse sublist
  rw [← total_perm perm]
  omega

/-- Leaving out an entry makes the buffer shorter. -/
theorem eq_of_total {first second : List Dirent} (inside : first.Sublist second)
    (whole : fuse.total second ≤ fuse.total first) : first = second := by
  obtain ⟨rest, perm, sum⟩ := total_sublist fuse inside
  have none : fuse.total rest = 0 := by omega
  obtain rfl := total_eq_zero none
  rw [List.append_nil] at perm
  exact inside.eq_of_length perm.length_eq.symm

end DirentryWriter

/-! ### The layout of the kernel -/

def fuseNameOffset : Nat := 24

/-- `FUSE_DIRENT_ALIGN` of a record with a name of this length. -/
def fuseDirentSize (namelen : Nat) : Nat := (fuseNameOffset + namelen + 7) / 8 * 8

/-- `ino`, `off`, `namelen` and `type`, which is zero as nothing sets `st_mode`. -/
def fuseHeader (direntry : Direntry) : List UInt8 :=
  littleEndian 8 direntry.dirent.handle ++ littleEndian 8 direntry.off ++
    littleEndian 4 direntry.dirent.name.length ++ littleEndian 4 0

def fuseName (name : FileName) : List UInt8 :=
  name.map (fun char => UInt8.ofNat char.toNat) ++
    List.replicate (fuseDirentSize name.length - fuseNameOffset - name.length) 0

def fuseWrite (direntry : Direntry) : List UInt8 := fuseHeader direntry ++ fuseName direntry.dirent.name

def fuseRead (bytes : List UInt8) : Option (Direntry × List UInt8) :=
  let namelen := ofLittleEndian ((bytes.drop 16).take 4)
  if bytes.length < fuseDirentSize namelen then none
  else
    let name := ((bytes.drop fuseNameOffset).take namelen).map fun byte => Char.ofNat byte.toNat
    some (⟨⟨name, ofLittleEndian (bytes.take 8)⟩, ofLittleEndian ((bytes.drop 8).take 8)⟩,
      bytes.drop (fuseDirentSize namelen))

/-- The fields are as wide as those of `struct fuse_dirent`, and the characters of a name are bytes. -/
structure FuseFits (direntry : Direntry) : Prop where
  ino : direntry.dirent.handle < 256 ^ 8
  off : direntry.off < 256 ^ 8
  namelen : direntry.dirent.name.length < 256 ^ 4
  name : ∀ char ∈ direntry.dirent.name, char.toNat < 256

theorem fuseDirentSize_bounds (namelen : Nat) : fuseNameOffset + namelen ≤ fuseDirentSize namelen := by
  unfold fuseDirentSize
  omega

theorem length_fuseHeader (direntry : Direntry) : (fuseHeader direntry).length = fuseNameOffset := by
  simp [fuseHeader, fuseNameOffset]

theorem length_fuseName (name : FileName) : (fuseName name).length = fuseDirentSize name.length - fuseNameOffset := by
  have bounds := fuseDirentSize_bounds name.length
  simp only [fuseName, List.length_append, List.length_map, List.length_replicate]
  omega

theorem length_fuseWrite (direntry : Direntry) :
    (fuseWrite direntry).length = fuseDirentSize direntry.dirent.name.length := by
  have bounds := fuseDirentSize_bounds direntry.dirent.name.length
  rw [fuseWrite, List.length_append, length_fuseHeader, length_fuseName]
  omega

theorem fuseRead_header {direntry : Direntry} (fits : FuseFits direntry) (tail : List UInt8) :
    fuseRead (fuseHeader direntry ++ tail) =
      if fuseNameOffset + tail.length < fuseDirentSize direntry.dirent.name.length then none
      else some (⟨⟨(tail.take direntry.dirent.name.length).map fun byte => Char.ofNat byte.toNat,
          direntry.dirent.handle⟩, direntry.off⟩,
        tail.drop (fuseDirentSize direntry.dirent.name.length - fuseNameOffset)) := by
  have ino : ofLittleEndian ((fuseHeader direntry ++ tail).take 8) = direntry.dirent.handle := by
    simp [fuseHeader, ofLittleEndian_littleEndian fits.ino]
  have off : ofLittleEndian (((fuseHeader direntry ++ tail).drop 8).take 8) = direntry.off := by
    simp [fuseHeader, ofLittleEndian_littleEndian fits.off]
  have namelen : ofLittleEndian (((fuseHeader direntry ++ tail).drop 16).take 4) = direntry.dirent.name.length := by
    have fields : fuseHeader direntry ++ tail =
        (littleEndian 8 direntry.dirent.handle ++ littleEndian 8 direntry.off) ++
          (littleEndian 4 direntry.dirent.name.length ++ (littleEndian 4 0 ++ tail)) := by
      simp only [fuseHeader, List.append_assoc]
    rw [fields, List.drop_left' (by simp), List.take_left' (length_littleEndian _ _),
      ofLittleEndian_littleEndian fits.namelen]
  have name : (fuseHeader direntry ++ tail).drop fuseNameOffset = tail := List.drop_left' (length_fuseHeader direntry)
  have bounds := fuseDirentSize_bounds direntry.dirent.name.length
  have rest : (fuseHeader direntry ++ tail).drop (fuseDirentSize direntry.dirent.name.length) =
      tail.drop (fuseDirentSize direntry.dirent.name.length - fuseNameOffset) := by
    rw [List.drop_append, length_fuseHeader, List.drop_eq_nil_of_le (by rw [length_fuseHeader]; omega), List.nil_append]
  simp only [fuseRead, ino, off, namelen, name, rest, List.length_append, length_fuseHeader]

theorem take_fuseName {name : FileName} (bytes : ∀ char ∈ name, char.toNat < 256) (rest : List UInt8) :
    ((fuseName name ++ rest).take name.length).map (fun byte => Char.ofNat byte.toNat) = name := by
  rw [fuseName, List.append_assoc, List.take_left' (List.length_map _), List.map_map]
  refine (List.map_congr_left fun char member => ?_).trans (List.map_id name)
  have byte : (UInt8.ofNat char.toNat).toNat = char.toNat := Nat.mod_eq_of_lt (bytes char member)
  rw [Function.comp_apply, byte, Char.ofNat_toNat, id]

theorem fuseRead_write {direntry : Direntry} (fits : FuseFits direntry) (rest : List UInt8) :
    fuseRead (fuseWrite direntry ++ rest) = some (direntry, rest) := by
  have bounds := fuseDirentSize_bounds direntry.dirent.name.length
  have length := length_fuseName direntry.dirent.name
  rw [fuseWrite, List.append_assoc, fuseRead_header fits, List.length_append, if_neg (by omega),
    take_fuseName fits.name, List.drop_left' length]

theorem fuseRead_short {bytes : List UInt8} (short : bytes.length < fuseNameOffset) : fuseRead bytes = none := by
  refine if_pos (short.trans_le ?_)
  exact (Nat.le_add_right _ _).trans (fuseDirentSize_bounds _)

theorem fuseRead_cut {direntry : Direntry} (fits : FuseFits direntry) {count : Nat}
    (cut : count < (fuseWrite direntry).length) : fuseRead ((fuseWrite direntry).take count) = none := by
  rw [length_fuseWrite] at cut
  by_cases header : count < fuseNameOffset
  · exact fuseRead_short ((List.length_take_le _ _).trans_lt header)
  · rw [fuseWrite, List.take_append, length_fuseHeader,
      List.take_of_length_le (by rw [length_fuseHeader]; omega), fuseRead_header fits]
    refine if_pos ?_
    have length := List.length_take_le (count - fuseNameOffset) (fuseName direntry.dirent.name)
    omega

/-- What `fuse_add_direntry` writes and the kernel reads. -/
def fuseDirent : DirentryFormat where
  size name := fuseDirentSize name.length
  write := fuseWrite
  positive name := by
    have bounds := fuseDirentSize_bounds name.length
    unfold fuseNameOffset at bounds
    omega
  length_write := length_fuseWrite
  Fits := FuseFits
  read := fuseRead
  write_ne_nil direntry := by
    have bounds := fuseDirentSize_bounds direntry.dirent.name.length
    rw [← List.length_pos_iff, length_fuseWrite]
    unfold fuseNameOffset at bounds
    omega
  read_nil := fuseRead_short (by decide)
  read_write := fuseRead_write
  read_cut := fuseRead_cut

end SkyeFS.Client
