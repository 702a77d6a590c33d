import SkyeFS.Client.Readdir

/-! How a caller reads a listing through `skye_ll_readdir`.

A reply is a slice of the buffer and ends wherever the requested size does, in the middle
of a record if need be. The caller takes the records that are whole and goes on at the
offset that the last of them carries.
-/

set_option autoImplicit false

namespace SkyeFS.Client

open Pvfs Foundation

def skyeLlReaddir (db : List UInt8) (size offset : Nat) : List UInt8 :=
  if db.length ≤ offset then [] else (db.drop offset).take (min (db.length - offset) size)

/-- The records of successive requests of these sizes, and the offset of the next request. -/
def consume (format : DirentryFormat) (db : List UInt8) : Nat → List Nat → List Direntry × Nat
  | offset, [] => ([], offset)
  | offset, size :: sizes =>
      let records := format.readAll (skyeLlReaddir db size offset)
      let (rest, next) := consume format db (records.getLast?.elim offset Direntry.off) sizes
      (records ++ rest, next)

section
variable {format : DirentryFormat} {done left : List Dirent}

theorem skyeLlReaddir_eq (size : Nat) :
    skyeLlReaddir (format.bytes (done ++ left)) size (format.total done) =
      ((format.layout (format.total done) left).flatMap format.write).take size := by
  have behind : (format.bytes (done ++ left)).drop (format.total done) =
      (format.layout (format.total done) left).flatMap format.write := by
    rw [DirentryWriter.bytes_append, List.drop_left' DirentryWriter.length_bytes]
  have length : (format.bytes (done ++ left)).length - format.total done =
      ((format.layout (format.total done) left).flatMap format.write).length := by
    rw [← behind, List.length_drop]
  rw [skyeLlReaddir, behind, length]
  split
  · rename_i ended
    rw [List.eq_nil_of_length_eq_zero (length.symm.trans (Nat.sub_eq_zero_of_le ended)), List.take_nil]
  · rw [← List.take_take, List.take_of_length_le (List.length_take_le' _ _)]

theorem skyeLlReaddir_eq_nil_iff {size : Nat} (enough : ∀ dirent ∈ left, format.size dirent.name ≤ size) :
    skyeLlReaddir (format.bytes (done ++ left)) size (format.total done) = [] ↔ left = [] := by
  rw [skyeLlReaddir_eq, List.take_eq_nil_iff]
  constructor
  · rintro (none | empty)
    · cases left with
      | nil => rfl
      | cons dirent rest =>
        have some := format.positive dirent.name
        have fits := enough dirent List.mem_cons_self
        omega
    · have length := congrArg List.length empty
      rw [DirentryWriter.length_layout] at length
      exact DirentryWriter.total_eq_zero length
  · rintro rfl
    exact Or.inr rfl

/-- One request: some of the entries that are left are consumed, and one at least if the first fits. -/
theorem readAll_reply (fits : ∀ record ∈ format.layout (format.total done) left, format.Fits record) (size : Nat) :
    ∃ now later, left = now ++ later ∧
      format.readAll (skyeLlReaddir (format.bytes (done ++ left)) size (format.total done)) =
        format.layout (format.total done) now ∧
      ((∀ dirent ∈ left, format.size dirent.name ≤ size) → now = [] → left = []) := by
  rw [skyeLlReaddir_eq, RecordFormat.readAll_take fits]
  obtain ⟨taken, whole⟩ := format.whole_eq_take size (format.layout (format.total done) left)
  refine ⟨left.take taken, left.drop taken, (List.take_append_drop _ _).symm, ?_, fun enough none => ?_⟩
  · rw [whole, DirentryWriter.take_layout]
  · cases left with
    | nil => rfl
    | cons dirent rest =>
      rw [DirentryWriter.take_layout, none] at whole
      refine absurd whole (RecordFormat.whole_ne_nil ?_)
      exact (format.length_write _).trans_le (enough dirent List.mem_cons_self)

/-- Successive requests consume the first entries, and one at least with every request until none is left. -/
theorem consume_from (fits : ∀ record ∈ format.layout (format.total done) left, format.Fits record) (sizes : List Nat) :
    ∃ now later, left = now ++ later ∧
      consume format (format.bytes (done ++ left)) (format.total done) sizes =
        (format.layout (format.total done) now, format.total (done ++ now)) ∧
      ((∀ size ∈ sizes, ∀ dirent ∈ left, format.size dirent.name ≤ size) → sizes.length ≤ now.length ∨ later = []) := by
  induction sizes generalizing done left with
  | nil =>
    refine ⟨[], left, rfl, ?_, fun _ => Or.inl le_rfl⟩
    rw [List.append_nil]
    rfl
  | cons size sizes ih =>
    obtain ⟨now, left, rfl, read, progress⟩ := readAll_reply fits size
    have next : (format.layout (format.total done) now).getLast?.elim (format.total done) Direntry.off =
        format.total (done ++ now) := by
      rw [DirentryWriter.last_layout, DirentryWriter.total_append]
    have behind : ∀ record ∈ format.layout (format.total (done ++ now)) left, format.Fits record := by
      intro record member
      refine fits record ?_
      rw [DirentryWriter.layout_append, List.mem_append, ← DirentryWriter.total_append]
      exact Or.inr member
    obtain ⟨then_, later, rfl, rest, more⟩ := ih behind
    refine ⟨now ++ then_, later, (List.append_assoc _ _ _).symm, ?_, fun enough => ?_⟩
    · rw [List.append_assoc] at rest
      simp only [consume, read, next, rest]
      rw [DirentryWriter.layout_append, DirentryWriter.total_append, List.append_assoc]
    · have first := enough size List.mem_cons_self
      have others : ∀ other ∈ sizes, ∀ dirent ∈ then_ ++ later, format.size dirent.name ≤ other := by
        intro other member dirent behind
        exact enough other (List.mem_cons_of_mem _ member) dirent (List.mem_append_right _ behind)
      rcases more others with long | none
      · by_cases stuck : now = []
        · have nothing := progress first stuck
          exact Or.inr (List.append_eq_nil_iff.mp (List.append_eq_nil_iff.mp nothing).2).2
        · have some := List.length_pos_iff.mpr stuck
          refine Or.inl ?_
          rw [List.length_cons, List.length_append]
          omega
      · exact Or.inr none

end

section
variable {getErrnoMapping : Int → Int} {format : DirentryFormat} {returns : OpendirReturns}

/-- The caller of an open without errors, after any requests none of which is smaller than a record: what it has are the
first of all entries in their order. The next reply is empty exactly if it has all, as it has after one request for
every entry at the latest. -/
theorem readdir_complete (succeed : returns.Succeed) (store : Store)
    (fits : ∀ record ∈ format.layout 0 (listed store), format.Fits record) (sizes : List Nat) (size : Nat)
    (enough : ∀ request ∈ size :: sizes, ∀ dirent ∈ listed store, format.size dirent.name ≤ request) :
    ∃ db, skyeLlOpendir getErrnoMapping format.toDirentryWriter returns store = .replyOpen db ∧
      (consume format db 0 sizes).1.map Direntry.dirent <+: listed store ∧
      (skyeLlReaddir db size (consume format db 0 sizes).2 = [] ↔
        (consume format db 0 sizes).1.map Direntry.dirent = listed store) ∧
      ((listed store).length ≤ sizes.length → (consume format db 0 sizes).1.map Direntry.dirent = listed store) := by
  refine ⟨_, skyeLlOpendir_succeed succeed store, ?_⟩
  obtain ⟨now, later, parts, ran, progress⟩ := @consume_from format [] (listed store) fits sizes
  have begun : consume format (format.bytes (listed store)) 0 sizes = (format.layout 0 now, format.total now) := ran
  have complete : now = listed store ↔ later = [] := by
    rw [parts]
    exact ⟨fun same => List.self_eq_append_right.mp same, fun none => by rw [none, List.append_nil]⟩
  rw [begun, DirentryWriter.map_layout, complete]
  refine ⟨⟨later, parts.symm⟩, ?_, fun long => ?_⟩
  · rw [parts]
    refine skyeLlReaddir_eq_nil_iff fun dirent member => enough size List.mem_cons_self dirent ?_
    rw [parts]
    exact List.mem_append_right _ member
  · have lengths : (listed store).length = now.length + later.length := by rw [parts, List.length_append]
    rcases progress fun request member => enough request (List.mem_cons_of_mem _ member) with consumed | none
    · exact List.eq_nil_of_length_eq_zero (by omega)
    · exact none

end

def noneFails : OpendirReturns := ⟨true, fun _ => 0, fun _ _ => 0, fun _ _ => true⟩

theorem readdir_two_entries :
    ∃ db, skyeLlOpendir (fun n => -n) fuseDirent.toDirentryWriter noneFails
        (twoBuckets (AList.singleton ['b'] ⟨101, false⟩)) = .replyOpen db ∧
      (consume fuseDirent db 0 [48, 48]).1.map Direntry.dirent = [⟨['a'], 100⟩, ⟨['b'], 101⟩] ∧
      skyeLlReaddir db 48 (consume fuseDirent db 0 [48, 48]).2 = [] := by
  have all : listed (twoBuckets (AList.singleton ['b'] ⟨101, false⟩)) = [⟨['a'], 100⟩, ⟨['b'], 101⟩] := by decide +kernel
  have records : fuseDirent.layout 0 [⟨['a'], 100⟩, ⟨['b'], 101⟩] =
      [⟨⟨['a'], 100⟩, 32⟩, ⟨⟨['b'], 101⟩, 64⟩] := by decide +kernel
  have succeed : noneFails.Succeed := ⟨rfl, fun _ => le_rfl, fun _ _ => le_rfl, fun _ _ => rfl⟩
  have fits : ∀ record ∈ fuseDirent.layout 0 (listed (twoBuckets (AList.singleton ['b'] ⟨101, false⟩))),
      fuseDirent.Fits record := by
    rw [all, records]
    simp only [List.forall_mem_cons]
    refine ⟨⟨?_, ?_, ?_, ?_⟩, ⟨?_, ?_, ?_, ?_⟩, by simp⟩
    all_goals simp
  have enough : ∀ request ∈ [48, 48, 48], ∀ dirent ∈ listed (twoBuckets (AList.singleton ['b'] ⟨101, false⟩)),
      fuseDirent.size dirent.name ≤ request := by
    rw [all]
    decide +kernel
  obtain ⟨db, replied, -, empty, whole⟩ := readdir_complete succeed _ fits [48, 48] 48 enough
  have complete := whole (by rw [all]; decide)
  exact ⟨db, replied, complete.trans all, empty.mpr complete⟩

end SkyeFS.Client
