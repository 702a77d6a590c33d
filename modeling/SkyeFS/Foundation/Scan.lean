import Mathlib.Data.List.Basic

/-! Loops that collect what their items contribute and may stop early.

A loop over items stops behind the first one that does not let it go on. A scan reads a
listing page by page, runs such a loop over each page, and stops at the first page that
cannot be read. It collects everything exactly if nothing with a contribution lies
behind a place where the loop or the scan stops.
-/

set_option autoImplicit false

namespace Foundation

variable {Item Out : Type}

section
variable (got : Item → List Out) (goesOn : Item → Bool)

def collect : List Item → List Out
  | [] => []
  | item :: rest => got item ++ if goesOn item then collect rest else []

end

/-- A page of a listing. The last one, which is not full, may be empty. -/
def page (incount : Nat) (listing : List Item) (number : Nat) : List Item :=
  (listing.drop (number * incount)).take incount

section
variable (incount : Nat) (readable : Nat → Bool) (got : Item → List Out) (goesOn : Item → Bool) (listing : List Item)

def scanPages : List Nat → List Out :=
  collect (fun number => if readable number then collect got goesOn (page incount listing number) else []) readable

/-- From the page zero to the last one. -/
def scan : List Out := scanPages incount readable got goesOn listing (List.range (listing.length / incount + 1))

end

section
variable {got full : Item → List Out} {goesOn : Item → Bool}

theorem collect_sublist {items : List Item} (inside : ∀ item ∈ items, (got item).Sublist (full item)) :
    (collect got goesOn items).Sublist (items.flatMap full) := by
  induction items with
  | nil => exact List.Sublist.refl []
  | cons item rest ih =>
    rw [collect, List.flatMap_cons]
    refine (inside item List.mem_cons_self).append ?_
    split
    · exact ih fun other member => inside other (List.mem_cons_of_mem _ member)
    · exact List.nil_sublist _

/-- Two parts that are sublists of two parts make up the whole only together. -/
theorem append_eq_append_iff_of_sublist {first whole second rest : List Out} (left : first.Sublist whole)
    (right : second.Sublist rest) : first ++ second = whole ++ rest ↔ first = whole ∧ second = rest := by
  constructor
  · intro same
    have lengths := congrArg List.length same
    rw [List.length_append, List.length_append] at lengths
    have shorter := left.length_le
    have fewer := right.length_le
    exact ⟨left.eq_of_length (by omega), right.eq_of_length (by omega)⟩
  · rintro ⟨rfl, rfl⟩
    rfl

/-- Items without a contribution collect everything, wherever the loop stops. -/
theorem collects_nothing {items : List Item} (inside : ∀ item ∈ items, (got item).Sublist (full item))
    (empty : ∀ item ∈ items, full item = []) :
    (∀ item ∈ items, got item = full item) ∧
      items.Pairwise fun earlier later => full later ≠ [] → goesOn earlier = true := by
  constructor
  · intro item member
    rw [empty item member]
    exact List.sublist_nil.mp (empty item member ▸ inside item member)
  · exact List.pairwise_of_forall_mem_list fun _ _ later member contributes => absurd (empty later member) contributes

theorem collect_eq_iff {items : List Item} (inside : ∀ item ∈ items, (got item).Sublist (full item)) :
    collect got goesOn items = items.flatMap full ↔
      (∀ item ∈ items, got item = full item) ∧
        items.Pairwise fun earlier later => full later ≠ [] → goesOn earlier = true := by
  induction items with
  | nil => simp [collect]
  | cons item rest ih =>
    have first := inside item List.mem_cons_self
    have others : ∀ other ∈ rest, (got other).Sublist (full other) := fun other member =>
      inside other (List.mem_cons_of_mem _ member)
    rw [collect, List.flatMap_cons, List.forall_mem_cons, List.pairwise_cons]
    by_cases goes : goesOn item = true
    · rw [if_pos goes, append_eq_append_iff_of_sublist first (collect_sublist others), ih others]
      simp only [goes, implies_true, true_and, and_assoc]
    · -- Behind a stop, nothing may have a contribution.
      rw [if_neg goes, append_eq_append_iff_of_sublist first (List.nil_sublist _), eq_comm (a := []),
        List.flatMap_eq_nil_iff]
      constructor
      · rintro ⟨whole, empty⟩
        obtain ⟨all, pairs⟩ := collects_nothing others empty
        exact ⟨⟨whole, all⟩, fun other member contributes => absurd (empty other member) contributes, pairs⟩
      · rintro ⟨⟨whole, -⟩, stops, -⟩
        refine ⟨whole, fun other member => Classical.byContradiction fun contributes => ?_⟩
        exact goes (stops other member contributes)

end

section
variable {incount : Nat} {listing : List Item}

theorem flatMap_page (positive : 0 < incount) :
    (List.range (listing.length / incount + 1)).flatMap (page incount listing) = listing := by
  have upTo : ∀ count, (List.range count).flatMap (page incount listing) = listing.take (count * incount) := by
    intro count
    induction count with
    | zero => simp
    | succ count ih =>
      rw [List.range_succ, List.flatMap_append, ih, List.flatMap_singleton, page, ← List.take_add, ← Nat.succ_mul]
  rw [upTo, List.take_of_length_le]
  exact Nat.le_of_lt (Nat.lt_mul_of_div_lt (Nat.lt_succ_self _) positive)

theorem page_full_iff (positive : 0 < incount) (number : Nat) :
    (page incount listing number).length = incount ↔ number < listing.length / incount := by
  rw [page, List.length_take, List.length_drop, Nat.lt_iff_add_one_le, Nat.le_div_iff_mul_le positive, Nat.succ_mul]
  omega

theorem page_eq_nil_iff (positive : 0 < incount) (number : Nat) :
    page incount listing number = [] ↔ listing.length ≤ number * incount := by
  rw [page, List.take_eq_nil_iff, or_iff_right (Nat.ne_of_gt positive), List.drop_eq_nil_iff]

end

theorem pairwise_range {relation : Nat → Nat → Prop} {count : Nat} :
    (List.range count).Pairwise relation ↔
      ∀ earlier later, earlier < later → later < count → relation earlier later := by
  rw [List.pairwise_iff_getElem]
  simp only [List.length_range, List.getElem_range]
  exact ⟨fun pairs earlier later before bounded =>
      pairs earlier later (Nat.lt_trans before bounded) bounded before,
    fun pairs earlier later _ bounded before => pairs earlier later before bounded⟩

/-- Nothing that has a contribution lies behind a stop. -/
structure Unbroken (incount : Nat) (readable : Nat → Bool) (got full : Item → List Out) (goesOn : Item → Bool)
    (listing : List Item) : Prop where
  whole : ∀ item ∈ listing, got item = full item
  read : ∀ number, (∃ item ∈ page incount listing number, full item ≠ []) → ∀ earlier ≤ number, readable earlier = true
  goesOn : ∀ number, (page incount listing number).Pairwise fun earlier later => full later ≠ [] → goesOn earlier = true

section
variable {incount : Nat} {readable : Nat → Bool} {got full : Item → List Out} {goesOn : Item → Bool}
  {listing : List Item}

theorem scanPages_stop {number : Nat} (unreadable : readable number ≠ true) (rest : List Nat) :
    scanPages incount readable got goesOn listing (number :: rest) = [] := by
  rw [scanPages, collect, if_neg unreadable, if_neg unreadable, List.append_nil]

theorem scanPages_cons {number : Nat} (reads : readable number = true) (rest : List Nat) :
    scanPages incount readable got goesOn listing (number :: rest) =
      collect got goesOn (page incount listing number) ++ scanPages incount readable got goesOn listing rest := by
  rw [scanPages, collect, if_pos reads, if_pos reads]

theorem mem_of_mem_page {number : Nat} {item : Item} (member : item ∈ page incount listing number) : item ∈ listing :=
  List.mem_of_mem_drop (List.mem_of_mem_take member)

theorem le_of_mem_page (positive : 0 < incount) {number : Nat} {item : Item}
    (member : item ∈ page incount listing number) : number < listing.length / incount + 1 := by
  have left : 0 < (listing.drop (number * incount)).length := List.length_pos_of_mem (List.mem_of_mem_take member)
  rw [List.length_drop] at left
  exact Nat.lt_succ_of_le ((Nat.le_div_iff_mul_le positive).mpr (by omega))

theorem flatMap_pages (positive : 0 < incount) :
    (List.range (listing.length / incount + 1)).flatMap (fun number => (page incount listing number).flatMap full) =
      listing.flatMap full := by
  rw [← List.flatMap_assoc, flatMap_page positive]

section
variable (inside : ∀ item ∈ listing, (got item).Sublist (full item))
include inside

theorem page_eq_iff (number : Nat) :
    (if readable number then collect got goesOn (page incount listing number) else []) =
        (page incount listing number).flatMap full ↔
      (∀ item ∈ page incount listing number, got item = full item) ∧
        ((∃ item ∈ page incount listing number, full item ≠ []) → readable number = true) ∧
        (page incount listing number).Pairwise fun earlier later => full later ≠ [] → goesOn earlier = true := by
  have within : ∀ item ∈ page incount listing number, (got item).Sublist (full item) := fun item member =>
    inside item (mem_of_mem_page member)
  by_cases reads : readable number = true
  · rw [if_pos reads, collect_eq_iff within]
    simp only [reads, implies_true, true_and]
  · rw [if_neg reads, eq_comm (a := []), List.flatMap_eq_nil_iff]
    constructor
    · intro empty
      obtain ⟨all, pairs⟩ := collects_nothing within empty
      exact ⟨all, fun ⟨item, member, contributes⟩ => absurd (empty item member) contributes, pairs⟩
    · rintro ⟨-, read, -⟩ item member
      exact Classical.byContradiction fun contributes => reads (read ⟨item, member, contributes⟩)

theorem page_sublist (number : Nat) :
    (if readable number then collect got goesOn (page incount listing number) else []).Sublist
      ((page incount listing number).flatMap full) := by
  split
  · exact collect_sublist fun item member => inside item (mem_of_mem_page member)
  · exact List.nil_sublist _

theorem scan_sublist (positive : 0 < incount) :
    (scan incount readable got goesOn listing).Sublist (listing.flatMap full) := by
  rw [← flatMap_pages positive]
  exact collect_sublist fun number _ => page_sublist inside number

theorem scan_eq_iff (positive : 0 < incount) :
    scan incount readable got goesOn listing = listing.flatMap full ↔
      Unbroken incount readable got full goesOn listing := by
  rw [← flatMap_pages positive, scan, scanPages, collect_eq_iff fun number _ => page_sublist inside number]
  constructor
  · rintro ⟨pages, stops⟩
    have each (number : Nat) (bounded : number < listing.length / incount + 1) :=
      (page_eq_iff inside number).mp (pages number (List.mem_range.mpr bounded))
    refine ⟨fun item member => ?_, fun number contributes earlier before => ?_, fun number => ?_⟩
    · rw [← @flatMap_page _ _ listing positive] at member
      obtain ⟨number, bounded, member⟩ := List.mem_flatMap.mp member
      exact (each number (List.mem_range.mp bounded)).1 item member
    · obtain ⟨item, member, whole⟩ := contributes
      have bounded := le_of_mem_page positive member
      rcases Nat.lt_or_eq_of_le before with before | rfl
      · refine pairwise_range.mp stops earlier number before bounded fun empty => whole ?_
        exact List.flatMap_eq_nil_iff.mp empty item member
      · exact (each earlier bounded).2.1 ⟨item, member, whole⟩
    · by_cases bounded : number < listing.length / incount + 1
      · exact (each number bounded).2.2
      · refine List.pairwise_of_forall_mem_list fun item member => ?_
        exact absurd (le_of_mem_page positive member) bounded
  · intro unbroken
    refine ⟨fun number _ => (page_eq_iff inside number).mpr ⟨fun item member => ?_, fun contributes => ?_,
      unbroken.goesOn number⟩, ?_⟩
    · exact unbroken.whole item (mem_of_mem_page member)
    · exact unbroken.read number contributes number (Nat.le_refl _)
    refine pairwise_range.mpr fun earlier later before _ contributes => ?_
    obtain ⟨item, member, whole⟩ : ∃ item ∈ page incount listing later, full item ≠ [] := by
      simpa [List.flatMap_eq_nil_iff] using contributes
    exact unbroken.read later ⟨item, member, whole⟩ earlier (Nat.le_of_lt before)

end

end

end Foundation
