import SkyeFS.Common.UthashInvariant
import SkyeFS.Foundation.Transition

/-! Runs of the hash table of common/uthash.h against a list of entries.

The abstract table is the list of the elements with their keys, in the order of
insertion. The one discipline is that of the callers: memory that is still in the table is
not allocated again, and only what is in the table is deleted from it. A fetch adds an
element only after it found none, and where everything is fetched the table is a map.
-/

set_option autoImplicit false

namespace SkyeFS.Uthash

open Foundation

variable {Addr Key : Type} [DecidableEq Addr] [DecidableEq Key]

inductive Event (Addr Key : Type) where
  -- `HASH_FIND`, and `HASH_ADD` of a new block if nothing is found.
  | fetch (keyptr : Key) (block : Addr)
  | add (keyptr : Key) (block : Addr)
  | delete (delptr : Addr)
deriving DecidableEq

/-- Added without a search. -/
def Event.blind : Event Addr Key → Bool
  | .add _ _ => true
  | .fetch _ _ | .delete _ => false

def hashStep (hash : Key → Nat) (h : Hash Addr Key) : Event Addr Key → Option (Hash Addr Key)
  | .fetch keyptr block =>
      match hashFind hash h keyptr with
      | some _ => some h
      | none => hashAdd hash h block keyptr
  | .add keyptr block => hashAdd hash h block keyptr
  | .delete delptr => hashDelete h delptr

def insertEntry (entries : List (Addr × Key)) (keyptr : Key) (block : Addr) : Option (List (Addr × Key)) :=
  if block ∈ entries.map Prod.fst then none else some (entries ++ [(block, keyptr)])

def entriesStep (entries : List (Addr × Key)) : Event Addr Key → Option (List (Addr × Key))
  | .fetch keyptr block => if keyptr ∈ entries.map Prod.snd then some entries else insertEntry entries keyptr block
  | .add keyptr block => insertEntry entries keyptr block
  | .delete delptr =>
      if delptr ∈ entries.map Prod.fst then some (entries.filter fun entry => entry.1 != delptr) else none

/-- The elements in the order of insertion, as `next` links them. -/
def Hash.elements (h : Hash Addr Key) : List Addr :=
  match h.root with
  | none => []
  | some root => h.app.walk root.tbl.numItems (some root.head)

/-- Before an element is added there are fewer than 2^31 buckets and 2^32 - 1 elements. -/
def Roomy (h : Hash Addr Key) : Event Addr Key → Prop
  | .fetch _ _ | .add _ _ => h.Room 1
  | .delete _ => True

instance (h : Hash Addr Key) (event : Event Addr Key) : Decidable (Roomy h event) :=
  match event with
  | .fetch _ _ | .add _ _ => inferInstanceAs (Decidable (h.Room 1))
  | .delete _ => isTrue trivial

structure Hash.Represents (hash : Key → Nat) (h : Hash Addr Key) (entries : List (Addr × Key)) : Prop where
  holds : h.Holds hash (entries.map Prod.fst)
  keys : ∀ entry ∈ entries, h.key entry.1 = entry.2

section
variable {hash : Key → Nat} {h : Hash Addr Key} {entries after : List (Addr × Key)}

omit [DecidableEq Addr] [DecidableEq Key] in
theorem Hash.Represents.entry_of_key (represents : h.Represents hash entries) {item : Addr}
    (member : item ∈ entries.map Prod.fst) : (item, h.key item) ∈ entries := by
  obtain ⟨entry, listed, rfl⟩ := List.mem_map.mp member
  rw [represents.keys entry listed]
  exact listed

omit [DecidableEq Addr] in
theorem Hash.Represents.find (represents : h.Represents hash entries) (keyptr : Key) :
    match hashFind hash h keyptr with
    | some out => (out, keyptr) ∈ entries
    | none => keyptr ∉ entries.map Prod.snd := by
  have found := represents.holds.find keyptr
  revert found
  cases hashFind hash h keyptr with
  | some out =>
    rintro ⟨member, rfl⟩
    exact represents.entry_of_key member
  | none =>
    intro absent listed
    obtain ⟨entry, member, rfl⟩ := List.mem_map.mp listed
    exact absent entry.1 (List.mem_map_of_mem member) (represents.keys entry member)

omit [DecidableEq Addr] in
/-- With distinct keys the table is a map. -/
theorem Hash.Represents.find_iff (represents : h.Represents hash entries) (distinct : (entries.map Prod.snd).Nodup)
    (keyptr : Key) (out : Addr) : hashFind hash h keyptr = some out ↔ (out, keyptr) ∈ entries := by
  have found := represents.find keyptr
  revert found
  cases hashFind hash h keyptr with
  | none =>
    intro (absent : keyptr ∉ entries.map Prod.snd)
    constructor
    · intro found
      cases found
    · intro listed
      exact absurd (List.mem_map_of_mem listed) absent
  | some other =>
    intro listed
    constructor
    · rintro ⟨⟩
      exact listed
    · intro member
      have same := List.inj_on_of_nodup_map distinct listed member rfl
      exact congrArg some (congrArg Prod.fst same)

omit [DecidableEq Key] in
theorem Hash.Represents.insert (represents : h.Represents hash entries) {keyptr : Key} {block : Addr}
    (inserted : insertEntry entries keyptr block = some after) {more : Nat} (room : h.Room (more + 1)) :
    ∃ next, hashAdd hash h block keyptr = some next ∧ next.Represents hash after ∧ next.Room more := by
  unfold insertEntry at inserted
  split at inserted
  case isTrue used => cases inserted
  case isFalse fresh =>
    cases inserted
    obtain ⟨next, added, holds, keys, left⟩ := represents.holds.add fresh keyptr room
    refine ⟨next, added, ⟨?_, ?_⟩, left⟩
    · rw [List.map_append]
      exact holds
    · intro entry member
      rw [keys]
      rcases List.mem_append.mp member with old | new
      · have other : entry.1 ≠ block := fun equal => fresh (equal ▸ List.mem_map_of_mem old)
        rw [Function.update_of_ne other]
        exact represents.keys entry old
      · cases List.mem_singleton.mp new
        exact Function.update_self _ _ _

omit [DecidableEq Key] in
theorem Hash.Represents.delete (represents : h.Represents hash entries) {delptr : Addr}
    (member : delptr ∈ entries.map Prod.fst) :
    ∃ next, hashDelete h delptr = some next ∧
      next.Represents hash (entries.filter fun entry => entry.1 != delptr) := by
  obtain ⟨next, deleted, holds, keys⟩ := represents.holds.delete member
  have erased : (entries.map Prod.fst).erase delptr = (entries.filter fun entry => entry.1 != delptr).map Prod.fst := by
    rw [represents.holds.distinct.erase_eq_filter, List.filter_map]
    rfl
  refine ⟨next, deleted, erased ▸ holds, ?_⟩
  intro entry member
  rw [keys]
  exact represents.keys entry (List.mem_of_mem_filter member)

theorem Hash.Represents.step (represents : h.Represents hash entries) {event : Event Addr Key} (room : Roomy h event)
    (stepped : entriesStep entries event = some after) :
    ∃ next, hashStep hash h event = some next ∧ next.Represents hash after := by
  cases event with
  | fetch keyptr block =>
    have found := represents.find keyptr
    simp only [entriesStep] at stepped
    simp only [hashStep]
    cases searched : hashFind hash h keyptr with
    | some out =>
      rw [searched] at found
      rw [if_pos (List.mem_map_of_mem found)] at stepped
      cases stepped
      exact ⟨h, rfl, represents⟩
    | none =>
      rw [searched] at found
      rw [if_neg found] at stepped
      have one : h.Room (0 + 1) := room
      obtain ⟨next, added, holds, -⟩ := represents.insert stepped one
      exact ⟨next, added, holds⟩
  | add keyptr block =>
    have one : h.Room (0 + 1) := room
    obtain ⟨next, added, holds, -⟩ := represents.insert stepped one
    exact ⟨next, added, holds⟩
  | delete delptr =>
    simp only [entriesStep] at stepped
    split at stepped
    case isTrue member =>
      cases stepped
      exact represents.delete member
    case isFalse absent => cases stepped

theorem Hash.Represents.run (represents : h.Represents hash entries) {events : List (Event Addr Key)}
    (roomy : Meets (hashStep hash) Roomy h events) (ran : execute entriesStep entries events = some after) :
    ∃ next, execute (hashStep hash) h events = some next ∧ next.Represents hash after := by
  induction events generalizing h entries with
  | nil =>
    cases ran
    exact ⟨h, rfl, represents⟩
  | cons event rest ih =>
    obtain ⟨middle, stepped, more⟩ := Option.bind_eq_some_iff.mp ran
    obtain ⟨next, first, holds⟩ := represents.step roomy.1 stepped
    obtain ⟨last, ended, final⟩ := ih holds (roomy.2 next first) more
    refine ⟨last, ?_, final⟩
    rw [execute, first]
    exact ended

theorem distinct_step (distinct : (entries.map Prod.snd).Nodup) {event : Event Addr Key}
    (fetched : event.blind = false) (stepped : entriesStep entries event = some after) :
    (after.map Prod.snd).Nodup := by
  cases event with
  | fetch keyptr block =>
    simp only [entriesStep, insertEntry] at stepped
    split at stepped
    case isTrue =>
      cases stepped
      exact distinct
    case isFalse absent =>
      split at stepped
      case isTrue => cases stepped
      case isFalse =>
        cases stepped
        rw [List.map_append, List.map_singleton, ← List.concat_eq_append]
        exact distinct.concat absent
  | add keyptr block => cases fetched
  | delete delptr =>
    simp only [entriesStep] at stepped
    split at stepped
    case isTrue =>
      cases stepped
      exact distinct.sublist (List.filter_sublist.map Prod.snd)
    case isFalse => cases stepped

theorem distinct_of_fetches {events : List (Event Addr Key)} (distinct : (entries.map Prod.snd).Nodup)
    (fetched : ∀ event ∈ events, event.blind = false)
    (ran : execute entriesStep entries events = some after) : (after.map Prod.snd).Nodup := by
  induction events generalizing entries with
  | nil =>
    cases ran
    exact distinct
  | cons event rest ih =>
    obtain ⟨middle, stepped, more⟩ := Option.bind_eq_some_iff.mp ran
    have once := distinct_step distinct (fetched event List.mem_cons_self) stepped
    exact ih once (fun other later => fetched other (List.mem_cons_of_mem _ later)) more

omit [DecidableEq Addr] [DecidableEq Key] in
theorem Hash.Represents.elements (represents : h.Represents hash entries) : h.elements = entries.map Prod.fst := by
  have held := represents.holds.root
  unfold Hash.elements
  cases rooted : h.root with
  | none =>
    rw [rooted] at held
    exact held.symm
  | some root =>
    rw [rooted] at held
    dsimp only
    rw [← held.head]
    exact held.app.walk (Nat.le_of_eq held.table.counted.symm)

end

/-- Every run of the table on fresh memory, for as long as its 32-bit counters have room, follows no null pointer, divides by
no zero and stays inside the buckets, whatever the hash function. At most 26 doublings have room. Afterwards the elements
are linked in the order of insertion, the integrity check passes, and a search returns an element with the key if there is
one. Where all elements were fetched there is only one: the table is a map. -/
theorem uthash_refines_entries (hash : Key → Nat) (app chain : Links Addr) (key : Addr → Key) (hashv : Addr → Nat)
    {events : List (Event Addr Key)} {entries : List (Addr × Key)} (ran : execute entriesStep [] events = some entries)
    (roomy : Meets (hashStep hash) Roomy ⟨none, app, chain, key, hashv⟩ events) :
    ∃ h, execute (hashStep hash) ⟨none, app, chain, key, hashv⟩ events = some h ∧
      h.elements = entries.map Prod.fst ∧ hashFsck h = true ∧
      (∀ keyptr out, hashFind hash h keyptr = some out → (out, keyptr) ∈ entries) ∧
      (∀ keyptr, hashFind hash h keyptr = none → keyptr ∉ entries.map Prod.snd) ∧
      ((∀ event ∈ events, event.blind = false) →
        ∀ keyptr out, hashFind hash h keyptr = some out ↔ (out, keyptr) ∈ entries) := by
  have empty : Hash.Represents hash ⟨none, app, chain, key, hashv⟩ [] :=
    ⟨⟨List.nodup_nil, fun item member => absurd member List.not_mem_nil, rfl⟩,
      fun entry member => absurd member List.not_mem_nil⟩
  obtain ⟨h, executed, represents⟩ := empty.run roomy ran
  have found : ∀ keyptr out, hashFind hash h keyptr = some out → (out, keyptr) ∈ entries := by
    intro keyptr out searched
    have listed := represents.find keyptr
    rw [searched] at listed
    exact listed
  have missed : ∀ keyptr, hashFind hash h keyptr = none → keyptr ∉ entries.map Prod.snd := by
    intro keyptr searched
    have absent := represents.find keyptr
    rw [searched] at absent
    exact absent
  refine ⟨h, executed, represents.elements, represents.holds.fsck, found, missed, ?_⟩
  intro fetched
  have none_ : (([] : List (Addr × Key)).map Prod.snd).Nodup := List.nodup_nil
  exact represents.find_iff (distinct_of_fetches none_ fetched ran)

/-- Twelve keys of one bucket, which double the buckets on the way, a deletion, and a key that is there already. -/
def crowded : List (Event Nat Nat) := (List.range 12).map (fun keyptr => .fetch keyptr keyptr) ++ [.delete 3, .fetch 5 12]

theorem uthash_refines_entries_crowded :
    ∃ h, execute (hashStep (32 * ·)) ⟨none, ⟨fun _ => none, fun _ => none⟩, ⟨fun _ => none, fun _ => none⟩, id, id⟩ crowded =
        some h ∧
      hashFind (32 * ·) h 5 = some 5 ∧ hashFind (32 * ·) h 3 ≠ some 3 := by
  have ran : execute entriesStep [] crowded = some [(0, 0), (1, 1), (2, 2), (4, 4), (5, 5), (6, 6), (7, 7), (8, 8),
      (9, 9), (10, 10), (11, 11)] := by
    decide
  obtain ⟨h, executed, -, -, -, -, map⟩ := uthash_refines_entries (32 * ·) ⟨fun _ => none, fun _ => none⟩
    ⟨fun _ => none, fun _ => none⟩ id id ran (by decide +kernel)
  refine ⟨h, executed, (map (by decide) 5 5).mpr (by decide), ?_⟩
  intro found
  exact absurd ((map (by decide) 3 3).mp found) (by decide)

end SkyeFS.Uthash
