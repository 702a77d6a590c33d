import Mathlib.Tactic.FinCases
import SkyeFS.Server.SplitNames

/-! Removing and looking up names across a split.

A remove looks only into the bucket that `enter_bucket` chose, so it misses an entry
that waits in the parent's bucket for its turn. A lookup goes to the parent's bucket
first; its second try was meant for the child's bucket, but looks among the buckets
themselves and so never finds the entry.
-/

set_option autoImplicit false

namespace SkyeFS.Server

open Index Pvfs Foundation Foundation.SuffixTree

namespace SplitSetting

variable {servernum : Nat} (setting : SplitSetting servernum) (shahash : FileName → Digest)

def Neither (store : Store) (name : FileName) : Prop :=
  store.find setting.pindex name = none ∧ store.find setting.cindex name = none

variable {setting shahash}

theorem not_neither {store : Store} {name : FileName} : ¬ setting.Neither store name ↔
    (store.find setting.pindex name).isSome ∨ (store.find setting.cindex name).isSome := by
  simp only [Neither, Option.isSome_iff_ne_none]
  tauto

theorem Neither.shrink {store fewer : Store} {name : FileName} (neither : setting.Neither store name)
    (subset : ∀ index, (fewer.find index name).isSome → (store.find index name).isSome) :
    setting.Neither fewer name := by
  by_contra held
  exact (not_neither.mpr ((not_neither.mp held).imp (subset _) (subset _))) neither

theorem Neither.bind {store : Store} {name entry : FileName} {index position : Nat} {object : Object}
    (neither : setting.Neither store name) (other : name ≠ entry) :
    setting.Neither (store.bind position index entry object) name :=
  neither.shrink fun _ found =>
    (Store.isSome_find_bind found).resolve_left fun both => other both.2

theorem Neither.step {state after : SplitState} {event : SplitEvent} {name : FileName}
    (neither : setting.Neither state.store name) (sound : setting.Sound shahash state)
    (unbound : ∀ source, ¬ Binds event source name) (move : SplitMove shahash servernum state event after) :
    setting.Neither after.store name := by
  cases move with
  | begin_ | decline | mkdirFails | removeFails | readEmpty | readPage | skip | moveFailed | nextPage | endPass
  | lockAgain | finish | answer | removeLookup | removeFailed => exact neither
  | makeMisplaced thread | makeInPlace thread =>
    obtain ⟨-, rfl, rfl⟩ := sound.phase.of_making (.inl thread)
    exact ⟨find_made.2.trans neither.1, find_made.1⟩
  | dropChild thread =>
    obtain ⟨-, rfl, rfl⟩ := sound.phase.of_making (.inr thread)
    exact ⟨find_dropped.2.trans neither.1, find_dropped.1⟩
  | move thread status found present =>
    obtain ⟨-, rfl, rfl⟩ := sound.phase.of_working thread rfl
    -- The moved name has an entry in the parent's bucket, so it is another one.
    refine (neither.shrink fun _ held => (Store.isSome_find_unbind held).1).bind ?_
    rintro rfl
    exact nomatch found.symm.trans neither.1
  | bind free binds entered found fresh =>
    refine (neither.shrink fun _ held => Source.isSome_find_clear held).bind ?_
    rintro rfl
    exact unbound _ binds
  | removeEntry | takeAway => exact neither.shrink fun _ held => (Store.isSome_find_unbind held).1

theorem Sound.stays_gone {state later : SplitState} {name : FileName} (sound : setting.Sound shahash state)
    (neither : setting.Neither state.store name)
    (reached : Reaches (splitStep shahash servernum) (fun _ event => ∀ source, ¬ Binds event source name) state later) :
    setting.Sound shahash later ∧ setting.Neither later.store name := by
  induction reached with
  | here => exact ⟨sound, neither⟩
  | next _ unbound stepped ih =>
    have move := splitStep_move stepped
    exact ⟨ih.1.step move, ih.2.step ih.1 unbound move⟩

section
variable {state : SplitState} (sound : setting.Sound shahash state) {name : FileName} {index : Nat}
  (serves : setting.Serves shahash state.dir name index)
include sound serves

/-- What is missing in the bucket that serves a name is missing in both, unless the name was diverted. -/
theorem Sound.missing (missing : state.store.find index name = none) :
    setting.Neither state.store name ↔
      ¬ (index = setting.cindex ∧ (state.store.find setting.pindex name).isSome) := by
  constructor
  · rintro neither ⟨-, inParent⟩
    rw [neither.1] at inParent
    cases inParent
  · intro spared
    by_contra held
    rcases not_neither.mp held with inParent | inChild
    · rcases sound.serves_parent serves inParent with rfl | ⟨rfl, -⟩
      · rw [missing] at inParent
        cases inParent
      · exact spared ⟨rfl, inParent⟩
    · obtain ⟨rfl, -⟩ := sound.serves_child serves inChild
      rw [missing] at inChild
      cases inChild

/-- What is taken out of the bucket that serves a name is gone from both, unless the name was diverted. -/
theorem Sound.unbound : setting.Neither (state.store.unbind index name) name ↔
    ¬ (index = setting.cindex ∧ (state.store.find setting.pindex name).isSome) := by
  constructor
  · rintro neither ⟨rfl, inParent⟩
    have kept := neither.1
    rw [Store.find_unbind, if_neg fun both => setting.cindex_ne_pindex both.1.symm] at kept
    rw [kept] at inParent
    cases inParent
  · intro spared
    by_contra held
    rcases not_neither.mp held with inParent | inChild
    · obtain ⟨before, other⟩ := Store.isSome_find_unbind inParent
      rcases sound.serves_parent serves before with rfl | ⟨rfl, -⟩
      · exact other ⟨rfl, rfl⟩
      · exact spared ⟨rfl, before⟩
    · obtain ⟨before, other⟩ := Store.isSome_find_unbind inChild
      obtain ⟨rfl, -⟩ := sound.serves_child serves before
      exact other ⟨rfl, rfl⟩

end

end SplitSetting

theorem removeEntry_file {store : Store} {removal : Removal} {emptied : Bool}
    (file : ∀ object, store.find removal.index removal.name = some object → object.isdir = false) :
    store.find removal.index removal.name = none ∧ removeEntry store removal emptied = (.fail .enoent, store) ∨
      removeEntry store removal emptied = (.ok (), store.unbind removal.index removal.name) := by
  cases found : store.find removal.index removal.name with
  | none => exact Or.inl ⟨rfl, by simp [removeEntry, sysRemove, found]⟩
  | some object => exact Or.inr (by simp [removeEntry, sysRemove, found, file object found])

/-- The answer to the remove of a file: `-ENOENT` if there is no entry, and otherwise no entry is left. -/
def Gone {servernum : Nat} (setting : SplitSetting servernum) (state : SplitState) (name : FileName)
    (reply : Reply Unit) (store : Store) : Prop :=
  reply = .fail .enoent ∧ store = state.store ∧ setting.Neither state.store name ∨
    reply = .ok () ∧ setting.Neither store name

namespace SplitSetting

variable {servernum : Nat} {setting : SplitSetting servernum} {shahash : FileName → Digest}

/-- When the first half answers `-ENOENT`, there is no entry, unless the name was diverted. -/
theorem Sound.removeLookup_enoent {state : SplitState} {name : FileName} {store : Store}
    (sound : setting.Sound shahash state)
    (served : removeLookup shahash servernum state.dir state.store name = some (.fail .enoent, store)) :
    setting.Neither state.store name ↔ ¬ setting.Diverted shahash state name := by
  obtain ⟨entered, computed, answered⟩ := Option.bind_eq_some_iff.mp served
  obtain ⟨index, serves, outcome⟩ := sound.phase.outcome computed
  rcases outcome with rfl | ⟨rfl, absent⟩ | ⟨rfl, -⟩
  · -- The bucket was entered, and `-ENOENT` comes from the lookup in it.
    have missing : state.store.find index name = none := by
      cases found : state.store.find index name with
      | none => rfl
      | some object => simp [found] at answered
    rw [sound.missing serves missing, Diverted, computed]
    simp [and_comm]
  · -- The bucket does not exist, so it cannot have been the one of an existing entry.
    refine iff_of_true ?_ ?_
    · by_contra held
      have present := (sound.serves_present serves (not_neither.mp held)).1
      rw [absent] at present
      cases present
    · rintro ⟨-, diverted⟩
      cases computed.symm.trans diverted
  · cases answered

/-- The first half finds the entry of a name, unless the name was diverted or handed over. -/
theorem Sound.removeLookup_held {state : SplitState} {name : FileName} (sound : setting.Sound shahash state)
    (held : (state.store.find setting.pindex name).isSome ∨ (state.store.find setting.cindex name).isSome) :
    ∃ reply, removeLookup shahash servernum state.dir state.store name = some (reply, state.store) ∧
      (setting.HandedOver shahash state name → reply = .again state.dir.mapping) ∧
      (¬ setting.HandedOver shahash state name → ¬ setting.Diverted shahash state name →
        ∃ index object, reply = .ok { index, name, isdir := object.isdir } ∧
          state.store.find index name = some object) := by
  rcases sound.enters held with ⟨handed, again⟩ | ⟨kept, index, serves, entered⟩
  · exact ⟨_, inBucket_redirected again, fun _ => rfl, fun kept => absurd handed kept⟩
  · rw [removeLookup, inBucket_entered entered]
    cases found : state.store.find index name with
    | none =>
      refine ⟨_, rfl, fun handed => absurd handed kept, fun _ spared => ?_⟩
      have inside := sound.inside held serves entered spared
      rw [found] at inside
      cases inside
    | some object => exact ⟨_, rfl, fun handed => absurd handed kept, fun _ _ => ⟨index, object, rfl, found⟩⟩

/-- A remove of a file does what it should exactly when the name was not diverted. The first half finds
the entry of a name (or sends the client on to the server that has the name now), and if it answers
`-ENOENT`, there is no entry; the second half answers for a file that the first half has found, and then
there is no entry any more, now and until the name is made again. -/
theorem split_removes {start state : SplitState} (ready : setting.Ready shahash start)
    (reached : Reaches (splitStep shahash servernum) (fun _ _ => True) start state) (name : FileName) :
    ((state.store.find setting.pindex name).isSome ∨ (state.store.find setting.cindex name).isSome →
      ∃ reply, removeLookup shahash servernum state.dir state.store name = some (reply, state.store) ∧
        (setting.HandedOver shahash state name → reply = .again state.dir.mapping) ∧
        (¬ setting.HandedOver shahash state name → ¬ setting.Diverted shahash state name →
          ∃ index object, reply = .ok { index, name, isdir := object.isdir } ∧
            state.store.find index name = some object)) ∧
    (∀ store, removeLookup shahash servernum state.dir state.store name = some (.fail .enoent, store) →
      (setting.Neither state.store name ↔ ¬ setting.Diverted shahash state name)) ∧
    ∀ slot removal emptied reply store, state.removals[slot]? = some removal →
      removal.name = name → removal.isdir = false →
      (∀ object, state.store.find removal.index name = some object → object.isdir = false) →
      removeEntry state.store removal emptied = (reply, store) →
      ((Gone setting state name reply store ∧
          ∀ later, Reaches (splitStep shahash servernum) (fun _ event => ∀ source, ¬ Binds event source name)
            { state with store := store, removals := state.removals.eraseIdx slot } later →
          setting.Neither later.store name) ↔
        ¬ (removal.index = setting.cindex ∧ (state.store.find setting.pindex name).isSome)) := by
  have sound := sound_of_reaches ready reached
  refine ⟨sound.removeLookup_held, fun store served => sound.removeLookup_enoent served, ?_⟩
  rintro slot removal emptied reply store slotted rfl file files removed
  -- The read lock is held since the first half, so the bucket found there still serves the name.
  obtain ⟨-, serves⟩ := sound.removals removal (List.mem_of_getElem? slotted) file
  have fewer : ∀ other ∈ state.removals.eraseIdx slot, other ∈ state.removals :=
    fun _ member => List.mem_of_mem_eraseIdx member
  rcases removeEntry_file files with ⟨missing, answered⟩ | answered
  · cases removed.symm.trans answered
    rw [← sound.missing serves missing]
    constructor
    · rintro ⟨⟨-, -, neither⟩ | ⟨⟨⟩, -⟩, -⟩
      exact neither
    · intro neither
      have settled : setting.Sound shahash { state with removals := state.removals.eraseIdx slot } :=
        sound.request sound.contents rfl fewer
      exact ⟨Or.inl ⟨rfl, rfl, neither⟩, fun later still => (settled.stays_gone neither still).2⟩
  · cases removed.symm.trans answered
    rw [← sound.unbound serves]
    constructor
    · rintro ⟨⟨⟨⟩, -⟩ | ⟨-, neither⟩, -⟩
      exact neither
    · intro neither
      have settled : setting.Sound shahash { state with
          store := state.store.unbind removal.index removal.name, removals := state.removals.eraseIdx slot } :=
        sound.request (sound.contents.unbind _ _) (Store.keys_unbind ..) fewer
      exact ⟨Or.inr ⟨rfl, neither⟩, fun later still => (settled.stays_gone neither still).2⟩

end SplitSetting

/-- The file `a` exists, and removing it in the middle of the split fails with `-ENOENT`. -/
theorem late_remove_misses :
    unsplit.Ready allMigrate (unsplitStart crowded) ∧
    ∃ state store, execute (splitStep allMigrate 0) (unsplitStart crowded) [.begin_ true, .makeChild .inPlace 1] =
        some state ∧ state.thread.locked = false ∧ state.store.find 0 ['a'] = some ⟨7, false⟩ ∧
      removeLookup allMigrate 0 state.dir state.store ['a'] = some (.fail .enoent, store) := by
  have runs : (execute (splitStep allMigrate 0) (unsplitStart crowded) [.begin_ true, .makeChild .inPlace 1]).map
      (fun state => (state.thread.locked, state.store.find 0 ['a'],
        (removeLookup allMigrate 0 state.dir state.store ['a']).map (·.1.errnum))) =
      some (false, some ⟨7, false⟩, some (some .enoent)) := by
    rw [opens_unsplitStart overflow_crowded]
    decide +kernel
  obtain ⟨state, executed, observed⟩ := Option.map_eq_some_iff.mp runs
  simp only [Prod.mk.injEq] at observed
  obtain ⟨free, held, answered⟩ := observed
  obtain ⟨⟨reply, store⟩, served, failed⟩ := Option.map_eq_some_iff.mp answered
  cases Reply.errnum_eq_some.mp failed
  exact ⟨ready_unsplitStart _ _, state, store, executed, free, held, served⟩

theorem split_removes_late :
    ∃ state store, execute (splitStep allMigrate 0) (unsplitStart (AList.singleton ['a'] ⟨7, false⟩))
        [.begin_ false, .makeChild .inPlace 1] = some state ∧
      removeLookup allMigrate 0 state.dir state.store ['a'] = some (.fail .enoent, store) ∧
      (unsplit.Neither state.store ['a'] ↔ ¬ unsplit.Diverted allMigrate state ['a']) := by
  have runs : (execute (splitStep allMigrate 0) (unsplitStart (AList.singleton ['a'] ⟨7, false⟩))
      [.begin_ false, .makeChild .inPlace 1]).bind (fun state =>
        (removeLookup allMigrate 0 state.dir state.store ['a']).map (·.1.errnum)) = some (some .enoent) := by
    decide +kernel
  obtain ⟨state, executed, answered⟩ := Option.bind_eq_some_iff.mp runs
  obtain ⟨⟨reply, store⟩, served, failed⟩ := Option.map_eq_some_iff.mp answered
  cases Reply.errnum_eq_some.mp failed
  have reached : Reaches (splitStep allMigrate 0) (fun _ _ => True) _ state :=
    reaches_of_execute executed
  exact ⟨state, store, executed, served,
    (SplitSetting.split_removes (ready_unsplitStart _ _) reached ['a']).2.1 store served⟩

section
variable (shahash : FileName → Digest) (servernum : Nat) (state : SplitState)

/-- The event takes the entry out of the bucket. A rename that fails, or that renames an entry to itself,
does not, nor does a remove that fails. -/
inductive Takes : SplitEvent → Nat → FileName → Prop where
  | rename {index into position : Nat} {name target : FileName} :
      enterBucket shahash servernum state.dir state.store target = some (.ok into) →
      Source.bucket index name ≠ .bucket into target → (state.store.find index name).isSome →
      (state.store.find into target).any Object.isdir = false →
      Takes (.rename (.bucket index name) target position) index name
  | removeEntry {slot : Nat} {emptied : Bool} {removal : Removal} : state.removals[slot]? = some removal →
      (state.store.find removal.index removal.name).any (fun object => !object.isdir || emptied) = true →
      Takes (.removeEntry slot emptied) removal.index removal.name
  | takeAway {index : Nat} {name : FileName} : (state.store.find index name).isSome →
      Takes (.takeAway index name) index name

/-- The event is a rename of another entry over the one in the bucket. -/
inductive Replaces : SplitEvent → Nat → FileName → Prop where
  | rename {source : Source} {index position : Nat} {name : FileName} :
      enterBucket shahash servernum state.dir state.store name = some (.ok index) →
      source ≠ .bucket index name → (source.object state.store).isSome →
      (state.store.find index name).any (fun object => !object.isdir) = true →
      Replaces (.rename source name position) index name

/-- The event neither takes an entry of the name out of a bucket nor puts another one in its place. -/
def Leaves (name : FileName) (event : SplitEvent) : Prop :=
  ∀ index, ¬ Takes shahash servernum state event index name ∧ ¬ Replaces shahash servernum state event index name

variable {shahash servernum state} {event : SplitEvent} {name : FileName}

theorem Binds.takes {index into : Nat} {target : FileName} (binds : Binds event (.bucket index name) target)
    (entered : enterBucket shahash servernum state.dir state.store target = some (.ok into))
    (moves : Source.bucket index name ≠ .bucket into target) (found : (state.store.find index name).isSome)
    (file : (state.store.find into target).any Object.isdir = false) :
    Takes shahash servernum state event index name := by
  cases binds
  exact .rename entered moves found file

theorem not_takes_of_thread (own : event.ofThread = true) {index : Nat} :
    ¬ Takes shahash servernum state event index name := by
  -- The split thread moves entries, but takes none out and replaces none.
  intro takes
  cases takes <;> cases own

theorem leaves_of_thread (own : event.ofThread = true) : Leaves shahash servernum state name event := by
  refine fun index => ⟨not_takes_of_thread own, fun replaces => ?_⟩
  cases replaces
  cases own

end

namespace SplitSetting

variable {servernum : Nat} (setting : SplitSetting servernum) (shahash : FileName → Digest)

def Holds (store : Store) (name : FileName) (object : Object) : Prop :=
  store.find setting.pindex name = some object ∨ store.find setting.cindex name = some object

variable {setting shahash}

theorem Holds.same {store after : Store} {name : FileName} {object : Object} (holds : setting.Holds store name object)
    (same : ∀ index, after.find index name = store.find index name) : setting.Holds after name object := by
  rw [Holds, same, same]
  exact holds

theorem Holds.isSome {store : Store} {name : FileName} {object : Object} (holds : setting.Holds store name object) :
    (store.find setting.pindex name).isSome ∨ (store.find setting.cindex name).isSome := by
  rcases holds with found | found <;> simp [found]

theorem Holds.unopened {state : SplitState} {name : FileName} {object : Object}
    (holds : setting.Holds state.store name object) (sound : setting.Sound shahash state)
    (closed : ¬ setting.Opened state.dir) : state.store.find setting.pindex name = some object :=
  holds.resolve_right fun found => nomatch (sound.contents.unopened closed name).symm.trans found

theorem Holds.move {state : SplitState} {name entry : FileName} {object moved : Object} {position : Nat}
    (holds : setting.Holds state.store name object) (once : setting.Once state.store name)
    (found : state.store.find setting.pindex entry = some moved)
    (present : (state.store.bucket setting.cindex).isSome) :
    setting.Holds ((state.store.unbind setting.pindex entry).bind position setting.cindex entry moved) name object := by
  have kept : ((state.store.unbind setting.pindex entry).bucket setting.cindex).isSome := by
    rw [Store.bucket_isSome, Store.keys_unbind, ← Store.bucket_isSome]
    exact present
  by_cases same : name = entry
  · subst same
    refine Or.inr ?_
    rw [Store.find_bind kept, if_pos ⟨rfl, rfl⟩]
    rcases holds with inParent | inChild
    · exact found.symm.trans inParent
    · exact absurd ⟨by simp [found], by simp [inChild]⟩ once
  · refine holds.same fun index => ?_
    rw [Store.find_bind_of_ne fun both => same both.2, Store.find_unbind, if_neg fun both => same both.2]

theorem Holds.bind {state : SplitState} {event : SplitEvent} {source : Source} {name entry : FileName}
    {index position : Nat} {object bound : Object} (holds : setting.Holds state.store name object)
    (sound : setting.Sound shahash state) (spares : ¬ setting.DuplicatesName shahash state event name)
    (leaves : Leaves shahash servernum state name event) (binds : Binds event source entry)
    (entered : enterBucket shahash servernum state.dir state.store entry = some (.ok index))
    (found : (source.object state.store).isSome) (fresh : event.makes = true → state.store.find index entry = none)
    (moves : source ≠ .bucket index entry) (file : (state.store.find index entry).any Object.isdir = false) :
    setting.Holds ((source.clear state.store).bind position index entry bound) name object := by
  have apart : ∀ place, source ≠ .bucket place name := by
    rintro place rfl
    exact (leaves place).1 (binds.takes entered moves found file)
  by_cases same : name = entry
  · -- The bucket of the name would have been found to hold it, unless the name was diverted.
    subst same
    have missing : state.store.find index name = none := by
      cases held : state.store.find index name with
      | none => rfl
      | some other =>
        cases binds with
        | create | mkdir => exact nomatch (fresh rfl).symm.trans held
        | rename =>
          refine absurd (Replaces.rename entered moves found ?_) (leaves index).2
          rw [held] at file ⊢
          simpa using file
    exfalso
    rcases holds.isSome with inParent | inChild
    · rcases sound.serves_parent (sound.phase.entered entered) inParent with rfl | ⟨rfl, -⟩
      · rw [missing] at inParent
        cases inParent
      · exact spares ⟨source, binds, apart _, found, inParent, entered⟩
    · obtain ⟨rfl, -⟩ := sound.serves_child (sound.phase.entered entered) inChild
      rw [missing] at inChild
      cases inChild
  · refine holds.same fun place => ?_
    rw [Store.find_bind_of_ne fun both => same both.2, source.find_clear (apart place)]

theorem Holds.step {state after : SplitState} {event : SplitEvent} {name : FileName} {object : Object}
    (holds : setting.Holds state.store name object) (sound : setting.Sound shahash state)
    (once : setting.Once state.store name) (spares : ¬ setting.DuplicatesName shahash state event name)
    (leaves : Leaves shahash servernum state name event) (move : SplitMove shahash servernum state event after) :
    setting.Holds after.store name object := by
  cases move with
  | begin_ | decline | mkdirFails | removeFails | readEmpty | readPage | skip | moveFailed | nextPage | endPass
  | lockAgain | finish | answer | removeLookup | removeFailed => exact holds
  | makeMisplaced thread absent =>
    obtain ⟨dir, rfl, rfl⟩ := sound.phase.of_making (.inl thread)
    exact Or.inl (find_made.2.trans (holds.unopened sound (dir ▸ setting.not_opened)))
  | makeInPlace thread absent =>
    obtain ⟨dir, rfl, rfl⟩ := sound.phase.of_making (.inl thread)
    exact Or.inl (find_made.2.trans (holds.unopened sound (dir ▸ setting.not_opened)))
  | dropChild thread =>
    obtain ⟨dir, rfl, rfl⟩ := sound.phase.of_making (.inr thread)
    exact Or.inl (find_dropped.2.trans (holds.unopened sound (dir ▸ setting.not_opened)))
  | move thread status found present =>
    obtain ⟨-, rfl, rfl⟩ := sound.phase.of_working thread rfl
    exact holds.move once found present
  | bind free binds entered found fresh moves file =>
    exact holds.bind sound spares leaves binds entered (Option.isSome_of_eq_some found) fresh moves file
  | removeEntry found gone =>
    refine holds.same fun index => ?_
    rw [Store.find_unbind, if_neg ?_]
    rintro ⟨rfl, rfl⟩
    exact (leaves _).1 (.removeEntry found gone)
  | takeAway =>
    refine holds.same fun index => ?_
    rw [Store.find_unbind]
    split
    · rename_i same
      obtain ⟨rfl, rfl⟩ := same
      by_contra held
      exact (leaves _).1 (.takeAway (Option.isSome_iff_ne_none.mpr (Ne.symm held)))
    · rfl

theorem holds_of_reaches {start created state : SplitState} {name : FileName} {object : Object}
    (ready : setting.Ready shahash start)
    (before : Reaches (splitStep shahash servernum)
      (fun state event => ¬ setting.DuplicatesName shahash state event name) start created)
    (holds : setting.Holds created.store name object)
    (since : Reaches (splitStep shahash servernum)
      (fun state event => ¬ setting.DuplicatesName shahash state event name ∧ Leaves shahash servernum state name event)
      created state) :
    setting.Sound shahash state ∧ setting.Once state.store name ∧ setting.Holds state.store name object := by
  induction since with
  | here =>
    obtain ⟨sound, once⟩ := once_of_reaches ready before
    exact ⟨sound, once, holds⟩
  | next _ allowed stepped ih =>
    obtain ⟨sound, once, held⟩ := ih
    have move := splitStep_move stepped
    exact ⟨sound.step move, once.step sound allowed.1 move, held.step sound once allowed.1 allowed.2 move⟩

section
variable {dir : SkyeDirectory} {store : Store} {name : FileName} {object : Object}
  (table : dir.mapping = setting.mapping) (routes : setting.Routes shahash name setting.pindex)
include table routes

theorem locality_parent : locality shahash servernum dir name = some (.here setting.pindex) := by
  rw [locality_here, table]
  exact ⟨routes, setting.owner⟩

theorem lookup_parent (found : store.find setting.pindex name = some object) :
    lookup shahash servernum dir store name = some (.ok (.object object.handle)) := by
  obtain ⟨bucket, present, -⟩ := Option.bind_eq_some_iff.mp found
  simp [lookup, locality_parent table routes, found, present]

/-- The second try returns the handle of a bucket, if anything. -/
theorem lookup_child (splitting : dir.splittingIndex = some setting.pindex)
    (present : (store.bucket setting.pindex).isSome) (missing : store.find setting.pindex name = none) :
    ∃ reply, lookup shahash servernum dir store name = some reply ∧ reply ≠ .ok (.object object.handle) := by
  obtain ⟨bucket, present⟩ := Option.isSome_iff_exists.mp present
  have child := setting.child
  rw [← table] at child
  simp only [lookup, locality_parent table routes, Option.bind_eq_bind, Option.bind_some, present, missing, splitting,
    if_true, child]
  split <;> exact ⟨_, rfl, by simp⟩

end

/-- A name that exists is found in the middle of the split exactly while its entry is still in the
parent's bucket, and always before the split is open. -/
theorem split_lookups {start created state : SplitState} {name : FileName} {object : Object}
    (ready : setting.Ready shahash start)
    (before : Reaches (splitStep shahash servernum)
      (fun state event => ¬ setting.DuplicatesName shahash state event name) start created)
    (holds : setting.Holds created.store name object)
    (since : Reaches (splitStep shahash servernum)
      (fun state event => ¬ setting.DuplicatesName shahash state event name ∧ Leaves shahash servernum state name event)
      created state) :
    setting.Holds state.store name object ∧
    (state.dir.splittingIndex = some setting.pindex →
      ∃ reply, lookup shahash servernum state.dir state.store name = some reply ∧
        (reply = .ok (.object object.handle) ↔ (state.store.find setting.pindex name).isSome)) ∧
    (¬ setting.Opened state.dir →
      lookup shahash servernum state.dir state.store name = some (.ok (.object object.handle))) := by
  obtain ⟨sound, once, held⟩ := holds_of_reaches ready before holds since
  have routes : setting.Routes shahash name setting.pindex :=
    held.isSome.elim (sound.contents.parent name) fun inChild => (sound.contents.child name inChild).1
  refine ⟨held, fun splitting => ?_, fun closed => ?_⟩
  · have table := sound.phase.table_of_splitting splitting
    cases found : state.store.find setting.pindex name with
    | some entry =>
      have same : entry = object := by
        rcases held with inParent | inChild
        · exact Option.some.inj (found.symm.trans inParent)
        · exact absurd ⟨by simp [found], by simp [inChild]⟩ once
      exact ⟨_, lookup_parent table routes found, by simp [same]⟩
    | none =>
      obtain ⟨reply, served, other⟩ := lookup_child table routes splitting (sound.parent (.inr (.inl splitting))) found
      exact ⟨reply, served, iff_of_false other (by simp)⟩
  · exact lookup_parent (sound.phase.table_of_unopened closed) routes (held.unopened sound closed)

end SplitSetting

/-- The file `n` is created in the middle of the split, which puts it into the child's bucket, and a
lookup of it fails with `-ENOENT`. -/
theorem created_entry_not_found :
    unsplit.Ready allMigrate (unsplitStart crowded) ∧
    ∃ state, execute (splitStep allMigrate 0) (unsplitStart crowded)
        ([.begin_ true, .makeChild .inPlace 1] ++ [.create ['n'] 9 0]) = some state ∧
      state.thread.locked = false ∧ state.store.find 1 ['n'] = some ⟨9, false⟩ ∧
      lookup allMigrate 0 state.dir state.store ['n'] = some (.fail .enoent) := by
  have runs : (execute (splitStep allMigrate 0) (unsplitStart crowded)
      ([.begin_ true, .makeChild .inPlace 1] ++ [.create ['n'] 9 0])).map (fun state =>
        (state.thread.locked, state.store.find 1 ['n'],
          (lookup allMigrate 0 state.dir state.store ['n']).map Reply.errnum)) =
      some (false, some ⟨9, false⟩, some (some .enoent)) := by
    rw [execute_append, opens_unsplitStart overflow_crowded]
    decide +kernel
  obtain ⟨state, executed, observed⟩ := Option.map_eq_some_iff.mp runs
  simp only [Prod.mk.injEq] at observed
  obtain ⟨free, held, answered⟩ := observed
  obtain ⟨reply, served, failed⟩ := Option.map_eq_some_iff.mp answered
  cases Reply.errnum_eq_some.mp failed
  exact ⟨ready_unsplitStart _ _, state, executed, free, held, served⟩

theorem split_lookups_waiting :
    ∃ state reply, execute (splitStep allMigrate 0) (unsplitStart (AList.singleton ['a'] ⟨7, false⟩))
        [.begin_ false, .makeChild .inPlace 1] = some state ∧
      lookup allMigrate 0 state.dir state.store ['a'] = some reply ∧
      (reply = .ok (.object 7) ↔ (state.store.find 0 ['a']).isSome) := by
  have runs : (execute (splitStep allMigrate 0) (unsplitStart (AList.singleton ['a'] ⟨7, false⟩))
      [.begin_ false, .makeChild .inPlace 1]).map (fun state => state.dir.splittingIndex) = some (some 0) := by
    decide +kernel
  obtain ⟨state, executed, splitting⟩ := Option.map_eq_some_iff.mp runs
  have since : Reaches (splitStep allMigrate 0) (fun state event =>
      ¬ unsplit.DuplicatesName allMigrate state event ['a'] ∧ Leaves allMigrate 0 state ['a'] event) _ state :=
    Reaches.of_execute executed (meets_of_forall (fun event member state => by
      fin_cases member <;> exact ⟨SplitSetting.spares_of_unbound nofun, leaves_of_thread rfl⟩) _)
  have holds : unsplit.Holds (unsplitStart (AList.singleton ['a'] ⟨7, false⟩)).store ['a'] ⟨7, false⟩ :=
    Or.inl (by decide +kernel)
  obtain ⟨reply, served, found⟩ :=
    (SplitSetting.split_lookups (ready_unsplitStart _ _) .here holds since).2.1 splitting
  exact ⟨state, reply, executed, served, found⟩

end SkyeFS.Server
