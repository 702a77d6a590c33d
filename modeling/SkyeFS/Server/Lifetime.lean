import SkyeFS.Foundation.Transition
import Mathlib.Algebra.Order.BigOperators.Group.Finset
import Mathlib.Data.Fintype.BigOperators

/-! How long an entry of the directory cache lives, after server/cache.c.

The hash table and every thread that fetched the entry have a reference to it, and who
drops the last one frees it. A thread counts its reference only after it has found the
entry, and nothing keeps the entry in between. `cache_destroy` takes the entry out of the
table while its caller holds the lock for writing, and does not unlock it.
-/

set_option autoImplicit false

namespace SkyeFS.Server

open Foundation

inductive UserPhase where
  | idle
  -- `HASH_FIND` or `new_directory` has returned the entry.
  | found
  -- The reference is counted, and the lock not held.
  | counted
  | holding (write : Bool)
  -- In `cache_return`, after the unlock.
  | unlocked
  -- In `cache_destroy`, after the first decrement.
  | resigned
  -- In `cache_destroy`, after `HASH_DEL`.
  | unhashed
deriving DecidableEq

namespace UserPhase

/-- The references of the thread; after `HASH_DEL` it is the one of the table. -/
def references : UserPhase → Int
  | idle | found | resigned => 0
  | counted | holding _ | unlocked | unhashed => 1

def Excludes (phase : UserPhase) : Prop := phase = holding true ∨ phase = resigned ∨ phase = unhashed

instance (phase : UserPhase) : Decidable phase.Excludes := inferInstanceAs (Decidable (_ ∨ _ ∨ _))

def Locks (phase : UserPhase) : Prop := phase = holding false ∨ phase.Excludes

instance (phase : UserPhase) : Decidable phase.Locks := inferInstanceAs (Decidable (_ ∨ _))

end UserPhase

structure EntryState (threads : Nat) where
  refcount : Int
  inTable : Bool
  freed : Bool
  -- Left locked by a thread that has gone.
  orphaned : Bool
  phases : Fin threads → UserPhase
  -- Memory was used after it had been freed.
  fault : Bool
  -- An assertion failed.
  aborted : Bool

inductive EntryEvent (threads : Nat) where
  | find (thread : Fin threads)
  | count (thread : Fin threads)
  | lock (thread : Fin threads) (write : Bool)
  -- `do_split` gives up the lock for a while.
  | unlock (thread : Fin threads)
  | leave (thread : Fin threads)
  | drop (thread : Fin threads)
  | resign (thread : Fin threads)
  | unhash (thread : Fin threads)
  | dispose (thread : Fin threads)

namespace EntryState

variable {threads : Nat}

def goto (state : EntryState threads) (thread : Fin threads) (phase : UserPhase) : EntryState threads :=
  { state with phases := Function.update state.phases thread phase }

def touch (state : EntryState threads) : EntryState threads := { state with fault := state.fault || state.freed }

def assert (state : EntryState threads) (condition : Bool) : EntryState threads :=
  { state with aborted := state.aborted || !condition }

/-- One reference less, and the last one frees the entry. -/
def release (state : EntryState threads) : EntryState threads :=
  { state with refcount := state.refcount - 1, freed := state.freed || decide (state.refcount - 1 = 0) }

def Lockable (state : EntryState threads) (write : Bool) : Prop :=
  state.orphaned = false ∧ ∀ thread, if write then ¬ (state.phases thread).Locks else ¬ (state.phases thread).Excludes

instance (state : EntryState threads) (write : Bool) : Decidable (state.Lockable write) :=
  inferInstanceAs (Decidable (_ ∧ _))

end EntryState

section
variable {threads : Nat}

/-- One access to the shared entry at a time; an assertion is checked together with the decrement that follows it. -/
def entryStep (state : EntryState threads) : EntryEvent threads → Option (EntryState threads)
  | .find thread =>
      if state.phases thread = .idle ∧ state.inTable then some (state.goto thread .found) else none
  | .count thread =>
      if state.phases thread = .found then
        some { state.touch.goto thread .counted with refcount := state.refcount + 1 }
      else none
  | .lock thread write =>
      if state.phases thread = .counted ∧ state.Lockable write then
        some (state.touch.goto thread (.holding write))
      else none
  | .unlock thread =>
      match state.phases thread with
      | .holding _ => some (state.touch.goto thread .counted)
      | _ => none
  | .leave thread =>
      match state.phases thread with
      | .holding _ => some (state.touch.goto thread .unlocked)
      | _ => none
  | .drop thread =>
      if state.phases thread = .unlocked then
        some ((state.touch.assert (decide (0 < state.refcount))).release.goto thread .idle)
      else none
  | .resign thread =>
      if state.phases thread = .holding true then
        some { (state.touch.assert (decide (1 < state.refcount))).goto thread .resigned with
          refcount := state.refcount - 1 }
      else none
  | .unhash thread =>
      if state.phases thread = .resigned then some { state.touch.goto thread .unhashed with inTable := false } else none
  | .dispose thread =>
      if state.phases thread = .unhashed then
        some { state.touch.release.goto thread .idle with orphaned := true }
      else none

/-- A new entry, which its creator is about to count. -/
def newEntry (creator : Fin threads) : EntryState threads :=
  { refcount := 1, inTable := true, freed := false, orphaned := false
    phases := Function.update (fun _ => .idle) creator .found, fault := false, aborted := false }

/-- No thread counts a reference to an entry that was freed since it found it. -/
def CountsLive (state : EntryState threads) : EntryEvent threads → Prop
  | .count _ => state.freed = false
  | _ => True

instance (state : EntryState threads) (event : EntryEvent threads) : Decidable (CountsLive state event) := by
  cases event <;> unfold CountsLive <;> infer_instance

/-! ### While references are counted in time -/

def tableReferences : Bool → Int
  | true => 1
  | false => 0

def heldBy (phases : Fin threads → UserPhase) : Int := ∑ thread, (phases thread).references

/-- Nobody else has a lock that is held for writing. -/
def Exclusive (phases : Fin threads → UserPhase) : Prop :=
  ∀ thread other, (phases thread).Excludes → (phases other).Locks → other = thread

structure EntryState.Sound (state : EntryState threads) : Prop where
  balance : state.refcount = tableReferences state.inTable + heldBy state.phases
  exclusive : Exclusive state.phases
  orphan : state.orphaned = true → ∀ thread, ¬ (state.phases thread).Locks
  removed : state.inTable = false ↔ state.orphaned = true ∨ ∃ thread, state.phases thread = .unhashed
  freed : state.freed = true ↔ state.refcount = 0
  safe : state.fault = false
  upheld : state.aborted = false

theorem tableReferences_nonneg (inTable : Bool) : 0 ≤ tableReferences inTable := by
  cases inTable <;> decide

theorem references_nonneg (phase : UserPhase) : 0 ≤ phase.references := by
  cases phase <;> simp [UserPhase.references]

variable {phases : Fin threads → UserPhase} {thread : Fin threads} {phase : UserPhase}

theorem heldBy_update (phases : Fin threads → UserPhase) (thread : Fin threads) (phase : UserPhase) :
    heldBy (Function.update phases thread phase) =
      heldBy phases - (phases thread).references + phase.references := by
  have split := Finset.sum_eq_add_sum_sdiff_singleton_of_mem (Finset.mem_univ thread) fun other => (phases other).references
  have moved := Finset.sum_update_of_mem (Finset.mem_univ thread) (fun other => (phases other).references)
    phase.references
  have same : ∀ other, (Function.update phases thread phase other).references =
      Function.update (fun other => (phases other).references) thread phase.references other := by
    intro other
    simp only [Function.update_apply]
    split <;> rfl
  unfold heldBy
  rw [Finset.sum_congr rfl fun other _ => same other, moved, split]
  omega

theorem heldBy_nonneg (phases : Fin threads → UserPhase) : 0 ≤ heldBy phases :=
  Finset.sum_nonneg fun other _ => references_nonneg (phases other)

theorem references_le_heldBy (phases : Fin threads → UserPhase) (thread : Fin threads) :
    (phases thread).references ≤ heldBy phases :=
  Finset.single_le_sum (fun other _ => references_nonneg (phases other)) (Finset.mem_univ thread)

theorem Exclusive.update (exclusive : Exclusive phases) (excludes : phase.Excludes → (phases thread).Excludes)
    (locks : phase.Locks → (phases thread).Locks) : Exclusive (Function.update phases thread phase) := by
  have excluding : ∀ other, (Function.update phases thread phase other).Excludes → (phases other).Excludes := by
    intro other
    rw [Function.update_apply]
    split
    case isTrue same => exact same ▸ excludes
    case isFalse => exact id
  have locking : ∀ other, (Function.update phases thread phase other).Locks → (phases other).Locks := by
    intro other
    rw [Function.update_apply]
    split
    case isTrue same => exact same ▸ locks
    case isFalse => exact id
  intro first other held locked
  exact exclusive first other (excluding first held) (locking other locked)

theorem Exclusive.unlock (exclusive : Exclusive phases) (unlocked : ¬ phase.Locks) :
    Exclusive (Function.update phases thread phase) :=
  exclusive.update (fun held => absurd (Or.inr held) unlocked) (fun held => absurd held unlocked)

theorem exclusive_lock {write : Bool}
    (free : ∀ other, if write then ¬ (phases other).Locks else ¬ (phases other).Excludes) :
    Exclusive (Function.update phases thread (.holding write)) := by
  intro first other held locked
  rw [Function.update_apply] at held locked
  cases write with
  | true =>
    have none_ : ∀ other, ¬ (phases other).Locks := free
    split at held
    case isFalse => exact absurd (Or.inr held) (none_ first)
    case isTrue first_ =>
      split at locked
      case isFalse => exact absurd locked (none_ other)
      case isTrue other_ => exact other_.trans first_.symm
  | false =>
    have none_ : ∀ other, ¬ (phases other).Excludes := free
    split at held
    case isFalse => exact absurd held (none_ first)
    case isTrue => exact absurd held (by decide)

theorem no_locks_update (none_ : ∀ other, ¬ (phases other).Locks) (unlocked : ¬ phase.Locks) :
    ∀ other, ¬ (Function.update phases thread phase other).Locks := by
  intro other
  rw [Function.update_apply]
  split
  case isTrue => exact unlocked
  case isFalse => exact none_ other

theorem unhashed_update (before : phases thread ≠ .unhashed) (after : phase ≠ .unhashed) :
    (∃ other, Function.update phases thread phase other = .unhashed) ↔ ∃ other, phases other = .unhashed := by
  constructor
  · rintro ⟨other, taken⟩
    rw [Function.update_apply] at taken
    split at taken
    case isTrue => exact absurd taken after
    case isFalse => exact ⟨other, taken⟩
  · rintro ⟨other, taken⟩
    have apart : other ≠ thread := by
      rintro rfl
      exact before taken
    exact ⟨other, by rw [Function.update_of_ne apart, taken]⟩

namespace EntryState.Sound

variable {state : EntryState threads}

theorem live (sound : state.Sound) (counted : 0 < state.refcount) : state.freed = false := by
  -- Where there is a reference left, the entry has not been freed.
  cases gone : state.freed with
  | false => rfl
  | true =>
    have none_ := sound.freed.mp gone
    omega

theorem refcount_nonneg (sound : state.Sound) : 0 ≤ state.refcount := by
  have held := heldBy_nonneg state.phases
  have table := tableReferences_nonneg state.inTable
  have total := sound.balance
  omega

theorem counted_of_references (sound : state.Sound) (one : (state.phases thread).references = 1) :
    0 < state.refcount := by
  have part := references_le_heldBy state.phases thread
  have total := sound.balance
  have table := tableReferences_nonneg state.inTable
  omega

theorem counted_of_listed (sound : state.Sound) (listed : state.inTable = true) : 0 < state.refcount := by
  have held := heldBy_nonneg state.phases
  have total := sound.balance
  rw [listed] at total
  simp only [tableReferences] at total
  omega

theorem listed (sound : state.Sound) (locks : (state.phases thread).Locks)
    (unfinished : state.phases thread ≠ .unhashed) : state.inTable = true := by
  -- The lock is held only as long as the entry is in the table, or by the thread that took it out.
  cases listed : state.inTable with
  | true => rfl
  | false =>
    rcases sound.removed.mp listed with left | ⟨other, taker⟩
    · exact absurd locks (sound.orphan left thread)
    · have same := sound.exclusive other thread (Or.inr (Or.inr taker)) locks
      exact absurd (same ▸ taker) unfinished

theorem touch_eq (live : state.freed = false) : state.touch = state := by
  cases state
  cases live
  simp [EntryState.touch]

theorem move (sound : state.Sound) (references : phase.references = (state.phases thread).references)
    (unlocked : ¬ phase.Locks) (before : state.phases thread ≠ .unhashed) : (state.goto thread phase).Sound where
  balance := by
    dsimp only [EntryState.goto]
    rw [heldBy_update, sound.balance, references, Int.sub_add_cancel]
  exclusive := sound.exclusive.unlock unlocked
  orphan left := no_locks_update (sound.orphan left) unlocked
  removed := by
    have after : phase ≠ .unhashed := by
      rintro rfl
      exact unlocked (by decide)
    dsimp only [EntryState.goto]
    rw [unhashed_update before after]
    exact sound.removed
  freed := sound.freed
  safe := sound.safe
  upheld := sound.upheld

theorem count (sound : state.Sound) (found : state.phases thread = .found) (live : state.freed = false) :
    EntryState.Sound { state.goto thread .counted with refcount := state.refcount + 1 } where
  balance := by
    dsimp only [EntryState.goto]
    rw [heldBy_update, sound.balance, found]
    simp only [UserPhase.references]
    omega
  exclusive := sound.exclusive.unlock (by decide)
  orphan left := no_locks_update (sound.orphan left) (by decide)
  removed := by
    dsimp only [EntryState.goto]
    rw [unhashed_update (by rw [found]; decide) (by decide)]
    exact sound.removed
  freed := by
    have some_ := sound.refcount_nonneg
    dsimp only [EntryState.goto]
    rw [live]
    exact iff_of_false (by decide) (by omega)
  safe := sound.safe
  upheld := sound.upheld

theorem lock (sound : state.Sound) (counted : state.phases thread = .counted) {write : Bool}
    (lockable : state.Lockable write) : (state.goto thread (.holding write)).Sound where
  balance := by
    dsimp only [EntryState.goto]
    rw [heldBy_update, sound.balance, counted]
    simp only [UserPhase.references]
    omega
  exclusive := exclusive_lock lockable.2
  orphan left := by
    dsimp only [EntryState.goto] at left
    rw [lockable.1] at left
    cases left
  removed := by
    dsimp only [EntryState.goto]
    rw [unhashed_update (by rw [counted]; decide) (by cases write <;> decide)]
    exact sound.removed
  freed := sound.freed
  safe := sound.safe
  upheld := sound.upheld

theorem drop (sound : state.Sound) (unlocked : state.phases thread = .unlocked) :
    ((state.assert (decide (0 < state.refcount))).release.goto thread .idle).Sound where
  balance := by
    dsimp only [EntryState.goto, EntryState.release, EntryState.assert]
    rw [heldBy_update, sound.balance, unlocked]
    simp only [UserPhase.references]
    omega
  exclusive := sound.exclusive.unlock (by decide)
  orphan left := no_locks_update (sound.orphan left) (by decide)
  removed := by
    dsimp only [EntryState.goto, EntryState.release, EntryState.assert]
    rw [unhashed_update (by rw [unlocked]; decide) (by decide)]
    exact sound.removed
  freed := by
    dsimp only [EntryState.goto, EntryState.release, EntryState.assert]
    rw [sound.live (sound.counted_of_references (by rw [unlocked]; rfl)), Bool.false_or]
    exact decide_eq_true_iff
  safe := sound.safe
  upheld := by
    dsimp only [EntryState.goto, EntryState.release, EntryState.assert]
    rw [sound.upheld, decide_eq_true (sound.counted_of_references (by rw [unlocked]; rfl))]
    rfl

theorem resign (sound : state.Sound) (holding : state.phases thread = .holding true) :
    EntryState.Sound { (state.assert (decide (1 < state.refcount))).goto thread .resigned with
      refcount := state.refcount - 1 } := by
  have locks : (state.phases thread).Locks := by
    rw [holding]
    decide
  have listed : state.inTable = true := sound.listed locks (by rw [holding]; decide)
  have part : (state.phases thread).references ≤ heldBy state.phases := references_le_heldBy state.phases thread
  have total := sound.balance
  rw [holding] at part
  rw [listed] at total
  simp only [UserPhase.references, tableReferences] at part total
  have more : 1 < state.refcount := by omega
  refine ⟨?_, ?_, ?_, ?_, ?_, sound.safe, ?_⟩
  · dsimp only [EntryState.goto, EntryState.assert]
    rw [heldBy_update, sound.balance, holding]
    simp only [UserPhase.references]
    omega
  · apply sound.exclusive.update
    · intro _
      rw [holding]
      decide
    · exact fun _ => locks
  · intro left
    exact absurd locks (sound.orphan left thread)
  · dsimp only [EntryState.goto, EntryState.assert]
    rw [unhashed_update (by rw [holding]; decide) (by decide)]
    exact sound.removed
  · dsimp only [EntryState.goto, EntryState.assert]
    rw [sound.live (by omega)]
    exact iff_of_false (by decide) (by omega)
  · dsimp only [EntryState.goto, EntryState.assert]
    rw [sound.upheld, decide_eq_true more]
    rfl

theorem unhash (sound : state.Sound) (resigned : state.phases thread = .resigned) :
    EntryState.Sound { state.goto thread .unhashed with inTable := false } := by
  have locks : (state.phases thread).Locks := by
    rw [resigned]
    decide
  have listed : state.inTable = true := sound.listed locks (by rw [resigned]; decide)
  refine ⟨?_, ?_, ?_, ?_, sound.freed, sound.safe, sound.upheld⟩
  · dsimp only [EntryState.goto]
    rw [heldBy_update, sound.balance, resigned, listed]
    simp only [UserPhase.references, tableReferences]
    omega
  · apply sound.exclusive.update
    · intro _
      rw [resigned]
      decide
    · exact fun _ => locks
  · intro left
    exact absurd locks (sound.orphan left thread)
  · exact iff_of_true rfl (Or.inr ⟨thread, Function.update_self _ _ _⟩)

theorem dispose (sound : state.Sound) (unhashed : state.phases thread = .unhashed) :
    EntryState.Sound { state.release.goto thread .idle with orphaned := true } := by
  have excludes : (state.phases thread).Excludes := by
    rw [unhashed]
    decide
  have removed : state.inTable = false := sound.removed.mpr (Or.inr ⟨thread, unhashed⟩)
  have live := sound.live (sound.counted_of_references (by rw [unhashed]; rfl))
  refine ⟨?_, sound.exclusive.unlock (by decide), ?_, ?_, ?_, sound.safe, sound.upheld⟩
  · dsimp only [EntryState.goto, EntryState.release]
    rw [heldBy_update, sound.balance, unhashed]
    simp only [UserPhase.references]
    omega
  · intro _ other
    dsimp only [EntryState.goto]
    rw [Function.update_apply]
    split
    case isTrue => decide
    case isFalse apart => exact fun locked => apart (sound.exclusive thread other excludes locked)
  · exact iff_of_true removed (Or.inl rfl)
  · dsimp only [EntryState.goto, EntryState.release]
    rw [live, Bool.false_or]
    exact decide_eq_true_iff

theorem step (sound : state.Sound) {event : EntryEvent threads} (countsLive : CountsLive state event)
    {after : EntryState threads} (stepped : entryStep state event = some after) : after.Sound := by
  -- Whoever has a reference of its own finds the entry alive.
  have used : ∀ thread, (state.phases thread).references = 1 → state.touch = state :=
    fun thread one => touch_eq (sound.live (sound.counted_of_references one))
  cases event with
  | find thread =>
    obtain ⟨⟨idle, -⟩, ⟨⟩⟩ := Option.ite_none_right_eq_some.mp stepped
    exact sound.move (by rw [idle]; rfl) (by decide) (by rw [idle]; decide)
  | count thread =>
    obtain ⟨found, ⟨⟩⟩ := Option.ite_none_right_eq_some.mp stepped
    rw [touch_eq countsLive]
    exact sound.count found countsLive
  | lock thread write =>
    obtain ⟨⟨counted, lockable⟩, ⟨⟩⟩ := Option.ite_none_right_eq_some.mp stepped
    rw [used thread (by rw [counted]; rfl)]
    exact sound.lock counted lockable
  | unlock thread =>
    simp only [entryStep] at stepped
    split at stepped
    case h_1 write holding =>
      cases stepped
      rw [used thread (by rw [holding]; rfl)]
      exact sound.move (by rw [holding]; rfl) (by decide) (by rw [holding]; nofun)
    case h_2 => cases stepped
  | leave thread =>
    simp only [entryStep] at stepped
    split at stepped
    case h_1 write holding =>
      cases stepped
      rw [used thread (by rw [holding]; rfl)]
      exact sound.move (by rw [holding]; rfl) (by decide) (by rw [holding]; nofun)
    case h_2 => cases stepped
  | drop thread =>
    obtain ⟨unlocked, ⟨⟩⟩ := Option.ite_none_right_eq_some.mp stepped
    rw [used thread (by rw [unlocked]; rfl)]
    exact sound.drop unlocked
  | resign thread =>
    obtain ⟨holding, ⟨⟩⟩ := Option.ite_none_right_eq_some.mp stepped
    rw [used thread (by rw [holding]; rfl)]
    exact sound.resign holding
  | unhash thread =>
    obtain ⟨resigned, ⟨⟩⟩ := Option.ite_none_right_eq_some.mp stepped
    rw [touch_eq (sound.live (sound.counted_of_listed (sound.listed (by rw [resigned]; decide) (by rw [resigned]; decide))))]
    exact sound.unhash resigned
  | dispose thread =>
    obtain ⟨unhashed, ⟨⟩⟩ := Option.ite_none_right_eq_some.mp stepped
    rw [used thread (by rw [unhashed]; rfl)]
    exact sound.dispose unhashed

theorem newEntry (creator : Fin threads) : (newEntry creator).Sound where
  balance := by
    dsimp only [Server.newEntry]
    rw [heldBy_update]
    simp [heldBy, UserPhase.references, tableReferences]
  exclusive := Exclusive.unlock (fun first other held => absurd held (by decide)) (by decide)
  orphan left := nomatch left
  removed := by
    apply iff_of_false nofun
    rintro (left | ⟨thread, taken⟩)
    · cases left
    · dsimp only [Server.newEntry] at taken
      rw [Function.update_apply] at taken
      split at taken <;> cases taken
  freed := iff_of_false nofun Int.one_ne_zero
  safe := rfl
  upheld := rfl

end EntryState.Sound

theorem fault_kept {state after : EntryState threads} {event : EntryEvent threads}
    (stepped : entryStep state event = some after) (fault : state.fault = true) : after.fault = true := by
  have touched : state.touch.fault = true := by
    dsimp only [EntryState.touch]
    rw [fault, Bool.true_or]
  cases event with
  | find thread =>
    obtain ⟨-, ⟨⟩⟩ := Option.ite_none_right_eq_some.mp stepped
    exact fault
  | unlock thread | leave thread =>
    simp only [entryStep] at stepped
    split at stepped <;> cases stepped
    exact touched
  | _ =>
    obtain ⟨-, ⟨⟩⟩ := Option.ite_none_right_eq_some.mp stepped
    exact touched

/-- A reference that is counted too late is written into freed memory. -/
theorem fault_of_count {state after : EntryState threads} {event : EntryEvent threads}
    (late : ¬ CountsLive state event) (stepped : entryStep state event = some after) : after.fault = true := by
  cases event with
  | count thread =>
    obtain ⟨-, ⟨⟩⟩ := Option.ite_none_right_eq_some.mp stepped
    have gone : state.freed = true := Bool.eq_true_of_not_eq_false late
    dsimp only [EntryState.goto, EntryState.touch]
    rw [gone, Bool.or_true]
  | _ => exact absurd trivial late

theorem meets_of_safe {state final : EntryState threads} {events : List (EntryEvent threads)}
    (ran : execute entryStep state events = some final) (safe : final.fault = false) :
    state.fault = false ∧ Meets entryStep CountsLive state events := by
  -- Without a fault at the end of a run there was none on the way, and so no late count.
  induction events generalizing state with
  | nil =>
    cases ran
    exact ⟨safe, trivial⟩
  | cons event rest ih =>
    obtain ⟨after, stepped, remaining⟩ := Option.bind_eq_some_iff.mp ran
    obtain ⟨unharmed, later⟩ := ih remaining
    refine ⟨?_, ?_, ?_⟩
    · apply Bool.eq_false_iff.mpr
      intro fault
      exact Bool.eq_false_iff.mp unharmed (fault_kept stepped fault)
    · by_contra late
      exact Bool.eq_false_iff.mp unharmed (fault_of_count late stepped)
    · intro other same
      cases Option.some.inj (stepped.symm.trans same)
      exact later

theorem EntryState.Sound.run {state final : EntryState threads} {events : List (EntryEvent threads)}
    (sound : state.Sound) (ran : execute entryStep state events = some final)
    (meets : Meets entryStep CountsLive state events) : final.Sound :=
  (Reaches.of_execute ran meets).invariant sound fun _ _ _ before countsLive stepped => before.step countsLive stepped

/-- The entry is freed when it is out of the table and nobody has a reference. -/
theorem EntryState.Sound.freed_iff {state : EntryState threads} (sound : state.Sound) :
    state.freed = true ↔ state.inTable = false ∧ ∀ thread, (state.phases thread).references = 0 := by
  have total := sound.balance
  have held := heldBy_nonneg state.phases
  rw [sound.freed]
  constructor
  · intro none_
    cases listed : state.inTable with
    | true =>
      have counted := sound.counted_of_listed listed
      omega
    | false =>
      refine ⟨rfl, fun thread => ?_⟩
      have part := references_le_heldBy state.phases thread
      have some_ := references_nonneg (state.phases thread)
      rw [listed] at total
      simp only [tableReferences] at total
      omega
  · rintro ⟨unlisted, none_⟩
    rw [total, unlisted, heldBy, Finset.sum_eq_zero fun thread _ => none_ thread]
    rfl

/-- A thread finds the entry while another one destroys it. -/
def lateCount (destroyer finder : Fin threads) : List (EntryEvent threads) :=
  [.count destroyer, .lock destroyer true, .resign destroyer, .find finder, .unhash destroyer, .dispose destroyer,
    .count finder]

namespace EntryState

/-- A thread is in `cache_destroy`, or has been. -/
def Destroyed (state : EntryState threads) : Prop :=
  state.orphaned = true ∨ ∃ thread, state.phases thread = .resigned ∨ state.phases thread = .unhashed

instance (state : EntryState threads) : Decidable state.Destroyed := inferInstanceAs (Decidable (_ ∨ _))

/-- The lock that `cache_destroy` was entered with is never given back. -/
theorem Destroyed.not_lockable {state : EntryState threads} (destroyed : state.Destroyed) (write : Bool) :
    ¬ state.Lockable write := by
  rintro ⟨kept, free⟩
  rcases destroyed with left | ⟨thread, inside⟩
  · rw [left] at kept
    cases kept
  · have excludes : (state.phases thread).Excludes := Or.inr inside
    have refused := free thread
    cases write with
    | true => exact refused (Or.inr excludes)
    | false => exact refused excludes

end EntryState

def EntryEvent.actor : EntryEvent threads → Fin threads
  | find thread | count thread | lock thread _ | unlock thread | leave thread | drop thread | resign thread
  | unhash thread | dispose thread => thread

/-- What a step does about the lock: only its own thread moves, a waiting one only if it gets the lock, and one in
`cache_destroy` only towards its end. -/
theorem entryStep_moves {state after : EntryState threads} {event : EntryEvent threads}
    (stepped : entryStep state event = some after) :
    (∃ phase, after.phases = Function.update state.phases event.actor phase ∧
        (state.phases event.actor = .resigned → phase = .unhashed)) ∧
      (state.orphaned = true → after.orphaned = true) ∧
      (state.phases event.actor = .counted → ∃ write, state.Lockable write) ∧
      (state.phases event.actor = .unhashed → after.orphaned = true) := by
  have other {before : UserPhase} (is : state.phases event.actor = before) {phase : UserPhase}
      (differs : before ≠ phase) {conclusion : Prop} (same : state.phases event.actor = phase) : conclusion :=
    absurd (is.symm.trans same) differs
  cases event with
  | find thread =>
    obtain ⟨⟨idle, -⟩, ⟨⟩⟩ := Option.ite_none_right_eq_some.mp stepped
    exact ⟨⟨_, rfl, other idle (by decide)⟩, id, other idle (by decide), other idle (by decide)⟩
  | count thread =>
    obtain ⟨found, ⟨⟩⟩ := Option.ite_none_right_eq_some.mp stepped
    exact ⟨⟨_, rfl, other found (by decide)⟩, id, other found (by decide), other found (by decide)⟩
  | lock thread write =>
    obtain ⟨⟨counted, lockable⟩, ⟨⟩⟩ := Option.ite_none_right_eq_some.mp stepped
    exact ⟨⟨_, rfl, other counted (by decide)⟩, id, fun _ => ⟨write, lockable⟩, other counted (by decide)⟩
  | unlock thread | leave thread =>
    simp only [entryStep] at stepped
    split at stepped
    case h_1 write holding =>
      cases stepped
      exact ⟨⟨_, rfl, other holding (by nofun)⟩, id, other holding (by nofun), other holding (by nofun)⟩
    case h_2 => cases stepped
  | drop thread =>
    obtain ⟨unlocked, ⟨⟩⟩ := Option.ite_none_right_eq_some.mp stepped
    exact ⟨⟨_, rfl, other unlocked (by decide)⟩, id, other unlocked (by decide), other unlocked (by decide)⟩
  | resign thread =>
    obtain ⟨holding, ⟨⟩⟩ := Option.ite_none_right_eq_some.mp stepped
    exact ⟨⟨_, rfl, other holding (by decide)⟩, id, other holding (by decide), other holding (by decide)⟩
  | unhash thread =>
    obtain ⟨resigned, ⟨⟩⟩ := Option.ite_none_right_eq_some.mp stepped
    exact ⟨⟨_, rfl, fun _ => rfl⟩, id, other resigned (by decide), other resigned (by decide)⟩
  | dispose thread =>
    obtain ⟨unhashed, ⟨⟩⟩ := Option.ite_none_right_eq_some.mp stepped
    exact ⟨⟨_, rfl, other unhashed (by decide)⟩, fun _ => rfl, other unhashed (by decide), fun _ => rfl⟩

namespace EntryState.Destroyed

variable {state after : EntryState threads} {event : EntryEvent threads}

theorem step (destroyed : state.Destroyed) (stepped : entryStep state event = some after) : after.Destroyed := by
  obtain ⟨⟨phase, phases, onwards⟩, orphaned, -, disposed⟩ := entryStep_moves stepped
  rcases destroyed with left | ⟨thread, inside⟩
  · exact Or.inl (orphaned left)
  by_cases acts : thread = event.actor
  · subst acts
    rcases inside with resigned | unhashed
    · refine Or.inr ⟨event.actor, Or.inr ?_⟩
      rw [phases, Function.update_self, onwards resigned]
    · exact Or.inl (disposed unhashed)
  · refine Or.inr ⟨thread, ?_⟩
    rw [phases, Function.update_of_ne acts]
    exact inside

theorem waits (destroyed : state.Destroyed) (counted : state.phases thread = .counted)
    (stepped : entryStep state event = some after) : after.phases thread = .counted := by
  obtain ⟨⟨phase, phases, -⟩, -, acquires, -⟩ := entryStep_moves stepped
  have passive : thread ≠ event.actor := by
    rintro rfl
    obtain ⟨write, lockable⟩ := acquires counted
    exact destroyed.not_lockable write lockable
  rw [phases, Function.update_of_ne passive]
  exact counted

end EntryState.Destroyed

/-- The thread waits for the lock of an entry that is being destroyed. -/
def EntryState.Stranded (waiter : Fin threads) (state : EntryState threads) : Prop :=
  state.Sound ∧ state.Destroyed ∧ state.phases waiter = .counted

/-- Whoever waits for the lock when the entry is destroyed waits for ever, and its reference keeps the entry from being
freed. -/
theorem destroyed_entry_waits {creator waiter : Fin threads} {events more : List (EntryEvent threads)}
    {state later : EntryState threads} (ran : execute entryStep (newEntry creator) events = some state)
    (safe : state.fault = false) (destroyed : state.Destroyed) (counted : state.phases waiter = .counted)
    (continued : execute entryStep state more = some later) :
    later.phases waiter = .counted ∧ later.freed = false ∧ later.fault = false := by
  have sound : state.Sound := (EntryState.Sound.newEntry creator).run ran (meets_of_safe ran safe).2
  -- The counted reference keeps the entry alive, so that nobody counts too late from here on.
  have preserved : ∀ before event after, before.Stranded waiter → True → entryStep before event = some after →
      after.Stranded waiter := by
    rintro before event after ⟨sound, destroyed, counted⟩ - stepped
    have live := sound.live (sound.counted_of_references (by rw [counted]; rfl))
    have countsLive : CountsLive before event := by
      cases event <;> first | exact live | trivial
    exact ⟨sound.step countsLive stepped, destroyed.step stepped, destroyed.waits counted stepped⟩
  have begun : state.Stranded waiter := ⟨sound, destroyed, counted⟩
  obtain ⟨sound, -, counted⟩ := (reaches_of_execute continued).invariant begun preserved
  exact ⟨counted, sound.live (sound.counted_of_references (by rw [counted]; rfl)), sound.safe⟩

/-- A thread counts its reference before another one gets the lock and begins to destroy the entry. -/
def lateLock (destroyer finder : Fin threads) : List (EntryEvent threads) :=
  [.count destroyer, .find finder, .count finder, .lock destroyer true, .resign destroyer]

theorem destroyed_entry_waits_after_count :
    ∃ state later, execute entryStep (newEntry (0 : Fin 2)) (lateLock 0 1) = some state ∧
      execute entryStep state [.unhash 0, .dispose 0] = some later ∧
      later.phases 1 = .counted ∧ later.freed = false ∧ later.inTable = false := by
  have ran := Option.some_get (show (execute entryStep (newEntry (0 : Fin 2)) (lateLock 0 1)).isSome = true by decide)
  have continued := Option.some_get (show (execute entryStep
    ((execute entryStep (newEntry (0 : Fin 2)) (lateLock 0 1)).get (by decide)) [.unhash 0, .dispose 0]).isSome = true by decide)
  have counted : ((execute entryStep (newEntry (0 : Fin 2)) (lateLock 0 1)).get (by decide)).phases 1 = .counted := by decide
  obtain ⟨waits, leaked, -⟩ := destroyed_entry_waits ran.symm (by decide) (by decide) counted continued.symm
  exact ⟨_, _, ran.symm, continued.symm, waits, leaked, by decide⟩

end

end SkyeFS.Server
