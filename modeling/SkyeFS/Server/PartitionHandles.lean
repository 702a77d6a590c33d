import Mathlib.Data.List.GetD
import SkyeFS.Index.Growth
import SkyeFS.Foundation.Transition

/-! The cache of bucket handles in a cached directory.

`get_partition_handle` keeps the handle of a server's bucket in the slot with the number
of that bucket among the server's. The table is doubled once per call at most, and a
filled slot is never looked up again, although the bucket may be removed and made anew
by a later split.
-/

set_option autoImplicit false

namespace SkyeFS.Server

open Index Foundation

inductive HandleResult where
  -- The slot is not in the table.
  | outOfBounds
  -- The assertion on the lookup.
  | aborts
  | returns (handle : Nat) (partitionHandles : List Nat)
deriving DecidableEq

/-- The reallocation, where the length is `partition_handles_length`. -/
def growHandles (partitionHandles : List Nat) (bucketNumber : Nat) : List Nat :=
  if partitionHandles.length - 1 ≤ bucketNumber then
    partitionHandles ++ List.replicate partitionHandles.length 0
  else partitionHandles

/-- `buckets` gives the handle of every bucket that exists in PVFS. -/
def getPartitionHandle (mapping : GigaMapping) (buckets : Nat → Option Nat) (partitionHandles : List Nat) (index : Nat) :
    HandleResult :=
  let bucketNumber := gigaGetBucketNumForServer mapping index
  let partitionHandles := growHandles partitionHandles bucketNumber
  match partitionHandles[bucketNumber]? with
  | none => .outOfBounds
  | some 0 =>
      match buckets index with
      | none => .aborts
      | some handle => .returns handle (partitionHandles.set bucketNumber handle)
  | some cached => .returns cached partitionHandles

structure HandleState where
  mapping : GigaMapping
  buckets : Nat → Option Nat
  partitionHandles : List Nat

def HandleState.loaded (mapping : GigaMapping) (buckets : Nat → Option Nat) : HandleState :=
  ⟨mapping, buckets, List.replicate (maxBktsPerServer * 2) 0⟩

inductive HandleEvent where
  | getPartitionHandle (index : Nat)
  | removeBucket (index : Nat)
  -- A split makes the bucket and announces it.
  | split (index handle : Nat)

section
variable (servernum : Nat)

def HandleState.Owns (state : HandleState) (index : Nat) : Prop :=
  index ∈ state.mapping.partitions ∧ gigaGetServerForIndex state.mapping index = servernum

instance (state : HandleState) (index : Nat) : Decidable (state.Owns servernum index) :=
  inferInstanceAs (Decidable (_ ∧ _))

/-- Nothing follows an access outside of the table or a failed assertion. -/
def handleStep (state : HandleState) : HandleEvent → Option HandleState
  | .getPartitionHandle index =>
      if state.Owns servernum index then
        match getPartitionHandle state.mapping state.buckets state.partitionHandles index with
        | .returns _ partitionHandles => some { state with partitionHandles }
        | .outOfBounds | .aborts => none
      else none
  | .removeBucket index =>
      if state.Owns servernum index then
        some { state with
          mapping := gigaUpdateMappingRemove state.mapping index
          buckets := Function.update state.buckets index none }
      else none
  | .split index handle =>
      if index < capacity ∧ gigaGetServerForIndex state.mapping index = servernum ∧ state.buckets index = none ∧
          handle ≠ 0 then
        some { state with
          mapping := gigaUpdateMapping state.mapping index
          buckets := Function.update state.buckets index (some handle) }
      else none

/-- Whichever bucket of the server is asked for, its handle is returned. -/
def HandleState.Coherent (state : HandleState) : Prop :=
  ∀ index, state.Owns servernum index → ∃ handle partitionHandles, state.buckets index = some handle ∧
    getPartitionHandle state.mapping state.buckets state.partitionHandles index = .returns handle partitionHandles

/-- A split makes a bucket whose slot the next call can reach, and finds there nothing or what the bucket gets. -/
def SlotFree (state : HandleState) : HandleEvent → Prop
  | .split index handle =>
      gigaGetBucketNumForServer state.mapping index < 2 * state.partitionHandles.length ∧
        state.partitionHandles.getD (gigaGetBucketNumForServer state.mapping index) 0 ∈ [0, handle]
  | .getPartitionHandle _ | .removeBucket _ => True

end

/-! ### One call -/

section
variable {partitionHandles : List Nat} {bucketNumber : Nat}

theorem length_growHandles : partitionHandles.length ≤ (growHandles partitionHandles bucketNumber).length := by
  unfold growHandles
  split <;> simp

theorem getD_growHandles (slot : Nat) :
    (growHandles partitionHandles bucketNumber).getD slot 0 = partitionHandles.getD slot 0 := by
  unfold growHandles
  split
  · rcases lt_or_ge slot partitionHandles.length with inside | behind
    · rw [List.getD_append _ _ _ _ inside]
    · rw [List.getD_append_right _ _ _ _ behind, List.getD_eq_default _ _ behind, List.getD_eq_getElem?_getD,
        List.getElem?_replicate]
      split <;> rfl
  · rfl

theorem lt_length_growHandles :
    bucketNumber < (growHandles partitionHandles bucketNumber).length ↔ bucketNumber < 2 * partitionHandles.length := by
  -- One doubling is enough for slots below twice the length.
  unfold growHandles
  split
  · simp [Nat.two_mul]
  · omega

theorem getElem?_growHandles (inside : bucketNumber < 2 * partitionHandles.length) :
    (growHandles partitionHandles bucketNumber)[bucketNumber]? = some (partitionHandles.getD bucketNumber 0) := by
  have bounded := lt_length_growHandles.mpr inside
  rw [List.getElem?_eq_getElem bounded, ← List.getD_eq_getElem _ 0 bounded, getD_growHandles]

end

section
variable {mapping : GigaMapping} {buckets : Nat → Option Nat} {partitionHandles : List Nat} {index handle : Nat}

theorem getPartitionHandle_outside (outside : ¬ gigaGetBucketNumForServer mapping index < 2 * partitionHandles.length) :
    getPartitionHandle mapping buckets partitionHandles index = .outOfBounds := by
  have missing := List.getElem?_eq_none (Nat.le_of_not_lt (mt lt_length_growHandles.mp outside))
  simp only [getPartitionHandle, missing]

theorem getPartitionHandle_cached (inside : gigaGetBucketNumForServer mapping index < 2 * partitionHandles.length)
    (filled : partitionHandles.getD (gigaGetBucketNumForServer mapping index) 0 ≠ 0) :
    getPartitionHandle mapping buckets partitionHandles index =
      .returns (partitionHandles.getD (gigaGetBucketNumForServer mapping index) 0)
        (growHandles partitionHandles (gigaGetBucketNumForServer mapping index)) := by
  simp only [getPartitionHandle, getElem?_growHandles inside]

theorem getPartitionHandle_lookup (inside : gigaGetBucketNumForServer mapping index < 2 * partitionHandles.length)
    (empty : partitionHandles.getD (gigaGetBucketNumForServer mapping index) 0 = 0) :
    getPartitionHandle mapping buckets partitionHandles index =
      (buckets index).elim .aborts fun handle => .returns handle
        ((growHandles partitionHandles (gigaGetBucketNumForServer mapping index)).set
          (gigaGetBucketNumForServer mapping index) handle) := by
  simp only [getPartitionHandle, getElem?_growHandles inside, empty]
  cases buckets index <;> rfl

/-- The call returns what the bucket has exactly if the slot can be reached and is not taken by something else. -/
theorem getPartitionHandle_iff (exists_ : buckets index = some handle) :
    (∃ returned left, buckets index = some returned ∧
        getPartitionHandle mapping buckets partitionHandles index = .returns returned left) ↔
      gigaGetBucketNumForServer mapping index < 2 * partitionHandles.length ∧
        partitionHandles.getD (gigaGetBucketNumForServer mapping index) 0 ∈ [0, handle] := by
  rw [exists_]
  by_cases inside : gigaGetBucketNumForServer mapping index < 2 * partitionHandles.length
  · by_cases empty : partitionHandles.getD (gigaGetBucketNumForServer mapping index) 0 = 0
    · rw [getPartitionHandle_lookup inside empty, exists_, empty]
      exact iff_of_true ⟨handle, _, rfl, rfl⟩ ⟨inside, by simp⟩
    · rw [getPartitionHandle_cached inside empty]
      rw [List.mem_cons, or_iff_right empty, List.mem_singleton]
      constructor
      · rintro ⟨_, _, same, returned⟩
        cases same
        exact ⟨inside, (HandleResult.returns.inj returned).1⟩
      · rintro ⟨-, same⟩
        exact ⟨handle, _, rfl, by rw [same]⟩
  · rw [getPartitionHandle_outside inside]
    simp [inside]

theorem getPartitionHandle_returns {left : List Nat}
    (called : getPartitionHandle mapping buckets partitionHandles index = .returns handle left) :
    partitionHandles.length ≤ left.length ∧ ∀ slot, left.getD slot 0 =
      if slot = gigaGetBucketNumForServer mapping index then handle else partitionHandles.getD slot 0 := by
  by_cases inside : gigaGetBucketNumForServer mapping index < 2 * partitionHandles.length
  · by_cases empty : partitionHandles.getD (gigaGetBucketNumForServer mapping index) 0 = 0
    · rw [getPartitionHandle_lookup inside empty] at called
      cases found : buckets index with
      | none =>
        rw [found] at called
        cases called
      | some looked =>
        rw [found] at called
        cases called
        refine ⟨length_growHandles.trans (List.length_set).ge, fun slot => ?_⟩
        rw [List.getD_eq_getElem?_getD, List.getElem?_set]
        by_cases same : slot = gigaGetBucketNumForServer mapping index
        · simp [same, lt_length_growHandles.mpr inside]
        · rw [if_neg (Ne.symm same), if_neg same, ← List.getD_eq_getElem?_getD, getD_growHandles]
    · rw [getPartitionHandle_cached inside empty] at called
      cases called
      refine ⟨length_growHandles, fun slot => ?_⟩
      rw [getD_growHandles]
      split
      · rename_i same
        rw [same]
      · rfl
  · rw [getPartitionHandle_outside inside] at called
    cases called

end

/-! ### Runs -/

/-- What does not depend on the cache: the zeroth server is one of the servers, their number is an `int`, and the
buckets in the table exist. -/
structure HandleState.Sound (servernum : Nat) (state : HandleState) : Prop where
  placed : state.mapping.zerothServer < state.mapping.serverCount
  counted : state.mapping.serverCount.toNat < 2 ^ 31
  exist : ∀ index, state.Owns servernum index → ∃ handle, state.buckets index = some handle

def HandleState.Holds (state : HandleState) (index : Nat) : Prop :=
  gigaGetBucketNumForServer state.mapping index < 2 * state.partitionHandles.length ∧
    ∀ handle, state.buckets index = some handle →
      state.partitionHandles.getD (gigaGetBucketNumForServer state.mapping index) 0 ∈ [0, handle]

section
variable {servernum : Nat} {state after : HandleState}

theorem HandleState.Sound.coherent_iff (sound : state.Sound servernum) :
    state.Coherent servernum ↔ ∀ index, state.Owns servernum index → state.Holds index := by
  refine forall₂_congr fun index owned => ?_
  obtain ⟨handle, found⟩ := sound.exist index owned
  rw [getPartitionHandle_iff found, HandleState.Holds]
  refine and_congr_right fun _ => ⟨fun free other same => ?_, fun free => free handle found⟩
  cases found.symm.trans same
  exact free

theorem HandleState.Sound.slot_injective (sound : state.Sound servernum) {first second : Nat} (one : first < capacity)
    (two : second < capacity) (here : gigaGetServerForIndex state.mapping first = servernum)
    (there : gigaGetServerForIndex state.mapping second = servernum)
    (same : gigaGetBucketNumForServer state.mapping first = gigaGetBucketNumForServer state.mapping second) :
    first = second := by
  -- A server has one slot for each of its buckets.
  have placed : state.mapping.zerothServer.toNat < state.mapping.serverCount.toNat := sound.placed
  have counted := sound.counted
  have bound : capacity < 2 ^ 31 := by decide
  have small : capacity ≤ capacity * state.mapping.serverCount.toNat := Nat.le_mul_of_pos_right _ (by omega)
  rw [gigaGetServerForIndex_eq (by omega)] at here there
  rw [gigaGetBucketNumForServer_eq (by omega), gigaGetBucketNumForServer_eq (by omega)] at same
  have inside : servernum < state.mapping.serverCount.toNat := here ▸ Nat.mod_lt _ (by omega)
  exact (bijOn_slots placed inside).injOn ⟨one.trans_le small, here⟩ ⟨two.trans_le small, there⟩ same

theorem owned_lt {index : Nat} (owned : state.Owns servernum index) : index < capacity :=
  (Bitmap.mem_members.mp owned.1).1

inductive HandleMove (servernum : Nat) (state : HandleState) : HandleEvent → HandleState → Prop
  | calls {index handle : Nat} {left : List Nat} (owned : state.Owns servernum index)
      (returned : getPartitionHandle state.mapping state.buckets state.partitionHandles index = .returns handle left) :
      HandleMove servernum state (.getPartitionHandle index) { state with partitionHandles := left }
  | removes {index : Nat} (owned : state.Owns servernum index) :
      HandleMove servernum state (.removeBucket index) { state with
        mapping := gigaUpdateMappingRemove state.mapping index
        buckets := Function.update state.buckets index none }
  | splits {index handle : Nat} (bounded : index < capacity)
      (here : gigaGetServerForIndex state.mapping index = servernum) (missing : state.buckets index = none) :
      HandleMove servernum state (.split index handle) { state with
        mapping := gigaUpdateMapping state.mapping index
        buckets := Function.update state.buckets index (some handle) }

theorem handleStep_move {event : HandleEvent} (stepped : handleStep servernum state event = some after) :
    HandleMove servernum state event after := by
  cases event with
  | getPartitionHandle index =>
    simp only [handleStep] at stepped
    split at stepped
    · rename_i owned
      split at stepped <;> cases stepped
      rename_i returned
      exact .calls owned returned
    · cases stepped
  | removeBucket index =>
    simp only [handleStep] at stepped
    split at stepped <;> cases stepped
    rename_i owned
    exact .removes owned
  | split index handle =>
    simp only [handleStep] at stepped
    split at stepped <;> cases stepped
    rename_i allowed
    exact .splits allowed.1 allowed.2.1 allowed.2.2.1

theorem owns_remove {index other : Nat} (bounded : index < capacity) {buckets : Nat → Option Nat}
    {partitionHandles : List Nat} :
    HandleState.Owns servernum ⟨gigaUpdateMappingRemove state.mapping index, buckets, partitionHandles⟩ other ↔
      other ≠ index ∧ state.Owns servernum other := by
  rw [HandleState.Owns, HandleState.Owns, partitions_remove _ bounded, Finset.mem_erase, and_assoc]
  rfl

theorem owns_split {index other : Nat} (bounded : index < capacity)
    (here : gigaGetServerForIndex state.mapping index = servernum) {buckets : Nat → Option Nat}
    {partitionHandles : List Nat} :
    HandleState.Owns servernum ⟨gigaUpdateMapping state.mapping index, buckets, partitionHandles⟩ other ↔
      other = index ∨ state.Owns servernum other := by
  rw [HandleState.Owns, HandleState.Owns, partitions_update _ bounded, Finset.mem_insert, or_and_right]
  refine or_congr (and_iff_left_of_imp ?_) Iff.rfl
  rintro rfl
  exact here

theorem HandleState.Sound.ne_of_missing {index other : Nat} (sound : state.Sound servernum)
    (owned : state.Owns servernum other) (missing : state.buckets index = none) : other ≠ index := by
  rintro rfl
  obtain ⟨handle, found⟩ := sound.exist other owned
  cases missing.symm.trans found

theorem HandleState.Sound.step {event : HandleEvent} (sound : state.Sound servernum)
    (move : HandleMove servernum state event after) : after.Sound servernum := by
  cases move with
  | calls owned returned => exact ⟨sound.placed, sound.counted, sound.exist⟩
  | removes owned =>
    refine ⟨sound.placed, sound.counted, fun other still => ?_⟩
    obtain ⟨different, before⟩ := (owns_remove (owned_lt owned)).mp still
    exact (sound.exist other before).imp fun _ found => (Function.update_of_ne different _ _).trans found
  | splits bounded here missing =>
    refine ⟨sound.placed, sound.counted, fun other owned => ?_⟩
    rcases (owns_split bounded here).mp owned with rfl | before
    · exact ⟨_, Function.update_self ..⟩
    · have different := sound.ne_of_missing before missing
      exact (sound.exist other before).imp fun _ found => (Function.update_of_ne different _ _).trans found

theorem HandleState.Holds.frame {index : Nat} {mapping : GigaMapping} {buckets : Nat → Option Nat}
    (holds : state.Holds index) (count : mapping.serverCount = state.mapping.serverCount)
    (same : buckets index = state.buckets index) :
    HandleState.Holds ⟨mapping, buckets, state.partitionHandles⟩ index := by
  unfold HandleState.Holds gigaGetBucketNumForServer at holds ⊢
  dsimp only
  rw [count, same]
  exact holds

/-- A step keeps the cache coherent unless it makes a bucket for a slot that is out of reach or taken. -/
theorem coherent_step {event : HandleEvent} (sound : state.Sound servernum) (coherent : state.Coherent servernum)
    (move : HandleMove servernum state event after) : SlotFree state event ↔ after.Coherent servernum := by
  have holds := sound.coherent_iff.mp coherent
  rw [(sound.step move).coherent_iff]
  cases move with
  | @calls index handle left owned returned =>
    refine iff_of_true trivial fun other held => ?_
    obtain ⟨longer, slots⟩ := getPartitionHandle_returns returned
    obtain ⟨inside, free⟩ := holds other held
    refine ⟨inside.trans_le (Nat.mul_le_mul_left 2 longer), fun current found => ?_⟩
    rw [slots]
    split
    · rename_i same
      cases sound.slot_injective (owned_lt held) (owned_lt owned) held.2 owned.2 same
      obtain ⟨_, _, exists_, called⟩ := coherent index owned
      cases returned.symm.trans called
      cases exists_.symm.trans found
      simp
    · exact free current found
  | removes owned =>
    refine iff_of_true trivial fun other still => ?_
    obtain ⟨different, before⟩ := (owns_remove (owned_lt owned)).mp still
    exact (holds other before).frame rfl (Function.update_of_ne different _ _)
  | @splits index handle bounded here missing =>
    constructor
    · intro free other owned
      rcases (owns_split bounded here).mp owned with rfl | before
      · refine ⟨free.1, fun current found => ?_⟩
        cases (Function.update_self ..).symm.trans found
        exact free.2
      · exact (holds other before).frame rfl (Function.update_of_ne (sound.ne_of_missing before missing) _ _)
    · intro free
      obtain ⟨inside, slot⟩ := free index ((owns_split bounded here).mpr (Or.inl rfl))
      exact ⟨inside, slot handle (Function.update_self ..)⟩

/-- From a loaded directory, along any run: every call for a bucket of the server would stay in the table and return the
handle of that bucket, if and only if one doubling reaches the slots of all buckets that were there, and every bucket
that a split makes finds its slot within reach and free. -/
theorem partition_handles_coherent_iff {mapping : GigaMapping} {buckets : Nat → Option Nat} {final : HandleState}
    {events : List HandleEvent} (sound : (HandleState.loaded mapping buckets).Sound servernum)
    (executed : execute (handleStep servernum) (HandleState.loaded mapping buckets) events = some final) :
    Always (handleStep servernum) (HandleState.Coherent servernum) (HandleState.loaded mapping buckets) events ↔
      (∀ index ∈ mapping.partitions, gigaGetServerForIndex mapping index = servernum →
        gigaGetBucketNumForServer mapping index < 2 * (maxBktsPerServer * 2)) ∧
      Meets (handleStep servernum) SlotFree (HandleState.loaded mapping buckets) events := by
  have begun : (HandleState.loaded mapping buckets).Coherent servernum ↔
      ∀ index ∈ mapping.partitions, gigaGetServerForIndex mapping index = servernum →
        gigaGetBucketNumForServer mapping index < 2 * (maxBktsPerServer * 2) := by
    have unfilled (slot : Nat) : (HandleState.loaded mapping buckets).partitionHandles.getD slot 0 = 0 := by
      rw [HandleState.loaded, List.getD_eq_getElem?_getD, List.getElem?_replicate]
      split <;> rfl
    have length : (HandleState.loaded mapping buckets).partitionHandles.length = maxBktsPerServer * 2 :=
      List.length_replicate
    rw [sound.coherent_iff]
    constructor
    · intro holds index member here
      exact length ▸ (holds index ⟨member, here⟩).1
    · rintro reach index ⟨member, here⟩
      exact ⟨length ▸ reach index member here, fun handle _ => (unfilled _).symm ▸ List.mem_cons_self⟩
  have runs (coherent : (HandleState.loaded mapping buckets).Coherent servernum) :=
    always_iff_meets (fun _ _ _ (sound : HandleState.Sound servernum _) stepped => sound.step (handleStep_move stepped))
      (fun _ _ _ sound coherent stepped => coherent_step sound coherent (handleStep_move stepped)) sound coherent executed
  constructor
  · intro always
    exact ⟨begun.mp always.head, (runs always.head).mp always⟩
  · rintro ⟨reach, meets⟩
    exact (runs (begun.mpr reach)).mpr meets

end

instance decidableSlotFree (state : HandleState) : (event : HandleEvent) → Decidable (SlotFree state event)
  | .split _ _ => inferInstanceAs (Decidable (_ ∧ _))
  | .getPartitionHandle _ | .removeBucket _ => .isTrue trivial

/-- A directory on one server with these partitions, whose buckets have the handles from 100 on. -/
def loneDirectory (others : List Nat) : HandleState :=
  .loaded (others.foldl gigaUpdateMapping (gigaInitMapping 0 1))
    fun index => if index ∈ 0 :: others then some (100 + index) else none

/-- The bucket 1 is removed by a directory removal that fails later, and a split makes it anew. -/
def remade : List HandleEvent := [.getPartitionHandle 1, .removeBucket 1, .split 1 200]

/-- A ninth bucket is out of reach, and the bucket that was made anew is taken for the old one. -/
theorem partition_handles_incoherent :
    ((loneDirectory [8]).Owns 0 8 ∧
      getPartitionHandle (loneDirectory [8]).mapping (loneDirectory [8]).buckets (loneDirectory [8]).partitionHandles 8 =
        .outOfBounds) ∧
    ∃ final, execute (handleStep 0) (loneDirectory [1]) remade = some final ∧ final.Owns 0 1 ∧
      final.buckets 1 = some 200 ∧
      getPartitionHandle final.mapping final.buckets final.partitionHandles 1 = .returns 101 final.partitionHandles := by
  refine ⟨by decide +kernel, ?_⟩
  have runs : (execute (handleStep 0) (loneDirectory [1]) remade).map (fun final =>
      (decide (final.Owns 0 1), final.buckets 1,
        decide (getPartitionHandle final.mapping final.buckets final.partitionHandles 1 =
          .returns 101 final.partitionHandles))) = some (true, some 200, true) := by decide +kernel
  obtain ⟨final, executed, observed⟩ := Option.map_eq_some_iff.mp runs
  simp only [Prod.mk.injEq, decide_eq_true_eq] at observed
  exact ⟨final, executed, observed⟩

/-- With a bucket made by a split and asked for afterwards, the cache stays coherent. -/
theorem partition_handles_coherent_split :
    ∃ final, execute (handleStep 0) (loneDirectory []) [.getPartitionHandle 0, .split 1 200, .getPartitionHandle 1] =
        some final ∧
      Always (handleStep 0) (HandleState.Coherent 0) (loneDirectory [])
        [.getPartitionHandle 0, .split 1 200, .getPartitionHandle 1] := by
  have runs : (execute (handleStep 0) (loneDirectory [])
      [.getPartitionHandle 0, .split 1 200, .getPartitionHandle 1]).isSome := by decide +kernel
  obtain ⟨final, executed⟩ := Option.isSome_iff_exists.mp runs
  have only (index : Nat) (member : index ∈ (gigaInitMapping 0 1).partitions) : index = 0 := by
    rwa [partitions_init, Finset.mem_singleton] at member
  have sound : (loneDirectory []).Sound 0 := by
    refine ⟨by decide, by decide, fun index owned => ?_⟩
    cases only index owned.1
    exact ⟨100, rfl⟩
  refine ⟨final, executed, (partition_handles_coherent_iff sound executed).mpr ⟨fun index member _ => ?_, ?_⟩⟩
  · cases only index member
    decide +kernel
  · decide +kernel

end SkyeFS.Server
