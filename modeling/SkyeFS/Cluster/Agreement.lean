import SkyeFS.Cluster.Machine
import SkyeFS.Foundation.SplitProtocol

/-! Servers with stale tables agree on where a name lives.

The cluster without removals refines the split protocol on sets of partitions.
The protocol's coherence then says that a server which accepts a name accepts it
in the partition that all tables together give.
-/

set_option autoImplicit false

namespace SkyeFS.Cluster

open Index Server Foundation Foundation.SuffixTree

section
variable {servers : Nat}

/-- Placement of partitions, which all tables of one directory share. -/
def Owns (mapping : GigaMapping) (server : Fin servers) (index : Nat) : Prop :=
  gigaGetServerForIndex mapping index = server

theorem Owns.unique {mapping : GigaMapping} {first second : Fin servers} {index : Nat}
    (one : Owns mapping first index) (two : Owns mapping second index) : first = second :=
  Fin.ext (one.symm.trans two)

/-- The child that a split thread is about to install, and whether its owner already has it
while the splitting server does not. -/
def SplitThread.pending (mapping : GigaMapping) (server : Fin servers) : SplitThread → Option (Nat × Bool)
  | .idle => none
  | .preparing _ cindex => some (cindex, false)
  | .moving _ cindex => some (cindex, false)
  | .announcing _ cindex => some (cindex, false)
  | .informed _ cindex => some (cindex, gigaGetServerForIndex mapping cindex != server)

/-- The cluster as a state of the split protocol. -/
def System.abstraction (cluster : System servers) (mapping : GigaMapping) :
    SplitProtocol.State (Fin servers) where
  view server := (cluster server).dir.mapping.partitions
  pending server := (cluster server).split.pending mapping server

/-- What each server's tables and split thread satisfy on their own. -/
structure Proper (mapping : GigaMapping) (server : Fin servers) (state : ServerState servers) : Prop where
  valid : state.dir.mapping.Valid
  small : state.dir.mapping.Small
  placement : state.dir.mapping.SamePlacement mapping
  child : ∀ cindex told, state.split.pending mapping server = some (cindex, told) → cindex < 2 ^ (maxRadix - 1)

/-- The events of a run in which nobody removes the directory. -/
def NoRemoval : Event servers → Prop
  | .beginSplit _ _ | .abandonSplit _ | .startMove _ | .lockAgain _ | .bucketAdd _ _ | .finishSplit _ => True
  | .beginRemove _ | .removeLocal _ _ | .callRemove _ _ _ | .bucketRemove _ _ | .endRemove _ => False

instance (event : Event servers) : Decidable (NoRemoval event) :=
  match event with
  | .beginSplit _ _ | .abandonSplit _ | .startMove _ | .lockAgain _ | .bucketAdd _ _ | .finishSplit _ => .isTrue trivial
  | .beginRemove _ | .removeLocal _ _ | .callRemove _ _ _ | .bucketRemove _ _ | .endRemove _ => .isFalse id

/-- Splits into children within the radix bound, and no removals. -/
def SplitsOnly (cluster : System servers) : Event servers → Prop
  | .beginSplit server pindex => ∀ cindex,
      gigaIndexForSplitting (cluster server).dir.mapping pindex = some cindex → cindex < 2 ^ (maxRadix - 1)
  | .abandonSplit _ | .startMove _ | .lockAgain _ | .bucketAdd _ _ | .finishSplit _ => True
  | .beginRemove _ | .removeLocal _ _ | .callRemove _ _ _ | .bucketRemove _ _ | .endRemove _ => False

instance (cluster : System servers) (event : Event servers) : Decidable (SplitsOnly cluster event) :=
  match event with
  | .beginSplit server pindex =>
      match computed : gigaIndexForSplitting (cluster server).dir.mapping pindex with
      | none => .isTrue fun _ impossible => nomatch computed.symm.trans impossible
      | some cindex => decidable_of_iff (cindex < 2 ^ (maxRadix - 1))
          ⟨fun bounded _ same => Option.some.inj (computed.symm.trans same) ▸ bounded,
            fun allowed => allowed cindex computed⟩
  | .abandonSplit _ | .startMove _ | .lockAgain _ | .bucketAdd _ _ | .finishSplit _ => .isTrue trivial
  | .beginRemove _ | .removeLocal _ _ | .callRemove _ _ _ | .bucketRemove _ _ | .endRemove _ => .isFalse id

@[simp]
theorem set_self (cluster : System servers) (server : Fin servers) (state : ServerState servers) :
    cluster.set server state server = state := Function.update_self ..

theorem set_other {cluster : System servers} {server other : Fin servers} {state : ServerState servers}
    (different : other ≠ server) : cluster.set server state other = cluster other :=
  Function.update_of_ne different ..

theorem forall_set (holds : Fin servers → ServerState servers → Prop) {cluster : System servers} {server : Fin servers}
    {state : ServerState servers} (every : ∀ other, holds other (cluster other)) (changed : holds server state)
    (other : Fin servers) : holds other (cluster.set server state other) := by
  by_cases same : other = server
  · subst same
    rw [set_self]
    exact changed
  · rw [set_other same]
    exact every other

theorem proper_set {mapping : GigaMapping} {cluster : System servers} {server : Fin servers}
    {state : ServerState servers} (proper : ∀ other, Proper mapping other (cluster other))
    (changed : Proper mapping server state) (other : Fin servers) :
    Proper mapping other (cluster.set server state other) :=
  forall_set (Proper mapping) proper changed other

theorem abstraction_set (mapping : GigaMapping) (cluster : System servers) (server : Fin servers)
    (state : ServerState servers) :
    (cluster.set server state).abstraction mapping =
      { view := Function.update (cluster.abstraction mapping).view server state.dir.mapping.partitions
        pending := Function.update (cluster.abstraction mapping).pending server
          (state.split.pending mapping server) } := by
  refine SplitProtocol.State.ext ?_ ?_ <;> funext other <;> by_cases same : other = server
  · subst same
    simp [System.abstraction]
  · simp [System.abstraction, set_other same, same]
  · subst same
    simp [System.abstraction]
  · simp [System.abstraction, set_other same, same]

theorem view_self (mapping : GigaMapping) (cluster : System servers) (server : Fin servers) :
    Function.update (cluster.abstraction mapping).view server (cluster server).dir.mapping.partitions =
      (cluster.abstraction mapping).view :=
  Function.update_eq_self ..

/-- The step is one of the split protocol, or leaves the protocol's state as it is. -/
def Refines (mapping : GigaMapping) (cluster after : System servers) : Prop :=
  after.abstraction mapping = cluster.abstraction mapping ∨
    SplitProtocol.Step (Owns mapping) (cluster.abstraction mapping) (after.abstraction mapping)

/-- The tables share one placement, and the children being added fit the array. -/
structure Placed (mapping : GigaMapping) (cluster : System servers) : Prop where
  placement : ∀ server, (cluster server).dir.mapping.SamePlacement mapping
  inside : ∀ server cindex told, (cluster server).split.pending mapping server = some (cindex, told) → cindex < capacity

section
variable {mapping : GigaMapping} {cluster after : System servers} {server : Fin servers}

theorem refines_thread {state : ServerState servers} (same : state.dir.mapping = (cluster server).dir.mapping)
    (pending : state.split.pending mapping server = (cluster server).split.pending mapping server) :
    Refines mapping cluster (cluster.set server state) := by
  left
  rw [abstraction_set, same, pending]
  exact SplitProtocol.State.ext (Function.update_eq_self ..) (Function.update_eq_self ..)

variable (placed : Placed mapping cluster)
include placed

theorem beginSplit_refines {pindex : Nat} (stepped : step cluster (.beginSplit server pindex) = some after) :
    Refines mapping cluster after := by
  obtain ⟨thread, owner, cindex, computed, rfl⟩ := step_beginSplit stepped
  obtain ⟨present, missing, -⟩ := gigaIndexForSplitting_some computed
  obtain ⟨above, positive⟩ := gigaIndexForSplitting_parent computed
  have own : Owns mapping server (parent cindex) := by
    rw [above, Owns, ← (placed.placement server).server]
    exact owner
  right
  rw [abstraction_set, view_self]
  refine .start server cindex ?_ positive (above ▸ present) own missing
  simp [System.abstraction, thread, SplitThread.pending]

omit placed in
theorem abandonSplit_refines (stepped : step cluster (.abandonSplit server) = some after) :
    Refines mapping cluster after := by
  obtain ⟨pindex, cindex, thread, rfl⟩ := step_abandonSplit stepped
  right
  rw [abstraction_set, view_self]
  exact .drop server cindex (by simp [System.abstraction, thread, SplitThread.pending])

omit placed in
theorem startMove_refines (stepped : step cluster (.startMove server) = some after) :
    Refines mapping cluster after := by
  obtain ⟨pindex, cindex, thread, rfl⟩ := step_startMove stepped
  exact refines_thread rfl (by simp [thread, SplitThread.pending])

theorem lockAgain_refines (stepped : step cluster (.lockAgain server) = some after) :
    Refines mapping cluster after := by
  obtain ⟨pindex, cindex, thread, -, ⟨own, rfl⟩ | ⟨-, rfl⟩⟩ := step_lockAgain stepped
  · -- The thread counts as having told the owner, which is the server itself.
    have same := (placed.placement server).server cindex
    exact refines_thread rfl (by simp [thread, SplitThread.pending, ← same, own])
  · exact refines_thread rfl (by simp [thread, SplitThread.pending])

theorem finishSplit_refines (stepped : step cluster (.finishSplit server) = some after) :
    Refines mapping cluster after := by
  obtain ⟨pindex, cindex, thread, rfl⟩ := step_finishSplit stepped
  have inside := placed.inside server cindex _ (by rw [thread]; rfl)
  right
  rw [abstraction_set]
  simp only [partitions_update _ inside]
  refine .finish server cindex (gigaGetServerForIndex mapping cindex != server) ?_ ?_
  · simp [System.abstraction, thread, SplitThread.pending]
  · -- The owner was told before the bit is set, unless it is the splitter.
    intro own
    simpa [Owns] using own

theorem bucketAdd_refines {target : Fin servers} (stepped : step cluster (.bucketAdd server target) = some after) :
    Refines mapping cluster after := by
  obtain ⟨pindex, cindex, thread, -, owner, different, rfl⟩ := step_bucketAdd stepped
  have inside := placed.inside server cindex false (by rw [thread]; rfl)
  rw [(placed.placement server).server] at owner
  have told : (SplitThread.informed pindex cindex).pending mapping server = some (cindex, true) := by
    simp [SplitThread.pending, owner, Fin.val_inj, different.symm]
  right
  rw [abstraction_set, abstraction_set, told, partitions_update _ inside]
  have pending : Function.update
        (Function.update (cluster.abstraction mapping).pending server (some (cindex, true))) target
        ((cluster target).split.pending mapping target) =
      Function.update (cluster.abstraction mapping).pending server (some (cindex, true)) := by
    rw [Function.update_comm different]
    exact congrArg (Function.update · _ _) (Function.update_eq_self ..)
  rw [view_self, pending]
  exact .tell server target cindex (by simp [System.abstraction, thread, SplitThread.pending]) owner

/-- Every step of a run without removals refines the protocol. -/
theorem Placed.refines {event : Event servers} (allowed : NoRemoval event)
    (stepped : step cluster event = some after) : Refines mapping cluster after := by
  cases event with
  | beginSplit server pindex => exact beginSplit_refines placed stepped
  | abandonSplit server => exact abandonSplit_refines stepped
  | startMove server => exact startMove_refines stepped
  | lockAgain server => exact lockAgain_refines placed stepped
  | bucketAdd server target => exact bucketAdd_refines placed stepped
  | finishSplit server => exact finishSplit_refines placed stepped
  | beginRemove | removeLocal | callRemove | bucketRemove | endRemove => exact allowed.elim

end

theorem radix_lt_capacity : 2 ^ (maxRadix - 1) < capacity := by decide

section
variable {mapping : GigaMapping} {server : Fin servers} {state : ServerState servers}
variable (proper : Proper mapping server state)
include proper

theorem Proper.thread (dir : SkyeDirectory) (split : SplitThread) (same : dir.mapping = state.dir.mapping)
    (child : ∀ cindex told, split.pending mapping server = some (cindex, told) → cindex < 2 ^ (maxRadix - 1)) :
    Proper mapping server { state with dir, split } :=
  ⟨same ▸ proper.valid, same ▸ proper.small, same ▸ proper.placement, child⟩

theorem Proper.add {index : Nat} (bounded : index < 2 ^ (maxRadix - 1)) :
    Proper mapping server
      { state with dir := { state.dir with mapping := gigaUpdateMapping state.dir.mapping index } } :=
  ⟨proper.valid.update (bounded.trans radix_lt_capacity), proper.small.update bounded, proper.placement, proper.child⟩

end

section
variable {mapping : GigaMapping} {cluster after : System servers}
variable (proper : ∀ other, Proper mapping other (cluster other))
include proper

theorem placed_of_proper : Placed mapping cluster where
  placement server := (proper server).placement
  inside server cindex told pending := ((proper server).child cindex told pending).trans radix_lt_capacity

theorem proper_step {event : Event servers} (allowed : SplitsOnly cluster event)
    (stepped : step cluster event = some after) (other : Fin servers) : Proper mapping other (after other) := by
  cases event with
  | beginSplit server pindex =>
    obtain ⟨-, -, cindex, computed, rfl⟩ := step_beginSplit stepped
    refine proper_set proper ?_ other
    apply (proper server).thread _ (.preparing _ _) rfl
    rintro _ _ ⟨⟩
    exact allowed cindex computed
  | abandonSplit server =>
    obtain ⟨pindex, cindex, -, rfl⟩ := step_abandonSplit stepped
    refine proper_set proper ?_ other
    apply (proper server).thread _ .idle rfl
    rintro _ _ ⟨⟩
  | startMove server =>
    obtain ⟨pindex, cindex, thread, rfl⟩ := step_startMove stepped
    have bounded := (proper server).child _ false (by rw [thread]; rfl)
    refine proper_set proper ?_ other
    refine (proper server).thread _ (.moving _ _) ?_ ?_
    · rfl
    · rintro _ _ ⟨⟩
      exact bounded
  | lockAgain server =>
    obtain ⟨pindex, cindex, thread, -, ⟨-, rfl⟩ | ⟨-, rfl⟩⟩ := step_lockAgain stepped
    · have bounded := (proper server).child _ false (by rw [thread]; rfl)
      refine proper_set proper ?_ other
      apply (proper server).thread _ (.informed _ _) rfl
      rintro _ _ ⟨⟩
      exact bounded
    · have bounded := (proper server).child _ false (by rw [thread]; rfl)
      refine proper_set proper ?_ other
      apply (proper server).thread _ (.announcing _ _) rfl
      rintro _ _ ⟨⟩
      exact bounded
  | bucketAdd server target =>
    obtain ⟨pindex, cindex, thread, -, -, -, rfl⟩ := step_bucketAdd stepped
    have bounded := (proper server).child cindex false (by rw [thread]; rfl)
    refine proper_set (proper_set proper ?_) ((proper target).add bounded) other
    apply (proper server).thread _ (.informed _ _) rfl
    rintro _ _ ⟨⟩
    exact bounded
  | finishSplit server =>
    obtain ⟨pindex, cindex, thread, rfl⟩ := step_finishSplit stepped
    have bounded := (proper server).child cindex _ (by rw [thread]; rfl)
    refine proper_set proper ?_ other
    refine ((proper server).add bounded).thread _ .idle ?_ ?_
    · rfl
    · rintro _ _ ⟨⟩
  | beginRemove | removeLocal | callRemove | bucketRemove | endRemove => exact allowed.elim

end

theorem SplitsOnly.noRemoval {cluster : System servers} {event : Event servers} (allowed : SplitsOnly cluster event) :
    NoRemoval event := by
  cases event <;> trivial

theorem Refines.view_mono {mapping : GigaMapping} {cluster after : System servers}
    (refines : Refines mapping cluster after) (server : Fin servers) :
    (cluster server).dir.mapping.partitions ⊆ (after server).dir.mapping.partitions := by
  rcases refines with same | moved
  · exact (congrFun (congrArg SplitProtocol.State.view same) server).ge
  · exact moved.view_mono server

/-- What holds in every state of every run of splits. -/
structure Consistent (mapping : GigaMapping) (cluster : System servers) : Prop where
  proper : ∀ server, Proper mapping server (cluster server)
  started : ∀ server, mapping.partitions ⊆ (cluster server).dir.mapping.partitions
  coherent : SplitProtocol.Coherent (Owns mapping) (cluster.abstraction mapping)

theorem consistent_start {mapping : GigaMapping} (valid : mapping.Valid) (small : mapping.Small)
    (closed : ParentClosed mapping.partitions) : Consistent mapping (start mapping : System servers) where
  proper _ := ⟨valid, small, ⟨rfl, rfl⟩, nofun⟩
  started _ := Finset.Subset.refl _
  coherent := SplitProtocol.coherent_initial closed

theorem Consistent.step {mapping : GigaMapping} {cluster after : System servers} {event : Event servers}
    (consistent : Consistent mapping cluster) (allowed : SplitsOnly cluster event)
    (stepped : step cluster event = some after) : Consistent mapping after := by
  have refines := (placed_of_proper consistent.proper).refines allowed.noRemoval stepped
  refine ⟨proper_step consistent.proper allowed stepped,
    fun server => (consistent.started server).trans (refines.view_mono server), ?_⟩
  rcases refines with same | moved
  · rw [same]
    exact consistent.coherent
  · exact consistent.coherent.step Owns.unique moved

theorem consistent_of_reaches {mapping : GigaMapping} (valid : mapping.Valid) (small : mapping.Small)
    (closed : ParentClosed mapping.partitions) {cluster : System servers}
    (reached : Reaches step SplitsOnly (start mapping) cluster) : Consistent mapping cluster :=
  reached.invariant (consistent_start valid small closed) fun _ _ _ before allowed stepped =>
    before.step allowed stepped

theorem mem_merged {mappings : List GigaMapping} {merged : GigaMapping} {index : Nat} :
    index ∈ (mappings.foldl gigaUpdateCache merged).partitions ↔
      index ∈ merged.partitions ∨ ∃ mapping ∈ mappings, index ∈ mapping.partitions := by
  induction mappings generalizing merged with
  | nil => simp
  | cons mapping rest ih => simp [ih, partitions_merge, or_assoc]

theorem valid_merged {mappings : List GigaMapping} {merged : GigaMapping} (valid : merged.Valid)
    (all : ∀ mapping ∈ mappings, mapping.Valid) : (mappings.foldl gigaUpdateCache merged).Valid := by
  induction mappings generalizing merged with
  | nil => exact valid
  | cons mapping rest ih =>
    exact ih (valid.merge (all mapping (by simp))) fun other member => all other (by simp [member])

section
variable {mapping : GigaMapping} {cluster : System servers} (consistent : Consistent mapping cluster)
include consistent

theorem Consistent.union_valid (zerothServer serverCount : UInt32) :
    (cluster.union zerothServer serverCount).Valid := by
  refine valid_merged (valid_init _ _) ?_
  intro merged member
  obtain ⟨server, -, rfl⟩ := List.mem_map.mp member
  exact (consistent.proper server).valid

/-- With at least one server, the merged table holds exactly the partitions some server knows. -/
theorem Consistent.union_partitions (server : Fin servers) (zerothServer serverCount : UInt32) :
    (cluster.union zerothServer serverCount).partitions = (cluster.abstraction mapping).all := by
  ext index
  rw [System.union, mem_merged, partitions_init, Finset.mem_singleton, SplitProtocol.State.mem_all]
  constructor
  · rintro (rfl | ⟨_, member, inside⟩)
    · exact ⟨server, (consistent.proper server).valid.root⟩
    · obtain ⟨other, -, rfl⟩ := List.mem_map.mp member
      exact ⟨other, inside⟩
  · rintro ⟨other, inside⟩
    exact Or.inr ⟨_, List.mem_map.mpr ⟨other, List.mem_finRange other, rfl⟩, inside⟩

theorem Consistent.all_small {index : Nat} (member : index ∈ (cluster.abstraction mapping).all) :
    index < 2 ^ (maxRadix - 1) := by
  obtain ⟨server, inside⟩ := SplitProtocol.State.mem_all.mp member
  exact (consistent.proper server).small index inside

omit consistent in
theorem not_withheld {server : Fin servers} (free : (cluster server).locked = false) :
    ¬ (cluster.abstraction mapping).Withheld server := by
  -- A withheld server holds its write lock.
  rintro ⟨child, pending⟩
  cases thread : (cluster server).split <;>
    simp_all [System.abstraction, SplitThread.pending, ServerState.locked]

variable {Name : Type} {shahash : Name → Digest} {name : Name}

theorem Consistent.accepted {server : Fin servers} {index : Nat} (free : (cluster server).locked = false)
    (accepts : locality shahash server (cluster server).dir name = some (.here index)) :
    Deepest (cluster.abstraction mapping).all (hashNumber shahash name) index := by
  have proper := consistent.proper server
  obtain ⟨computed, own⟩ := locality_here.mp accepts
  obtain ⟨-, deepest⟩ := (gigaGetIndexForFile_eq_some shahash proper.valid).mp computed
  rw [proper.placement.server] at own
  exact consistent.coherent.agrees (not_withheld free) deepest own

end

/-- The index that a ready server computes and owns is the one the union of all bitmaps gives.
Every lookup returns, and at no state do two servers accept one name. -/
theorem routing_agreement {Name : Type} {shahash : Name → Digest} {mapping : GigaMapping}
    (valid : mapping.Valid) (small : mapping.Small)
    (closed : ∀ index ∈ mapping.partitions, 0 < index → getParentIndex index ∈ mapping.partitions)
    {cluster : System servers} (reached : Reaches step SplitsOnly (start mapping) cluster) (name : Name) :
    (∀ server, ∃ index, gigaGetIndexForFile shahash (cluster server).dir.mapping name = some index) ∧
    (∀ server index, (cluster server).locked = false →
      gigaGetIndexForFile shahash (cluster server).dir.mapping name = some index →
      gigaGetServerForIndex (cluster server).dir.mapping index = server →
      gigaGetIndexForFile shahash (cluster.union mapping.zerothServer mapping.serverCount) name = some index) ∧
    (∀ first second one two, (cluster first).locked = false → (cluster second).locked = false →
      locality shahash first (cluster first).dir name = some (.here one) →
      locality shahash second (cluster second).dir name = some (.here two) → first = second) := by
  have parentClosed : ParentClosed mapping.partitions := by
    intro index member positive
    rw [← getParentIndex_eq]
    exact closed index member (Nat.pos_of_ne_zero positive)
  have consistent := consistent_of_reaches valid small parentClosed reached
  refine ⟨?_, ?_, ?_⟩
  · intro server
    exact gigaGetIndexForFile_isSome shahash (consistent.proper server).valid (consistent.proper server).small name
  · intro server index free computed own
    have deepest := consistent.accepted free (locality_here.mpr ⟨computed, own⟩)
    have partitions := consistent.union_partitions server mapping.zerothServer mapping.serverCount
    rw [gigaGetIndexForFile_eq_some shahash (consistent.union_valid _ _), partitions]
    refine ⟨fun other member => ?_, deepest⟩
    rw [partitions] at member
    exact consistent.all_small member
  · intro first second one two freeFirst freeSecond acceptsFirst acceptsSecond
    -- Both computed the deepest partition of the union, and that has one owner.
    have same := (consistent.accepted freeFirst acceptsFirst).unique (consistent.accepted freeSecond acceptsSecond)
    subst same
    have ownFirst := (locality_here.mp acceptsFirst).2
    have ownSecond := (locality_here.mp acceptsSecond).2
    rw [(consistent.proper first).placement.server] at ownFirst
    rw [(consistent.proper second).placement.server] at ownSecond
    exact Owns.unique ownFirst ownSecond

/-- Two servers after the split of partition 0 into partition 1, for a name that ends in 1. -/
theorem routing_agreement_after_split :
    ∃ cluster : System 2,
      execute step (start (gigaInitMapping 0 2))
        [.beginSplit 0 0, .startMove 0, .lockAgain 0, .bucketAdd 0 1, .finishSplit 0] = some cluster ∧
      gigaGetIndexForFile (fun _ : Unit => Vector.replicate 20 1#8) (cluster 1).dir.mapping () = some 1 ∧
      gigaGetIndexForFile (fun _ : Unit => Vector.replicate 20 1#8) (cluster.union 0 2) () = some 1 := by
  have runs : (execute step (start (gigaInitMapping 0 2) : System 2)
      [.beginSplit 0 0, .startMove 0, .lockAgain 0, .bucketAdd 0 1, .finishSplit 0]).isSome := by decide +kernel
  obtain ⟨cluster, executed⟩ := Option.isSome_iff_exists.mp runs
  have reached : Reaches step SplitsOnly (start (gigaInitMapping 0 2)) cluster :=
    Reaches.of_execute executed (by decide +kernel)
  have found : (execute step (start (gigaInitMapping 0 2) : System 2)
      [.beginSplit 0 0, .startMove 0, .lockAgain 0, .bucketAdd 0 1, .finishSplit 0]).map (fun cluster =>
        ((cluster 1).locked, gigaGetIndexForFile (fun _ : Unit => Vector.replicate 20 1#8) (cluster 1).dir.mapping (),
          gigaGetServerForIndex (cluster 1).dir.mapping 1)) = some (false, some 1, 1) := by decide +kernel
  rw [executed] at found
  obtain ⟨free, computed, own⟩ : _ ∧ _ ∧ _ := by simpa using found
  refine ⟨cluster, executed, computed, ?_⟩
  exact (routing_agreement (valid_init 0 2) (small_init 0 2) (closed_init 0 2) reached ()).2.1 1 1 free computed own

end

end SkyeFS.Cluster
