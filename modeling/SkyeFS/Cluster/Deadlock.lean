import SkyeFS.Cluster.Machine
import SkyeFS.Foundation.WaitGraph

/-! Servers that wait for each other.

`do_split` and `remove_all_buckets` call another server while they hold the write
lock of the directory, and the callee needs its own write lock to answer. A cycle
of such calls never ends, and can come up between two splits. It cannot if calls do
not overlap. If the number of servers is a power of two, the announcements of splits
may overlap: a child is then placed on its parent's server, or on one that owns larger
partitions only.
-/

set_option autoImplicit false

namespace SkyeFS.Cluster

open Index Server Foundation Relation

section
variable {servers : Nat}

/-- The RPC whose reply a server waits for with its write lock held. -/
def ServerState.WaitsFor (state : ServerState servers) (target : Fin servers) : Prop :=
  (∃ pindex cindex, state.split = .announcing pindex cindex ∧
    gigaGetServerForIndex state.dir.mapping cindex = target) ∨
  ∃ index, state.remove = .calling target index

def Waits (cluster : System servers) (server target : Fin servers) : Prop := (cluster server).WaitsFor target

def Waiting (cluster : System servers) : Prop := ∃ server target, Waits cluster server target

def Removing (cluster : System servers) : Prop :=
  ∃ server target index, (cluster server).remove = .calling target index

/-- A call is made only while no call waits for its reply. With a power of two of servers, a split may be
announced while other splits are. -/
def Spaced (mapping : GigaMapping) (cluster : System servers) : Event servers → Prop
  | .lockAgain server =>
      match (cluster server).split with
      | .moving _ cindex => gigaGetServerForIndex (cluster server).dir.mapping cindex = server ∨ ¬ Waiting cluster ∨
          mapping.serverCount.toNat.isPowerOfTwo ∧ ¬ Removing cluster
      | _ => True
  | .callRemove _ _ _ => ¬ Waiting cluster
  | _ => True

theorem locked_of_waitsFor {state : ServerState servers} {target : Fin servers} (waits : state.WaitsFor target) :
    state.locked = true := by
  rcases waits with ⟨pindex, cindex, thread, -⟩ | ⟨index, handler⟩
  · simp [ServerState.locked, thread]
  · cases thread : state.split <;> simp [ServerState.locked, thread, handler]

theorem waits_set {cluster : System servers} {server first second : Fin servers} {state : ServerState servers} :
    Waits (cluster.set server state) first second ↔
      if first = server then state.WaitsFor second else Waits cluster first second := by
  unfold Waits System.set
  by_cases same : first = server
  · subst same
    simp
  · simp [same]

/-! ### Placement on a power of two of servers -/

/-- The smallest partition of a server. -/
def rank (mapping : GigaMapping) (server : Nat) : Nat :=
  (server + (mapping.serverCount.toNat - mapping.zerothServer.toNat % mapping.serverCount.toNat)) %
    mapping.serverCount.toNat

section
variable {mapping : GigaMapping} (power : mapping.serverCount.toNat.isPowerOfTwo)
include power

theorem gigaGetServerForIndex_power (index : Nat) : gigaGetServerForIndex mapping index =
    (index + mapping.zerothServer.toNat) % mapping.serverCount.toNat := by
  obtain ⟨exponent, count⟩ := power
  -- A power of two below 2^32 divides it, so that 32-bit addition does not show.
  have small : exponent ≤ 32 := by
    by_contra large
    have less : 2 ^ 32 < 2 ^ exponent := Nat.pow_lt_pow_right (by decide) (by omega)
    have bound := mapping.serverCount.toNat_lt
    omega
  have divides : mapping.serverCount.toNat ∣ 2 ^ 32 := count ▸ Nat.pow_dvd_pow 2 small
  simp only [gigaGetServerForIndex, UInt32.toNat_mod, UInt32.toNat_add, UInt32.toNat_ofNat']
  rw [Nat.mod_mod_of_dvd _ divides, Nat.add_mod, Nat.mod_mod_of_dvd _ divides, ← Nat.add_mod]

theorem rank_server (index : Nat) :
    rank mapping (gigaGetServerForIndex mapping index) = index % mapping.serverCount.toNat := by
  have positive : 0 < mapping.serverCount.toNat := by
    obtain ⟨exponent, count⟩ := power
    rw [count]
    exact Nat.two_pow_pos exponent
  rw [rank, gigaGetServerForIndex_power power, Nat.mod_add_mod]
  have whole := Nat.div_add_mod mapping.zerothServer.toNat mapping.serverCount.toNat
  have less := Nat.mod_lt mapping.zerothServer.toNat positive
  have split : index + mapping.zerothServer.toNat +
      (mapping.serverCount.toNat - mapping.zerothServer.toNat % mapping.serverCount.toNat) =
      index + mapping.serverCount.toNat * (mapping.zerothServer.toNat / mapping.serverCount.toNat + 1) := by
    rw [Nat.mul_add, Nat.mul_one]
    omega
  rw [split, Nat.add_mul_mod_self_left]

/-- A child is on its parent's server, or on one of a higher rank. -/
theorem rank_child {pindex radix : Nat} (below : pindex < 2 ^ radix)
    (foreign : gigaGetServerForIndex mapping (pindex + 2 ^ radix) ≠ gigaGetServerForIndex mapping pindex) :
    rank mapping (gigaGetServerForIndex mapping pindex) <
      rank mapping (gigaGetServerForIndex mapping (pindex + 2 ^ radix)) := by
  rw [rank_server power, rank_server power]
  rw [gigaGetServerForIndex_power power, gigaGetServerForIndex_power power] at foreign
  obtain ⟨exponent, count⟩ := power
  rw [count] at foreign ⊢
  have shallow : radix < exponent := by
    by_contra deep
    obtain ⟨factor, multiple⟩ := Nat.pow_dvd_pow 2 (not_lt.mp deep)
    refine foreign ?_
    rw [multiple, Nat.add_right_comm, Nat.add_mul_mod_self_left]
  have room : 2 ^ (radix + 1) ≤ 2 ^ exponent := Nat.pow_le_pow_right (by decide) shallow
  rw [Nat.pow_succ] at room
  rw [Nat.mod_eq_of_lt (by omega), Nat.mod_eq_of_lt (by omega)]
  omega

end

/-! ### What a call adds -/

/-- What a server knows of the split that it is at. -/
structure Calls (mapping : GigaMapping) (server : Fin servers) (state : ServerState servers) : Prop where
  placement : state.dir.mapping.SamePlacement mapping
  child : ∀ pindex cindex, state.split = .preparing pindex cindex ∨ state.split = .moving pindex cindex ∨
      state.split = .announcing pindex cindex →
    gigaGetServerForIndex mapping pindex = server ∧ ∃ radix, pindex < 2 ^ radix ∧ cindex = pindex + 2 ^ radix
  other : ∀ target, state.WaitsFor target → target ≠ server

structure Ordered (mapping : GigaMapping) (cluster : System servers) : Prop where
  calls : ∀ server, Calls mapping server (cluster server)
  spaced : (∀ first second third fourth, Waits cluster first second → Waits cluster third fourth →
      first = third ∧ second = fourth) ∨
    mapping.serverCount.toNat.isPowerOfTwo ∧ ¬ Removing cluster

section
variable {mapping : GigaMapping} {cluster after : System servers} {server : Fin servers}

theorem Ordered.acyclic (ordered : Ordered mapping cluster) : ¬ WaitGraph.Cyclic (Waits cluster) := by
  rcases ordered.spaced with single | ⟨power, quiet⟩
  · exact WaitGraph.not_cyclic_of_single single fun node edge => (ordered.calls node).other node edge rfl
  · refine WaitGraph.not_cyclic_of_rank (fun server => rank mapping server) fun first second edge => ?_
    have foreign := (ordered.calls first).other second edge
    obtain ⟨placement, child, -⟩ := ordered.calls first
    rcases edge with ⟨pindex, cindex, thread, callee⟩ | ⟨index, handler⟩
    · obtain ⟨caller, radix, below, rfl⟩ := child pindex cindex (.inr (.inr thread))
      rw [placement.server] at callee
      have rises := rank_child power below (by rw [callee, caller]; exact fun same => foreign (Fin.ext same))
      rwa [callee, caller] at rises
    · exact absurd ⟨first, second, index, handler⟩ quiet

theorem Ordered.calls_set {state : ServerState servers} (ordered : Ordered mapping cluster)
    (calls : Calls mapping server state) (other : Fin servers) :
    Calls mapping other (cluster.set server state other) := by
  by_cases same : other = server
  · subst same
    rw [System.set, Function.update_self]
    exact calls
  · rw [System.set, Function.update_of_ne same]
    exact ordered.calls other

theorem removing_set {state : ServerState servers}
    (quieter : ∀ target index, state.remove = .calling target index →
      (cluster server).remove = .calling target index) (removing : Removing (cluster.set server state)) :
    Removing cluster := by
  obtain ⟨other, target, index, handler⟩ := removing
  by_cases same : other = server
  · subst same
    rw [System.set, Function.update_self] at handler
    exact ⟨other, target, index, quieter _ _ handler⟩
  · rw [System.set, Function.update_of_ne same] at handler
    exact ⟨other, target, index, handler⟩

theorem removing_split {dir : SkyeDirectory} {thread : SplitThread}
    (removing : Removing (cluster.set server { cluster server with dir, split := thread })) : Removing cluster := by
  refine removing_set ?_ removing
  exact fun _ _ same => same

theorem Ordered.set {state : ServerState servers} (ordered : Ordered mapping cluster)
    (calls : Calls mapping server state)
    (fewer : ∀ target, state.WaitsFor target → (cluster server).WaitsFor target)
    (quieter : ∀ target index, state.remove = .calling target index →
      (cluster server).remove = .calling target index) : Ordered mapping (cluster.set server state) := by
  have waits : ∀ first second, Waits (cluster.set server state) first second → Waits cluster first second := by
    intro first second edge
    rw [waits_set] at edge
    split at edge
    · rename_i same
      exact same ▸ fewer second edge
    · exact edge
  refine ⟨ordered.calls_set calls, ordered.spaced.imp (fun single _ _ _ _ one two => single _ _ _ _ (waits _ _ one)
    (waits _ _ two)) fun both => ⟨both.1, ?_⟩⟩
  exact fun removing => both.2 (removing_set quieter removing)

theorem Ordered.split (ordered : Ordered mapping cluster) {dir : SkyeDirectory} {thread : SplitThread}
    (placement : dir.mapping.SamePlacement mapping)
    (child : ∀ pindex cindex, thread = .preparing pindex cindex ∨ thread = .moving pindex cindex →
      gigaGetServerForIndex mapping pindex = server ∧ ∃ radix, pindex < 2 ^ radix ∧ cindex = pindex + 2 ^ radix)
    (quiet : ∀ pindex cindex, thread ≠ .announcing pindex cindex) :
    Ordered mapping (cluster.set server { cluster server with dir, split := thread }) := by
  have fewer : ∀ target, { cluster server with dir, split := thread }.WaitsFor target →
      (cluster server).WaitsFor target := by
    rintro target (⟨pindex, cindex, announcing, -⟩ | calling)
    · exact absurd announcing (quiet pindex cindex)
    · exact Or.inr calling
  refine ordered.set ⟨placement, ?_, fun target waits => (ordered.calls server).other target (fewer target waits)⟩
    fewer fun _ _ same => same
  rintro pindex cindex (preparing | moving | announcing)
  · exact child _ _ (.inl preparing)
  · exact child _ _ (.inr moving)
  · exact absurd announcing (quiet _ _)

theorem Ordered.handler (ordered : Ordered mapping cluster) {dir : SkyeDirectory} {handler : RemoveHandler servers}
    (placement : dir.mapping.SamePlacement (cluster server).dir.mapping)
    (quiet : ∀ target index, handler ≠ .calling target index) :
    Ordered mapping (cluster.set server { cluster server with dir, remove := handler }) := by
  -- A handler that is not calling waits for nobody, and an unchanged placement leaves the thread its callee.
  have fewer : ∀ target, { cluster server with dir, remove := handler }.WaitsFor target →
      (cluster server).WaitsFor target := by
    rintro target (⟨pindex, cindex, announcing, callee⟩ | ⟨index, calling⟩)
    · exact Or.inl ⟨pindex, cindex, announcing, (placement.server cindex).symm.trans callee⟩
    · exact absurd calling (quiet target index)
  obtain ⟨same, child, other⟩ := ordered.calls server
  exact ordered.set ⟨placement.trans same, child, fun target waits => other target (fewer target waits)⟩ fewer
    fun target index calling => absurd calling (quiet target index)

theorem Ordered.alone {state : ServerState servers} (ordered : Ordered mapping cluster)
    (calls : Calls mapping server state) (idle : ¬ Waiting cluster)
    (only : ∀ first second, state.WaitsFor first → state.WaitsFor second → first = second) :
    Ordered mapping (cluster.set server state) := by
  have edges : ∀ first second, Waits (cluster.set server state) first second →
      first = server ∧ state.WaitsFor second := by
    intro first second edge
    rw [waits_set] at edge
    split at edge
    · rename_i same
      exact ⟨same, edge⟩
    · exact absurd ⟨first, second, edge⟩ idle
  refine ⟨ordered.calls_set calls, Or.inl fun first second third fourth one two => ?_⟩
  obtain ⟨caller, before⟩ := edges _ _ one
  obtain ⟨same, after⟩ := edges _ _ two
  exact ⟨caller.trans same.symm, only _ _ before after⟩

theorem Ordered.callee {here : ServerState servers} {target : Fin servers} {dir : SkyeDirectory}
    (answered : Ordered mapping (cluster.set server here)) (different : server ≠ target)
    (free : (cluster target).locked = false) (placement : dir.mapping.SamePlacement (cluster target).dir.mapping) :
    Ordered mapping ((cluster.set server here).set target { cluster target with dir }) := by
  -- A callee has its lock free when it answers, so it waits for nobody.
  have same : cluster.set server here target = cluster target := Function.update_of_ne different.symm _ _
  obtain ⟨table, child, -⟩ := answered.calls target
  rw [same] at table child
  have idle : ∀ second, ¬ { cluster target with dir }.WaitsFor second := fun second waits =>
    absurd ((locked_of_waitsFor waits).symm.trans free) (by decide)
  refine answered.set ⟨placement.trans table, child, fun second waits => absurd waits (idle second)⟩
    (fun second waits => absurd waits (idle second)) fun _ _ calling => ?_
  rw [same]
  exact calling

theorem Ordered.lockAgain (ordered : Ordered mapping cluster) (spaced : Spaced mapping cluster (.lockAgain server))
    (stepped : step cluster (.lockAgain server) = some after) : Ordered mapping after := by
  obtain ⟨placement, child, other⟩ := ordered.calls server
  obtain ⟨pindex, cindex, thread, free, ⟨own, rfl⟩ | ⟨foreign, rfl⟩⟩ := step_lockAgain stepped
  · -- The child stays on this server: no call is made.
    exact ordered.split placement (by simp) (by simp)
  · rw [Spaced, thread] at spaced
    -- The lock was free, so the server waited for nobody.
    have idle : ∀ second, ¬ (cluster server).WaitsFor second := fun second waits => by
      simp [locked_of_waitsFor waits] at free
    have only : ∀ second : Fin servers, { cluster server with split := .announcing pindex cindex }.WaitsFor second →
        gigaGetServerForIndex (cluster server).dir.mapping cindex = second := by
      rintro second (⟨_, _, announcing, callee⟩ | handler)
      · cases announcing
        exact callee
      · exact absurd (Or.inr handler) (idle second)
    have calls : Calls mapping server { cluster server with split := .announcing pindex cindex } := by
      refine ⟨placement, ?_, fun second waits same => foreign (same ▸ only second waits)⟩
      rintro _ _ (preparing | moving | announcing)
      · cases preparing
      · cases moving
      · cases announcing
        exact child pindex cindex (.inr (.inl thread))
    rcases spaced.resolve_left foreign with quiet | ⟨power, quiet⟩
    · refine ordered.alone calls quiet fun first second one two => Fin.ext ?_
      rw [← only first one, only second two]
    · refine ⟨ordered.calls_set calls, Or.inr ⟨power, fun removing => quiet ?_⟩⟩
      exact removing_split removing

theorem Ordered.callRemove {target : Fin servers} {index : Nat} (ordered : Ordered mapping cluster)
    (idle : ¬ Waiting cluster) (stepped : step cluster (.callRemove server target index) = some after) :
    Ordered mapping after := by
  obtain ⟨placement, child, other⟩ := ordered.calls server
  cases handler : (cluster server).remove <;> simp only [step, handler, reduceCtorEq] at stepped
  split at stepped <;> cases stepped
  rename_i guard
  have only : ∀ second, { cluster server with remove := .calling target index }.WaitsFor second → second = target := by
    rintro second (announcing | ⟨_, calling⟩)
    · exact absurd ⟨server, second, Or.inl announcing⟩ idle
    · cases calling
      rfl
  refine ordered.alone ⟨placement, child, fun second waits => ?_⟩ idle fun first second one two =>
    (only first one).trans (only second two).symm
  rw [only second waits]
  exact guard.2.2

theorem Ordered.step {event : Event servers} (ordered : Ordered mapping cluster)
    (spaced : Spaced mapping cluster event) (stepped : Cluster.step cluster event = some after) :
    Ordered mapping after := by
  -- Only two events begin a call; the others end one or make none.
  cases event with
  | lockAgain server => exact ordered.lockAgain spaced stepped
  | callRemove server target index => exact ordered.callRemove spaced stepped
  | beginSplit server pindex =>
    obtain ⟨placement, -, -⟩ := ordered.calls server
    obtain ⟨-, own, cindex, chosen, rfl⟩ := step_beginSplit stepped
    refine ordered.split placement ?_ (by simp)
    rintro _ _ (preparing | moving)
    · cases preparing
      obtain ⟨-, -, radix, low, -, same, -⟩ := gigaIndexForSplitting_some chosen
      exact ⟨(placement.server _).symm.trans own, radix, SuffixTree.depth_le_iff.mp low, same⟩
    · cases moving
  | abandonSplit server =>
    obtain ⟨pindex, cindex, -, rfl⟩ := step_abandonSplit stepped
    exact ordered.split (ordered.calls server).placement (by simp) (by simp)
  | startMove server =>
    obtain ⟨placement, child, -⟩ := ordered.calls server
    obtain ⟨pindex, cindex, thread, rfl⟩ := step_startMove stepped
    refine ordered.split placement ?_ (by simp)
    rintro _ _ (preparing | moving)
    · cases preparing
    · cases moving
      exact child pindex cindex (.inl thread)
  | finishSplit server =>
    obtain ⟨pindex, cindex, -, rfl⟩ := step_finishSplit stepped
    exact ordered.split (ordered.calls server).placement (by simp) (by simp)
  | bucketAdd server target =>
    obtain ⟨pindex, cindex, -, free, -, different, rfl⟩ := step_bucketAdd stepped
    have informed : Ordered mapping (cluster.set server { cluster server with split := .informed pindex cindex }) :=
      ordered.split (ordered.calls server).placement (by simp) (by simp)
    exact informed.callee different free ⟨rfl, rfl⟩
  | beginRemove server =>
    simp only [Cluster.step] at stepped
    split at stepped <;> cases stepped
    exact ordered.handler ⟨rfl, rfl⟩ (by simp)
  | removeLocal server index =>
    cases handler : (cluster server).remove <;> simp only [Cluster.step, handler, reduceCtorEq] at stepped
    split at stepped <;> cases stepped
    exact ordered.handler ⟨rfl, rfl⟩ (by simp)
  | bucketRemove server success =>
    cases handler : (cluster server).remove <;> simp only [Cluster.step, handler, reduceCtorEq] at stepped
    split at stepped <;> cases stepped
    rename_i free
    have answered : Ordered mapping (cluster.set server { cluster server with remove := .holding }) :=
      ordered.handler ⟨rfl, rfl⟩ (by simp)
    split
    · refine answered.callee ?_ free ⟨rfl, rfl⟩
      rintro rfl
      cases thread : (cluster server).split <;> simp [ServerState.locked, thread, handler] at free
    · exact answered
  | endRemove server =>
    cases handler : (cluster server).remove <;> simp only [Cluster.step, handler, reduceCtorEq] at stepped
    cases stepped
    exact ordered.handler ⟨rfl, rfl⟩ (by simp)

end

theorem start_ordered (mapping : GigaMapping) : Ordered mapping (start mapping : System servers) := by
  have silent : ∀ first second, ¬ Waits (start mapping : System servers) first second := by
    rintro first second (⟨_, _, thread, -⟩ | ⟨_, handler⟩)
    · cases thread
    · cases handler
  refine ⟨fun server => ⟨⟨rfl, rfl⟩, ?_, fun target waits => absurd waits (silent _ _)⟩,
    Or.inl fun _ _ _ _ edge => absurd edge (silent _ _)⟩
  rintro pindex cindex (thread | thread | thread) <;> cases thread

theorem removing_of_step {cluster after : System servers} {event : Event servers}
    (stepped : step cluster event = some after)
    (split : ∀ server target index, event ≠ .callRemove server target index) (removing : Removing after) :
    Removing cluster := by
  cases event with
  | callRemove server target index => exact absurd rfl (split server target index)
  | beginSplit server pindex =>
    obtain ⟨-, -, _, -, rfl⟩ := step_beginSplit stepped
    exact removing_split removing
  | abandonSplit server =>
    obtain ⟨_, _, -, rfl⟩ := step_abandonSplit stepped
    exact removing_split removing
  | startMove server =>
    obtain ⟨_, _, -, rfl⟩ := step_startMove stepped
    exact removing_split removing
  | lockAgain server =>
    obtain ⟨_, _, -, -, ⟨-, rfl⟩ | ⟨-, rfl⟩⟩ := step_lockAgain stepped
    · exact removing_split removing
    · exact removing_split removing
  | bucketAdd server target =>
    obtain ⟨_, _, -, -, -, different, rfl⟩ := step_bucketAdd stepped
    have same : ∀ here, cluster.set server here target = cluster target :=
      fun here => Function.update_of_ne different.symm _ _
    refine removing_split (removing_set (fun _ _ calling => ?_) removing)
    rw [same]
    exact calling
  | finishSplit server =>
    obtain ⟨_, _, -, rfl⟩ := step_finishSplit stepped
    exact removing_split removing
  | beginRemove server =>
    simp only [step] at stepped
    split at stepped <;> cases stepped
    exact removing_set (by simp) removing
  | removeLocal server index =>
    cases handler : (cluster server).remove <;> simp only [step, handler, reduceCtorEq] at stepped
    split at stepped <;> cases stepped
    exact removing_set (fun _ _ same => by simp at same) removing
  | bucketRemove server success =>
    cases handler : (cluster server).remove with
    | calling target index => exact ⟨server, target, index, handler⟩
    | _ => simp [step, handler] at stepped
  | endRemove server =>
    cases handler : (cluster server).remove <;> simp only [step, handler, reduceCtorEq] at stepped
    cases stepped
    exact removing_set (by simp) removing

theorem spaced_of_splits {mapping : GigaMapping} (power : mapping.serverCount.toNat.isPowerOfTwo)
    {events : List (Event servers)} (splits : ∀ server target index, Event.callRemove server target index ∉ events)
    {cluster : System servers} (quiet : ¬ Removing cluster) : Meets step (Spaced mapping) cluster events := by
  induction events generalizing cluster with
  | nil => trivial
  | cons event rest ih =>
    simp only [List.mem_cons, not_or] at splits
    refine ⟨?_, fun after stepped => ih (fun server target index => (splits server target index).2) fun removing =>
      quiet (removing_of_step stepped (fun server target index => (splits server target index).1 ∘ Eq.symm) removing)⟩
    cases event with
    | lockAgain server =>
      rw [Spaced]
      split
      · exact Or.inr (Or.inr ⟨power, quiet⟩)
      · trivial
    | callRemove server target index => exact absurd rfl (splits server target index).1
    | _ => trivial

/-- No state of a run has a cycle of servers that wait for each other if no two calls of it overlap. With
a power of two of servers, splits may call as they like while no `rmdir` calls. -/
theorem deadlock_free_of_spaced (mapping : GigaMapping) (events : List (Event servers)) :
    (Meets step (Spaced mapping) (start mapping) events →
      Always step (fun cluster => ¬ WaitGraph.Cyclic (Waits cluster)) (start mapping) events) ∧
    (mapping.serverCount.toNat.isPowerOfTwo →
      (∀ server target index, Event.callRemove server target index ∉ events) →
      Always step (fun cluster => ¬ WaitGraph.Cyclic (Waits cluster)) (start mapping) events) := by
  have acyclic : Meets step (Spaced mapping) (start mapping) events →
      Always step (fun cluster => ¬ WaitGraph.Cyclic (Waits cluster)) (start mapping) events :=
    Meets.always (fun _ _ _ ordered spaced stepped => ordered.step spaced stepped) (fun _ ordered => ordered.acyclic)
      (start_ordered mapping)
  refine ⟨acyclic, fun power splits => acyclic (spaced_of_splits power splits ?_)⟩
  rintro ⟨_, _, _, handler⟩
  cases handler

/-- The events of two splits on three servers whose children belong to the other splitter: after the
splits of 0 into 1 and 2, server 0 announces partition 4 to server 1 and server 1 announces
partition 3 to server 0. -/
def crossingSplits : List (Event 3) :=
  [.beginSplit 0 0, .startMove 0, .lockAgain 0, .bucketAdd 0 1, .finishSplit 0,
    .beginSplit 0 0, .startMove 0, .lockAgain 0, .bucketAdd 0 2, .finishSplit 0,
    .beginSplit 0 0, .startMove 0, .beginSplit 1 1, .startMove 1, .lockAgain 0, .lockAgain 1]

/-- Tasks are queued only for partitions that the placement bound lets split. -/
def BoundedSplits (cluster : System servers) : Event servers → Prop
  | .beginSplit server pindex => gigaIsSplittable (cluster server).dir.mapping pindex = some true
  | _ => True

instance (cluster : System servers) (event : Event servers) : Decidable (BoundedSplits cluster event) := by
  cases event <;> unfold BoundedSplits <;> infer_instance

theorem crossing_splits_deadlock :
    Meets step BoundedSplits (start (gigaInitMapping 0 3)) crossingSplits ∧
    ∃ cluster, execute step (start (gigaInitMapping 0 3)) crossingSplits = some cluster ∧
      Waits cluster 0 1 ∧ Waits cluster 1 0 ∧ WaitGraph.Cyclic (Waits cluster) := by
  have runs : (execute step (start (gigaInitMapping 0 3)) crossingSplits).map (fun cluster =>
      ((cluster 0).split, gigaGetServerForIndex (cluster 0).dir.mapping 4,
        (cluster 1).split, gigaGetServerForIndex (cluster 1).dir.mapping 3)) =
      some (.announcing 0 4, 1, .announcing 1 3, 0) := by decide +kernel
  obtain ⟨cluster, executed, observed⟩ := Option.map_eq_some_iff.mp runs
  simp only [Prod.mk.injEq] at observed
  obtain ⟨first, ownerFirst, second, ownerSecond⟩ := observed
  have forward : Waits cluster 0 1 := Or.inl ⟨0, 4, first, ownerFirst⟩
  have backward : Waits cluster 1 0 := Or.inl ⟨1, 3, second, ownerSecond⟩
  exact ⟨by decide +kernel, cluster, executed, forward, backward, 0, .tail (.single forward) backward⟩

/-! The condition can be computed. -/

instance (state : ServerState servers) (target : Fin servers) : Decidable (state.WaitsFor target) :=
  decidable_of_iff
    ((match state.split with
      | .announcing _ cindex => decide (gigaGetServerForIndex state.dir.mapping cindex = target)
      | _ => false) ||
      match state.remove with
      | .calling callee _ => decide (callee = target)
      | _ => false) (by
    unfold ServerState.WaitsFor
    cases state.split <;> cases state.remove <;> simp)

instance (cluster : System servers) : Decidable (Waiting cluster) :=
  inferInstanceAs (Decidable (∃ server target, (cluster server).WaitsFor target))

instance (cluster : System servers) : Decidable (Removing cluster) :=
  decidable_of_iff (∃ server, ∃ target, (match (cluster server).remove with
    | .calling callee _ => decide (callee = target)
    | _ => false) = true) (by
    refine exists_congr fun server => exists_congr fun target => ?_
    cases (cluster server).remove <;> simp)

instance decidableIsPowerOfTwo (count : Nat) : Decidable count.isPowerOfTwo :=
  decidable_of_iff (count = Nat.pow 2 count.log2)
    ⟨fun same => ⟨_, same⟩, by rintro ⟨exponent, rfl⟩; rw [Nat.log2_two_pow]; rfl⟩

instance (mapping : GigaMapping) (cluster : System servers) (event : Event servers) :
    Decidable (Spaced mapping cluster event) := by
  cases event with
  | lockAgain server =>
    dsimp only [Spaced]
    cases (cluster server).split <;> infer_instance
  | _ => unfold Spaced; infer_instance

theorem power_four : (gigaInitMapping 0 4).serverCount.toNat.isPowerOfTwo := ⟨2, rfl⟩

/-- Four servers: two announcements overlap, of partition 3 by server 1 and of partition 2 by server 0. -/
def risingSplits : List (Event 4) :=
  [.beginSplit 0 0, .startMove 0, .lockAgain 0, .bucketAdd 0 1, .finishSplit 0,
    .beginSplit 0 0, .startMove 0, .beginSplit 1 1, .startMove 1, .lockAgain 0, .lockAgain 1, .bucketAdd 1 3,
    .bucketAdd 0 2, .finishSplit 1, .finishSplit 0]

/-- Three servers: the two splits announce their children one after the other, and an `rmdir` follows. -/
def spacedCalls : List (Event 3) :=
  crossingSplits.dropLast ++ [.bucketAdd 0 1, .finishSplit 0, .lockAgain 1, .bucketAdd 1 0, .finishSplit 1,
    .beginRemove 0, .callRemove 0 1 1, .bucketRemove 0 true, .endRemove 0]

theorem deadlock_free_of_spaced_rising :
    (execute step (start (gigaInitMapping 0 4)) risingSplits).isSome ∧
    Always step (fun cluster => ¬ WaitGraph.Cyclic (Waits cluster)) (start (gigaInitMapping 0 4)) risingSplits ∧
    (execute step (start (gigaInitMapping 0 3)) spacedCalls).isSome ∧
    Always step (fun cluster => ¬ WaitGraph.Cyclic (Waits cluster)) (start (gigaInitMapping 0 3)) spacedCalls :=
  ⟨by decide +kernel, (deadlock_free_of_spaced _ _).2 power_four (by simp [risingSplits]), by decide +kernel,
    (deadlock_free_of_spaced _ _).1 (by decide +kernel)⟩

end

end SkyeFS.Cluster
