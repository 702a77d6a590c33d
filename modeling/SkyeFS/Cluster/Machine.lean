import SkyeFS.Server.Directory
import SkyeFS.Foundation.Transition

/-! All servers of one directory: split threads, `rmdir` requests and their RPCs.

Each server has the directory in its cache with a write lock. The split thread
holds the lock while it prepares a split, gives it up while entries move and takes
it again for the announcement; an `rmdir` holds it from start to end. Both call
other servers with the lock held, and the callee needs its own write lock to answer.
What PVFS answers is left open here, so either outcome is an event.
-/

set_option autoImplicit false

namespace SkyeFS.Cluster

open Index Server Foundation

/-- Where the split thread of one server stands in `do_split`. -/
inductive SplitThread where
  | idle
  -- Holds the write lock and has computed `cindex`.
  | preparing (pindex cindex : Nat)
  -- The child bucket exists, `splitting_index` is set, the lock is free between batches.
  | moving (pindex cindex : Nat)
  -- Holds the write lock and waits for the reply to `skye_rpc_bucket_add`.
  | announcing (pindex cindex : Nat)
  -- Holds the write lock, and the owner of the child knows it.
  | informed (pindex cindex : Nat)
deriving DecidableEq

inductive RemoveHandler (servers : Nat) where
  | idle
  | holding
  -- Waits for the reply to `skye_rpc_bucket_remove`.
  | calling (target : Fin servers) (index : Nat)
deriving DecidableEq

structure ServerState (servers : Nat) where
  dir : SkyeDirectory
  split : SplitThread
  remove : RemoveHandler servers

def ServerState.locked {servers : Nat} (server : ServerState servers) : Bool :=
  match server.split, server.remove with
  | .idle, .idle => false
  | .moving _ _, .idle => false
  | _, _ => true

abbrev System (servers : Nat) := Fin servers → ServerState servers

inductive Event (servers : Nat) where
  | beginSplit (server : Fin servers) (pindex : Nat)
  | abandonSplit (server : Fin servers)
  | startMove (server : Fin servers)
  | lockAgain (server : Fin servers)
  | bucketAdd (server target : Fin servers)
  | finishSplit (server : Fin servers)
  | beginRemove (server : Fin servers)
  | removeLocal (server : Fin servers) (index : Nat)
  | callRemove (server target : Fin servers) (index : Nat)
  | bucketRemove (server : Fin servers) (success : Bool)
  | endRemove (server : Fin servers)
deriving DecidableEq

section
variable {servers : Nat}

def System.set (cluster : System servers) (server : Fin servers) (state : ServerState servers) :
    System servers := Function.update cluster server state

def step (cluster : System servers) : Event servers → Option (System servers)
  | .beginSplit server pindex =>
      let here := cluster server
      match here.split with
      | .idle =>
          if here.locked = false ∧ gigaGetServerForIndex here.dir.mapping pindex = server then
            (gigaIndexForSplitting here.dir.mapping pindex).map fun cindex =>
              cluster.set server { here with split := .preparing pindex cindex }
          else none
      | _ => none
  | .abandonSplit server =>
      let here := cluster server
      match here.split with
      -- no parent bucket, no overflow, or no child bucket: do_split leaves through exit
      | .preparing _ _ => some (cluster.set server { here with split := .idle })
      | _ => none
  | .startMove server =>
      let here := cluster server
      match here.split with
      | .preparing pindex cindex =>
          some (cluster.set server
            { here with dir := { here.dir with splittingIndex := some pindex }, split := .moving pindex cindex })
      | _ => none
  | .lockAgain server =>
      let here := cluster server
      match here.split with
      | .moving pindex cindex =>
          if here.locked = false then
            if gigaGetServerForIndex here.dir.mapping cindex = server then
              some (cluster.set server { here with split := .informed pindex cindex })
            else some (cluster.set server { here with split := .announcing pindex cindex })
          else none
      | _ => none
  | .bucketAdd server target =>
      let here := cluster server
      let there := cluster target
      match here.split with
      | .announcing pindex cindex =>
          if there.locked = false ∧ gigaGetServerForIndex here.dir.mapping cindex = target then
            let informed := cluster.set server { here with split := .informed pindex cindex }
            some (informed.set target
              { there with dir := { there.dir with mapping := gigaUpdateMapping there.dir.mapping cindex } })
          else none
      | _ => none
  | .finishSplit server =>
      let here := cluster server
      match here.split with
      | .informed _ cindex =>
          some (cluster.set server
            { here with
              dir := { mapping := gigaUpdateMapping here.dir.mapping cindex, splittingIndex := none }
              split := .idle })
      | _ => none
  | .beginRemove server =>
      let here := cluster server
      if here.locked = false then some (cluster.set server { here with remove := .holding }) else none
  | .removeLocal server index =>
      let here := cluster server
      match here.remove with
      | .holding =>
          if index ≠ 0 ∧ gigaGetServerForIndex here.dir.mapping index = server then
            some (cluster.set server
              { here with dir := { here.dir with mapping := gigaUpdateMappingRemove here.dir.mapping index } })
          else none
      | _ => none
  | .callRemove server target index =>
      let here := cluster server
      match here.remove with
      | .holding =>
          if index ≠ 0 ∧ gigaGetServerForIndex here.dir.mapping index = target ∧ target ≠ server then
            some (cluster.set server { here with remove := .calling target index })
          else none
      | _ => none
  | .bucketRemove server success =>
      let here := cluster server
      match here.remove with
      | .calling target index =>
          let there := cluster target
          if there.locked = false then
            let answered := cluster.set server { here with remove := .holding }
            -- the callee clears the bit only after PVFS has removed the bucket
            some (if success then
              answered.set target
                { there with dir := { there.dir with mapping := gigaUpdateMappingRemove there.dir.mapping index } }
            else answered)
          else none
      | _ => none
  | .endRemove server =>
      let here := cluster server
      match here.remove with
      | .holding => some (cluster.set server { here with remove := .idle })
      | _ => none

/-! ### What a split step does -/

section
variable {cluster after : System servers} {server : Fin servers}

theorem step_beginSplit {pindex : Nat} (stepped : step cluster (.beginSplit server pindex) = some after) :
    (cluster server).split = .idle ∧ gigaGetServerForIndex (cluster server).dir.mapping pindex = server ∧
      ∃ cindex, gigaIndexForSplitting (cluster server).dir.mapping pindex = some cindex ∧
        after = cluster.set server { cluster server with split := .preparing pindex cindex } := by
  cases thread : (cluster server).split <;> simp only [step, thread, reduceCtorEq] at stepped
  split at stepped
  · rename_i guard
    obtain ⟨cindex, computed, rfl⟩ := Option.map_eq_some_iff.mp stepped
    exact ⟨rfl, guard.2, cindex, computed, rfl⟩
  · cases stepped

theorem step_abandonSplit (stepped : step cluster (.abandonSplit server) = some after) :
    ∃ pindex cindex, (cluster server).split = .preparing pindex cindex ∧
      after = cluster.set server { cluster server with split := .idle } := by
  cases thread : (cluster server).split <;> simp only [step, thread, reduceCtorEq, Option.some.injEq] at stepped
  exact ⟨_, _, rfl, stepped.symm⟩

theorem step_startMove (stepped : step cluster (.startMove server) = some after) :
    ∃ pindex cindex, (cluster server).split = .preparing pindex cindex ∧
      after = cluster.set server { cluster server with
        dir := { (cluster server).dir with splittingIndex := some pindex }, split := .moving pindex cindex } := by
  cases thread : (cluster server).split <;> simp only [step, thread, reduceCtorEq, Option.some.injEq] at stepped
  exact ⟨_, _, rfl, stepped.symm⟩

theorem step_lockAgain (stepped : step cluster (.lockAgain server) = some after) :
    ∃ pindex cindex, (cluster server).split = .moving pindex cindex ∧ (cluster server).locked = false ∧
      (gigaGetServerForIndex (cluster server).dir.mapping cindex = server ∧
          after = cluster.set server { cluster server with split := .informed pindex cindex } ∨
        gigaGetServerForIndex (cluster server).dir.mapping cindex ≠ server ∧
          after = cluster.set server { cluster server with split := .announcing pindex cindex }) := by
  -- A child of the server itself needs no announcement.
  cases thread : (cluster server).split <;> simp only [step, thread, reduceCtorEq] at stepped
  split at stepped
  · rename_i free
    split at stepped <;> cases stepped
    · rename_i own
      exact ⟨_, _, rfl, free, Or.inl ⟨own, rfl⟩⟩
    · rename_i foreign
      exact ⟨_, _, rfl, free, Or.inr ⟨foreign, rfl⟩⟩
  · cases stepped

theorem step_bucketAdd {target : Fin servers} (stepped : step cluster (.bucketAdd server target) = some after) :
    ∃ pindex cindex, (cluster server).split = .announcing pindex cindex ∧ (cluster target).locked = false ∧
      gigaGetServerForIndex (cluster server).dir.mapping cindex = target ∧ server ≠ target ∧
      after = (cluster.set server { cluster server with split := .informed pindex cindex }).set target
        { cluster target with dir :=
          { (cluster target).dir with mapping := gigaUpdateMapping (cluster target).dir.mapping cindex } } := by
  -- The caller holds its write lock, so the callee is another server.
  cases thread : (cluster server).split <;> simp only [step, thread, reduceCtorEq] at stepped
  split at stepped
  · rename_i guard
    cases stepped
    refine ⟨_, _, rfl, guard.1, guard.2, ?_, rfl⟩
    rintro rfl
    simp [ServerState.locked, thread] at guard
  · cases stepped

theorem step_finishSplit (stepped : step cluster (.finishSplit server) = some after) :
    ∃ pindex cindex, (cluster server).split = .informed pindex cindex ∧
      after = cluster.set server { cluster server with
        dir := { mapping := gigaUpdateMapping (cluster server).dir.mapping cindex, splittingIndex := none }
        split := .idle } := by
  cases thread : (cluster server).split <;> simp only [step, thread, reduceCtorEq, Option.some.injEq] at stepped
  exact ⟨_, _, rfl, stepped.symm⟩

end

/-- All servers begin with one table and nothing under way. -/
def start (mapping : GigaMapping) : System servers := fun _ =>
  { dir := { mapping := mapping, splittingIndex := none }, split := .idle, remove := .idle }

/-- The union of the servers' bitmaps, merged the way a client merges the tables it is sent. -/
def System.union (cluster : System servers) (zerothServer serverCount : UInt32) : GigaMapping :=
  ((List.finRange servers).map fun server => (cluster server).dir.mapping).foldl gigaUpdateCache
    (gigaInitMapping zerothServer serverCount)

end

end SkyeFS.Cluster
