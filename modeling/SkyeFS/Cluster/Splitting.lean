import SkyeFS.Cluster.Agreement
import SkyeFS.Index.Splitting
import SkyeFS.Server.Handlers

/-! The child of a running split stays the same while other servers split.

`do_split` computes the child once, at its start; `enter_bucket` computes it again for
each request. Between the two, other servers announce children of their own partitions.
These are never children of the partition that is splitting here.
-/

set_option autoImplicit false

namespace SkyeFS.Cluster

open Index Server Foundation Foundation.SuffixTree

def SplitThread.task : SplitThread → Option (Nat × Nat)
  | .idle => none
  | .preparing pindex cindex | .moving pindex cindex | .announcing pindex cindex | .informed pindex cindex =>
      some (pindex, cindex)

/-- What the thread has written to `splitting_index`. -/
def SplitThread.splitting : SplitThread → Option Nat
  | .idle | .preparing _ _ => none
  | .moving pindex _ | .announcing pindex _ | .informed pindex _ => some pindex

theorem SplitThread.task_of_splitting {thread : SplitThread} {pindex : Nat} (splits : thread.splitting = some pindex) :
    ∃ cindex, thread.task = some (pindex, cindex) := by
  cases thread <;> cases splits <;> exact ⟨_, rfl⟩

section
variable {servers : Nat}

/-- A server's table is valid, and a running split still has the child it began with. -/
structure Tracks (mapping : GigaMapping) (server : Fin servers) (state : ServerState servers) : Prop where
  valid : state.dir.mapping.Valid
  placement : state.dir.mapping.SamePlacement mapping
  own : ∀ pindex cindex, state.split.task = some (pindex, cindex) → Owns mapping server pindex
  child : ∀ pindex cindex, state.split.task = some (pindex, cindex) →
    gigaIndexForSplitting state.dir.mapping pindex = some cindex
  splitting : state.dir.splittingIndex = state.split.splitting

/-- No split is under way, and every server has a valid table with the same placement. -/
def Settled (mapping : GigaMapping) (cluster : System servers) : Prop :=
  ∀ server, (cluster server).split = .idle ∧ (cluster server).dir.splittingIndex = none ∧
    (cluster server).dir.mapping.Valid ∧ (cluster server).dir.mapping.SamePlacement mapping

theorem settled_start {mapping : GigaMapping} (valid : mapping.Valid) :
    Settled mapping (start mapping : System servers) :=
  fun _ => ⟨rfl, rfl, valid, rfl, rfl⟩

theorem tracks_idle {mapping : GigaMapping} {server : Fin servers} {state : ServerState servers}
    (idle : state.split = .idle) (clear : state.dir.splittingIndex = none) (valid : state.dir.mapping.Valid)
    (placement : state.dir.mapping.SamePlacement mapping) : Tracks mapping server state := by
  refine ⟨valid, placement, ?_, ?_, ?_⟩
  · intro pindex cindex task
    rw [idle] at task
    cases task
  · intro pindex cindex task
    rw [idle] at task
    cases task
  · rw [idle, clear]
    rfl

theorem Settled.tracks {mapping : GigaMapping} {cluster : System servers} (settled : Settled mapping cluster)
    (server : Fin servers) : Tracks mapping server (cluster server) := by
  obtain ⟨idle, clear, valid, placement⟩ := settled server
  exact tracks_idle idle clear valid placement

theorem tracks_set {mapping : GigaMapping} {cluster : System servers} {server : Fin servers}
    {state : ServerState servers} (tracks : ∀ other, Tracks mapping other (cluster other))
    (changed : Tracks mapping server state) (other : Fin servers) :
    Tracks mapping other (cluster.set server state other) :=
  forall_set (Tracks mapping) tracks changed other

section
variable {mapping : GigaMapping} {server : Fin servers} {state : ServerState servers}
variable (tracks : Tracks mapping server state)
include tracks

theorem Tracks.thread (dir : SkyeDirectory) (split : SplitThread) (same : dir.mapping = state.dir.mapping)
    (task : split.task = state.split.task) (splitting : dir.splittingIndex = split.splitting) :
    Tracks mapping server { state with dir := dir, split := split } where
  valid := same ▸ tracks.valid
  placement := same ▸ tracks.placement
  own := by
    simp only [task]
    exact tracks.own
  child := by
    simp only [task, same]
    exact tracks.child
  splitting := splitting

theorem Tracks.began {pindex cindex : Nat} (own : gigaGetServerForIndex state.dir.mapping pindex = server)
    (idle : state.split = .idle) (computed : gigaIndexForSplitting state.dir.mapping pindex = some cindex) :
    Tracks mapping server { state with split := .preparing pindex cindex } where
  valid := tracks.valid
  placement := tracks.placement
  own := by
    rintro _ _ ⟨⟩
    rw [Owns, ← tracks.placement.server]
    exact own
  child := by
    rintro _ _ ⟨⟩
    exact computed
  splitting := by
    have clear := tracks.splitting
    rw [idle] at clear
    exact clear

theorem Tracks.foreign {pindex cindex : Nat} (task : state.split.task = some (pindex, cindex)) {target : Fin servers}
    (different : server ≠ target) : ¬ Owns mapping target (parent cindex) := by
  -- The parent of the child is here, and so on no other server.
  rw [(gigaIndexForSplitting_parent (tracks.child pindex cindex task)).1]
  intro also
  exact different ((tracks.own pindex cindex task).unique also)

theorem Tracks.add {index : Nat} (bounded : index < capacity) (foreign : ¬ Owns mapping server (parent index)) :
    Tracks mapping server
      { state with dir := { state.dir with mapping := gigaUpdateMapping state.dir.mapping index } } where
  valid := tracks.valid.update bounded
  placement := tracks.placement
  own := tracks.own
  child := by
    -- An announced partition of another server is no child of the one that splits here.
    intro pindex cindex task
    have computed := tracks.child pindex cindex task
    have own := tracks.own pindex cindex task
    have apart : parent index ≠ pindex := by
      rintro rfl
      exact foreign own
    have present := (gigaIndexForSplitting_some computed).1
    exact (sameChildren_update bounded present apart).some computed
  splitting := tracks.splitting

end

theorem tracks_step {mapping : GigaMapping} {cluster after : System servers} {event : Event servers}
    (tracks : ∀ server, Tracks mapping server (cluster server)) (allowed : NoRemoval event)
    (stepped : step cluster event = some after) (other : Fin servers) : Tracks mapping other (after other) := by
  -- Step lemma: no step of a run without removals changes the child of a running split.
  cases event with
  | beginSplit server pindex =>
    obtain ⟨idle, own, cindex, computed, rfl⟩ := step_beginSplit stepped
    exact tracks_set tracks ((tracks server).began own idle computed) other
  | abandonSplit server =>
    obtain ⟨pindex, cindex, thread, rfl⟩ := step_abandonSplit stepped
    have before := tracks server
    have clear := before.splitting
    rw [thread] at clear
    refine tracks_set tracks ?_ other
    exact tracks_idle rfl clear before.valid before.placement
  | startMove server =>
    obtain ⟨pindex, cindex, thread, rfl⟩ := step_startMove stepped
    refine tracks_set tracks ?_ other
    exact (tracks server).thread _ (.moving _ _) rfl (by rw [thread]; rfl) rfl
  | lockAgain server =>
    obtain ⟨pindex, cindex, thread, -, chosen⟩ := step_lockAgain stepped
    have splitting := (tracks server).splitting
    rw [thread] at splitting
    rcases chosen with ⟨-, rfl⟩ | ⟨-, rfl⟩
    · exact tracks_set tracks ((tracks server).thread _ (.informed _ _) rfl (by rw [thread]; rfl) splitting) other
    · exact tracks_set tracks ((tracks server).thread _ (.announcing _ _) rfl (by rw [thread]; rfl) splitting) other
  | bucketAdd server target =>
    obtain ⟨pindex, cindex, thread, -, -, different, rfl⟩ := step_bucketAdd stepped
    have here := tracks server
    have splitting := here.splitting
    rw [thread] at splitting
    have task : (cluster server).split.task = some (pindex, cindex) := by rw [thread]; rfl
    have inside := gigaIndexForSplitting_lt (here.child pindex cindex task)
    refine tracks_set (tracks_set tracks (here.thread _ (.informed _ _) rfl (by rw [thread]; rfl) splitting)) ?_ other
    exact (tracks target).add inside (here.foreign task different)
  | finishSplit server =>
    obtain ⟨pindex, cindex, thread, rfl⟩ := step_finishSplit stepped
    have before := tracks server
    have computed := before.child pindex cindex (by rw [thread]; rfl)
    have valid := before.valid.update (gigaIndexForSplitting_lt computed)
    refine tracks_set tracks ?_ other
    exact tracks_idle rfl rfl valid before.placement
  | beginRemove | removeLocal | callRemove | bucketRemove | endRemove => exact allowed.elim

theorem tracks_of_reaches {mapping : GigaMapping} {first cluster : System servers} (settled : Settled mapping first)
    (reached : Reaches step (fun _ event => NoRemoval event) first cluster) (server : Fin servers) :
    Tracks mapping server (cluster server) := by
  have every : ∀ server, Tracks mapping server (cluster server) :=
    reached.invariant settled.tracks fun _ _ _ before allowed stepped => tracks_step before allowed stepped
  exact every server

theorem placed_of_tracks {mapping : GigaMapping} {cluster : System servers}
    (tracks : ∀ server, Tracks mapping server (cluster server)) : Placed mapping cluster where
  placement server := (tracks server).placement
  inside := by
    intro server cindex told pending
    have task : ∃ pindex, (cluster server).split.task = some (pindex, cindex) := by
      cases thread : (cluster server).split <;> rw [thread] at pending <;> cases pending <;> exact ⟨_, rfl⟩
    obtain ⟨pindex, task⟩ := task
    exact gigaIndexForSplitting_lt ((tracks server).child pindex cindex task)

/-- Without removals the servers stay coherent, however large the indices get. -/
theorem coherent_of_reaches {mapping : GigaMapping} (valid : mapping.Valid) (closed : ParentClosed mapping.partitions)
    {cluster : System servers} (reached : Reaches step (fun _ event => NoRemoval event) (start mapping) cluster) :
    SplitProtocol.Coherent (Owns mapping) (cluster.abstraction mapping) := by
  have both : (∀ server, Tracks mapping server (cluster server)) ∧
      SplitProtocol.Coherent (Owns mapping) (cluster.abstraction mapping) := by
    apply reached.invariant
    · exact ⟨(settled_start valid).tracks, SplitProtocol.coherent_initial closed⟩
    · rintro before event after ⟨tracks, coherent⟩ allowed stepped
      refine ⟨tracks_step tracks allowed stepped, ?_⟩
      rcases (placed_of_tracks tracks).refines allowed stepped with same | moved
      · rw [same]
        exact coherent
      · exact coherent.step Owns.unique moved
  exact both.2

/-- While a partition splits, a name of it goes to the bucket that the finished split will give it. A child
beyond the radix bound fails the same assertion on both ways. -/
theorem selectBucket_eq_lookup {shahash : Pvfs.FileName → Digest} {dir : SkyeDirectory} {name : Pvfs.FileName}
    {pindex cindex : Nat} (valid : dir.mapping.Valid) (splitting : dir.splittingIndex = some pindex)
    (computed : gigaIndexForSplitting dir.mapping pindex = some cindex)
    (found : gigaGetIndexForFile shahash dir.mapping name = some pindex) :
    selectBucket shahash dir name pindex = gigaGetIndexForFile shahash (gigaUpdateMapping dir.mapping cindex) name := by
  have inside := gigaIndexForSplitting_lt computed
  simp only [selectBucket, if_pos splitting, computed, Option.bind_eq_bind, Option.bind_some]
  by_cases bounded : cindex < 2 ^ (maxRadix - 1)
  · rw [gigaFileMigrationStatus_eq shahash bounded, gigaGetIndexForFile_update shahash valid computed bounded found]
    by_cases suffix : Suffix cindex (hashNumber shahash name) <;> simp [suffix]
  · have failed : gigaFileMigrationStatus shahash name cindex = none := by
      have deep : ¬ getRadixFromIndex cindex < maxRadix := by
        rw [getRadixFromIndex_eq]
        intro shallow
        exact bounded (depth_le_iff.mp (Nat.le_pred_of_lt shallow))
      simp [gigaFileMigrationStatus, computeIndex, deep]
    have lost : gigaGetIndexForFile shahash (gigaUpdateMapping dir.mapping cindex) name = none := by
      cases selected : gigaGetIndexForFile shahash (gigaUpdateMapping dir.mapping cindex) name with
      | none => rfl
      | some index =>
        obtain ⟨small, -⟩ := (gigaGetIndexForFile_eq_some shahash (valid.update inside)).mp selected
        refine absurd (small cindex ?_) bounded
        rw [partitions_update _ inside]
        exact Finset.mem_insert_self _ _
    rw [failed, lost]
    rfl

/-- In every run without removals, a server that is splitting recomputes the child its thread computed at the
start, and sends each accepted name of the partition to the bucket that lookups use once the child is set. -/
theorem writes_during_split_land {mapping : GigaMapping} {first cluster : System servers}
    (settled : Settled mapping first) (reached : Reaches step (fun _ event => NoRemoval event) first cluster)
    {server : Fin servers} {pindex : Nat} (splitting : (cluster server).dir.splittingIndex = some pindex) :
    ∃ cindex, (cluster server).split.task = some (pindex, cindex) ∧
      gigaIndexForSplitting (cluster server).dir.mapping pindex = some cindex ∧
      ∀ (shahash : Pvfs.FileName → Digest) (name : Pvfs.FileName),
        locality shahash server (cluster server).dir name = some (.here pindex) →
        selectBucket shahash (cluster server).dir name pindex =
          gigaGetIndexForFile shahash (gigaUpdateMapping (cluster server).dir.mapping cindex) name := by
  have tracks := tracks_of_reaches settled reached server
  obtain ⟨cindex, task⟩ := SplitThread.task_of_splitting (tracks.splitting.symm.trans splitting)
  have computed := tracks.child pindex cindex task
  refine ⟨cindex, task, computed, ?_⟩
  intro shahash name accepted
  exact selectBucket_eq_lookup tracks.valid splitting computed (locality_here.mp accepted).1

end

/-- While the first server splits partition 0 for the second time, the second one splits partition 1 and tells the
first about its child. -/
def announcedDuringSplit {servers : Nat} (first second : Fin servers) : List (Event servers) :=
  [.beginSplit first 0, .startMove first, .lockAgain first, .bucketAdd first second, .finishSplit first,
    .beginSplit first 0, .startMove first, .beginSplit second 1, .startMove second, .lockAgain second,
    .bucketAdd second first]

/-- Three servers: server 1 announces partition 3. -/
theorem announced_write_lands :
    ∃ cluster : System 3, execute step (start (gigaInitMapping 0 3)) (announcedDuringSplit 0 1) = some cluster ∧
      gigaIndexForSplitting (cluster 0).dir.mapping 0 = some 2 ∧
      selectBucket (fun _ => Vector.replicate 20 2#8) (cluster 0).dir ['a'] 0 =
        gigaGetIndexForFile (fun _ => Vector.replicate 20 2#8) (gigaUpdateMapping (cluster 0).dir.mapping 2) ['a'] := by
  have runs : (execute step (start (gigaInitMapping 0 3) : System 3) (announcedDuringSplit 0 1)).isSome := by decide +kernel
  obtain ⟨cluster, executed⟩ := Option.isSome_iff_exists.mp runs
  have allowed : ∀ event ∈ announcedDuringSplit (0 : Fin 3) 1, NoRemoval event := by decide
  have reached : Reaches step (fun _ event => NoRemoval event) (start (gigaInitMapping 0 3)) cluster :=
    Reaches.of_execute executed (meets_of_forall (fun event member _ => allowed event member) _)
  have found : (execute step (start (gigaInitMapping 0 3) : System 3) (announcedDuringSplit 0 1)).map (fun cluster =>
      ((cluster 0).dir.splittingIndex, (cluster 0).split.task,
        locality (fun _ => Vector.replicate 20 2#8) 0 (cluster 0).dir (['a'] : Pvfs.FileName))) =
      some (some 0, some (0, 2), some (.here 0)) := by decide +kernel
  rw [executed] at found
  obtain ⟨splitting, task, accepted⟩ : _ ∧ _ ∧ _ := by simpa using found
  obtain ⟨cindex, same, computed, lands⟩ := writes_during_split_land (settled_start (valid_init 0 3)) reached splitting
  obtain rfl : cindex = 2 := by simpa using same.symm.trans task
  exact ⟨cluster, executed, computed, lands _ _ accepted⟩

end SkyeFS.Cluster
