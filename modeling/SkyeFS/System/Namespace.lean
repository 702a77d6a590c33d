import SkyeFS.System.Placement

/-! The directory behaves as one map.

A server that accepts a name has computed the deepest partition of all that exist,
however far its own table is behind. In every run the PVFS calls of the handlers are
therefore operations of the map, in the order in which they happen, and splits,
restarts, redirects and lost replies do nothing to it.
-/

set_option autoImplicit false

namespace SkyeFS.Namespace

open Index Pvfs Server Cluster Foundation Foundation.SuffixTree

section
variable {servers : Nat}

def Site.entries (site : Site servers) : Entries := entryOf site.store

def Site.views (site : Site servers) : SplitProtocol.State (Fin servers) where
  view server := (site.dirs server).mapping.partitions
  pending _ := none

structure Settled (mapping : GigaMapping) (dir : SkyeDirectory) : Prop where
  valid : dir.mapping.Valid
  small : dir.mapping.Small
  placement : dir.mapping.SamePlacement mapping
  idle : dir.splittingIndex = none

/-- A table that a client may have, or be sent. -/
structure Learned (mapping : GigaMapping) (all : Finset Nat) (table : GigaMapping) : Prop where
  valid : table.Valid
  placement : table.SamePlacement mapping
  subset : table.partitions ⊆ all

structure Sound (shahash : FileName → Digest) (mapping : GigaMapping) (site : Site servers) : Prop where
  settled : ∀ server, Settled mapping (site.dirs server)
  coherent : SplitProtocol.Coherent (Owns mapping) site.views
  kept : Kept shahash site.views.all site.store
  tables : ∀ client, Learned mapping site.views.all (site.tables client)
  bitmaps : ∀ client request bitmap, Call.redirected client request bitmap ∈ site.calls →
    Learned mapping site.views.all bitmap

variable {shahash : FileName → Digest} {mapping : GigaMapping} {site after : Site servers}
  {label : Option (Operation × Answer)}

theorem Learned.mono {small large : Finset Nat} {table : GigaMapping} (learned : Learned mapping small table)
    (grown : small ⊆ large) : Learned mapping large table :=
  ⟨learned.valid, learned.placement, learned.subset.trans grown⟩

theorem Learned.merge {all : Finset Nat} {curr update : GigaMapping} (one : Learned mapping all curr)
    (two : Learned mapping all update) : Learned mapping all (gigaUpdateCache curr update) where
  valid := one.valid.merge two.valid
  placement := one.placement.merge two.placement
  subset := by
    rw [partitions_merge]
    exact Finset.union_subset one.subset two.subset

theorem Settled.update {dir : SkyeDirectory} (settled : Settled mapping dir) {index : Nat}
    (bounded : index < 2 ^ (maxRadix - 1)) :
    Settled mapping { dir with mapping := gigaUpdateMapping dir.mapping index } :=
  ⟨settled.valid.update (bounded.trans (by decide)), settled.small.update bounded, settled.placement, settled.idle⟩

section
variable (sound : Sound shahash mapping site)
include sound

theorem Sound.learned (server : Fin servers) : Learned mapping site.views.all (site.dirs server).mapping where
  valid := (sound.settled server).valid
  placement := (sound.settled server).placement
  subset := site.views.view_subset server

/-- The partition that a server accepts a name for is the deepest of all. -/
theorem Sound.accepts {server : Fin servers} {name : FileName} {index : Nat}
    (here : locality shahash server (site.dirs server) name = some (.here index)) :
    Deepest site.views.all (hashNumber shahash name) index := by
  have settled := sound.settled server
  obtain ⟨computed, own⟩ := locality_here.mp here
  obtain ⟨-, deepest⟩ := (gigaGetIndexForFile_eq_some shahash settled.valid).mp computed
  rw [settled.placement.server] at own
  refine sound.coherent.agrees ?_ deepest own
  rintro ⟨child, pending⟩
  cases pending

theorem Sound.setCall (id : Nat) (call : Call servers)
    (sent : ∀ client request bitmap, call = .redirected client request bitmap → Learned mapping site.views.all bitmap) :
    Sound shahash mapping (site.setCall id call) where
  settled := sound.settled
  coherent := sound.coherent
  kept := sound.kept
  tables := sound.tables
  bitmaps client request bitmap member := by
    rcases List.mem_or_eq_of_mem_set member with before | same
    · exact sound.bitmaps client request bitmap before
    · exact sent client request bitmap same.symm

/-- The servers learn of partitions, and the tree has their buckets. -/
theorem Sound.setDirs {dirs : Fin servers → SkyeDirectory} {store : Store} {all : Finset Nat}
    (settled : ∀ server, Settled mapping (dirs server))
    (learned : SplitProtocol.State.all { view := fun server => (dirs server).mapping.partitions, pending := fun _ => none } =
      all ∧ SplitProtocol.Coherent (Owns mapping)
        { view := fun server => (dirs server).mapping.partitions, pending := fun _ => none })
    (kept : Kept shahash all store) (grown : site.views.all ⊆ all) :
    Sound shahash mapping { site with dirs, store } := by
  obtain ⟨rfl, coherent⟩ := learned
  exact ⟨settled, coherent, kept, fun client => (sound.tables client).mono grown,
    fun client request bitmap member => (sound.bitmaps client request bitmap member).mono grown⟩

theorem Sound.setStore {store : Store} (kept : Kept shahash site.views.all store) :
    Sound shahash mapping { site with store } :=
  ⟨sound.settled, sound.coherent, kept, sound.tables, sound.bitmaps⟩

end

/-- A step keeps the invariant, and its label is what it did to the map. -/
def Simulated (shahash : FileName → Digest) (mapping : GigaMapping) (site after : Site servers)
    (label : Option (Operation × Answer)) : Prop :=
  Sound shahash mapping after ∧ execute replay (entryOf site.store) label.toList = some (entryOf after.store)

theorem execute_label {entries after : Entries} {operation : Operation} {answer : Answer}
    (replayed : replay entries (operation, answer) = some after) :
    execute replay entries (some (operation, answer)).toList = some after := by
  simp only [Option.toList_some, execute, replayed, Option.bind_some]

/-! ### One step -/

section
variable (sound : Sound shahash mapping site)
include sound

theorem Sound.submit {client : Nat} {request : Request}
    (stepped : siteStep shahash mapping site (.submit client request) = some (after, label)) :
    Simulated shahash mapping site after label := by
  cases stepped
  refine ⟨⟨sound.settled, sound.coherent, sound.kept, sound.tables, ?_⟩, rfl⟩
  intro other redirected bitmap member
  rcases List.mem_append.mp member with before | new
  · exact sound.bitmaps other redirected bitmap before
  · cases List.mem_singleton.mp new

theorem Sound.send {id : Nat}
    (stepped : siteStep shahash mapping site (.send id) = some (after, label)) :
    Simulated shahash mapping site after label := by
  simp only [siteStep, Option.bind_eq_bind, Option.bind_eq_some_iff] at stepped
  obtain ⟨call, -, stepped⟩ := stepped
  cases call <;> simp only [reduceCtorEq] at stepped
  obtain ⟨server, -, stepped⟩ := Option.bind_eq_some_iff.mp stepped
  split at stepped
  · cases stepped
    exact ⟨sound.setCall id _ nofun, rfl⟩
  · cases stepped

theorem Sound.answer {id : Nat}
    (stepped : siteStep shahash mapping site (.answer id) = some (after, label)) :
    Simulated shahash mapping site after label := by
  simp only [siteStep, Option.bind_eq_bind, Option.bind_eq_some_iff] at stepped
  obtain ⟨call, -, stepped⟩ := stepped
  cases call <;> simp only [reduceCtorEq] at stepped
  rename_i client request server
  obtain ⟨⟨served, store⟩, answered, stepped⟩ := Option.bind_eq_some_iff.mp stepped
  have faithful := sound.kept.serve (sound.settled server).idle (fun here => sound.accepts here) answered
  cases served with
  | again bitmap =>
    cases stepped
    refine ⟨sound.setCall id _ ?_, rfl⟩
    intro _ _ sent same
    cases same
    rw [faithful.1]
    exact sound.learned server
  | removing removal =>
    cases stepped
    exact ⟨sound.setCall id _ nofun, rfl⟩
  | answered answer =>
    cases stepped
    exact ⟨(sound.setStore faithful.1).setCall id _ nofun, execute_label (faithful.2 true)⟩

theorem Sound.complete {id : Nat} {emptied : Bool}
    (stepped : siteStep shahash mapping site (.complete id emptied) = some (after, label)) :
    Simulated shahash mapping site after label := by
  simp only [siteStep, Option.bind_eq_bind, Option.bind_eq_some_iff] at stepped
  obtain ⟨call, -, stepped⟩ := stepped
  cases call <;> simp only [reduceCtorEq] at stepped
  rename_i server removal
  cases stepped
  obtain ⟨kept, replayed⟩ := sound.kept.removeEntry removal emptied
  exact ⟨(sound.setStore kept).setCall id _ nofun, execute_label replayed⟩

theorem Sound.merge {id : Nat}
    (stepped : siteStep shahash mapping site (.merge id) = some (after, label)) :
    Simulated shahash mapping site after label := by
  simp only [siteStep, Option.bind_eq_bind, Option.bind_eq_some_iff] at stepped
  obtain ⟨call, found, stepped⟩ := stepped
  cases call <;> simp only [reduceCtorEq] at stepped
  rename_i client request bitmap
  cases stepped
  have learned := sound.bitmaps client request bitmap (List.mem_of_getElem? found)
  have merged : Sound shahash mapping { site with
      tables := Function.update site.tables client (gigaUpdateCache (site.tables client) bitmap) } := by
    refine ⟨sound.settled, sound.coherent, sound.kept, fun other => ?_, sound.bitmaps⟩
    by_cases same : other = client
    · subst same
      simp only [Function.update_self]
      exact (sound.tables other).merge learned
    · simp only [Function.update_of_ne same]
      exact sound.tables other
  exact ⟨merged.setCall id _ nofun, rfl⟩

theorem Sound.depart {index : Nat} {name : FileName}
    (stepped : siteStep shahash mapping site (.depart index name) = some (after, label)) :
    Simulated shahash mapping site after label := by
  cases stepped
  exact ⟨sound.setStore sound.kept.unbind, execute_label (sound.kept.depart index name)⟩

def Sound.setting {server : Fin servers} {pindex cindex : Nat}
    (owner : gigaGetServerForIndex (site.dirs server).mapping pindex = server)
    (child : gigaIndexForSplitting (site.dirs server).mapping pindex = some cindex)
    (bounded : cindex < 2 ^ (maxRadix - 1)) : SplitSetting server where
  mapping := (site.dirs server).mapping
  pindex := pindex
  cindex := cindex
  valid := (sound.settled server).valid
  small := (sound.settled server).small
  owner := owner
  child := child
  bounded := bounded

theorem Sound.fresh {server : Fin servers} {pindex cindex : Nat}
    (owner : gigaGetServerForIndex (site.dirs server).mapping pindex = server)
    (child : gigaIndexForSplitting (site.dirs server).mapping pindex = some cindex) : cindex ∉ site.views.all := by
  -- A child that the owner of the parent does not know is known nowhere.
  intro member
  obtain ⟨above, positive⟩ := gigaIndexForSplitting_parent child
  rw [(sound.settled server).placement.server] at owner
  rcases sound.coherent.children server cindex member positive (above ▸ owner) with known | waiting
  · exact (gigaIndexForSplitting_some child).2.1 known
  · cases waiting

theorem Sound.ready {server : Fin servers} {pindex cindex : Nat}
    (owner : gigaGetServerForIndex (site.dirs server).mapping pindex = server)
    (child : gigaIndexForSplitting (site.dirs server).mapping pindex = some cindex)
    (bounded : cindex < 2 ^ (maxRadix - 1)) :
    (sound.setting owner child bounded).Ready shahash
      { dir := ⟨(site.dirs server).mapping, none⟩, store := site.store, thread := .start pindex, removals := [] } where
  dir := rfl
  thread := rfl
  removals := rfl
  parent name found := by
    -- A deepest partition of all is the deepest one of a view that has it.
    have deepest := sound.kept.home pindex name found
    refine (gigaGetIndexForFile_eq_some shahash (sound.settled server).valid).mpr ⟨(sound.settled server).small, ?_⟩
    exact ⟨(gigaIndexForSplitting_some child).1, deepest.suffix,
      fun other member => deepest.maximal other (site.views.view_subset server member)⟩
  child name := sound.kept.absent (sound.fresh owner child) name

omit sound in
theorem announce_nothing {server : Fin servers} {pindex cindex : Nat}
    (child : gigaIndexForSplitting (site.dirs server).mapping pindex = some cindex) :
    site.announce server pindex (site.dirs server) = site.dirs := by
  funext other
  unfold Site.announce
  by_cases same : other = server
  · rw [if_pos same, same]
  · have unset : ¬ getBitStatus (site.dirs server).mapping.bitmap cindex = true := by
      rw [getBitStatus_iff]
      exact (gigaIndexForSplitting_some child).2.1
    rw [if_neg same, child]
    exact if_neg fun both => unset both.1

/-- The tables after a split: that of the server itself and of the owner of the child have the new bit. -/
theorem Sound.announced {server : Fin servers} {pindex cindex : Nat}
    (child : gigaIndexForSplitting (site.dirs server).mapping pindex = some cindex)
    (bounded : cindex < 2 ^ (maxRadix - 1)) (other : Fin servers) :
    (other = server ∨ Owns mapping other cindex) ∧
        site.announce server pindex ⟨gigaUpdateMapping (site.dirs server).mapping cindex, none⟩ other =
          ⟨gigaUpdateMapping (site.dirs other).mapping cindex, (site.dirs other).splittingIndex⟩ ∨
      ¬ (other = server ∨ Owns mapping other cindex) ∧
        site.announce server pindex ⟨gigaUpdateMapping (site.dirs server).mapping cindex, none⟩ other =
          site.dirs other := by
  have set : getBitStatus (gigaUpdateMapping (site.dirs server).mapping cindex).bitmap cindex = true := by
    rw [getBitStatus_iff]
    have inside : cindex < capacity := bounded.trans (by decide)
    exact (partitions_update (site.dirs server).mapping inside).symm.subset (Finset.mem_insert_self _ _)
  have owner : gigaGetServerForIndex (gigaUpdateMapping (site.dirs server).mapping cindex) cindex = other ↔
      Owns mapping other cindex := by
    rw [Owns, ← (sound.settled server).placement.server]
    rfl
  unfold Site.announce
  by_cases same : other = server
  · rw [if_pos same, same, (sound.settled server).idle]
    exact Or.inl ⟨Or.inl rfl, rfl⟩
  · rw [if_neg same, child]
    by_cases owns : Owns mapping other cindex
    · exact Or.inl ⟨Or.inr owns, if_pos ⟨set, owner.mpr owns⟩⟩
    · refine Or.inr ⟨?_, if_neg fun both => owns (owner.mp both.2)⟩
      rintro (itself | told)
      · exact same itself
      · exact owns told

theorem Sound.learns {server : Fin servers} {pindex cindex : Nat}
    (owner : gigaGetServerForIndex (site.dirs server).mapping pindex = server)
    (child : gigaIndexForSplitting (site.dirs server).mapping pindex = some cindex)
    (bounded : cindex < 2 ^ (maxRadix - 1)) :
    let views : SplitProtocol.State (Fin servers) :=
      { view := fun other => (site.announce server pindex
          ⟨gigaUpdateMapping (site.dirs server).mapping cindex, none⟩ other).mapping.partitions
        pending := fun _ => none }
    views.all = insert cindex site.views.all ∧ SplitProtocol.Coherent (Owns mapping) views := by
  intro views
  have above : parent cindex = pindex := (gigaIndexForSplitting_parent child).1
  have own : Owns mapping server (parent cindex) := by
    rw [above, Owns, ← (sound.settled server).placement.server]
    exact owner
  have present : parent cindex ∈ site.views.view server := above ▸ (gigaIndexForSplitting_some child).1
  apply SplitProtocol.Coherent.settle sound.coherent _ Owns.unique present own
  intro other node
  rcases sound.announced child bounded other with ⟨told, table⟩ | ⟨untold, table⟩
  · have inside : cindex < capacity := bounded.trans (by decide)
    rw [table, partitions_update _ inside, Finset.mem_insert, and_iff_left told]
    exact or_comm
  · rw [table, or_iff_left fun both => untold both.2]

theorem Sound.split {server : Fin servers} {pindex : Nat} {events : List SplitEvent}
    (orderly : Orderly site (.split server pindex events))
    (stepped : siteStep shahash mapping site (.split server pindex events) = some (after, label)) :
    Simulated shahash mapping site after label := by
  simp only [siteStep] at stepped
  split at stepped
  · rename_i allowed
    obtain ⟨⟨dir, store⟩, split, stepped⟩ := Option.bind_eq_some_iff.mp stepped
    cases stepped
    have settled := sound.settled server
    cases child : gigaIndexForSplitting (site.dirs server).mapping pindex with
    | none => cases (doSplit_childless child events).symm.trans split
    | some cindex =>
      have bounded := orderly.2 cindex child
      have table : site.dirs server = ⟨(site.dirs server).mapping, none⟩ := by rw [← settled.idle]
      rw [table] at split
      have fresh := sound.fresh allowed.1 child
      rcases (sound.setting allowed.1 child bounded).doSplit_spec (sound.ready allowed.1 child bounded) orderly.1 split
        with ⟨rfl, rfl⟩ | ⟨rfl, divides⟩
      · have unchanged : site.announce server pindex ⟨(site.dirs server).mapping, none⟩ = site.dirs := by
          rw [← table]
          exact announce_nothing child
        simp only [Sound.setting, unchanged]
        exact ⟨sound, rfl⟩
      · have member : (sound.setting allowed.1 child bounded).pindex ∈ site.views.all :=
          site.views.view_subset server (gigaIndexForSplitting_some child).1
        obtain ⟨kept, entries⟩ := sound.kept.divides member fresh divides
        refine ⟨sound.setDirs (fun other => ?_) ?_ kept (Finset.subset_insert _ _), ?_⟩
        · rcases sound.announced child bounded other with ⟨-, told⟩ | ⟨-, same⟩
          · exact told ▸ (sound.settled other).update bounded
          · exact same ▸ sound.settled other
        · exact sound.learns allowed.1 child bounded
        · exact congrArg some entries.symm
  · cases stepped

theorem Sound.reload {server : Fin servers} (counted : 0 < mapping.serverCount)
    (stepped : siteStep shahash mapping site (.reload server) = some (after, label)) :
    Simulated shahash mapping site after label := by
  simp only [siteStep] at stepped
  split at stepped
  · cases stepped
    have kept := sound.kept
    have reads : ∀ token : Nat, (fun _ : Nat => true) token = true := fun _ => rfl
    obtain ⟨valid, small, listed⟩ := newDirectory_spec kept.listed reads mapping.zerothServer mapping.serverCount
    have placement : (newDirectory (fun _ => true) mapping.zerothServer mapping.serverCount
        site.store.keys).mapping.SamePlacement mapping :=
      (placement_newDirectory reads).trans (GigaMapping.SamePlacement.init counted)
    let loaded := newDirectory (fun _ => true) mapping.zerothServer mapping.serverCount site.store.keys
    -- The buckets in PVFS are the partitions that all servers together know.
    have refreshed : loaded.mapping.partitions = site.views.all := by
      ext index
      rw [listed, kept.buckets]
      exact or_iff_right_of_imp fun zero => zero ▸ kept.root
    have coherent := SplitProtocol.Coherent.refresh sound.coherent
      (fun other => (Function.update site.dirs server loaded other).mapping.partitions) server
      (fun other different => by rw [Function.update_of_ne different])
      (by rw [Function.update_self]; exact refreshed)
    refine ⟨sound.setDirs (fun other => ?_) coherent kept Finset.Subset.rfl, rfl⟩
    by_cases same : other = server
    · rw [same, Function.update_self]
      exact ⟨valid, small, placement, rfl⟩
    · rw [Function.update_of_ne same]
      exact sound.settled other
  · cases stepped

theorem Sound.step {event : Event servers} (counted : 0 < mapping.serverCount) (orderly : Orderly site event)
    (stepped : siteStep shahash mapping site event = some (after, label)) :
    Simulated shahash mapping site after label := by
  cases event with
  | submit client request => exact sound.submit stepped
  | send id => exact sound.send stepped
  | answer id => exact sound.answer stepped
  | complete id emptied => exact sound.complete stepped
  | merge id => exact sound.merge stepped
  | lose id =>
    cases stepped
    exact ⟨sound.setCall id _ nofun, rfl⟩
  | depart index name => exact sound.depart stepped
  | split server pindex events => exact sound.split orderly stepped
  | reload server => exact sound.reload counted stepped

end

/-- A directory at rest: its buckets are those of the table, and every entry is in the bucket of its name. -/
structure Furnished (shahash : FileName → Digest) (mapping : GigaMapping) (store : Store) : Prop where
  valid : mapping.Valid
  small : mapping.Small
  closed : ∀ index ∈ mapping.partitions, 0 < index → getParentIndex index ∈ mapping.partitions
  buckets : ∀ key, key ∈ store.keys ↔ ∃ index ∈ mapping.partitions, key = bucketName index
  entries : ∀ index name, (store.find index name).isSome → gigaGetIndexForFile shahash mapping name = some index

theorem sound_start {store : Store} (furnished : Furnished shahash mapping store) (counted : 0 < mapping.serverCount)
    (server : Fin servers) : Sound shahash mapping (start mapping store : Site servers) := by
  have all : (start mapping store : Site servers).views.all = mapping.partitions := by
    ext index
    rw [SplitProtocol.State.mem_all]
    exact ⟨fun ⟨_, member⟩ => member, fun member => ⟨server, member⟩⟩
  refine ⟨fun _ => ⟨furnished.valid, furnished.small, ⟨rfl, rfl⟩, rfl⟩, ?_, ?_, fun _ => ?_, nofun⟩
  · have closed : ParentClosed mapping.partitions := by
      intro index member positive
      rw [← getParentIndex_eq]
      exact furnished.closed index member (Nat.pos_of_ne_zero positive)
    exact SplitProtocol.coherent_initial closed
  · rw [all]
    refine ⟨furnished.valid.root, ?_, ?_, ?_⟩
    · intro key member
      obtain ⟨index, inside, same⟩ := (furnished.buckets key).mp member
      exact ⟨index, furnished.small index inside, same⟩
    · intro index
      refine (furnished.buckets _).trans ⟨?_, fun member => ⟨index, member, rfl⟩⟩
      rintro ⟨other, member, same⟩
      exact bucketName_injective same ▸ member
    · intro index name found
      exact ((gigaGetIndexForFile_eq_some shahash furnished.valid).mp (furnished.entries index name found)).2
  · rw [all]
    refine ⟨valid_init _ _, GigaMapping.SamePlacement.init counted, ?_⟩
    rw [start, partitions_init, Finset.singleton_subset_iff]
    exact furnished.valid.root

/-- What holds at the end of every run, and what the run has done to the map. -/
theorem simulated_of_history {store : Store} (furnished : Furnished shahash mapping store)
    (counted : 0 < mapping.serverCount) (server : Fin servers) {events : List (Event servers)}
    {labels : List (Operation × Answer)}
    (orderly : Meets (unlabelled (siteStep shahash mapping)) Orderly (start mapping store) events)
    (ran : history (siteStep shahash mapping) (start mapping store) events = some (site, labels)) :
    Sound shahash mapping site ∧ execute replay (entryOf store) labels = some site.entries := by
  have simulates : ∀ (before : Site servers) event after label, Sound shahash mapping before → Orderly before event →
      siteStep shahash mapping before event = some (after, label) →
      Sound shahash mapping after ∧
        execute replay (Site.entries before) label.toList = some (Site.entries after) :=
    fun before event after label sound allowed stepped => sound.step counted allowed stepped
  exact history_replays simulates (sound_start furnished counted server) orderly ran

/-- A bucket that was looked up earlier is still the one that the hash of the name leads to. -/
def Timely (shahash : FileName → Digest) (site : Site servers) : Event servers → Prop
  | .answer id => ∀ client server index entry name position,
      site.calls[id]? = some (.sent client (.rename (.bucket index entry) name position) server) →
        Deepest site.views.all (hashNumber shahash entry) index
  | .complete id _ => ∀ server removal, site.calls[id]? = some (.removing server removal) →
      Deepest site.views.all (hashNumber shahash removal.name) removal.index
  | .depart index name => Deepest site.views.all (hashNumber shahash name) index
  | .submit _ _ | .send _ | .merge _ | .lose _ | .split _ _ _ | .reload _ => True

/-- The events that say something, and what they say. -/
theorem said_of_step {event : Event servers} {said : Operation × Answer}
    (stepped : siteStep shahash mapping site event = some (after, some said)) :
    (∃ id client request server, event = .answer id ∧ site.calls[id]? = some (.sent client request server) ∧
      said.1 = request.operation site.store true) ∨
    (∃ id emptied server removal, event = .complete id emptied ∧ site.calls[id]? = some (.removing server removal) ∧
      said.1 = removalOperation site.store removal emptied) ∨
    ∃ index name, event = .depart index name ∧
      said.1 = if strayed site.store index name then .overtaken name else .depart name := by
  cases event with
  | submit client request | lose id => cases stepped
  | send id =>
    simp only [siteStep, Option.bind_eq_bind, Option.bind_eq_some_iff] at stepped
    obtain ⟨call, -, stepped⟩ := stepped
    cases call <;> simp only [reduceCtorEq] at stepped
    obtain ⟨server, -, stepped⟩ := Option.bind_eq_some_iff.mp stepped
    split at stepped <;> cases stepped
  | merge id =>
    simp only [siteStep, Option.bind_eq_bind, Option.bind_eq_some_iff] at stepped
    obtain ⟨call, -, stepped⟩ := stepped
    cases call <;> cases stepped
  | split server pindex events =>
    simp only [siteStep] at stepped
    split at stepped
    · obtain ⟨result, -, stepped⟩ := Option.bind_eq_some_iff.mp stepped
      cases stepped
    · cases stepped
  | reload server =>
    simp only [siteStep] at stepped
    split at stepped <;> cases stepped
  | depart index name =>
    cases stepped
    exact .inr (.inr ⟨index, name, rfl, rfl⟩)
  | complete id emptied =>
    simp only [siteStep, Option.bind_eq_bind, Option.bind_eq_some_iff] at stepped
    obtain ⟨call, at_, stepped⟩ := stepped
    cases call <;> cases stepped
    exact .inr (.inl ⟨id, emptied, _, _, rfl, at_, rfl⟩)
  | answer id =>
    simp only [siteStep, Option.bind_eq_bind, Option.bind_eq_some_iff] at stepped
    obtain ⟨call, at_, stepped⟩ := stepped
    cases call <;> simp only [reduceCtorEq] at stepped
    obtain ⟨⟨served, store⟩, -, stepped⟩ := Option.bind_eq_some_iff.mp stepped
    cases served <;> cases stepped
    exact .inl ⟨id, _, _, _, rfl, at_, rfl⟩

theorem Sound.not_overtaken {event : Event servers} (sound : Sound shahash mapping site)
    (timely : Timely shahash site event) (stepped : siteStep shahash mapping site event = some (after, label)) :
    ∀ said ∈ label, ∀ name, said.1 ≠ .overtaken name := by
  rintro said rfl other same
  rcases said_of_step stepped with ⟨id, client, request, server, rfl, at_, told⟩ |
    ⟨id, emptied, server, removal, rfl, at_, told⟩ | ⟨index, name, rfl, told⟩
  · rw [told] at same
    cases request with
    | rename source name position =>
      cases source with
      | elsewhere object => cases same
      | bucket index entry =>
        simp only [Request.operation, sound.kept.not_strayed (timely client server index entry name position at_)] at same
        cases same
    | lookup name | partition name | create name handle position | mkdir name handle position error | remove name =>
      cases same
  · simp only [told, removalOperation, sound.kept.not_strayed (timely server removal at_)] at same
    cases same
  · simp only [told, sound.kept.not_strayed timely] at same
    cases same

/-- In every run, the answers that the handlers give are those of one map, and the buckets hold that map, each entry in
the bucket that the hash of its name leads to. No call misses its entry where buckets are not used after a split. -/
theorem directory_is_one_map {store : Store} (furnished : Furnished shahash mapping store)
    (counted : 0 < mapping.serverCount) (server : Fin servers) {events : List (Event servers)}
    {labels : List (Operation × Answer)}
    (orderly : Meets (unlabelled (siteStep shahash mapping)) Orderly (start mapping store) events)
    (ran : history (siteStep shahash mapping) (start mapping store) events = some (site, labels)) :
    execute replay (entryOf store) labels = some site.entries ∧ Kept shahash site.views.all site.store ∧
      (Meets (unlabelled (siteStep shahash mapping)) (Timely shahash) (start mapping store) events →
        ∀ label ∈ labels, ∀ name, label.1 ≠ .overtaken name) := by
  obtain ⟨sound, replayed⟩ := simulated_of_history furnished counted server orderly ran
  refine ⟨replayed, sound.kept, fun timely => ?_⟩
  have keeps : ∀ (before : Site servers) event after label, Sound shahash mapping before →
      (Orderly before event ∧ Timely shahash before event) → siteStep shahash mapping before event = some (after, label) →
      Sound shahash mapping after ∧ ∀ said ∈ label, ∀ name, said.1 ≠ .overtaken name :=
    fun before event after label sound allowed stepped =>
      ⟨(sound.step counted allowed.1 stepped).1, sound.not_overtaken allowed.2 stepped⟩
  exact history_labels keeps (sound_start furnished counted server) (orderly.and timely) ran

theorem furnished_new {zerothServer serverCount : UInt32} :
    Furnished shahash (gigaInitMapping zerothServer serverCount) (Listing.put 0 (bucketName 0) ∅ ∅) where
  valid := valid_init _ _
  small := small_init _ _
  closed := closed_init _ _
  buckets key := by
    rw [← AList.mem_keys, Listing.mem_put, partitions_init]
    simp
  entries index name found := by
    have empty : Store.find (Listing.put 0 (bucketName 0) ∅ ∅) index name = none := by
      rw [Store.find, Store.bucket_put]
      split <;> rfl
    rw [empty] at found
    cases found

end

/-- A file is made, its partition split, and a client that knows of no split asks for the file. -/
def acrossSplit : List (Event 2) :=
  [.submit 0 (.create ['a'] 7 0), .send 0, .answer 0,
    .split 0 0 [.begin_ false, .makeChild .inPlace 1, .readdir, .moveNext true 0, .endBatch, .readdir, .lockAgain, .finish],
    .submit 1 (.lookup ['a']), .send 1, .answer 1, .merge 1, .send 1, .answer 1]

theorem acrossSplit_history :
    (history (siteStep (fun _ => Vector.replicate 20 1#8) (gigaInitMapping 0 2))
      (start (gigaInitMapping 0 2) (Listing.put 0 (bucketName 0) ∅ ∅)) acrossSplit).map Prod.snd =
      some [(.create ['a'] 7, .ref (.object 7)), (.lookup ['a'], .ref (.object 7))] := by decide +kernel

theorem acrossSplit_orderly :
    Meets (unlabelled (siteStep (fun _ => Vector.replicate 20 1#8) (gigaInitMapping 0 2))) Orderly
      (start (gigaInitMapping 0 2) (Listing.put 0 (bucketName 0) ∅ ∅)) acrossSplit := by decide +kernel

/-- A directory is made, and its partition splits while its remove is between its two halves. -/
def overtakenRemove : List (Event 2) :=
  [.submit 0 (.mkdir ['d'] 7 0 none), .send 0, .answer 0, .submit 0 (.remove ['d']), .send 1, .answer 1,
    .split 0 0 [.begin_ false, .makeChild .inPlace 1, .readdir, .moveNext true 0, .endBatch, .readdir, .lockAgain, .finish],
    .complete 1 true, .submit 1 (.lookup ['d']), .send 2, .answer 2, .merge 2, .send 2, .answer 2]

theorem overtakenRemove_history :
    (history (siteStep (flatDigest 1#8) (gigaInitMapping 0 2))
      (start (gigaInitMapping 0 2) (Listing.put 0 (bucketName 0) ∅ ∅)) overtakenRemove).map Prod.snd =
      some [(.mkdir ['d'] 7 none, .ref (.object 7)), (.overtaken ['d'], .fail .enoent),
        (.lookup ['d'], .ref (.object 7))] := by decide +kernel

/-- The remove misses the directory, which is found on the other server afterwards. -/
theorem directory_is_one_map_overtaken :
    ∃ (site : Site 2) (labels : List (Operation × Answer)),
      history (siteStep (flatDigest 1#8) (gigaInitMapping 0 2))
        (start (gigaInitMapping 0 2) (Listing.put 0 (bucketName 0) ∅ ∅)) overtakenRemove = some (site, labels) ∧
      labels = [(.mkdir ['d'] 7 none, .ref (.object 7)), (.overtaken ['d'], .fail .enoent),
        (.lookup ['d'], .ref (.object 7))] ∧
      execute replay (entryOf (Listing.put 0 (bucketName 0) ∅ ∅)) labels = some site.entries ∧
      Kept (flatDigest 1#8) site.views.all site.store := by
  obtain ⟨⟨site, labels⟩, ran, same⟩ := Option.map_eq_some_iff.mp overtakenRemove_history
  have orderly : Meets (unlabelled (siteStep (flatDigest 1#8) (gigaInitMapping 0 2))) Orderly
      (start (gigaInitMapping 0 2) (Listing.put 0 (bucketName 0) ∅ ∅)) overtakenRemove := by decide +kernel
  obtain ⟨replayed, kept, -⟩ := directory_is_one_map furnished_new (by decide) 0 orderly ran
  exact ⟨site, labels, ran, same, replayed, kept⟩

end SkyeFS.Namespace
