import SkyeFS.Cluster.Redirects

/-! A client that did not learn where a directory begins.

`new_directory` of client/cache.c takes what `pvfs_get_mds` returns for the number of the
zeroth server, and that is the error of PVFS if the handle could not be mapped. A redirect
carries the server's table, but `giga_update_cache` does not take over its zeroth server, and
the client's cache never drops a directory.
-/

set_option autoImplicit false

namespace SkyeFS.Cluster

open Index Server Foundation Foundation.SuffixTree

/-- The table of `new_directory`, with the `int` of `pvfs_get_mds` as an unsigned number. -/
def newDirectoryMapping (mds : Int32) (servercount : UInt32) : GigaMapping := gigaInitMapping mds.toUInt32 servercount

section
variable {servers : Nat} {Name : Type}

/-- The servers have loaded `mapping`, and the clients have any tables. -/
def cachedStart (mapping : GigaMapping) (cache : Nat → GigaMapping) : Network servers Name where
  cluster := start mapping
  cache := cache
  requests _ := none

/-- No server removes, and the name stays in its partition. -/
def KeepsName (shahash : Name → Digest) (mapping : GigaMapping) (name : Name) (index : Nat)
    (network : Network servers Name) (event : NetworkEvent servers Name) : Prop :=
  NetworkSplitsOnly network event ∧ ∀ after, networkStep shahash network event = some after →
    gigaGetIndexForFile shahash (after.cluster.union mapping.zerothServer mapping.serverCount) name = some index

/-- A table that the client may hold: it places partitions like `table`, and knows the partition of the name. -/
structure Misled (table : GigaMapping) (index : Nat) (all : Finset Nat) (view : GigaMapping) : Prop where
  valid : view.Valid
  placement : view.SamePlacement table
  subset : view.partitions ⊆ all
  knows : index ∈ view.partitions

section
variable {shahash : Name → Digest} {mapping table view : GigaMapping} {name : Name} {index : Nat} {all : Finset Nat}

theorem Misled.mono {large : Finset Nat} (misled : Misled table index all view) (grown : all ⊆ large) :
    Misled table index large view :=
  ⟨misled.valid, misled.placement, misled.subset.trans grown, misled.knows⟩

/-- The table of a server brings partitions and leaves the placement as it is. -/
theorem Misled.merge {bitmap : GigaMapping} {cluster : System servers}
    (misled : Misled table index (cluster.abstraction mapping).all view) (known : Known mapping cluster bitmap)
    (counted : table.serverCount = mapping.serverCount) :
    Misled table index (cluster.abstraction mapping).all (gigaUpdateCache view bitmap) where
  valid := misled.valid.merge known.valid
  placement := by
    have same : view.serverCount = bitmap.serverCount :=
      (misled.placement.2.trans counted).trans known.placement.2.symm
    refine ⟨misled.placement.1, ?_⟩
    simp only [gigaUpdateCache, ← same, ite_self]
    exact misled.placement.2
  subset := by
    rw [partitions_merge]
    exact Finset.union_subset misled.subset known.subset
  knows := by
    rw [partitions_merge]
    exact Finset.mem_union_left _ misled.knows

theorem Misled.routes (misled : Misled table index all view) (small : ∀ other ∈ all, other < 2 ^ (maxRadix - 1))
    (deepest : Deepest all (hashNumber shahash name) index) :
    gigaGetServerForFile shahash view name = some (gigaGetServerForIndex table index) := by
  -- The client computes the right partition and asks the wrong server.
  have found : gigaGetIndexForFile shahash view name = some index := by
    apply (gigaGetIndexForFile_eq_some shahash misled.valid).mpr
    refine ⟨fun other member => small other (misled.subset member), misled.knows, deepest.suffix, ?_⟩
    intro other member suffix
    exact deepest.maximal other (misled.subset member) suffix
  rw [gigaGetServerForFile, found, Option.map_some, misled.placement.server]

end

/-- What holds of the requests of the client, and of those for the name in particular. -/
structure Request.Astray (mapping table : GigaMapping) (name : Name) (index : Nat) (cluster : System servers)
    (request : Request servers Name) : Prop where
  learns : ∀ view bitmap, request.phase = .redirected view bitmap → Known mapping cluster bitmap
  asks : request.name = name → ∀ view target, request.phase = .sent view target →
    target.val = gigaGetServerForIndex table index
  refused : request.name = name → request.phase ≠ .accepted

theorem Request.astray_routing {mapping table : GigaMapping} {name : Name} {index : Nat} {cluster : System servers}
    {request : Request servers Name} (routing : request.phase = .routing) :
    request.Astray mapping table name index cluster := by
  refine ⟨?_, ?_, ?_⟩
  · intro view bitmap phase
    cases routing.symm.trans phase
  · intro _ view target phase
    cases routing.symm.trans phase
  · intro _ phase
    cases routing.symm.trans phase

structure Network.Astray (shahash : Name → Digest) (mapping table : GigaMapping) (client : Nat) (name : Name)
    (index : Nat) (network : Network servers Name) : Prop where
  consistent : Consistent mapping network.cluster
  steady : Deepest (network.cluster.abstraction mapping).all (hashNumber shahash name) index
  cache : Misled table index (network.cluster.abstraction mapping).all (network.cache client)
  requests : ∀ id request, network.requests id = some request → request.client = client →
    request.Astray mapping table name index network.cluster

section
variable {shahash : Name → Digest} {mapping table : GigaMapping} {client : Nat} {name : Name} {index : Nat}
  {network after : Network servers Name} (astray : network.Astray shahash mapping table client name index)
include astray

theorem Network.Astray.setRequest {id : Nat} {request : Request servers Name}
    (own : request.client = client → request.Astray mapping table name index network.cluster) :
    (network.setRequest id request).Astray shahash mapping table client name index where
  consistent := astray.consistent
  steady := astray.steady
  cache := astray.cache
  requests := by
    intro other waiting found
    by_cases same : other = id
    · subst same
      simp only [Network.setRequest, Function.update_self] at found
      cases found
      exact own
    · simp only [Network.setRequest, Function.update_of_ne same] at found
      exact astray.requests other waiting found

theorem Network.Astray.send {id : Nat} (stepped : networkStep shahash network (.send id) = some after) :
    after.Astray shahash mapping table client name index := by
  simp only [networkStep, Option.bind_eq_bind, Option.bind_eq_some_iff] at stepped
  obtain ⟨request, found, stepped⟩ := stepped
  cases phase : request.phase <;> simp only [phase, reduceCtorEq] at stepped
  obtain ⟨server, routed, stepped⟩ := Option.bind_eq_some_iff.mp stepped
  split at stepped
  · cases stepped
    apply astray.setRequest
    rintro rfl
    refine ⟨?_, ?_, ?_⟩
    · rintro view bitmap ⟨⟩
    · rintro rfl view target ⟨⟩
      have wrong := astray.cache.routes (fun _ => astray.consistent.all_small) astray.steady
      exact Option.some.inj (routed.symm.trans wrong)
    · rintro _ ⟨⟩
  · cases stepped

theorem Network.Astray.answer (wrong : gigaGetServerForIndex table index ≠ gigaGetServerForIndex mapping index) {id : Nat}
    (stepped : networkStep shahash network (.answer id) = some after) :
    after.Astray shahash mapping table client name index := by
  simp only [networkStep, Option.bind_eq_bind, Option.bind_eq_some_iff] at stepped
  obtain ⟨request, found, stepped⟩ := stepped
  cases phase : request.phase <;> simp only [phase, reduceCtorEq] at stepped
  rename_i view target
  split at stepped
  · cases stepped
  · rename_i unlocked
    obtain ⟨decision, decided, stepped⟩ := Option.bind_eq_some_iff.mp stepped
    cases decision with
    | here accepted =>
      cases stepped
      apply astray.setRequest
      intro own
      refine ⟨?_, ?_, ?_⟩
      · rintro _ bitmap ⟨⟩
      · rintro _ _ other ⟨⟩
      · intro named
        -- Only the owner of the name's partition accepts it, and the client asks another server.
        have asked := (astray.requests id request found own).asks named view target phase
        have free : (network.cluster target).locked = false := by simpa using unlocked
        have deepest := astray.consistent.accepted free decided
        obtain ⟨-, owner⟩ := locality_here.mp decided
        subst named
        rw [(astray.consistent.proper target).placement.server, deepest.unique astray.steady] at owner
        exact absurd (asked.symm.trans owner.symm) wrong
    | again bitmap =>
      cases stepped
      apply astray.setRequest
      intro _
      refine ⟨?_, ?_, ?_⟩
      · rintro view bitmap ⟨⟩
        obtain ⟨rfl, -⟩ := locality_again.mp decided
        exact astray.consistent.known target
      · rintro _ _ other ⟨⟩
      · rintro _ ⟨⟩

theorem Network.Astray.merge (counted : table.serverCount = mapping.serverCount) {id : Nat}
    (stepped : networkStep shahash network (.merge id) = some after) :
    after.Astray shahash mapping table client name index := by
  simp only [networkStep, Option.bind_eq_bind, Option.bind_eq_some_iff] at stepped
  obtain ⟨request, found, stepped⟩ := stepped
  cases phase : request.phase <;> simp only [phase, reduceCtorEq] at stepped
  rename_i view bitmap
  cases stepped
  have merged : Network.Astray shahash mapping table client name index { network with
      cache := Function.update network.cache request.client
        (gigaUpdateCache (network.cache request.client) bitmap) } := by
    refine ⟨astray.consistent, astray.steady, ?_, astray.requests⟩
    by_cases own : request.client = client
    · subst own
      simp only [Function.update_self]
      exact astray.cache.merge ((astray.requests id request found rfl).learns view bitmap phase) counted
    · simp only [Function.update_of_ne (Ne.symm own)]
      exact astray.cache
  exact merged.setRequest fun _ => Request.astray_routing rfl

theorem Network.Astray.step (wrong : gigaGetServerForIndex table index ≠ gigaGetServerForIndex mapping index)
    (counted : table.serverCount = mapping.serverCount) (server : Fin servers) {event : NetworkEvent servers Name}
    (keeps : KeepsName shahash mapping name index network event)
    (stepped : networkStep shahash network event = some after) :
    after.Astray shahash mapping table client name index := by
  cases event with
  | cluster event =>
    have stays := keeps.2 after stepped
    obtain ⟨cluster, moved, rfl⟩ := Option.map_eq_some_iff.mp stepped
    have consistent := astray.consistent.step keeps.1 moved
    have grown : (network.cluster.abstraction mapping).all ⊆ (cluster.abstraction mapping).all :=
      SplitProtocol.all_mono ((placed_of_proper astray.consistent.proper).refines keeps.1.noRemoval moved).view_mono
    refine ⟨consistent, ?_, astray.cache.mono grown, ?_⟩
    · have deepest := ((gigaGetIndexForFile_eq_some shahash (consistent.union_valid _ _)).mp stays).2
      rwa [consistent.union_partitions server] at deepest
    · intro id request found own
      have before := astray.requests id request found own
      exact ⟨fun view bitmap phase => (before.learns view bitmap phase).mono grown, before.asks, before.refused⟩
  | submit id other asked =>
    simp only [networkStep] at stepped
    split at stepped
    · cases stepped
      exact astray.setRequest fun _ => Request.astray_routing rfl
    · cases stepped
  | send id => exact astray.send stepped
  | answer id => exact astray.answer wrong stepped
  | merge id => exact astray.merge counted stepped

end

section
variable {shahash : Name → Digest} {mapping table : GigaMapping} {client : Nat} {name : Name} {index : Nat}
  {network : Network servers Name}

/-- While the servers stand as they started, a request of the client goes round once more. -/
theorem Network.Astray.round (astray : network.Astray shahash mapping table client name index)
    (wrong : gigaGetServerForIndex table index ≠ gigaGetServerForIndex mapping index)
    (counted : table.serverCount = mapping.serverCount) (reachable : gigaGetServerForIndex table index < servers)
    (lookup : gigaGetIndexForFile shahash mapping name = some index) (still : network.cluster = start mapping)
    {id redirects : Nat}
    (found : network.requests id = some ⟨client, name, .routing, redirects⟩) :
    ∃ after, execute (networkStep shahash) network [.send id, .answer id, .merge id] = some after ∧
      after.Astray shahash mapping table client name index ∧ after.cluster = start mapping ∧
      after.requests id = some ⟨client, name, .routing, redirects + 1⟩ := by
  have routed := astray.cache.routes (fun _ => astray.consistent.all_small) astray.steady
  have sent : networkStep shahash network (.send id) = some (network.setRequest id
      ⟨client, name, .sent (network.cache client) ⟨_, reachable⟩, redirects⟩) := by
    simp [networkStep, found, routed, reachable]
  have foreign : locality shahash (gigaGetServerForIndex table index) ⟨mapping, none⟩ name = some (.again mapping) :=
    locality_again.mpr ⟨rfl, index, lookup, Ne.symm wrong⟩
  have answered : ∀ view, networkStep shahash (network.setRequest id
      ⟨client, name, .sent view ⟨_, reachable⟩, redirects⟩) (.answer id) =
        some ((network.setRequest id ⟨client, name, .sent view ⟨_, reachable⟩, redirects⟩).setRequest id
          ⟨client, name, .redirected view mapping, redirects + 1⟩) := by
    intro view
    simp [networkStep, Network.setRequest, still, start, ServerState.locked, foreign]
  have refused := (astray.send sent).answer wrong (answered (network.cache client))
  obtain ⟨after, merged, still', held⟩ : ∃ after, networkStep shahash ((network.setRequest id ⟨client, name,
      .sent (network.cache client) ⟨_, reachable⟩, redirects⟩).setRequest id
        ⟨client, name, .redirected (network.cache client) mapping, redirects + 1⟩) (.merge id) = some after ∧
      after.cluster = network.cluster ∧ after.requests id = some ⟨client, name, .routing, redirects + 1⟩ := by
    simp [networkStep, Network.setRequest]
  refine ⟨after, ?_, refused.merge counted merged, still'.trans still, held⟩
  simp only [execute, sent, answered, merged, Option.bind_some]

theorem Network.Astray.rounds (astray : network.Astray shahash mapping table client name index)
    (wrong : gigaGetServerForIndex table index ≠ gigaGetServerForIndex mapping index)
    (counted : table.serverCount = mapping.serverCount) (reachable : gigaGetServerForIndex table index < servers)
    (lookup : gigaGetIndexForFile shahash mapping name = some index) (still : network.cluster = start mapping)
    {id redirects : Nat} (found : network.requests id = some ⟨client, name, .routing, redirects⟩) (count : Nat) :
    ∃ after, execute (networkStep shahash) network (List.replicate count [.send id, .answer id, .merge id]).flatten =
      some after ∧ after.requests id = some ⟨client, name, .routing, redirects + count⟩ := by
  induction count generalizing network redirects with
  | zero => exact ⟨network, rfl, found⟩
  | succ count ih =>
    obtain ⟨next, once, again, unmoved, held⟩ := astray.round wrong counted reachable lookup still found
    obtain ⟨after, more, ended⟩ := ih again unmoved held
    refine ⟨after, ?_, ?_⟩
    · rw [List.replicate_succ, List.flatten_cons, execute_append, once]
      exact more
    · rw [ended, Nat.add_right_comm, Nat.add_assoc]

theorem all_start (server : Fin servers) :
    (System.abstraction (start mapping : System servers) mapping).all = mapping.partitions := by
  ext other
  rw [SplitProtocol.State.mem_all]
  exact ⟨fun ⟨_, member⟩ => member, fun member => ⟨server, member⟩⟩

theorem astray_start (valid : mapping.Valid) (small : mapping.Small) (closed : ParentClosed mapping.partitions)
    (server : Fin servers) (tableValid : table.Valid) (within : table.partitions ⊆ mapping.partitions)
    (lookup : gigaGetIndexForFile shahash mapping name = some index) (knows : index ∈ table.partitions)
    {cache : Nat → GigaMapping} (cached : cache client = table) :
    (cachedStart mapping cache : Network servers Name).Astray shahash mapping table client name index where
  consistent := consistent_start valid small closed
  steady := by
    have deepest := ((gigaGetIndexForFile_eq_some shahash valid).mp lookup).2
    rw [← all_start server] at deepest
    exact deepest
  cache := by
    have same : (cachedStart mapping cache : Network servers Name).cache client = table := cached
    have all := @all_start servers mapping server
    rw [same]
    exact ⟨tableValid, ⟨rfl, rfl⟩, fun _ member => all.symm ▸ within member, knows⟩
  requests := by
    intro id request found
    cases found

end

end

/-- A client that knows the partition of a name, but not the zeroth server of the directory, is never served for that
name: no run without a split that moves it lets a request be accepted, and the redirects have no bound. -/
theorem misplaced_client_redirected_forever {servers : Nat} {Name : Type} {shahash : Name → Digest} {mapping : GigaMapping}
    (valid : mapping.Valid) (small : mapping.Small)
    (closed : ∀ index ∈ mapping.partitions, 0 < index → getParentIndex index ∈ mapping.partitions)
    (counted : mapping.serverCount.toNat = servers) (positive : 0 < servers) {table : GigaMapping}
    (tableValid : table.Valid) (within : table.partitions ⊆ mapping.partitions)
    (sameCount : table.serverCount = mapping.serverCount) {name : Name} {index : Nat}
    (lookup : gigaGetIndexForFile shahash mapping name = some index) (knows : index ∈ table.partitions)
    (wrong : gigaGetServerForIndex table index ≠ gigaGetServerForIndex mapping index) {cache : Nat → GigaMapping}
    {client : Nat} (cached : cache client = table) :
    (∀ network : Network servers Name,
      Reaches (networkStep shahash) (KeepsName shahash mapping name index) (cachedStart mapping cache) network →
      ∀ id request, network.requests id = some request → request.client = client → request.name = name →
        request.phase ≠ .accepted) ∧
    ∀ redirects, ∃ network : Network servers Name,
      execute (networkStep shahash) (cachedStart mapping cache)
        (.submit 0 client name :: (List.replicate redirects [.send 0, .answer 0, .merge 0]).flatten) = some network ∧
      network.requests 0 = some ⟨client, name, .routing, redirects⟩ := by
  have parentClosed : ParentClosed mapping.partitions := by
    intro index member nonzero
    rw [← getParentIndex_eq]
    exact closed index member (Nat.pos_of_ne_zero nonzero)
  have begun : (cachedStart mapping cache : Network servers Name).Astray shahash mapping table client name index :=
    astray_start valid small parentClosed ⟨0, positive⟩ tableValid within lookup knows cached
  constructor
  · intro network reached id request found own named
    have astray : network.Astray shahash mapping table client name index := reached.invariant begun
      fun _ _ _ before keeps stepped => before.step wrong sameCount ⟨0, positive⟩ keeps stepped
    exact (astray.requests id request found own).refused named
  · intro redirects
    have reachable : gigaGetServerForIndex table index < servers := by
      rw [gigaGetServerForIndex, UInt32.toNat_mod, sameCount, counted]
      exact Nat.mod_lt _ positive
    have submitted : (Network.setRequest (cachedStart mapping cache : Network servers Name) 0
        ⟨client, name, .routing, 0⟩).Astray shahash mapping table client name index :=
      begun.setRequest fun _ => Request.astray_routing rfl
    obtain ⟨after, ran, ended⟩ := submitted.rounds wrong sameCount reachable lookup rfl (Function.update_self _ _ _) redirects
    rw [Nat.zero_add] at ended
    exact ⟨after, ran, ended⟩

/-- Two servers, an unsplit directory, and an error of PVFS in place of the number of its server. -/
theorem misplaced_client_redirected_forever_error : ∃ network : Network 2 Unit,
    execute (networkStep fun _ => Vector.replicate 20 0#8)
      (cachedStart (gigaInitMapping 0 2) fun _ => newDirectoryMapping (-1) 2)
      (.submit 0 0 () :: (List.replicate 1000 [.send 0, .answer 0, .merge 0]).flatten) = some network ∧
    network.requests 0 = some ⟨0, (), .routing, 1000⟩ := by
  have within : (newDirectoryMapping (-1) 2).partitions ⊆ (gigaInitMapping 0 2).partitions := by
    rw [newDirectoryMapping, partitions_init, partitions_init]
  have lookup := gigaGetIndexForFile_init (fun _ : Unit => Vector.replicate 20 0#8) 0 2 ()
  exact (misplaced_client_redirected_forever (valid_init 0 2) (small_init 0 2) (closed_init 0 2) rfl (by decide)
    (valid_init _ 2) within rfl lookup (valid_init _ 2).root (by decide) rfl).2 1000

end SkyeFS.Cluster
