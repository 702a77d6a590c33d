import SkyeFS.Cluster.Agreement

/-! Clients that follow redirects.

A client keeps its own table of the directory, routes by it, merges the table that
comes with `-EAGAIN` and starts again at the label `bitmap`. Threads of one client
share its table, so the table a request was routed by is kept with the request.
Every redirect brings a partition the client had not known when it asked, which
bounds the redirects of a request by the partitions that exist.
-/

set_option autoImplicit false

namespace SkyeFS.Cluster

open Index Server Foundation Foundation.SuffixTree

/-- Where a request stands in the client's loop. -/
inductive Phase (servers : Nat) where
  -- At the label `bitmap`.
  | routing
  -- Sent to `target`, which `view` gave.
  | sent (view : GigaMapping) (target : Fin servers)
  -- Answered with `-EAGAIN` and a table that is not merged yet.
  | redirected (view bitmap : GigaMapping)
  -- Accepted by the server that was asked.
  | accepted

structure Request (servers : Nat) (Name : Type) where
  client : Nat
  name : Name
  phase : Phase servers
  -- How often the request was answered with `-EAGAIN`.
  redirects : Nat

structure Network (servers : Nat) (Name : Type) where
  cluster : System servers
  cache : Nat → GigaMapping
  requests : Nat → Option (Request servers Name)

inductive NetworkEvent (servers : Nat) (Name : Type) where
  | cluster (event : Event servers)
  | submit (id client : Nat) (name : Name)
  | send (id : Nat)
  | answer (id : Nat)
  | merge (id : Nat)

section
variable {servers : Nat} {Name : Type}

def Network.setRequest (network : Network servers Name) (id : Nat) (request : Request servers Name) :
    Network servers Name :=
  { network with requests := Function.update network.requests id (some request) }

variable (shahash : Name → Digest)

def networkStep (network : Network servers Name) : NetworkEvent servers Name → Option (Network servers Name)
  | .cluster event => (step network.cluster event).map fun after => { network with cluster := after }
  | .submit id client name =>
      match network.requests id with
      | none => some (network.setRequest id { client, name, phase := .routing, redirects := 0 })
      | some _ => none
  | .send id => do
      let request ← network.requests id
      let .routing := request.phase | none
      let server ← gigaGetServerForFile shahash (network.cache request.client) request.name
      if reachable : server < servers then
        some (network.setRequest id
          { request with phase := .sent (network.cache request.client) ⟨server, reachable⟩ })
      else none
  | .answer id => do
      let request ← network.requests id
      let .sent view target := request.phase | none
      let there := network.cluster target
      -- the handler waits for its read lock
      if there.locked then none else
      match ← locality shahash target there.dir request.name with
      | .here _ => some (network.setRequest id { request with phase := .accepted })
      | .again bitmap => some (network.setRequest id
          { request with phase := .redirected view bitmap, redirects := request.redirects + 1 })
  | .merge id => do
      let request ← network.requests id
      let .redirected _ bitmap := request.phase | none
      let merged := gigaUpdateCache (network.cache request.client) bitmap
      let updated := { network with cache := Function.update network.cache request.client merged }
      some (updated.setRequest id { request with phase := .routing })

def networkStart (mapping : GigaMapping) : Network servers Name where
  cluster := start mapping
  cache _ := gigaInitMapping mapping.zerothServer mapping.serverCount
  requests _ := none

/-- Servers split and do not remove; clients do as they like. -/
def NetworkSplitsOnly (network : Network servers Name) : NetworkEvent servers Name → Prop
  | .cluster event => SplitsOnly network.cluster event
  | .submit _ _ _ | .send _ | .answer _ | .merge _ => True

instance (network : Network servers Name) (event : NetworkEvent servers Name) :
    Decidable (NetworkSplitsOnly network event) := by
  cases event <;> unfold NetworkSplitsOnly <;> infer_instance

/-- A table that a client may hold in this state. -/
structure Known (mapping : GigaMapping) (cluster : System servers) (table : GigaMapping) : Prop where
  valid : table.Valid
  placement : table.SamePlacement mapping
  subset : table.partitions ⊆ (cluster.abstraction mapping).all

/-- A number of redirects that a set of partitions pays for: one partition for each redirect and the
root, and after the first redirect one for each further redirect and for each partition of the start. -/
def Paid (mapping : GigaMapping) (redirects : Nat) (nodes : Finset Nat) : Prop :=
  redirects + 1 ≤ nodes.card ∧ (0 < redirects → mapping.partitions ⊆ nodes ∧
    redirects + mapping.partitions.card ≤ nodes.card + 1)

variable {shahash}

def Progress (shahash : Name → Digest) (mapping : GigaMapping) (network : Network servers Name)
    (request : Request servers Name) : Prop :=
  let known := (network.cache request.client).partitions
  match request.phase with
  | .routing | .accepted => Paid mapping request.redirects known
  | .sent view target =>
      Known mapping network.cluster view ∧ view.partitions ⊆ known ∧ Paid mapping request.redirects view.partitions ∧
        gigaGetServerForFile shahash view request.name = some target.val
  | .redirected view bitmap =>
      view.partitions ⊆ known ∧ Known mapping network.cluster bitmap ∧
        Paid mapping request.redirects (view.partitions ∪ bitmap.partitions)

structure Followed (shahash : Name → Digest) (mapping : GigaMapping) (network : Network servers Name) : Prop where
  consistent : Consistent mapping network.cluster
  cache : ∀ client, Known mapping network.cluster (network.cache client)
  progress : ∀ id request, network.requests id = some request → Progress shahash mapping network request

theorem Paid.mono {mapping : GigaMapping} {redirects : Nat} {small large : Finset Nat}
    (paid : Paid mapping redirects small) (subset : small ⊆ large) : Paid mapping redirects large := by
  have card := Finset.card_le_card subset
  refine ⟨paid.1.trans card, fun positive => ?_⟩
  obtain ⟨included, bound⟩ := paid.2 positive
  exact ⟨included.trans subset, by omega⟩

/-- A table with a new partition, sent by a server that knows the start, pays for one more redirect. -/
theorem Paid.redirect {mapping : GigaMapping} {redirects : Nat} {view bitmap : Finset Nat}
    (paid : Paid mapping redirects view) (started : mapping.partitions ⊆ bitmap)
    (fresh : ∃ index ∈ bitmap, index ∉ view) : Paid mapping (redirects + 1) (view ∪ bitmap) := by
  obtain ⟨index, member, missing⟩ := fresh
  have larger : view.card < (view ∪ bitmap).card :=
    Finset.card_lt_card (Finset.ssubset_iff_subset_ne.mpr ⟨Finset.subset_union_left, fun same =>
      missing (same ▸ Finset.mem_union_right _ member)⟩)
  have includes : mapping.partitions ⊆ view ∪ bitmap := started.trans Finset.subset_union_right
  have begun := Finset.card_le_card includes
  refine ⟨by have := paid.1; omega, fun _ => ⟨includes, ?_⟩⟩
  -- The first redirect pays for the partitions of the start at once, each later one for itself.
  rcases Nat.eq_zero_or_pos redirects with rfl | positive
  · omega
  · have := (paid.2 positive).2
    omega

theorem Known.mono {mapping table : GigaMapping} {cluster after : System servers} (known : Known mapping cluster table)
    (grown : (cluster.abstraction mapping).all ⊆ (after.abstraction mapping).all) : Known mapping after table :=
  ⟨known.valid, known.placement, known.subset.trans grown⟩

theorem Known.merge {mapping curr update : GigaMapping} {cluster : System servers}
    (one : Known mapping cluster curr) (two : Known mapping cluster update) :
    Known mapping cluster (gigaUpdateCache curr update) where
  valid := one.valid.merge two.valid
  placement := one.placement.merge two.placement
  subset := by
    rw [partitions_merge]
    exact Finset.union_subset one.subset two.subset

theorem Consistent.known {mapping : GigaMapping} {cluster : System servers} (consistent : Consistent mapping cluster)
    (server : Fin servers) : Known mapping cluster (cluster server).dir.mapping where
  valid := (consistent.proper server).valid
  placement := (consistent.proper server).placement
  subset := SplitProtocol.State.view_subset (cluster.abstraction mapping) server

theorem Progress.mono {mapping : GigaMapping} {network after : Network servers Name} {request : Request servers Name}
    (progress : Progress shahash mapping network request)
    (grown : (network.cluster.abstraction mapping).all ⊆ (after.cluster.abstraction mapping).all)
    (cache : (network.cache request.client).partitions ⊆ (after.cache request.client).partitions) :
    Progress shahash mapping after request := by
  unfold Progress at progress ⊢
  cases phase : request.phase with
  | routing | accepted =>
    simp only [phase] at progress ⊢
    exact progress.mono cache
  | sent view target =>
    simp only [phase] at progress ⊢
    obtain ⟨known, subset, paid, routed⟩ := progress
    exact ⟨known.mono grown, subset.trans cache, paid, routed⟩
  | redirected view bitmap =>
    simp only [phase] at progress ⊢
    obtain ⟨subset, known, paid⟩ := progress
    exact ⟨subset.trans cache, known.mono grown, paid⟩

theorem redirect_fresh {mapping view bitmap : GigaMapping} {cluster : System servers} {target : Fin servers}
    {name : Name} (consistent : Consistent mapping cluster) (known : Known mapping cluster view)
    (routed : gigaGetServerForFile shahash view name = some target.val)
    (again : locality shahash target (cluster target).dir name = some (.again bitmap)) :
    ∃ index ∈ bitmap.partitions, index ∉ view.partitions := by
  -- A server that redirects a request routed to it sends a partition the request did not know.
  have proper := consistent.proper target
  obtain ⟨asked, askedFound, askedOwner⟩ := Option.map_eq_some_iff.mp routed
  obtain ⟨-, route⟩ := (gigaGetIndexForFile_eq_some shahash known.valid).mp askedFound
  obtain ⟨rfl, found, computed, foreign⟩ := locality_again.mp again
  obtain ⟨-, deepest⟩ := (gigaGetIndexForFile_eq_some shahash proper.valid).mp computed
  rw [known.placement.server] at askedOwner
  rw [proper.placement.server] at foreign
  exact consistent.coherent.redirect known.subset route askedOwner deepest foreign

section
variable {mapping : GigaMapping} {network after : Network servers Name} {id : Nat}
variable (followed : Followed shahash mapping network)
include followed

theorem Followed.setRequest {request : Request servers Name} (progress : Progress shahash mapping network request) :
    Followed shahash mapping (network.setRequest id request) where
  consistent := followed.consistent
  cache := followed.cache
  progress := by
    intro other waiting found
    by_cases same : other = id
    · subst same
      simp only [Network.setRequest, Function.update_self] at found
      cases found
      exact progress
    · simp only [Network.setRequest, Function.update_of_ne same] at found
      exact followed.progress other waiting found

theorem Followed.clusterStep {event : Event servers} (allowed : SplitsOnly network.cluster event)
    (stepped : networkStep shahash network (.cluster event) = some after) : Followed shahash mapping after := by
  obtain ⟨cluster, moved, rfl⟩ := Option.map_eq_some_iff.mp stepped
  -- Without removals the servers only learn.
  have grown : (network.cluster.abstraction mapping).all ⊆ (cluster.abstraction mapping).all :=
    SplitProtocol.all_mono ((placed_of_proper followed.consistent.proper).refines allowed.noRemoval moved).view_mono
  exact ⟨followed.consistent.step allowed moved, fun client => (followed.cache client).mono grown,
    fun id request found => (followed.progress id request found).mono grown (Finset.Subset.refl _)⟩

theorem Followed.submit {client : Nat} {name : Name}
    (stepped : networkStep shahash network (.submit id client name) = some after) :
    Followed shahash mapping after := by
  simp only [networkStep] at stepped
  split at stepped
  · cases stepped
    refine followed.setRequest ⟨?_, nofun⟩
    exact Finset.card_pos.mpr ⟨0, (followed.cache client).valid.root⟩
  · cases stepped

theorem Followed.send (stepped : networkStep shahash network (.send id) = some after) :
    Followed shahash mapping after := by
  simp only [networkStep, Option.bind_eq_bind, Option.bind_eq_some_iff] at stepped
  obtain ⟨request, found, stepped⟩ := stepped
  have progress := followed.progress id request found
  cases phase : request.phase <;> simp only [phase, reduceCtorEq] at stepped
  obtain ⟨server, routed, stepped⟩ := Option.bind_eq_some_iff.mp stepped
  split at stepped
  · cases stepped
    simp only [Progress, phase] at progress
    exact followed.setRequest ⟨followed.cache request.client, Finset.Subset.refl _, progress, routed⟩
  · cases stepped

theorem Followed.answer (stepped : networkStep shahash network (.answer id) = some after) :
    Followed shahash mapping after := by
  simp only [networkStep, Option.bind_eq_bind, Option.bind_eq_some_iff] at stepped
  obtain ⟨request, found, stepped⟩ := stepped
  have progress := followed.progress id request found
  cases phase : request.phase <;> simp only [phase, reduceCtorEq] at stepped
  rename_i view target
  simp only [Progress, phase] at progress
  obtain ⟨known, subset, paid, routed⟩ := progress
  split at stepped
  · cases stepped
  · obtain ⟨decision, decided, stepped⟩ := Option.bind_eq_some_iff.mp stepped
    cases decision with
    | here index =>
      cases stepped
      exact followed.setRequest (paid.mono subset)
    | again bitmap =>
      cases stepped
      have fresh := redirect_fresh followed.consistent known routed decided
      obtain ⟨rfl, -⟩ := locality_again.mp decided
      exact followed.setRequest ⟨subset, followed.consistent.known target,
        paid.redirect (followed.consistent.started target) fresh⟩

theorem Followed.merge (stepped : networkStep shahash network (.merge id) = some after) :
    Followed shahash mapping after := by
  simp only [networkStep, Option.bind_eq_bind, Option.bind_eq_some_iff] at stepped
  obtain ⟨request, found, stepped⟩ := stepped
  have progress := followed.progress id request found
  cases phase : request.phase <;> simp only [phase, reduceCtorEq] at stepped
  rename_i view bitmap
  simp only [Progress, phase] at progress
  obtain ⟨subset, known, paid⟩ := progress
  cases stepped
  have grows : ∀ client, (network.cache client).partitions ⊆ (Function.update network.cache request.client
      (gigaUpdateCache (network.cache request.client) bitmap) client).partitions := by
    intro client
    by_cases same : client = request.client
    · subst same
      rw [Function.update_self, partitions_merge]
      exact Finset.subset_union_left
    · rw [Function.update_of_ne same]
  have merged : Followed shahash mapping { network with
      cache := Function.update network.cache request.client
        (gigaUpdateCache (network.cache request.client) bitmap) } := by
    -- The table is shared by all requests of the client, whose progress only gains from it.
    refine ⟨followed.consistent, fun client => ?_, fun other waiting held => ?_⟩
    · by_cases same : client = request.client
      · subst same
        simp only [Function.update_self]
        exact (followed.cache request.client).merge known
      · simp only [Function.update_of_ne same]
        exact followed.cache client
    · exact (followed.progress other waiting held).mono (Finset.Subset.refl _) (grows waiting.client)
  refine merged.setRequest ?_
  simp only [Progress, Function.update_self, partitions_merge]
  exact paid.mono (Finset.union_subset_union_left subset)

theorem Followed.step {event : NetworkEvent servers Name} (allowed : NetworkSplitsOnly network event)
    (stepped : networkStep shahash network event = some after) : Followed shahash mapping after := by
  cases event with
  | cluster event => exact followed.clusterStep allowed stepped
  | submit id client name => exact followed.submit stepped
  | send id => exact followed.send stepped
  | answer id => exact followed.answer stepped
  | merge id => exact followed.merge stepped

end

theorem followed_start {mapping : GigaMapping} (valid : mapping.Valid) (small : mapping.Small)
    (closed : ParentClosed mapping.partitions) (counted : 0 < mapping.serverCount) (server : Fin servers) :
    Followed shahash mapping (networkStart mapping : Network servers Name) where
  consistent := consistent_start valid small closed
  cache _ := by
    refine ⟨valid_init _ _, GigaMapping.SamePlacement.init counted, fun index member => ?_⟩
    simp only [networkStart, partitions_init, Finset.mem_singleton] at member
    exact member ▸ SplitProtocol.State.mem_all.mpr ⟨server, valid.root⟩
  progress _ _ found := nomatch found

theorem Followed.paid {mapping : GigaMapping} {network : Network servers Name}
    (followed : Followed shahash mapping network) {id : Nat} {request : Request servers Name}
    (found : network.requests id = some request) :
    Paid mapping request.redirects (network.cluster.abstraction mapping).all := by
  have progress := followed.progress id request found
  have cached := (followed.cache request.client).subset
  cases phase : request.phase with
  | routing | accepted =>
    simp only [Progress, phase] at progress
    exact progress.mono cached
  | sent view target =>
    simp only [Progress, phase] at progress
    exact progress.2.2.1.mono progress.1.subset
  | redirected view bitmap =>
    simp only [Progress, phase] at progress
    obtain ⟨subset, known, paid⟩ := progress
    exact paid.mono (Finset.union_subset (subset.trans cached) known.subset)

/-- A redirect always brings a partition that the request was not routed by. Together the redirects
of one request are fewer than the partitions that exist, and at most as many as were created in
the run, plus one for a client that has to learn the partitions of the start first. -/
theorem redirects_make_progress {mapping : GigaMapping} (valid : mapping.Valid) (small : mapping.Small)
    (closed : ∀ index ∈ mapping.partitions, 0 < index → getParentIndex index ∈ mapping.partitions)
    (counted : mapping.serverCount.toNat = servers) (positive : 0 < servers) {network : Network servers Name}
    (reached : Reaches (networkStep shahash) NetworkSplitsOnly (networkStart mapping) network)
    {id : Nat} {request : Request servers Name} (found : network.requests id = some request) :
    let all := (network.cluster.union mapping.zerothServer mapping.serverCount).partitions
    (∀ view target bitmap, request.phase = .sent view target → (network.cluster target).locked = false →
      locality shahash target (network.cluster target).dir request.name = some (.again bitmap) →
      ∃ index ∈ bitmap.partitions, index ∉ view.partitions) ∧
    request.redirects < all.card ∧
    request.redirects ≤ (all \ mapping.partitions).card + (if mapping.partitions = {0} then 0 else 1) := by
  have parentClosed : ParentClosed mapping.partitions := by
    intro index member nonzero
    rw [← getParentIndex_eq]
    exact closed index member (Nat.pos_of_ne_zero nonzero)
  have nonzero : 0 < mapping.serverCount := by
    rw [UInt32.lt_iff_toNat_lt]
    exact counted ▸ positive
  have followed : Followed shahash mapping network :=
    reached.invariant (followed_start valid small parentClosed nonzero ⟨0, positive⟩)
      fun _ _ _ before allowed stepped => before.step allowed stepped
  have partitions := followed.consistent.union_partitions ⟨0, positive⟩ mapping.zerothServer mapping.serverCount
  have started : mapping.partitions ⊆ (network.cluster.abstraction mapping).all :=
    (followed.consistent.started ⟨0, positive⟩).trans (followed.consistent.known ⟨0, positive⟩).subset
  have paid := followed.paid found
  simp only [partitions]
  refine ⟨?_, paid.1, ?_⟩
  · intro view target bitmap phase _ again
    have progress := followed.progress id request found
    simp only [Progress, phase] at progress
    exact redirect_fresh followed.consistent progress.1 progress.2.2.2 again
  · have size := Finset.card_sdiff_add_card_eq_card started
    split
    · rename_i unsplit
      have bound := paid.1
      have one : mapping.partitions.card = 1 := by rw [unsplit, Finset.card_singleton]
      omega
    · rcases Nat.eq_zero_or_pos request.redirects with none_ | some_
      · omega
      · have bound := (paid.2 some_).2
        omega

/-- All servers know the partitions 0 and 1 from the start. -/
def splitTable : GigaMapping := gigaUpdateMapping (gigaInitMapping 0 2) 1

theorem partitions_splitTable : splitTable.partitions = {0, 1} := by
  rw [splitTable, partitions_update _ (by decide), partitions_init]
  exact Finset.pair_comm 1 0

/-- A fresh client asks for a name of partition 1 and is redirected, although no partition is created in
the run. -/
theorem redirect_without_creation :
    splitTable.Valid ∧ splitTable.Small ∧
    (∀ index ∈ splitTable.partitions, 0 < index → getParentIndex index ∈ splitTable.partitions) ∧
    ∃ (network : Network 2 Unit) (request : Request 2 Unit),
      execute (networkStep fun _ => Vector.replicate 20 1#8) (networkStart splitTable)
        [.submit 0 0 (), .send 0, .answer 0] = some network ∧
      Meets (networkStep fun _ => Vector.replicate 20 1#8) NetworkSplitsOnly (networkStart splitTable : Network 2 Unit)
        [.submit 0 0 (), .send 0, .answer 0] ∧
      network.requests 0 = some request ∧
      ((network.cluster.union 0 2).partitions \ splitTable.partitions).card < request.redirects := by
  refine ⟨(valid_init 0 2).update (by decide), (small_init 0 2).update (by decide), ?_, ?_⟩
  · rw [partitions_splitTable]
    decide
  · have runs : ((execute (networkStep fun _ => Vector.replicate 20 1#8) (networkStart splitTable : Network 2 Unit)
        [.submit 0 0 (), .send 0, .answer 0]).bind fun network => (network.requests 0).map fun request =>
          (request.redirects, decide ((network.cluster.union 0 2).bitmap = splitTable.bitmap))) = some (1, true) := by
      decide +kernel
    obtain ⟨network, executed, answered⟩ := Option.bind_eq_some_iff.mp runs
    obtain ⟨request, found, observed⟩ := Option.map_eq_some_iff.mp answered
    simp only [Prod.mk.injEq, decide_eq_true_eq] at observed
    refine ⟨network, request, executed, by decide +kernel, found, ?_⟩
    rw [GigaMapping.partitions, observed.2, ← GigaMapping.partitions, sdiff_self, observed.1]
    decide

/-- A client of two servers that asks for a name of partition 1 after the split and is redirected once. -/
theorem redirects_make_progress_after_split :
    ∃ (network : Network 2 Unit) (request : Request 2 Unit),
      execute (networkStep fun _ => Vector.replicate 20 1#8) (networkStart (gigaInitMapping 0 2))
        [.cluster (.beginSplit 0 0), .cluster (.startMove 0), .cluster (.lockAgain 0), .cluster (.bucketAdd 0 1),
          .cluster (.finishSplit 0), .submit 0 0 (), .send 0, .answer 0] = some network ∧
      network.requests 0 = some request ∧ request.redirects = 1 ∧
      request.redirects < (network.cluster.union 0 2).partitions.card := by
  have runs : ((execute (networkStep fun _ => Vector.replicate 20 1#8)
      (networkStart (gigaInitMapping 0 2) : Network 2 Unit)
        [.cluster (.beginSplit 0 0), .cluster (.startMove 0), .cluster (.lockAgain 0), .cluster (.bucketAdd 0 1),
          .cluster (.finishSplit 0), .submit 0 0 (), .send 0, .answer 0]).bind fun network =>
      (network.requests 0).map Request.redirects) = some 1 := by decide +kernel
  obtain ⟨network, executed, answered⟩ := Option.bind_eq_some_iff.mp runs
  obtain ⟨request, found, once⟩ := Option.map_eq_some_iff.mp answered
  have reached : Reaches _ NetworkSplitsOnly (networkStart (gigaInitMapping 0 2)) network :=
    Reaches.of_execute executed (by decide +kernel)
  exact ⟨network, request, executed, found, once,
    (redirects_make_progress (valid_init 0 2) (small_init 0 2)
      (closed_init 0 2) rfl (by decide) reached found).2.1⟩

end

end SkyeFS.Cluster
