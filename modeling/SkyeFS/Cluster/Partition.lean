import SkyeFS.Cluster.Splitting
import SkyeFS.Cluster.Redirects
import SkyeFS.Index.Search

/-! The redirect of the partition handler.

A rename asks for the bucket of its source with the partition handler and routes the
request again after each redirect. The handler also redirects when a name is missing
from a splitting partition and the child belongs to another server. It sends a table
without that child, so the client comes back.
-/

set_option autoImplicit false

namespace SkyeFS.Cluster

open Index Server Pvfs Foundation Foundation.SuffixTree

section
variable {servers : Nat}

/-- The name is missing from the bucket of a partition that splits, and the child goes to another server. -/
def SplitsElsewhere (shahash : FileName → Digest) (servernum : Nat) (dir : SkyeDirectory) (store : Store)
    (name : FileName) : Prop :=
  ∃ index, gigaGetIndexForFile shahash dir.mapping name = some index ∧
    gigaGetServerForIndex dir.mapping index = servernum ∧ dir.splittingIndex = some index ∧
    store.find index name = none ∧ ∃ child, gigaIndexForSplitting dir.mapping index = some child ∧
      gigaGetServerForIndex dir.mapping child ≠ servernum

/-- The client knows a deeper partition for the name than the server. -/
def KnowsDeeper (shahash : FileName → Digest) (view table : GigaMapping) (name : FileName) : Prop :=
  ∃ asked found, gigaGetIndexForFile shahash view name = some asked ∧
    gigaGetIndexForFile shahash table name = some found ∧ found < asked

theorem merged_lookup {Name : Type} {shahash : Name → Digest} {view table : GigaMapping} (validView : view.Valid)
    (validTable : table.Valid) {name : Name} {asked found : Nat}
    (route : gigaGetIndexForFile shahash view name = some asked)
    (computed : gigaGetIndexForFile shahash table name = some found) :
    gigaGetIndexForFile shahash (gigaUpdateCache view table) name = some (max asked found) := by
  rw [gigaGetIndexForFile_merge shahash validView.root validTable.root, route, computed]
  rfl

theorem not_knowsDeeper_of_reaches {mapping : GigaMapping} (valid : mapping.Valid)
    (closed : ∀ index ∈ mapping.partitions, 0 < index → getParentIndex index ∈ mapping.partitions)
    {cluster : System servers} (reached : Reaches step (fun _ event => NoRemoval event) (start mapping) cluster)
    {view : GigaMapping} (known : Known mapping cluster view) {shahash : FileName → Digest} {server : Fin servers}
    {name : FileName} (routed : gigaGetServerForFile shahash view name = some server.val) :
    ¬ KnowsDeeper shahash view (cluster server).dir.mapping name := by
  -- In runs of splits a server has every partition that clients ask it for.
  rintro ⟨asked, found, route, computed, deeper⟩
  have parentClosed : ParentClosed mapping.partitions := by
    intro index member nonzero
    rw [← getParentIndex_eq]
    exact closed index member (Nat.pos_of_ne_zero nonzero)
  have tracks := tracks_of_reaches (settled_start valid) reached server
  have coherent := coherent_of_reaches valid parentClosed reached
  have owner : gigaGetServerForIndex view asked = server.val := by
    rw [gigaGetServerForFile, route] at routed
    exact Option.some.inj routed
  rw [known.placement.server] at owner
  have deepestView := ((gigaGetIndexForFile_eq_some shahash known.valid).mp route).2
  have deepestTable := ((gigaGetIndexForFile_eq_some shahash tracks.valid).mp computed).2
  have held := coherent.owned server asked (known.subset deepestView.mem) owner
  exact absurd (deepestTable.maximal asked held deepestView.suffix) (Nat.not_le_of_lt deeper)

/-- In every state of a server and of a client with the same placement: a client that was sent back by the partition
handler routes its name to another server, unless the name was missing from a splitting partition whose child goes
elsewhere or the client knows a deeper partition. -/
theorem partition_redirect_moves {shahash : FileName → Digest} {servernum : Nat} {dir : SkyeDirectory} {store : Store}
    {name : FileName} {view bitmap : GigaMapping} (validView : view.Valid) (validTable : dir.mapping.Valid)
    (placement : view.SamePlacement dir.mapping) (routed : gigaGetServerForFile shahash view name = some servernum)
    (again : partition shahash servernum dir store name = some (.again bitmap)) :
    (∃ other, gigaGetServerForFile shahash (gigaUpdateCache view bitmap) name = some other ∧ other ≠ servernum) ↔
      ¬ SplitsElsewhere shahash servernum dir store name ∧ ¬ KnowsDeeper shahash view dir.mapping name := by
  obtain ⟨rfl, found, computed, choice⟩ := partition_again.mp again
  obtain ⟨asked, route, owner⟩ := Option.map_eq_some_iff.mp routed
  rw [placement.server] at owner
  -- The owner of the deeper partition decides.
  have next : (∃ other, gigaGetServerForFile shahash (gigaUpdateCache view dir.mapping) name = some other ∧
      other ≠ servernum) ↔ gigaGetServerForIndex dir.mapping (max asked found) ≠ servernum := by
    simp only [gigaGetServerForFile, merged_lookup validView validTable route computed, Option.map_some,
      Option.some.injEq, (placement.merge ⟨rfl, rfl⟩).server, exists_eq_left']
  rw [next]
  constructor
  · intro moves
    have shallow : asked < found := by
      by_contra deep
      rw [max_eq_left (Nat.le_of_not_lt deep)] at moves
      exact moves owner
    rw [max_eq_right shallow.le] at moves
    constructor
    · rintro ⟨index, same, own, -⟩
      cases Option.some.inj (computed.symm.trans same)
      exact moves own
    · rintro ⟨deep, other, askedSame, foundSame, deeper⟩
      cases Option.some.inj (route.symm.trans askedSame)
      cases Option.some.inj (computed.symm.trans foundSame)
      exact absurd deeper (Nat.not_lt_of_lt shallow)
  · rintro ⟨stays, shallow⟩
    have below : asked ≤ found := Nat.le_of_not_lt fun deeper => shallow ⟨asked, found, route, computed, deeper⟩
    rw [max_eq_right below]
    rcases choice with foreign | missing
    · exact foreign
    · exact absurd ⟨found, computed, missing⟩ stays

end

/-- The buckets of partition 0 and of its child, both empty. -/
def emptyPair : Store := ((∅ : Store).insert (bucketName 1) ∅).insert (bucketName 0) ∅

theorem odd_routed : gigaGetServerForFile (flatDigest 1#8) (gigaInitMapping 0 2) ['a'] = some 0 := by
  rw [gigaGetServerForFile, gigaGetIndexForFile_init]
  decide +kernel

/-- Two servers, while partition 0 splits into partition 1 of the other server and the name exists nowhere: the
client is sent back with the table it had and asks the same server again. -/
theorem partition_redirect_loops : ∃ cluster : System 2,
    execute step (start (gigaInitMapping 0 2)) [.beginSplit 0 0, .startMove 0] = some cluster ∧
      (cluster 0).locked = false ∧
      gigaGetServerForFile (flatDigest 1#8) (gigaInitMapping 0 2) ['a'] = some 0 ∧
      partition (flatDigest 1#8) 0 (cluster 0).dir emptyPair ['a'] = some (.again (gigaInitMapping 0 2)) ∧
      (gigaUpdateCache (gigaInitMapping 0 2) (gigaInitMapping 0 2)).bitmap = (gigaInitMapping 0 2).bitmap ∧
      gigaGetServerForFile (flatDigest 1#8) (gigaUpdateCache (gigaInitMapping 0 2) (gigaInitMapping 0 2)) ['a'] = some 0 := by
  have run : (execute step (start (gigaInitMapping 0 2) : System 2) [.beginSplit 0 0, .startMove 0]).map (fun cluster =>
      ((cluster 0).locked, (cluster 0).dir.mapping, (cluster 0).dir.splittingIndex)) =
      some (false, gigaInitMapping 0 2, some 0) := by decide +kernel
  obtain ⟨cluster, executed, values⟩ := Option.map_eq_some_iff.mp run
  obtain ⟨free, table, splitting⟩ : _ ∧ _ ∧ _ := by simpa using values
  have route := gigaGetIndexForFile_init (flatDigest 1#8) 0 2 ['a']
  have valid := valid_init 0 2
  refine ⟨cluster, executed, free, odd_routed, ?_, ?_, ?_⟩
  · rw [partition_again, table]
    exact ⟨rfl, 0, route, Or.inr ⟨by decide +kernel, splitting, by decide +kernel, 1, by decide +kernel,
      by decide +kernel⟩⟩
  · apply Vector.ext
    intro slot inside
    simp [gigaUpdateCache]
  · rw [gigaGetServerForFile, merged_lookup valid valid route route, Option.map_some,
      (GigaMapping.SamePlacement.merge ⟨rfl, rfl⟩ ⟨rfl, rfl⟩ : GigaMapping.SamePlacement _ (gigaInitMapping 0 2)).server]
    decide +kernel

/-- The same servers after the split: the client learns partition 1 and goes to its server. -/
theorem partition_redirect_after_split : ∃ cluster : System 2,
    execute step (start (gigaInitMapping 0 2))
      [.beginSplit 0 0, .startMove 0, .lockAgain 0, .bucketAdd 0 1, .finishSplit 0] = some cluster ∧
    ∃ other, gigaGetServerForFile (flatDigest 1#8) (gigaUpdateCache (gigaInitMapping 0 2) (cluster 0).dir.mapping) ['a'] =
      some other ∧ other ≠ 0 := by
  have run : (execute step (start (gigaInitMapping 0 2) : System 2)
      [.beginSplit 0 0, .startMove 0, .lockAgain 0, .bucketAdd 0 1, .finishSplit 0]).map (fun cluster =>
      (gigaGetIndexForFile (flatDigest 1#8) (cluster 0).dir.mapping ['a'], gigaGetServerForIndex (cluster 0).dir.mapping 1,
        (cluster 0).dir.splittingIndex)) = some (some 1, 1, none) := by decide +kernel
  obtain ⟨cluster, executed, values⟩ := Option.map_eq_some_iff.mp run
  obtain ⟨computed, owner, splitting⟩ : _ ∧ _ ∧ _ := by simpa using values
  have allowed : ∀ event ∈ ([.beginSplit 0 0, .startMove 0, .lockAgain 0, .bucketAdd 0 1, .finishSplit 0] :
      List (Event 2)), NoRemoval event := by decide
  have reached : Reaches step (fun _ event => NoRemoval event) (start (gigaInitMapping 0 2)) cluster :=
    Reaches.of_execute executed (meets_of_forall (fun event member _ => allowed event member) _)
  have known : Known (gigaInitMapping 0 2) cluster (gigaInitMapping 0 2) := by
    refine ⟨valid_init 0 2, ⟨rfl, rfl⟩, ?_⟩
    intro index member
    rw [partitions_init, Finset.mem_singleton] at member
    rw [member]
    exact SplitProtocol.State.mem_all.mpr ⟨0, (tracks_of_reaches (settled_start (valid_init 0 2)) reached 0).valid.root⟩
  have again : partition (flatDigest 1#8) (0 : Fin 2) (cluster 0).dir emptyPair ['a'] =
      some (.again (cluster 0).dir.mapping) := by
    rw [partition_again]
    refine ⟨rfl, 1, computed, Or.inl ?_⟩
    rw [owner]
    decide
  have routed : gigaGetServerForFile (flatDigest 1#8) (gigaInitMapping 0 2) ['a'] = some (0 : Fin 2).val := odd_routed
  have tracks := tracks_of_reaches (settled_start (valid_init 0 2)) reached 0
  refine ⟨cluster, executed, (partition_redirect_moves (valid_init 0 2) tracks.valid
    ⟨tracks.placement.1.symm, tracks.placement.2.symm⟩ routed again).mpr
      ⟨?_, not_knowsDeeper_of_reaches (valid_init 0 2) (closed_init 0 2) reached known routed⟩⟩
  rintro ⟨index, -, -, splits, -⟩
  rw [splitting] at splits
  cases splits

end SkyeFS.Cluster
