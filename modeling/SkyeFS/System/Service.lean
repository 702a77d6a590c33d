import SkyeFS.System.Namespace
import SkyeFS.Client.Requests

/-! A request of a client from its first call to the reply, with nobody else in between.

The client routes by the table it has, however old, and follows the redirects of the
servers. Each redirect brings a partition that the client did not know, so the loop ends,
and it ends on the server that has the name. What the client then tells the application
is the answer of the map.
-/

set_option autoImplicit false

namespace SkyeFS.Namespace

open Index Pvfs Server Cluster Foundation Foundation.SuffixTree

def errnoNumber : Errno → Int
  | .enoent => 2
  | .eexist => 17
  | .enotempty => 39
  | .eacces => 13
  | .eio => 5

inductive Response where
  | again (bitmap : GigaMapping)
  | answer (answer : Answer)

/-- `skye_lookup` or `skye_result` as a handler fills it in. The members of the union that `errnum` does not select
are those of `unused`. -/
def Response.result (unused : Client.RpcResult Ref) : Response → Client.RpcResult Ref
  | .again bitmap => { unused with errnum := -eAgain, bitmap }
  | .answer (.ref ref) => { unused with errnum := 0, ref }
  | .answer .done => { unused with errnum := 0 }
  | .answer (.fail errno) => { unused with errnum := -errnoNumber errno }

section
variable (shahash : FileName → Digest)

/-- A handler from beginning to end. A remove goes on to its second half. -/
def Request.handle (emptied : Bool) (servernum : Nat) (dir : SkyeDirectory) (store : Store) (request : Request) :
    Option (Response × Store) :=
  (request.serve shahash servernum dir store).map fun
    | (.again bitmap, after) => (.again bitmap, after)
    | (.answered answer, after) => (.answer answer, after)
    | (.removing removal, after) =>
        ((.answer (.ofReply (removeEntry after removal emptied).1)), (removeEntry after removal emptied).2)

/-- The outcomes of the calls that the client's loop makes, starting from a table, and the tree they leave. -/
def converse {servers : Nat} (call : Client.Rpc) (unused : Client.RpcResult Ref) (emptied : Bool) (site : Site servers)
    (request : Request) : Nat → GigaMapping → Option (List (Client.Outcome Ref) × Store)
  | 0, _ => none
  | rounds + 1, table => do
      let server ← gigaGetServerForFile shahash table request.name
      if reachable : server < servers then
        let (response, store) ← request.handle shahash emptied server (site.dirs ⟨server, reachable⟩) site.store
        let outcome := .rpc call true (response.result unused)
        match response with
        | .answer _ => some ([outcome], store)
        | .again bitmap => do
            let (outcomes, store) ← converse call unused emptied site request rounds (gigaUpdateCache table bitmap)
            some (outcome :: outcomes, store)
      else none

end

section
variable {servers : Nat} {shahash : FileName → Digest} {mapping : GigaMapping} {site : Site servers}
  (sound : Sound shahash mapping site)
include sound

theorem Sound.locality_isSome (server : Fin servers) (name : FileName) :
    ∃ choice, locality shahash server (site.dirs server) name = some choice := by
  have settled := sound.settled server
  obtain ⟨index, found⟩ := gigaGetIndexForFile_isSome shahash settled.valid settled.small name
  exact ⟨_, by rw [locality, found]; rfl⟩

theorem Sound.inBucket_isSome {Value : Type} (server : Fin servers) (name : FileName)
    (call : Nat → Reply Value × Store) :
    ∃ result, inBucket shahash server (site.dirs server) site.store name call = some result := by
  obtain ⟨choice, decision⟩ := sound.locality_isSome server name
  cases choice with
  | again bitmap => exact ⟨(.again bitmap, site.store), by simp [inBucket, enterBucket, decision]⟩
  | here index =>
    have present := sound.kept.present (sound.accepts decision).mem
    have entered : enterBucket shahash server (site.dirs server) site.store name = some (.ok index) := by
      apply enterBucket_ok.mpr
      exact ⟨present, index, decision, by simp [selectBucket, (sound.settled server).idle]⟩
    exact ⟨call index, inBucket_entered entered⟩

theorem Sound.lookup_isSome (server : Fin servers) (name : FileName) :
    ∃ reply, lookup shahash server (site.dirs server) site.store name = some reply := by
  obtain ⟨choice, decision⟩ := sound.locality_isSome server name
  cases choice with
  | again bitmap => exact ⟨.again bitmap, by simp [lookup, decision]⟩
  | here index =>
    obtain ⟨bucket, present⟩ := Option.isSome_iff_exists.mp (sound.kept.present (sound.accepts decision).mem)
    have idle := (sound.settled server).idle
    cases found : site.store.find index name with
    | some object =>
      refine ⟨.ok (.object object.handle), ?_⟩
      simp only [lookup, decision, present, found, Option.bind_eq_bind, Option.bind_some]
    | none =>
      refine ⟨.fail .enoent, ?_⟩
      simp only [lookup, decision, present, found, idle, Option.bind_eq_bind, Option.bind_some, reduceCtorEq, if_false]

theorem Sound.partition_isSome (server : Fin servers) (name : FileName) :
    ∃ reply, partition shahash server (site.dirs server) site.store name = some reply := by
  have settled := sound.settled server
  obtain ⟨index, computed⟩ := gigaGetIndexForFile_isSome shahash settled.valid settled.small name
  rw [partition, computed, Option.bind_some, gotIndex, settled.idle]
  split
  · exact ⟨_, rfl⟩
  · split
    · split
      · exact ⟨_, rfl⟩
      · exact ⟨_, rfl⟩
    · exact ⟨_, rfl⟩

theorem Sound.serve_isSome (server : Fin servers) (request : Request) :
    ∃ result, request.serve shahash server (site.dirs server) site.store = some result := by
  cases request with
  | lookup name =>
    obtain ⟨reply, served⟩ := sound.lookup_isSome server name
    exact ⟨_, congrArg (Option.map _) served⟩
  | partition name =>
    obtain ⟨reply, served⟩ := sound.partition_isSome server name
    exact ⟨_, congrArg (Option.map _) served⟩
  | create name handle position =>
    obtain ⟨result, served⟩ := sound.inBucket_isSome server name _
    exact ⟨_, congrArg (Option.map _) served⟩
  | mkdir name handle position bucketError =>
    obtain ⟨result, served⟩ := sound.inBucket_isSome server name _
    exact ⟨_, congrArg (Option.map _) served⟩
  | rename source name position =>
    obtain ⟨result, served⟩ := sound.inBucket_isSome server name _
    exact ⟨_, congrArg (Option.map _) served⟩
  | remove name =>
    obtain ⟨result, served⟩ := sound.inBucket_isSome server name _
    exact ⟨_, congrArg (Option.map _) served⟩

/-- A handler that runs to its end redirects by its own table, or answers as the map does. -/
theorem Sound.handles (emptied : Bool) (server : Fin servers) (request : Request) :
    (request.handle shahash emptied server (site.dirs server) site.store =
        some (.again (site.dirs server).mapping, site.store) ∧
      locality shahash server (site.dirs server) request.name = some (.again (site.dirs server).mapping)) ∨
    ∃ answer after, request.handle shahash emptied server (site.dirs server) site.store = some (.answer answer, after) ∧
      replay site.entries (request.operation site.store emptied, request.seen answer) = some (entryOf after) := by
  obtain ⟨⟨served, after⟩, computed⟩ := sound.serve_isSome server request
  have faithful := sound.kept.serve (sound.settled server).idle (fun here => sound.accepts here) computed
  unfold Request.handle
  rw [computed]
  cases served with
  | again bitmap =>
    obtain ⟨rfl, rfl, redirects⟩ := faithful
    exact Or.inl ⟨rfl, redirects⟩
  | answered answer =>
    exact Or.inr ⟨answer, after, rfl, faithful.2 emptied⟩
  | removing removal =>
    obtain ⟨rfl, rfl, found⟩ := faithful
    obtain ⟨-, replayed⟩ := sound.kept.removeEntry removal emptied
    obtain ⟨object, found⟩ := Option.isSome_iff_exists.mp found
    refine Or.inr ⟨_, _, rfl, ?_⟩
    rw [removalOperation, strayed_of_find found, if_neg (by decide)] at replayed
    exact replayed

/-! ### The loop of the client -/

theorem Sound.small {index : Nat} (member : index ∈ site.views.all) : index < 2 ^ (maxRadix - 1) := by
  obtain ⟨other, bounded, same⟩ := sound.kept.listed _ ((sound.kept.buckets index).mpr member)
  exact bucketName_injective same ▸ bounded

theorem Sound.routes (counted : mapping.serverCount.toNat = servers) (positive : 0 < servers) {table : GigaMapping}
    (learned : Learned mapping site.views.all table) (name : FileName) :
    ∃ server : Fin servers, gigaGetServerForFile shahash table name = some server.val := by
  have small : table.Small := fun index member => sound.small (learned.subset member)
  obtain ⟨index, found⟩ := gigaGetIndexForFile_isSome shahash learned.valid small name
  have bound : gigaGetServerForIndex table index < servers := by
    rw [gigaGetServerForIndex, UInt32.toNat_mod, learned.placement.2, counted]
    exact Nat.mod_lt _ positive
  exact ⟨⟨_, bound⟩, by rw [gigaGetServerForFile, found]; rfl⟩

/-- A redirect brings a partition that the client did not know. -/
theorem Sound.redirect_fresh {server : Fin servers} {table bitmap : GigaMapping} {name : FileName}
    (learned : Learned mapping site.views.all table) (routed : gigaGetServerForFile shahash table name = some server.val)
    (again : locality shahash server (site.dirs server) name = some (.again bitmap)) :
    ∃ index ∈ (site.dirs server).mapping.partitions, index ∉ table.partitions := by
  have settled := sound.settled server
  obtain ⟨asked, askedFound, askedOwner⟩ := Option.map_eq_some_iff.mp routed
  obtain ⟨-, route⟩ := (gigaGetIndexForFile_eq_some shahash learned.valid).mp askedFound
  obtain ⟨-, found, computed, foreign⟩ := locality_again.mp again
  obtain ⟨-, deepest⟩ := (gigaGetIndexForFile_eq_some shahash settled.valid).mp computed
  rw [learned.placement.server] at askedOwner
  rw [settled.placement.server] at foreign
  exact sound.coherent.redirect learned.subset route askedOwner deepest foreign

omit sound in
theorem unknown_merge {all : Finset Nat} {table bitmap : GigaMapping} (known : bitmap.partitions ⊆ all)
    (fresh : ∃ index ∈ bitmap.partitions, index ∉ table.partitions) :
    (all \ (gigaUpdateCache table bitmap).partitions).card < (all \ table.partitions).card := by
  obtain ⟨index, member, missing⟩ := fresh
  apply Finset.card_lt_card
  rw [partitions_merge]
  refine Finset.ssubset_iff_of_subset (Finset.sdiff_subset_sdiff Finset.Subset.rfl Finset.subset_union_left) |>.mpr ?_
  refine ⟨index, Finset.mem_sdiff.mpr ⟨known member, missing⟩, fun inside => ?_⟩
  exact (Finset.mem_sdiff.mp inside).2 (Finset.mem_union_right _ member)

omit sound in
theorem errnum_again (unused : Client.RpcResult Ref) (bitmap : GigaMapping) :
    ((Response.again bitmap).result unused).errnum = -eAgain := rfl

omit sound in
theorem errnum_answer (unused : Client.RpcResult Ref) (answer : Answer) :
    ((Response.answer answer).result unused).errnum ≠ -eAgain := by
  cases answer with
  | ref | done => simp [Response.result, eAgain]
  | fail errno => cases errno <;> simp [Response.result, errnoNumber, eAgain]

/-- The outcomes that the servers give to a client let its loop end with the answer of the map, with one call more than
there are partitions to learn of. -/
theorem Sound.conversation (counted : mapping.serverCount.toNat = servers) (positive : 0 < servers)
    (call : Client.Rpc) (unused : Client.RpcResult Ref) (emptied : Bool) (request : Request) (rounds : Nat)
    {table : GigaMapping} (learned : Learned mapping site.views.all table)
    (enough : (site.views.all \ table.partitions).card < rounds) :
    ∃ outcomes after answer merged,
      converse shahash call unused emptied site request rounds table = some (outcomes, after) ∧
      Client.redirectLoop shahash mapping.serverCount call request.name table outcomes =
        some (some ((Response.answer answer).result unused), merged, []) ∧
      outcomes.length ≤ (site.views.all \ table.partitions).card + 1 ∧ Learned mapping site.views.all merged ∧
      (∃ server : Fin servers, request.handle shahash emptied server (site.dirs server) site.store =
        some (.answer answer, after)) ∧
      replay site.entries (request.operation site.store emptied, request.seen answer) = some (entryOf after) := by
  induction rounds generalizing table with
  | zero => cases enough
  | succ rounds ih =>
    obtain ⟨server, routed⟩ := sound.routes counted positive learned request.name
    have connects : Client.connects shahash mapping.serverCount table request.name :=
      ⟨server, routed, counted ▸ server.isLt⟩
    rcases sound.handles emptied server request with ⟨handled, again⟩ | ⟨answer, after, handled, replayed⟩
    · -- A redirect: the rest of the conversation starts from the merged table.
      have fresh := sound.redirect_fresh learned routed again
      have less := unknown_merge (sound.learned server).subset fresh
      obtain ⟨outcomes, after, answer, merged, conversed, looped, short, rest⟩ :=
        ih (learned.merge (sound.learned server)) (by omega)
      refine ⟨.rpc call true ((Response.again (site.dirs server).mapping).result unused) :: outcomes, after, answer, merged,
        ?_, ?_, ?_, rest⟩
      · simp only [converse, routed, Option.bind_eq_bind, Option.bind_some, server.isLt, dif_pos, handled, conversed]
      · rw [Client.redirectLoop, if_pos ⟨rfl, connects⟩, if_pos rfl, if_pos (errnum_again _ _)]
        exact looped
      · rw [List.length_cons]
        omega
    · refine ⟨[.rpc call true ((Response.answer answer).result unused)], after, answer, table, ?_, ?_, ?_, learned,
        ⟨server, handled⟩, replayed⟩
      · simp only [converse, routed, Option.bind_eq_bind, Option.bind_some, server.isLt, dif_pos, handled]
      · rw [Client.redirectLoop, if_pos ⟨rfl, connects⟩, if_pos rfl, if_neg (errnum_answer _ _)]
      · simp

theorem Sound.unknown_lt {table : GigaMapping} (learned : Learned mapping site.views.all table) :
    (site.views.all \ table.partitions).card < site.store.keys.length := by
  have known : (site.views.all \ table.partitions).card < site.views.all.card := by
    apply Finset.card_lt_card
    refine Finset.ssubset_iff_of_subset Finset.sdiff_subset |>.mpr ⟨0, sound.kept.root, fun inside => ?_⟩
    exact (Finset.mem_sdiff.mp inside).2 learned.valid.root
  have listed : site.views.all.card ≤ site.store.keys.toFinset.card := by
    apply Finset.card_le_card_of_injOn bucketName
    · intro index member
      exact List.mem_toFinset.mpr ((sound.kept.buckets index).mpr member)
    · exact bucketName_injective.injOn
  exact known.trans_le (listed.trans (List.toFinset_card_le _))

end

/-! ### What the application is told -/

/-- The remote call that a handler of the client makes for an entry of a directory, with the handle that PVFS gives to a
new object. A rename makes two. -/
def rpcOf (directory : Ref) (handle position : Nat) (bucketError : Option Errno) :
    Client.Request Ref → Option (Client.Rpc × Request)
  | .lookup parent name => if parent = directory then some (.lookup, .lookup name) else none
  | .mknod parent name mode =>
      if parent = directory ∧ mode &&& Client.sIfreg ≠ 0 then some (.create, .create name handle position) else none
  | .create parent name => if parent = directory then some (.create, .create name handle position) else none
  | .mkdir parent name => if parent = directory then some (.mkdir, .mkdir name handle position bucketError) else none
  | .unlink parent name | .rmdir parent name => if parent = directory then some (.remove, .remove name) else none
  | .rename _ _ _ _ => none

/-- The reply to the application for an answer of the map. Every failed lookup is reported as a missing file. -/
def told : Client.Request Ref → Answer → Client.FuseReply Ref
  | .lookup _ _, .ref ref => .entry ref
  | .lookup _ _, _ => .err Client.eNoent
  | .create _ _, .ref ref => .create ref
  | _, .ref ref => .entry ref
  | _, .done => .err 0
  | _, .fail errno => .err (errnoNumber errno)

/-- The lookup of the client does not pass longer names on. -/
def Short : Client.Request Ref → Prop
  | .lookup _ name => name.length < Client.maxFilenameLen
  | _ => True

theorem perform_of_replay {entries after : Entries} {operation : Operation} {answer : Answer}
    (replayed : replay entries (operation, answer) = some after) : perform entries operation = (answer, after) := by
  unfold replay at replayed
  split at replayed
  · rename_i same
    cases replayed
    exact Prod.ext same rfl
  · cases replayed

section
variable {shahash : FileName → Digest} {mds : Ref → UInt32} {servercount : UInt32} {directory : Ref}
  {dircache : Ref → Option GigaMapping} {call : Client.Rpc} {name : FileName} {table merged : GigaMapping}
  {outcomes : List (Client.Outcome Ref)} {answer : Answer} {unused : Client.RpcResult Ref}

theorem request_of_loop (mds : Ref → UInt32) (cached : dircache directory = some table)
    (looped : Client.redirectLoop shahash servercount call name table outcomes =
      some (some ((Response.answer answer).result unused), merged, [])) :
    Client.request shahash mds servercount call ⟨dircache, outcomes, []⟩ directory name =
      some (some (some ((Response.answer answer).result unused)),
        ⟨Function.update dircache directory (some merged), [], []⟩) := by
  simp only [Client.request, Client.cacheFetch, cached, Option.bind_eq_bind, Option.bind_some, looped]
  rfl

theorem errnoNumber_pos (errno : Errno) : -errnoNumber errno < 0 := by
  cases errno <;> decide

section
variable (requested : Client.request shahash mds servercount call ⟨dircache, outcomes, []⟩ directory name =
  some (some (some ((Response.answer answer).result unused)), ⟨Function.update dircache directory (some merged), [], []⟩))
include requested

theorem lookup_told (called : call = .lookup) (short : name.length < Client.maxFilenameLen)
    (kind : (∃ ref, answer = .ref ref) ∨ ∃ errno, answer = .fail errno) :
    Client.skyeLlLookup shahash mds servercount ⟨dircache, outcomes, []⟩ directory name =
      some ⟨Function.update dircache directory (some merged), [], [told (.lookup directory name) answer]⟩ := by
  subst called
  rw [Client.skyeLlLookup, Client.lookup, Client.resolve, if_neg (by omega), requested]
  rcases kind with ⟨ref, rfl⟩ | ⟨errno, rfl⟩
  · rfl
  · simp only [Option.map_some, Response.result, errnoNumber_pos, if_true]
    rfl

theorem make_told {made : Ref → Client.FuseReply Ref} {asked : Client.Request Ref}
    (kind : (∃ ref, answer = .ref ref ∧ told asked answer = made ref) ∨
      ∃ errno, answer = .fail errno ∧ told asked answer = .err (errnoNumber errno)) :
    Client.make shahash mds servercount call made ⟨dircache, outcomes, []⟩ directory name =
      some ⟨Function.update dircache directory (some merged), [], [told asked answer]⟩ := by
  rw [Client.make, requested]
  rcases kind with ⟨ref, rfl, reply⟩ | ⟨errno, rfl, reply⟩
  · rw [reply]
    rfl
  · rw [reply]
    simp only [Option.map_some, Response.result, errnoNumber_pos, if_true, neg_mul, one_mul, neg_neg]
    rfl

theorem remove_told {asked : Client.Request Ref} (called : call = .remove)
    (kind : answer = .done ∧ told asked answer = .err 0 ∨
      ∃ errno, answer = .fail errno ∧ told asked answer = .err (errnoNumber errno)) :
    (Client.skyeRemove shahash mds servercount ⟨dircache, outcomes, []⟩ directory name).map
        (fun result => result.2.reply (.err result.1)) =
      some ⟨Function.update dircache directory (some merged), [], [told asked answer]⟩ := by
  subst called
  rw [Client.skyeRemove, requested]
  rcases kind with ⟨rfl, reply⟩ | ⟨errno, rfl, reply⟩
  · rw [reply]
    rfl
  · rw [reply]
    simp only [Option.map_some, Response.result, errnoNumber_pos, if_true, neg_mul, one_mul, neg_neg]
    rfl

end

theorem make_answer {entries after : Entries} {object : Object} {success answer : Answer}
    (performed : entries.make name object success = (answer, after)) : answer = success ∨ answer = .fail .eexist := by
  unfold Entries.make at performed
  split at performed
  · cases performed
    exact Or.inr rfl
  · cases performed
    exact Or.inl rfl

theorem lookup_answer {entries after : Entries} {answer : Answer}
    (performed : perform entries (.lookup name) = (answer, after)) :
    (∃ ref, answer = .ref ref) ∨ ∃ errno, answer = .fail errno := by
  simp only [perform] at performed
  split at performed
  · cases performed
    exact Or.inl ⟨_, rfl⟩
  · cases performed
    exact Or.inr ⟨_, rfl⟩

theorem remove_answer {entries after : Entries} {emptied : Bool} {answer : Answer}
    (performed : perform entries (.remove name emptied) = (answer, after)) :
    answer = .done ∨ ∃ errno, answer = .fail errno := by
  simp only [perform] at performed
  split at performed
  · cases performed
    exact Or.inr ⟨_, rfl⟩
  · split at performed
    · cases performed
      exact Or.inr ⟨_, rfl⟩
    · cases performed
      exact Or.inl rfl

/-- A handler of the client tells the application the answer of the map. -/
theorem handle_told {asked : Client.Request Ref} {request : Request} {handle position : Nat}
    {bucketError : Option Errno} {entries after : Entries} {store : Store} {emptied : Bool} (short : Short asked)
    (planned : rpcOf directory handle position bucketError asked = some (call, request))
    (performed : perform entries (request.operation store emptied) = (request.seen answer, after))
    (requested : Client.request shahash mds servercount call ⟨dircache, outcomes, []⟩ directory request.name =
      some (some (some ((Response.answer answer).result unused)),
        ⟨Function.update dircache directory (some merged), [], []⟩)) :
    Client.handle shahash mds servercount ⟨dircache, outcomes, []⟩ asked =
      some ⟨Function.update dircache directory (some merged), [], [told asked (request.seen answer)]⟩ := by
  have made : ∀ (errno : Option Errno) {asked : Client.Request Ref} {entry : FileName} {object : Object}
      {reply : Ref → Client.FuseReply Ref}, (∀ ref, told asked (.ref ref) = reply ref) →
      (∀ errno, told asked (.fail errno) = .err (errnoNumber errno)) →
      entries.make entry object (errno.elim (.ref (.object handle)) .fail) = (answer, after) →
      (∃ ref, answer = .ref ref ∧ told asked answer = reply ref) ∨
        ∃ errno, answer = .fail errno ∧ told asked answer = .err (errnoNumber errno) := by
    intro errno asked entry object reply success failure made
    rcases make_answer made with rfl | rfl
    · cases errno with
      | none => exact Or.inl ⟨_, rfl, success _⟩
      | some errno => exact Or.inr ⟨errno, rfl, failure errno⟩
    · exact Or.inr ⟨_, rfl, failure _⟩
  cases asked with
  | lookup parent name =>
    simp only [rpcOf] at planned
    split at planned
    · rename_i same
      cases planned
      subst same
      exact lookup_told requested rfl short (lookup_answer performed)
    · cases planned
  | mknod parent name mode =>
    simp only [rpcOf] at planned
    split at planned
    · rename_i regular
      cases planned
      obtain ⟨rfl, regular⟩ := regular
      rw [Client.handle, Client.skyeLlMknod, if_neg regular]
      exact make_told requested (made none (fun _ => rfl) (fun _ => rfl) performed)
    · cases planned
  | create parent name =>
    simp only [rpcOf] at planned
    split at planned
    · rename_i same
      cases planned
      subst same
      exact make_told requested (made none (fun _ => rfl) (fun _ => rfl) performed)
    · cases planned
  | mkdir parent name =>
    simp only [rpcOf] at planned
    split at planned
    · rename_i same
      cases planned
      subst same
      exact make_told requested (made bucketError (fun _ => rfl) (fun _ => rfl) performed)
    · cases planned
  | unlink parent name | rmdir parent name =>
    simp only [rpcOf] at planned
    split at planned
    · rename_i same
      cases planned
      subst same
      refine remove_told requested rfl ?_
      rcases remove_answer performed with rfl | ⟨errno, rfl⟩
      · exact Or.inl ⟨rfl, rfl⟩
      · exact Or.inr ⟨errno, rfl, rfl⟩
    · cases planned
  | rename => cases planned

end

/-- After every run, whatever table a client has: a lookup, a create, a mkdir or a remove that nobody disturbs makes no
more calls than the directory has buckets, tells the application the answer of the map and leaves the map as the
operation does. -/
theorem application_sees_one_map {servers : Nat} {shahash : FileName → Digest} {mapping : GigaMapping} {store : Store}
    (furnished : Furnished shahash mapping store) (counted : mapping.serverCount.toNat = servers) (positive : 0 < servers)
    {events : List (Event servers)} {site : Site servers} {labels : List (Operation × Answer)}
    (orderly : Meets (unlabelled (siteStep shahash mapping)) Orderly (start mapping store) events)
    (ran : history (siteStep shahash mapping) (start mapping store) events = some (site, labels))
    (client : Nat) (directory : Ref) (dircache : Ref → Option GigaMapping)
    (cached : dircache directory = some (site.tables client)) (asked : Client.Request Ref) (short : Short asked)
    (handle position : Nat) (bucketError : Option Errno) {call : Client.Rpc} {request : Request}
    (planned : rpcOf directory handle position bucketError asked = some (call, request))
    (mds : Ref → UInt32) (unused : Client.RpcResult Ref) (emptied : Bool) :
    ∃ outcomes after session,
      converse shahash call unused emptied site request site.store.keys.length (site.tables client) =
        some (outcomes, after) ∧
      outcomes.length ≤ site.store.keys.length ∧
      Client.handle shahash mds mapping.serverCount ⟨dircache, outcomes, []⟩ asked = some session ∧
      session.outcomes = [] ∧
      session.replies = [told asked (perform site.entries (request.operation site.store emptied)).1] ∧
      entryOf after = (perform site.entries (request.operation site.store emptied)).2 := by
  have nonzero : 0 < mapping.serverCount := by
    rw [UInt32.lt_iff_toNat_lt]
    exact counted ▸ positive
  obtain ⟨sound, -⟩ := simulated_of_history furnished nonzero ⟨0, positive⟩ orderly ran
  have learned := sound.tables client
  obtain ⟨outcomes, after, answer, merged, conversed, looped, few, -, -, replayed⟩ :=
    sound.conversation counted positive call unused emptied request site.store.keys.length learned (sound.unknown_lt learned)
  have performed := perform_of_replay replayed
  have told := handle_told short planned performed (request_of_loop mds cached looped)
  refine ⟨outcomes, after, _, conversed, ?_, told, rfl, ?_, ?_⟩
  · have bound := sound.unknown_lt learned
    omega
  · rw [performed]
  · rw [performed]

/-- The table of a client that has asked nothing yet, after a split. -/
theorem application_sees_one_map_across_split :
    ∃ (site : Site 2) (labels : List (Operation × Answer)),
      history (siteStep (fun _ => Vector.replicate 20 1#8) (gigaInitMapping 0 2))
        (start (gigaInitMapping 0 2) (Listing.put 0 (bucketName 0) ∅ ∅)) acrossSplit = some (site, labels) ∧
      ∃ outcomes after session,
        converse (fun _ => Vector.replicate 20 1#8) .remove ⟨0, gigaInitMapping 0 0, .object 0⟩ false site (.remove ['a'])
          site.store.keys.length (site.tables 5) = some (outcomes, after) ∧
        Client.handle (fun _ => Vector.replicate 20 1#8) (fun _ => 0) 2 ⟨fun _ => some (site.tables 5), outcomes, []⟩
          (.unlink (.object 3) ['a']) = some session ∧
        session.replies = [told (.unlink (.object 3) ['a']) (perform site.entries (.remove ['a'] false)).1] := by
  obtain ⟨⟨site, labels⟩, ran, -⟩ := Option.map_eq_some_iff.mp acrossSplit_history
  obtain ⟨outcomes, after, session, conversed, -, handled, -, replies, -⟩ :=
    application_sees_one_map furnished_new rfl (by decide) acrossSplit_orderly ran 5 (.object 3)
      (fun _ => some (site.tables 5)) rfl (.unlink (.object 3) ['a']) trivial 0 0 none rfl (fun _ => 0)
      ⟨0, gigaInitMapping 0 0, .object 0⟩ false
  exact ⟨site, labels, ran, outcomes, after, session, conversed, handled, replies⟩

/-! ### The two calls of a rename -/

section
variable (shahash : FileName → Digest)

/-- The outcomes of the calls of `skye_ll_rename` within one directory. The reference that the first call returns is the
source of the second. -/
def converseRename {servers : Nat} (servercount : UInt32) (unused : Client.RpcResult Ref) (position : Nat)
    (site : Site servers) (srcName dstName : FileName) (rounds : Nat) (table : GigaMapping) :
    Option (List (Client.Outcome Ref) × Store) := do
  let (first, _) ← converse shahash .partition unused true site (.partition srcName) rounds table
  let (answer, merged, _) ← Client.redirectLoop shahash servercount .partition srcName table first
  let result ← answer
  if result.errnum < 0 then some (first, site.store)
  else
    let .bucket bucket := result.ref | none
    let index ← scanBucketName bucket
    let (second, after) ← converse shahash .rename unused true site (.rename (.bucket index srcName) dstName position)
      rounds merged
    some (first ++ second, after)

end

section
variable {shahash : FileName → Digest} {servercount : UInt32} {call : Client.Rpc} {name : FileName}
  {table merged : GigaMapping} {outcomes : List (Client.Outcome Ref)}

theorem redirectLoop_append (rest : List (Client.Outcome Ref)) {answer : Option (Client.RpcResult Ref)}
    {left : List (Client.Outcome Ref)}
    (looped : Client.redirectLoop shahash servercount call name table outcomes = some (answer, merged, left)) :
    Client.redirectLoop shahash servercount call name table (outcomes ++ rest) = some (answer, merged, left ++ rest) := by
  fun_induction Client.redirectLoop shahash servercount call name table outcomes with
  | case1 table called result pending allowed again ih =>
    rw [List.cons_append, Client.redirectLoop, if_pos allowed, if_pos rfl, if_pos again]
    exact ih looped
  | case2 table called result pending allowed done =>
    cases looped
    rw [List.cons_append, Client.redirectLoop, if_pos allowed, if_pos rfl, if_neg done]
  | case3 table called success result pending allowed failed =>
    cases looped
    rw [List.cons_append, Client.redirectLoop, if_pos allowed, if_neg failed]
  | case4 | case5 => cases looped

/-- Where no call fails, the loop of the rename handler is the common one. -/
theorem renameLoop_of_loop {result : Client.RpcResult Ref} {replies : List (Client.FuseReply Ref)}
    (looped : Client.redirectLoop shahash servercount .rename name table outcomes = some (some result, merged, [])) :
    Client.renameLoop shahash servercount name table replies outcomes = some (result.errnum, merged, replies, []) := by
  fun_induction Client.redirectLoop shahash servercount .rename name table outcomes with
  | case1 table called result pending allowed again ih =>
    obtain ⟨rfl, connects⟩ := allowed
    rw [Client.renameLoop, if_pos connects, if_pos again]
    exact ih looped
  | case2 table called result pending allowed done =>
    obtain ⟨rfl, connects⟩ := allowed
    cases looped
    rw [Client.renameLoop, if_pos connects, if_neg done]
    rfl
  | case3 => cases looped
  | case4 | case5 => cases looped

end

section
variable {servers : Nat} {shahash : FileName → Digest} {mapping : GigaMapping} {site : Site servers}
  (sound : Sound shahash mapping site)
include sound

/-- The partition handler names the bucket that has the entry. -/
theorem Sound.partition_answer {server : Fin servers} {name : FileName} {answer : Answer} {after : Store}
    (handled : Request.handle shahash true server (site.dirs server) site.store (.partition name) =
      some (.answer answer, after)) :
    (∃ index object, answer = .ref (.bucket (bucketName index)) ∧ site.store.find index name = some object) ∨
      answer = .fail .enoent ∧ site.entries name = none := by
  obtain ⟨⟨served, left⟩, computed, same⟩ := Option.map_eq_some_iff.mp handled
  obtain ⟨reply, partitioned, replied⟩ := Option.map_eq_some_iff.mp computed
  obtain ⟨index, routed, partitioned⟩ := Option.bind_eq_some_iff.mp partitioned
  rw [gotIndex] at partitioned
  split at partitioned
  · cases partitioned
    cases replied
    cases same
  · rename_i own
    have deepest := sound.accepts (locality_here.mpr ⟨routed, not_not.mp own⟩)
    cases found : site.store.find index name with
    | some object =>
      simp only [found, sound.kept.present deepest.mem, if_true] at partitioned
      cases partitioned
      cases replied
      cases same
      exact Or.inl ⟨index, object, rfl, found⟩
    | none =>
      simp only [found, (sound.settled server).idle, reduceCtorEq, if_false] at partitioned
      cases partitioned
      cases replied
      cases same
      exact Or.inr ⟨rfl, (sound.kept.entry_eq deepest).trans found⟩

omit sound in
theorem rename_errnum {entries after : Entries} {entry name : FileName} {object : Object} {answer : Answer}
    {unused : Client.RpcResult Ref} (found : entries entry = some object)
    (performed : perform entries (.rename entry name) = (answer, after)) :
    ((Response.answer answer).result unused).errnum ≠ -Client.eNoent := by
  simp only [perform, found, Entries.place] at performed
  split at performed
  · cases performed
    simp [Response.result, Client.eNoent]
  · split at performed
    · cases performed
      simp [Response.result, errnoNumber, Client.eNoent]
    · cases performed
      simp [Response.result, Client.eNoent]

omit sound in
theorem renameRetry_found (mds : Ref → UInt32) (retryCount : Nat) {servercount : UInt32} {directory : Ref}
    {dircache : Ref → Option GigaMapping} {table merged final : GigaMapping} {srcName dstName : FileName}
    {first second : List (Client.Outcome Ref)} {source target : Client.RpcResult Ref}
    (cached : dircache directory = some table) (short : srcName.length < Client.maxFilenameLen)
    (located : Client.redirectLoop shahash servercount .partition srcName table first = some (some source, merged, []))
    (present : ¬ source.errnum < 0)
    (renamed : Client.redirectLoop shahash servercount .rename dstName merged second = some (some target, final, []))
    (kept : target.errnum ≠ -Client.eNoent) :
    ∃ session, Client.renameRetry shahash mds servercount directory srcName directory dstName retryCount
        ⟨dircache, first ++ second, []⟩ = some session ∧ session.outcomes = [] ∧ session.replies = [.err 0] := by
  have looped := redirectLoop_append second located
  rw [Client.renameRetry, Client.partition, Client.resolve, if_neg (by omega)]
  simp only [Client.request, Client.cacheFetch, cached, Option.bind_eq_bind, Option.bind_some, looped, Option.map_some]
  simp only [if_neg present, lt_irrefl, if_false, Client.Session.learn, Function.update_self, List.nil_append,
    renameLoop_of_loop renamed, Option.bind_some, if_neg kept]
  exact ⟨_, rfl, rfl, rfl⟩

omit sound in
theorem renameRetry_missing (mds : Ref → UInt32) (retryCount : Nat) {servercount : UInt32} {directory : Ref}
    {dircache : Ref → Option GigaMapping} {table merged : GigaMapping} {srcName : FileName} (dstName : FileName)
    {outcomes : List (Client.Outcome Ref)} {source : Client.RpcResult Ref}
    (cached : dircache directory = some table) (short : srcName.length < Client.maxFilenameLen)
    (located : Client.redirectLoop shahash servercount .partition srcName table outcomes = some (some source, merged, []))
    (missing : source.errnum < 0) :
    ∃ session, Client.renameRetry shahash mds servercount directory srcName directory dstName retryCount
        ⟨dircache, outcomes, []⟩ = some session ∧ session.outcomes = [] ∧ session.replies = [.err source.errnum] := by
  rw [Client.renameRetry, Client.partition, Client.resolve, if_neg (by omega)]
  simp only [Client.request, Client.cacheFetch, cached, Option.bind_eq_bind, Option.bind_some, located, Option.map_some,
    if_pos missing]
  exact ⟨_, rfl, rfl, rfl⟩

end

/-- After every run, whatever table a client has: a rename within the directory that nobody disturbs is one operation of
the map. The application is told that it succeeded if the source was there, even where the target was a directory and
nothing was renamed, and a missing source is reported with the sign of the errno the wrong way round. -/
theorem rename_sees_one_map {servers : Nat} {shahash : FileName → Digest} {mapping : GigaMapping} {store : Store}
    (furnished : Furnished shahash mapping store) (counted : mapping.serverCount.toNat = servers) (positive : 0 < servers)
    {events : List (Event servers)} {site : Site servers} {labels : List (Operation × Answer)}
    (orderly : Meets (unlabelled (siteStep shahash mapping)) Orderly (start mapping store) events)
    (ran : history (siteStep shahash mapping) (start mapping store) events = some (site, labels))
    (client : Nat) (directory : Ref) (dircache : Ref → Option GigaMapping)
    (cached : dircache directory = some (site.tables client)) (srcName : FileName)
    (short : srcName.length < Client.maxFilenameLen) (dstName : FileName) (position : Nat) (mds : Ref → UInt32)
    (unused : Client.RpcResult Ref) :
    ∃ outcomes after session,
      converseRename shahash mapping.serverCount unused position site srcName dstName site.store.keys.length
        (site.tables client) = some (outcomes, after) ∧
      Client.skyeLlRename shahash mds mapping.serverCount ⟨dircache, outcomes, []⟩ directory srcName directory dstName =
        some session ∧
      session.outcomes = [] ∧
      session.replies = [.err (if (site.entries srcName).isSome then 0 else -Client.eNoent)] ∧
      entryOf after = (perform site.entries (.rename srcName dstName)).2 := by
  have nonzero : 0 < mapping.serverCount := by
    rw [UInt32.lt_iff_toNat_lt]
    exact counted ▸ positive
  obtain ⟨sound, -⟩ := simulated_of_history furnished nonzero ⟨0, positive⟩ orderly ran
  have learned := sound.tables client
  obtain ⟨first, _, answer, merged, asked, located, -, known, ⟨server, handled⟩, -⟩ :=
    sound.conversation counted positive .partition unused true (.partition srcName) site.store.keys.length learned
      (sound.unknown_lt learned)
  rcases sound.partition_answer handled with ⟨index, object, rfl, found⟩ | ⟨rfl, absent⟩
  · obtain ⟨second, after, verdict, final, conversed, renamed, -, -, -, replayed⟩ :=
      sound.conversation counted positive .rename unused true (.rename (.bucket index srcName) dstName position)
        site.store.keys.length known (sound.unknown_lt known)
    have entry : site.entries srcName = some object := sound.kept.entry_of_find found
    have operation : Request.operation site.store true (.rename (.bucket index srcName) dstName position) =
        .rename srcName dstName := by
      simp only [Request.operation, strayed_of_find found, Bool.false_eq_true, if_false]
    rw [operation] at replayed
    have performed := perform_of_replay replayed
    obtain ⟨session, attempted, exhausted, replies⟩ :=
      renameRetry_found mds 3 cached short located (by simp [Response.result]) renamed (rename_errnum entry performed)
    refine ⟨first ++ second, after, session, ?_, attempted, exhausted, ?_, ?_⟩
    · have located : Client.redirectLoop shahash mapping.serverCount .partition srcName (site.tables client) first = _ :=
        located
      simp only [converseRename, asked, located, Option.bind_eq_bind, Option.bind_some, Response.result, lt_irrefl,
        if_false, scanBucketName_bucketName, conversed]
    · rw [replies, entry]
      rfl
    · rw [performed]
  · obtain ⟨session, attempted, exhausted, replies⟩ :=
      renameRetry_missing mds 3 dstName cached short located (errnoNumber_pos .enoent)
    refine ⟨first, site.store, session, ?_, attempted, exhausted, ?_, ?_⟩
    · have located : Client.redirectLoop shahash mapping.serverCount .partition srcName (site.tables client) first = _ :=
        located
      simp only [converseRename, asked, located, Option.bind_eq_bind, Option.bind_some, Response.result, errnoNumber_pos,
        if_true]
    · rw [replies, absent]
      rfl
    · simp only [perform, absent]
      rfl

/-- A client that has asked nothing yet renames the file that a split has moved. -/
theorem rename_sees_one_map_across_split :
    ∃ (site : Site 2) (labels : List (Operation × Answer)),
      history (siteStep (fun _ => Vector.replicate 20 1#8) (gigaInitMapping 0 2))
        (start (gigaInitMapping 0 2) (Listing.put 0 (bucketName 0) ∅ ∅)) acrossSplit = some (site, labels) ∧
      ∃ outcomes after session,
        converseRename (fun _ => Vector.replicate 20 1#8) 2 ⟨0, gigaInitMapping 0 0, .object 0⟩ 0 site ['a'] ['b']
          site.store.keys.length (site.tables 5) = some (outcomes, after) ∧
        Client.skyeLlRename (fun _ => Vector.replicate 20 1#8) (fun _ => 0) 2 ⟨fun _ => some (site.tables 5), outcomes, []⟩
          (.object 3) ['a'] (.object 3) ['b'] = some session ∧
        entryOf after = (perform site.entries (.rename ['a'] ['b'])).2 := by
  obtain ⟨⟨site, labels⟩, ran, -⟩ := Option.map_eq_some_iff.mp acrossSplit_history
  obtain ⟨outcomes, after, session, conversed, handled, -, -, entries⟩ :=
    rename_sees_one_map furnished_new rfl (by decide) acrossSplit_orderly ran 5 (.object 3)
      (fun _ => some (site.tables 5)) rfl ['a'] (by decide) ['b'] 0 (fun _ => 0) ⟨0, gigaInitMapping 0 0, .object 0⟩
  exact ⟨site, labels, ran, outcomes, after, session, conversed, handled, entries⟩

end SkyeFS.Namespace
