import SkyeFS.Client.Requests
import SkyeFS.Common.UthashRuns

/-! The directory cache of the client with its pointers, after client/cache.c.

A handler of client/operations.c works on a `struct skye_directory` in memory, which the
hash table finds, and whose references it counts. The requests of `Session` know only
which table belongs to which directory. Here they are done on the memory, and the two
agree: the assertion on the reference count never fails, and the replies are the same. The
count of a directory is then the number of attempts to rename something into it, because
`skye_ll_rename` does not return what it fetched.

The key of the hash table is a `PVFS_object_ref` with its padding, which no handler sets.
The two agree as long as the padding is the same each time; otherwise a directory gets an
entry for each padding, and forgets in one what it learned in another.
-/

set_option autoImplicit false

namespace SkyeFS.Client

open Foundation Index Pvfs Uthash

structure SkyeDirectory where
  mapping : GigaMapping
  refcount : Nat

/-- The hash table and the blocks of memory, with the numbers of blocks that `malloc` has given and of calls of
`cache_fetch`. -/
structure Process (Addr Ref Padding : Type) where
  dircache : Uthash.Hash Addr (Ref × Padding)
  directory : Addr → SkyeDirectory
  allocated : Nat
  fetches : Nat
  outcomes : List (Outcome Ref)
  replies : List (FuseReply Ref)

section
variable {Addr Ref Padding : Type} [DecidableEq Addr] [DecidableEq Ref] [DecidableEq Padding]

namespace Process

def reply (process : Process Addr Ref Padding) (answer : FuseReply Ref) : Process Addr Ref Padding :=
  { process with replies := process.replies ++ [answer] }

def store (process : Process Addr Ref Padding) (dir : Addr) (contents : SkyeDirectory) : Process Addr Ref Padding :=
  { process with directory := Function.update process.directory dir contents }

def retain (process : Process Addr Ref Padding) (dir : Addr) : Process Addr Ref Padding :=
  process.store dir ⟨(process.directory dir).mapping, (process.directory dir).refcount + 1⟩

omit [DecidableEq Ref] [DecidableEq Padding] in
theorem mapping_retain (process : Process Addr Ref Padding) (dir : Addr) :
    ((process.retain dir).directory dir).mapping = (process.directory dir).mapping := by
  simp [retain, store]

/-- `none` is the failed assertion. -/
def cacheReturn (process : Process Addr Ref Padding) (dir : Addr) : Option (Process Addr Ref Padding) :=
  if 0 < (process.directory dir).refcount then
    some (process.store dir ⟨(process.directory dir).mapping, (process.directory dir).refcount - 1⟩)
  else none

/-- What the loops do to `dir->mapping`, with the outcomes that remain. -/
def learn (process : Process Addr Ref Padding) (dir : Addr) (mapping : GigaMapping) (outcomes : List (Outcome Ref)) :
    Process Addr Ref Padding :=
  { process.store dir ⟨mapping, (process.directory dir).refcount⟩ with outcomes }

variable (hash : Ref × Padding → Nat) (malloc : Nat → Addr) (stack : Nat → Padding) (shahash : FileName → Digest)
  (mds : Ref → UInt32) (servercount : UInt32)

def newDirectory (process : Process Addr Ref Padding) (handle : Ref × Padding) :
    Option (Addr × Process Addr Ref Padding) :=
  let block := malloc process.allocated
  (hashAdd hash process.dircache block handle).map fun dircache =>
    (block, { process.store block ⟨gigaInitMapping (mds handle.1) servercount, 0⟩ with
      dircache, allocated := process.allocated + 1 })

/-- The padding of the reference is what the stack happens to hold at this call. -/
def cacheFetch (process : Process Addr Ref Padding) (ref : Ref) : Option (Option Addr × Process Addr Ref Padding) :=
  let handle := (ref, stack process.fetches)
  let process := { process with fetches := process.fetches + 1 }
  match hashFind hash process.dircache handle with
  | some dir => some (some dir, process.retain dir)
  | none =>
      match process.outcomes with
      | .malloc true :: rest =>
          (newDirectory hash malloc mds servercount { process with outcomes := rest } handle).map fun (dir, process) =>
            (some dir, process.retain dir)
      | .malloc false :: rest => some (none, { process with outcomes := rest })
      | _ => none

def request (call : Rpc) (process : Process Addr Ref Padding) (ref : Ref) (name : FileName) :
    Option (Option (Option (RpcResult Ref)) × Process Addr Ref Padding) := do
  let (dir, process) ← process.cacheFetch hash malloc stack mds servercount ref
  match dir with
  | none => some (none, process)
  | some dir =>
      let (answer, mapping, rest) ←
        redirectLoop shahash servercount call name (process.directory dir).mapping process.outcomes
      let process ← (process.learn dir mapping rest).cacheReturn dir
      some (some answer, process)

def resolve (call : Rpc) (process : Process Addr Ref Padding) (ref : Ref) (pathname : FileName) :
    Option ((Int × Ref) × Process Addr Ref Padding) :=
  if maxFilenameLen ≤ pathname.length then some ((-eNametoolong, ref), process)
  else
    (process.request hash malloc stack shahash mds servercount call ref pathname).map fun
      | (none, process) | (some none, process) => ((-eIo, ref), process)
      | (some (some result), process) =>
          (if result.errnum < 0 then (result.errnum, ref) else (0, result.ref), process)

def skyeLlLookup (process : Process Addr Ref Padding) (parent : Ref) (name : FileName) : Option (Process Addr Ref Padding) :=
  (process.resolve hash malloc stack shahash mds servercount .lookup parent name).map fun ((ret, ref), process) =>
    process.reply (if ret < 0 then .err eNoent else .entry ref)

def make (call : Rpc) (made : Ref → FuseReply Ref) (process : Process Addr Ref Padding) (parent : Ref)
    (filename : FileName) : Option (Process Addr Ref Padding) :=
  (process.request hash malloc stack shahash mds servercount call parent filename).map fun
    | (none, process) | (some none, process) => process.reply (.err eIo)
    | (some (some result), process) =>
        process.reply (if result.errnum < 0 then .err (-1 * result.errnum) else made result.ref)

def skyeLlMknod (process : Process Addr Ref Padding) (parent : Ref) (filename : FileName) (mode : UInt32) :
    Option (Process Addr Ref Padding) :=
  if mode &&& sIfreg = 0 then some (process.reply (.err eNosys))
  else process.make hash malloc stack shahash mds servercount .create .entry parent filename

def skyeRemove (process : Process Addr Ref Padding) (parent : Ref) (filename : FileName) :
    Option (Int × Process Addr Ref Padding) :=
  (process.request hash malloc stack shahash mds servercount .remove parent filename).map fun
    | (none, process) | (some none, process) => (eIo, process)
    | (some (some result), process) => (if result.errnum < 0 then -1 * result.errnum else 0, process)

/-- The directory that is fetched for the destination is not returned. -/
def renameRetry (srcParent : Ref) (srcName : FileName) (dstParent : Ref) (dstName : FileName) (retryCount : Nat)
    (process : Process Addr Ref Padding) : Option (Process Addr Ref Padding) := do
  let ((ret, _), process) ← process.resolve hash malloc stack shahash mds servercount .partition srcParent srcName
  if ret < 0 then some (process.reply (.err ret))
  else
    let (dir, process) ← process.cacheFetch hash malloc stack mds servercount dstParent
    match dir with
    | none => some (process.reply (.err eIo))
    | some dir =>
        let (ret, mapping, replies, rest) ←
          renameLoop shahash servercount dstName (process.directory dir).mapping process.replies process.outcomes
        let process := { process.learn dir mapping rest with replies }
        if ret = -eNoent then
          match retryCount with
          | 0 => some (process.reply (.err eIo))
          | retryCount + 1 => renameRetry srcParent srcName dstParent dstName retryCount process
        else some (process.reply (.err 0))

def handle (process : Process Addr Ref Padding) : Request Ref → Option (Process Addr Ref Padding)
  | .lookup parent name => process.skyeLlLookup hash malloc stack shahash mds servercount parent name
  | .mknod parent filename mode => process.skyeLlMknod hash malloc stack shahash mds servercount parent filename mode
  | .create parent filename => process.make hash malloc stack shahash mds servercount .create .create parent filename
  | .mkdir parent filename => process.make hash malloc stack shahash mds servercount .mkdir .entry parent filename
  | .rename srcParent srcName dstParent dstName =>
      renameRetry hash malloc stack shahash mds servercount srcParent srcName dstParent dstName 3 process
  | .unlink parent name | .rmdir parent name =>
      (process.skyeRemove hash malloc stack shahash mds servercount parent name).map fun (ret, process) =>
        process.reply (.err ret)

end Process

/-! ### Memory and session agree -/

def padded (padding : Padding) (entries : List (Addr × Ref)) : List (Addr × Ref × Padding) :=
  entries.map fun entry => (entry.1, entry.2, padding)

section
variable {padding : Padding} {entries : List (Addr × Ref)}

omit [DecidableEq Addr] [DecidableEq Ref] [DecidableEq Padding] in
theorem blocks_padded : (padded padding entries).map Prod.fst = entries.map Prod.fst := by
  rw [padded, List.map_map]
  rfl

omit [DecidableEq Addr] [DecidableEq Ref] [DecidableEq Padding] in
theorem mem_padded {dir : Addr} {ref : Ref} : (dir, ref, padding) ∈ padded padding entries ↔ (dir, ref) ∈ entries := by
  simp [padded]

omit [DecidableEq Addr] [DecidableEq Ref] [DecidableEq Padding] in
theorem distinct_padded (distinct : (entries.map Prod.snd).Nodup) : ((padded padding entries).map Prod.snd).Nodup := by
  have same : (padded padding entries).map Prod.snd = (entries.map Prod.snd).map fun ref => (ref, padding) := by
    rw [padded, List.map_map, List.map_map]
    rfl
  rw [same]
  exact distinct.map fun _ _ equal => congrArg Prod.fst equal

end

/-- Blocks are given once, and references have the same padding each time. -/
structure Steady (malloc : Nat → Addr) (stack : Nat → Padding) (padding : Padding) : Prop where
  injective : Function.Injective malloc
  same : ∀ fetch, stack fetch = padding

/-- The memory holds the tables of the session, and each directory is referred to so many times. -/
structure Process.Models (hash : Ref × Padding → Nat) (malloc : Nat → Addr) (padding : Padding)
    (process : Process Addr Ref Padding) (client : Session Ref) (counts : Ref → Nat) (entries : List (Addr × Ref)) :
    Prop where
  represents : process.dircache.Represents hash (padded padding entries)
  distinct : (entries.map Prod.snd).Nodup
  old : ∀ entry ∈ entries, ∃ earlier < process.allocated, entry.1 = malloc earlier
  cached : ∀ entry ∈ entries, client.dircache entry.2 = some (process.directory entry.1).mapping
  absent : ∀ ref, ref ∉ entries.map Prod.snd → client.dircache ref = none
  counted : ∀ entry ∈ entries, (process.directory entry.1).refcount = counts entry.2
  unused : ∀ ref, ref ∉ entries.map Prod.snd → counts ref = 0
  outcomes : process.outcomes = client.outcomes
  replies : process.replies = client.replies

namespace Process.Models

variable {hash : Ref × Padding → Nat} {malloc : Nat → Addr} {stack : Nat → Padding} {padding : Padding}
  {process : Process Addr Ref Padding} {client : Session Ref}
  {counts : Ref → Nat} {entries : List (Addr × Ref)}

omit [DecidableEq Addr] in
theorem find_iff (models : process.Models hash malloc padding client counts entries) (ref : Ref) (dir : Addr) :
    hashFind hash process.dircache (ref, padding) = some dir ↔ (dir, ref) ∈ entries :=
  (models.represents.find_iff (distinct_padded models.distinct) (ref, padding) dir).trans mem_padded

omit [DecidableEq Addr] [DecidableEq Ref] [DecidableEq Padding] in
theorem blocks (models : process.Models hash malloc padding client counts entries) : (entries.map Prod.fst).Nodup := by
  have distinct := models.represents.holds.distinct
  rwa [blocks_padded] at distinct

omit [DecidableEq Addr] [DecidableEq Padding] in
theorem cached_isSome (models : process.Models hash malloc padding client counts entries) {ref : Ref} {mapping : GigaMapping}
    (cached : client.dircache ref = some mapping) :
    ∃ dir, (dir, ref) ∈ entries ∧ (process.directory dir).mapping = mapping := by
  by_cases listed : ref ∈ entries.map Prod.snd
  · obtain ⟨⟨dir, ref⟩, member, rfl⟩ := List.mem_map.mp listed
    exact ⟨dir, member, Option.some.inj ((models.cached _ member).symm.trans cached)⟩
  · rw [models.absent ref listed] at cached
    cases cached

omit [DecidableEq Addr] [DecidableEq Ref] [DecidableEq Padding] in
theorem not_listed (models : process.Models hash malloc padding client counts entries) {ref : Ref}
    (missing : client.dircache ref = none) : ref ∉ entries.map Prod.snd := by
  intro listed
  obtain ⟨entry, member, rfl⟩ := List.mem_map.mp listed
  rw [models.cached entry member] at missing
  cases missing

omit [DecidableEq Padding] in
theorem write (models : process.Models hash malloc padding client counts entries) {dir : Addr} {ref : Ref}
    (listed : (dir, ref) ∈ entries) (contents : SkyeDirectory) :
    (process.store dir contents).Models hash malloc padding
      ⟨Function.update client.dircache ref (some contents.mapping), client.outcomes, client.replies⟩
      (Function.update counts ref contents.refcount) entries := by
  -- Writing the directory of one reference leaves the others alone.
  -- An entry has this block if and only if it has this reference.
  have same : ∀ entry ∈ entries, entry.1 = dir ↔ entry.2 = ref := by
    intro entry member
    constructor
    · intro equal
      exact congrArg Prod.snd (List.inj_on_of_nodup_map models.blocks member listed equal)
    · intro equal
      exact congrArg Prod.fst (List.inj_on_of_nodup_map models.distinct member listed equal)
  have apart : ∀ other, other ∉ entries.map Prod.snd → other ≠ ref := by
    rintro other absent rfl
    exact absent (List.mem_map_of_mem listed)
  refine ⟨models.represents, models.distinct, models.old, ?_, ?_, ?_, ?_, models.outcomes, models.replies⟩
  · intro entry member
    dsimp only [Process.store]
    by_cases here : entry.2 = ref
    · rw [here, (same entry member).mpr here, Function.update_self, Function.update_self]
    · rw [Function.update_of_ne here, Function.update_of_ne fun equal => here ((same entry member).mp equal)]
      exact models.cached entry member
  · intro other absent
    dsimp only
    rw [Function.update_of_ne (apart other absent)]
    exact models.absent other absent
  · intro entry member
    dsimp only [Process.store]
    by_cases here : entry.2 = ref
    · rw [here, (same entry member).mpr here, Function.update_self, Function.update_self]
    · rw [Function.update_of_ne here, Function.update_of_ne fun equal => here ((same entry member).mp equal)]
      exact models.counted entry member
  · intro other absent
    rw [Function.update_of_ne (apart other absent)]
    exact models.unused other absent

omit [DecidableEq Padding] in
theorem recount (models : process.Models hash malloc padding client counts entries) {dir : Addr} {ref : Ref}
    (listed : (dir, ref) ∈ entries) (refcount : Nat) :
    (process.store dir ⟨(process.directory dir).mapping, refcount⟩).Models hash malloc padding client
      (Function.update counts ref refcount) entries := by
  have written := models.write listed ⟨(process.directory dir).mapping, refcount⟩
  have kept : Function.update client.dircache ref (some (process.directory dir).mapping) = client.dircache := by
    rw [← models.cached _ listed]
    exact Function.update_eq_self _ _
  rw [kept] at written
  exact written

omit [DecidableEq Padding] in
theorem retain (models : process.Models hash malloc padding client counts entries) {dir : Addr} {ref : Ref}
    (listed : (dir, ref) ∈ entries) :
    (process.retain dir).Models hash malloc padding client (Function.update counts ref (counts ref + 1)) entries := by
  have more := models.recount listed ((process.directory dir).refcount + 1)
  rw [models.counted _ listed] at more
  rw [Process.retain, models.counted _ listed]
  exact more

omit [DecidableEq Padding] in
theorem give (models : process.Models hash malloc padding client counts entries) {dir : Addr} {ref : Ref}
    (listed : (dir, ref) ∈ entries) (held : 0 < counts ref) :
    ∃ after, process.cacheReturn dir = some after ∧ after.dircache = process.dircache ∧
      after.Models hash malloc padding client (Function.update counts ref (counts ref - 1)) entries := by
  have counted := models.counted _ listed
  refine ⟨_, if_pos (counted ▸ held), rfl, ?_⟩
  rw [counted]
  exact models.recount listed (counts ref - 1)

omit [DecidableEq Padding] in
theorem learn (models : process.Models hash malloc padding client counts entries) {dir : Addr} {ref : Ref}
    (listed : (dir, ref) ∈ entries) (mapping : GigaMapping) (rest : List (Outcome Ref)) :
    (process.learn dir mapping rest).Models hash malloc padding (client.learn ref mapping rest) counts entries := by
  have written := models.write listed ⟨mapping, (process.directory dir).refcount⟩
  have kept : Function.update counts ref (process.directory dir).refcount = counts := by
    rw [models.counted _ listed]
    exact Function.update_eq_self _ _
  rw [kept] at written
  exact ⟨written.represents, written.distinct, written.old, written.cached, written.absent, written.counted,
    written.unused, rfl, written.replies⟩

omit [DecidableEq Addr] [DecidableEq Ref] [DecidableEq Padding] in
theorem reply (models : process.Models hash malloc padding client counts entries) (answer : FuseReply Ref) :
    (process.reply answer).Models hash malloc padding (client.reply answer) counts entries :=
  ⟨models.represents, models.distinct, models.old, models.cached, models.absent, models.counted, models.unused,
    models.outcomes, congrArg (· ++ [answer]) models.replies⟩

omit [DecidableEq Addr] [DecidableEq Ref] [DecidableEq Padding] in
theorem fetches (models : process.Models hash malloc padding client counts entries) (fetches : Nat) :
    Process.Models hash malloc padding { process with fetches } client counts entries :=
  ⟨models.represents, models.distinct, models.old, models.cached, models.absent, models.counted, models.unused,
    models.outcomes, models.replies⟩

omit [DecidableEq Addr] [DecidableEq Ref] [DecidableEq Padding] in
theorem consume (models : process.Models hash malloc padding client counts entries) (outcomes : List (Outcome Ref)) :
    Process.Models hash malloc padding { process with outcomes } { client with outcomes } counts entries :=
  ⟨models.represents, models.distinct, models.old, models.cached, models.absent, models.counted, models.unused, rfl,
    models.replies⟩

omit [DecidableEq Padding] in
theorem create (models : process.Models hash malloc padding client counts entries) (mds : Ref → UInt32) (servercount : UInt32)
    (injective : Function.Injective malloc) {ref : Ref} (missing : client.dircache ref = none) {more : Nat}
    (room : process.dircache.Room (more + 1)) :
    ∃ after, process.newDirectory hash malloc mds servercount (ref, padding) = some (malloc process.allocated, after) ∧
      after.dircache.Room more ∧
      after.Models hash malloc padding (client.learn ref (gigaInitMapping (mds ref) servercount) client.outcomes) counts
        (entries ++ [(malloc process.allocated, ref)]) := by
  have new := models.not_listed missing
  have fresh : malloc process.allocated ∉ entries.map Prod.fst := by
    intro used
    obtain ⟨entry, member, equal⟩ := List.mem_map.mp used
    obtain ⟨earlier, before, same⟩ := models.old entry member
    have again := injective (same.symm.trans equal)
    omega
  have inserted : insertEntry (padded padding entries) (ref, padding) (malloc process.allocated) =
      some (padded padding (entries ++ [(malloc process.allocated, ref)])) := by
    rw [insertEntry, blocks_padded, if_neg fresh, padded, padded, List.map_append]
    rfl
  obtain ⟨dircache, added, represents, left⟩ := models.represents.insert inserted room
  have others : ∀ entry ∈ entries, entry.1 ≠ malloc process.allocated ∧ entry.2 ≠ ref := by
    intro entry member
    exact ⟨fun equal => fresh (equal ▸ List.mem_map_of_mem member), fun equal => new (equal ▸ List.mem_map_of_mem member)⟩
  have absent : ∀ other, other ∉ (entries ++ [(malloc process.allocated, ref)]).map Prod.snd →
      other ∉ entries.map Prod.snd ∧ other ≠ ref := by
    intro other missing
    rw [List.map_append, List.map_singleton, List.mem_append, List.mem_singleton, not_or] at missing
    exact missing
  refine ⟨_, congrArg (Option.map _) added, left, represents, ?_, ?_, ?_, ?_, ?_, ?_, models.outcomes, models.replies⟩
  · rw [List.map_append, List.map_singleton, ← List.concat_eq_append]
    exact models.distinct.concat new
  · intro entry member
    rcases List.mem_append.mp member with old | last
    · obtain ⟨earlier, before, same⟩ := models.old entry old
      exact ⟨earlier, Nat.lt_succ_of_lt before, same⟩
    · cases List.mem_singleton.mp last
      exact ⟨process.allocated, Nat.lt_succ_self _, rfl⟩
  · intro entry member
    dsimp only [Process.store, Session.learn]
    rcases List.mem_append.mp member with old | last
    · rw [Function.update_of_ne (others entry old).1, Function.update_of_ne (others entry old).2]
      exact models.cached entry old
    · cases List.mem_singleton.mp last
      rw [Function.update_self, Function.update_self]
  · intro other missing
    dsimp only [Session.learn]
    rw [Function.update_of_ne (absent other missing).2]
    exact models.absent other (absent other missing).1
  · intro entry member
    dsimp only [Process.store]
    rcases List.mem_append.mp member with old | last
    · rw [Function.update_of_ne (others entry old).1]
      exact models.counted entry old
    · cases List.mem_singleton.mp last
      rw [Function.update_self]
      exact (models.unused ref new).symm
  · intro other missing
    exact models.unused other (absent other missing).1

variable {mds : Ref → UInt32} {servercount : UInt32}

omit [DecidableEq Addr] in
theorem find_none (models : process.Models hash malloc padding client counts entries) {ref : Ref}
    (missing : client.dircache ref = none) : hashFind hash process.dircache (ref, padding) = none := by
  cases found : hashFind hash process.dircache (ref, padding) with
  | none => rfl
  | some dir => exact absurd (List.mem_map_of_mem ((models.find_iff ref dir).mp found)) (models.not_listed missing)

theorem fetch_none (models : process.Models hash malloc padding client counts entries)
    (steady : Steady malloc stack padding) {ref : Ref} {after : Session Ref}
    (fetched : Client.cacheFetch mds servercount client ref = some (none, after)) :
    ∃ next, process.cacheFetch hash malloc stack mds servercount ref = some (none, next) ∧
      next.dircache = process.dircache ∧ next.Models hash malloc padding after counts entries := by
  unfold Client.cacheFetch at fetched
  dsimp only [Process.cacheFetch]
  rw [steady.same]
  split at fetched
  case h_1 => cases fetched
  case h_2 => cases fetched
  case h_3 rest missing pending =>
    cases fetched
    rw [models.find_none missing, models.outcomes, pending]
    exact ⟨_, rfl, rfl, (models.fetches (process.fetches + 1)).consume rest⟩
  case h_4 => cases fetched

/-- What the session finds is in memory, and has one reference more. -/
theorem fetch_some (models : process.Models hash malloc padding client counts entries) (steady : Steady malloc stack padding)
    {ref : Ref} {mapping : GigaMapping} {after : Session Ref}
    (fetched : Client.cacheFetch mds servercount client ref = some (some mapping, after)) {more : Nat}
    (room : process.dircache.Room (more + 1)) :
    ∃ dir next longer, process.cacheFetch hash malloc stack mds servercount ref = some (some dir, next) ∧
      (dir, ref) ∈ longer ∧ (next.directory dir).mapping = mapping ∧ next.dircache.Room more ∧
      next.Models hash malloc padding after (Function.update counts ref (counts ref + 1)) longer := by
  have models := models.fetches (process.fetches + 1)
  unfold Client.cacheFetch at fetched
  dsimp only [Process.cacheFetch]
  rw [steady.same]
  split at fetched
  case h_1 found cached =>
    cases fetched
    obtain ⟨dir, listed, same⟩ := models.cached_isSome cached
    rw [(models.find_iff ref dir).mpr listed]
    refine ⟨dir, _, entries, rfl, listed, ?_, room.fewer, models.retain listed⟩
    rw [Process.mapping_retain, same]
  case h_2 rest missing pending =>
    simp only [Option.some.injEq, Prod.mk.injEq] at fetched
    obtain ⟨rfl, rfl⟩ := fetched
    obtain ⟨next, made, left, fresh⟩ := (models.consume rest).create mds servercount steady.injective missing room
    have listed : (malloc process.allocated, ref) ∈ entries ++ [(malloc process.allocated, ref)] :=
      List.mem_append_right _ (List.mem_singleton.mpr rfl)
    have same := Option.some.inj ((fresh.cached _ listed).symm.trans (Function.update_self _ _ _))
    rw [models.find_none missing, models.outcomes, pending]
    dsimp only
    rw [made]
    refine ⟨_, _, _, rfl, listed, ?_, left, fresh.retain listed⟩
    rw [Process.mapping_retain, same]
  case h_3 => cases fetched
  case h_4 => cases fetched

variable {shahash : FileName → Digest}

theorem request (models : process.Models hash malloc padding client counts entries) (steady : Steady malloc stack padding)
    {call : Rpc} {ref : Ref} {name : FileName} {answer : Option (Option (RpcResult Ref))} {after : Session Ref}
    (requested : Client.request shahash mds servercount call client ref name = some (answer, after)) {more : Nat}
    (room : process.dircache.Room (more + 1)) :
    ∃ next longer, process.request hash malloc stack shahash mds servercount call ref name = some (answer, next) ∧
      next.dircache.Room more ∧ next.Models hash malloc padding after counts longer := by
  obtain ⟨⟨dir, fetched⟩, fetch, continued⟩ := Option.bind_eq_some_iff.mp requested
  unfold Process.request
  cases dir with
  | none =>
    cases continued
    obtain ⟨next, missed, kept, same⟩ := models.fetch_none steady fetch
    rw [missed]
    exact ⟨next, entries, rfl, kept ▸ room.fewer, same⟩
  | some mapping =>
    obtain ⟨⟨result, learned, rest⟩, looped, ⟨⟩⟩ := Option.bind_eq_some_iff.mp continued
    obtain ⟨dir, next, longer, found, listed, rfl, left, more⟩ := models.fetch_some steady fetch room
    obtain ⟨final, given, kept, balanced⟩ :=
      (more.learn listed learned rest).give listed (by rw [Function.update_self]; omega)
    rw [found]
    simp only [Option.bind_eq_bind, Option.bind_some]
    rw [more.outcomes, looped]
    simp only [Option.bind_some]
    rw [given]
    refine ⟨final, longer, rfl, kept ▸ left, ?_⟩
    rw [Function.update_self, Function.update_idem, Nat.add_sub_cancel, Function.update_eq_self] at balanced
    exact balanced

theorem resolve (models : process.Models hash malloc padding client counts entries) (steady : Steady malloc stack padding)
    {call : Rpc} {ref : Ref} {pathname : FileName} {resolved : Int × Ref} {after : Session Ref}
    (returned : Client.resolve shahash mds servercount call client ref pathname = some (resolved, after)) {more : Nat}
    (room : process.dircache.Room (more + 1)) :
    ∃ next longer, process.resolve hash malloc stack shahash mds servercount call ref pathname = some (resolved, next) ∧
      next.dircache.Room more ∧ next.Models hash malloc padding after counts longer := by
  unfold Client.resolve at returned
  unfold Process.resolve
  split at returned
  case isTrue long =>
    cases returned
    rw [if_pos long]
    exact ⟨process, entries, rfl, room.fewer, models⟩
  case isFalse short =>
    obtain ⟨⟨answer, requested⟩, request, same⟩ := Option.map_eq_some_iff.mp returned
    obtain ⟨next, longer, done, left, holds⟩ := models.request steady request room
    rw [if_neg short, done]
    rcases answer with _ | _ | result
    all_goals
      cases same
      exact ⟨next, longer, rfl, left, holds⟩

theorem make (models : process.Models hash malloc padding client counts entries) (steady : Steady malloc stack padding)
    {call : Rpc} {made : Ref → FuseReply Ref} {parent : Ref} {filename : FileName} {after : Session Ref}
    (returned : Client.make shahash mds servercount call made client parent filename = some after)
    (room : process.dircache.Room 1) :
    ∃ next longer, process.make hash malloc stack shahash mds servercount call made parent filename = some next ∧
      next.Models hash malloc padding after counts longer := by
  obtain ⟨⟨answer, requested⟩, request, same⟩ := Option.map_eq_some_iff.mp returned
  have one : process.dircache.Room (0 + 1) := room
  obtain ⟨next, longer, done, -, holds⟩ := models.request steady request one
  unfold Process.make
  rw [done]
  rcases answer with _ | _ | result
  all_goals
    cases same
    exact ⟨_, longer, rfl, holds.reply _⟩

theorem remove (models : process.Models hash malloc padding client counts entries) (steady : Steady malloc stack padding)
    {parent : Ref} {filename : FileName} {ret : Int} {after : Session Ref}
    (returned : Client.skyeRemove shahash mds servercount client parent filename = some (ret, after))
    (room : process.dircache.Room 1) :
    ∃ next longer, process.skyeRemove hash malloc stack shahash mds servercount parent filename = some (ret, next) ∧
      next.Models hash malloc padding after counts longer := by
  obtain ⟨⟨answer, requested⟩, request, same⟩ := Option.map_eq_some_iff.mp returned
  have one : process.dircache.Room (0 + 1) := room
  obtain ⟨next, longer, done, -, holds⟩ := models.request steady request one
  unfold Process.skyeRemove
  rw [done]
  rcases answer with _ | _ | result
  all_goals
    cases same
    exact ⟨next, longer, rfl, holds⟩

end Process.Models

end

/-! ### References that are not returned -/

section
variable {Ref : Type}

/-- The last rename call of an attempt. -/
def Outcome.endsAttempt : Outcome Ref → Bool
  | .rpc .rename _ result => result.errnum ≠ -eAgain
  | _ => false

/-- The attempts to rename whose calls are still to come. -/
def attempts (outcomes : List (Outcome Ref)) : Nat := outcomes.countP Outcome.endsAttempt

theorem attempts_eq (outcomes : List (Outcome Ref)) :
    attempts outcomes = (renames outcomes).countP (·.2 ≠ -eAgain) := by
  rw [attempts, renames, List.countP_filterMap]
  refine List.countP_congr fun outcome _ => ?_
  cases outcome with
  | malloc success => simp [Outcome.renamed, Outcome.endsAttempt]
  | rpc call success result => cases call <;> simp [Outcome.renamed, Outcome.endsAttempt]

theorem Session.Quiet.attempts {before after : Session Ref} (quiet : before.Quiet after) :
    attempts after.outcomes = attempts before.outcomes := by
  rw [attempts_eq, attempts_eq, quiet.renames]

theorem attempts_renameLoop {shahash : FileName → Digest} {servercount : UInt32} {dstName : FileName}
    {mapping after : GigaMapping} {replies sent : List (FuseReply Ref)} {outcomes rest : List (Outcome Ref)} {ret : Int}
    (looped : renameLoop shahash servercount dstName mapping replies outcomes = some (ret, after, sent, rest)) :
    attempts outcomes = attempts rest + 1 := by
  fun_induction renameLoop shahash servercount dstName mapping replies outcomes with
  | case1 mapping replies success result pending connected sent redirected ih =>
    rw [← ih looped, attempts, List.countP_cons_of_neg]
    · rfl
    · simp [Outcome.endsAttempt, redirected]
  | case2 mapping replies success result pending connected sent ended =>
    simp only [Option.some.injEq, Prod.mk.injEq] at looped
    obtain ⟨-, -, -, rfl⟩ := looped
    rw [attempts, List.countP_cons_of_pos]
    · rfl
    · simp [Outcome.endsAttempt, ended]
  | case3 | case4 => cases looped

end

section
variable {Addr Ref Padding : Type} [DecidableEq Addr] [DecidableEq Ref] [DecidableEq Padding]
  {hash : Ref × Padding → Nat} {malloc : Nat → Addr} {stack : Nat → Padding} {padding : Padding}
  {shahash : FileName → Digest} {mds : Ref → UInt32} {servercount : UInt32}

/-- So many references more, to one directory. -/
structure Leaks (ref : Ref) (before after : Session Ref) (counts grown : Ref → Nat) : Prop where
  fewer : attempts after.outcomes ≤ attempts before.outcomes
  there : grown ref + attempts after.outcomes = counts ref + attempts before.outcomes
  elsewhere : ∀ other ≠ ref, grown other = counts other

omit [DecidableEq Ref] in
theorem Leaks.trans {ref : Ref} {first second third : Session Ref} {counts grown final : Ref → Nat}
    (one : Leaks ref first second counts grown) (two : Leaks ref second third grown final) :
    Leaks ref first third counts final :=
  ⟨two.fewer.trans one.fewer, two.there.trans one.there,
    fun other apart => (two.elsewhere other apart).trans (one.elsewhere other apart)⟩

omit [DecidableEq Ref] in
theorem Leaks.of_quiet {ref : Ref} {before after : Session Ref} (quiet : before.Quiet after) (counts : Ref → Nat) :
    Leaks ref before after counts counts :=
  ⟨quiet.attempts.le, congrArg _ quiet.attempts, fun _ _ => rfl⟩

/-- The rename calls of one attempt, and the reference that it does not give back. -/
theorem Leaks.of_renameLoop {ref : Ref} {dstName : FileName} {before fetched : Session Ref} {mapping learned : GigaMapping}
    {replies sent : List (FuseReply Ref)} {rest : List (Outcome Ref)} {ret : Int} (quiet : before.Quiet fetched)
    (looped : renameLoop shahash servercount dstName mapping replies fetched.outcomes = some (ret, learned, sent, rest))
    (counts : Ref → Nat) :
    Leaks ref before { fetched.learn ref learned rest with replies := sent } counts
      (Function.update counts ref (counts ref + 1)) := by
  have one := quiet.attempts.symm.trans (attempts_renameLoop looped)
  refine ⟨?_, ?_, fun other apart => Function.update_of_ne apart _ _⟩
  · rw [one]
    exact Nat.le_succ _
  · rw [one, Function.update_self, Nat.add_right_comm, Nat.add_assoc]
    rfl

/-- One attempt, which ends the request or starts over with one retry less. -/
theorem Process.Models.attempt {srcParent dstParent : Ref} {srcName dstName : FileName} {retryCount : Nat}
    (steady : Steady malloc stack padding) {process : Process Addr Ref Padding} {client after : Session Ref}
    {counts : Ref → Nat} {entries : List (Addr × Ref)} (models : process.Models hash malloc padding client counts entries)
    (returned : Client.renameRetry shahash mds servercount srcParent srcName dstParent dstName retryCount client =
      some after) {more : Nat} (room : process.dircache.Room (more + 1 + 1)) :
    ∃ middle between longer grown, middle.Models hash malloc padding between grown longer ∧
      middle.dircache.Room more ∧
      Leaks dstParent client between counts grown ∧
      ((∃ answer, after = between.reply answer ∧
          Process.renameRetry hash malloc stack shahash mds servercount srcParent srcName dstParent dstName retryCount process =
            some (middle.reply answer)) ∨
        ∃ fewer, retryCount = fewer + 1 ∧
          Client.renameRetry shahash mds servercount srcParent srcName dstParent dstName fewer between = some after ∧
          Process.renameRetry hash malloc stack shahash mds servercount srcParent srcName dstParent dstName retryCount process =
            Process.renameRetry hash malloc stack shahash mds servercount srcParent srcName dstParent dstName fewer middle) := by
  generalize lowered : Process.renameRetry hash malloc stack shahash mds servercount srcParent srcName dstParent dstName
    retryCount process = low
  unfold Client.renameRetry at returned
  unfold Process.renameRetry at lowered
  obtain ⟨⟨⟨ret, bucket⟩, resolved⟩, source, returned⟩ := Option.bind_eq_some_iff.mp returned
  obtain ⟨found, longer, located, left, holds⟩ := models.resolve steady source room
  have quiet := quiet_resolve (by decide) source
  rw [located] at lowered
  dsimp only [Option.bind_eq_bind, Option.bind_some] at returned lowered
  split at returned
  case isTrue failed =>
    cases returned
    rw [if_pos failed] at lowered
    exact ⟨found, resolved, longer, counts, holds, left.fewer, .of_quiet quiet counts, Or.inl ⟨_, rfl, lowered.symm⟩⟩
  case isFalse present =>
    rw [if_neg present] at lowered
    obtain ⟨⟨dir, fetched⟩, fetch, returned⟩ := Option.bind_eq_some_iff.mp returned
    have still := quiet.trans (quiet_cacheFetch fetch)
    cases dir with
    | none =>
      cases returned
      obtain ⟨next, missed, kept, same⟩ := holds.fetch_none steady fetch
      rw [missed] at lowered
      exact ⟨next, fetched, longer, counts, same, kept ▸ left.fewer, .of_quiet still counts,
        Or.inl ⟨_, rfl, lowered.symm⟩⟩
    | some mapping =>
      obtain ⟨⟨errnum, learned, replies, rest⟩, looped, returned⟩ := Option.bind_eq_some_iff.mp returned
      obtain ⟨dir, next, more, got, listed, rfl, fewer, retained⟩ := holds.fetch_some steady fetch left
      have taught := retained.learn listed learned rest
      have grows : Leaks dstParent client _ counts _ := .of_renameLoop still looped counts
      refine ⟨{ next.learn dir learned rest with replies }, { fetched.learn dstParent learned rest with replies }, more, _,
        ⟨taught.represents, taught.distinct, taught.old, taught.cached, taught.absent, taught.counted, taught.unused,
          rfl, rfl⟩, fewer, grows, ?_⟩
      rw [got] at lowered
      dsimp only [Option.bind_some] at lowered
      rw [retained.outcomes, retained.replies, looped] at lowered
      dsimp only [Option.bind_some] at returned lowered
      split at returned
      case isFalse other =>
        cases returned
        rw [if_neg other] at lowered
        exact Or.inl ⟨_, rfl, lowered.symm⟩
      case isTrue missing =>
        rw [if_pos missing] at lowered
        cases retryCount with
        | zero =>
          cases returned
          exact Or.inl ⟨_, rfl, lowered.symm⟩
        | succ fewer => exact Or.inr ⟨fewer, rfl, returned, lowered.symm⟩

/-- Each attempt that comes to a rename call leaves one reference to the directory of the destination. -/
theorem Process.Models.rename {srcParent dstParent : Ref} {srcName dstName : FileName}
    (steady : Steady malloc stack padding) (retryCount : Nat) {process : Process Addr Ref Padding} {client after : Session Ref}
    {counts : Ref → Nat} {entries : List (Addr × Ref)} (models : process.Models hash malloc padding client counts entries)
    (returned : Client.renameRetry shahash mds servercount srcParent srcName dstParent dstName retryCount client =
      some after) (room : process.dircache.Room (2 * (retryCount + 1))) :
    ∃ next longer grown, Process.renameRetry hash malloc stack shahash mds servercount srcParent srcName dstParent dstName
        retryCount process = some next ∧
      next.Models hash malloc padding after grown longer ∧ Leaks dstParent client after counts grown := by
  induction retryCount generalizing process client counts entries with
  | zero =>
    have two : process.dircache.Room (0 + 1 + 1) := room
    obtain ⟨middle, between, longer, grown, holds, -, leaks, ⟨answer, rfl, ended⟩ | ⟨fewer, impossible, -⟩⟩ :=
      models.attempt steady returned two
    · exact ⟨_, longer, grown, ended, holds.reply answer, leaks.fewer, leaks.there, leaks.elsewhere⟩
    · cases impossible
  | succ retryCount ih =>
    have two : process.dircache.Room (2 * (retryCount + 1) + 1 + 1) := room
    obtain ⟨middle, between, longer, grown, holds, left, leaks, ⟨answer, rfl, ended⟩ | ⟨fewer, same, again, equal⟩⟩ :=
      models.attempt steady returned two
    · exact ⟨_, longer, grown, ended, holds.reply answer, leaks.fewer, leaks.there, leaks.elsewhere⟩
    · cases same
      obtain ⟨next, entries, final, done, whole, rest⟩ := ih holds again left
      exact ⟨next, entries, final, equal.trans done, whole, leaks.trans rest⟩

def Request.destination : Request Ref → Option Ref
  | .rename _ _ dstParent _ => some dstParent
  | _ => none

/-- How often a request calls `cache_fetch` at most: a rename twice at each of its four attempts. -/
def Request.fetches : Request Ref → Nat
  | .rename _ _ _ _ => 8
  | _ => 1

/-- What a request leaves behind: the attempts to rename into this directory that it made. -/
def Request.leaks (request : Request Ref) (before after : Session Ref) (ref : Ref) : Nat :=
  if request.destination = some ref then attempts before.outcomes - attempts after.outcomes else 0

theorem Process.Models.handle {process : Process Addr Ref Padding} {client after : Session Ref} {counts : Ref → Nat}
    {entries : List (Addr × Ref)} (models : process.Models hash malloc padding client counts entries)
    (steady : Steady malloc stack padding) {request : Request Ref}
    (handled : Client.handle shahash mds servercount client request = some after)
    (room : process.dircache.Room request.fetches) :
    ∃ next longer, process.handle hash malloc stack shahash mds servercount request = some next ∧
      next.Models hash malloc padding after (fun ref => counts ref + request.leaks client after ref) longer := by
  cases request with
  | lookup parent name =>
    obtain ⟨⟨⟨ret, ref⟩, resolved⟩, looked, ⟨⟩⟩ := Option.map_eq_some_iff.mp handled
    have one : process.dircache.Room (0 + 1) := room
    obtain ⟨next, longer, done, -, holds⟩ := models.resolve steady looked one
    exact ⟨_, longer, congrArg (Option.map _) done, holds.reply _⟩
  | mknod parent filename mode =>
    simp only [Client.handle, Client.skyeLlMknod] at handled
    simp only [Process.handle, Process.skyeLlMknod]
    split at handled
    case isTrue irregular =>
      cases handled
      exact ⟨_, entries, if_pos irregular, models.reply _⟩
    case isFalse regular =>
      obtain ⟨next, longer, done, holds⟩ := models.make steady handled room
      exact ⟨next, longer, (if_neg regular).trans done, holds⟩
  | create parent filename => exact models.make steady handled room
  | mkdir parent filename => exact models.make steady handled room
  | rename srcParent srcName dstParent dstName =>
    obtain ⟨next, longer, grown, done, holds, fewer, there, elsewhere⟩ := models.rename steady 3 handled room
    refine ⟨next, longer, done, ?_⟩
    have same : (fun ref => counts ref + (Request.rename srcParent srcName dstParent dstName).leaks client after ref) =
        grown := by
      funext ref
      simp only [Request.leaks, Request.destination, Option.some.injEq]
      by_cases here : dstParent = ref
      · subst here
        rw [if_pos rfl]
        omega
      · rw [if_neg here]
        exact (elsewhere ref (Ne.symm here)).symm
    rw [same]
    exact holds
  | unlink parent name =>
    obtain ⟨⟨ret, removed⟩, remove, ⟨⟩⟩ := Option.map_eq_some_iff.mp handled
    obtain ⟨next, longer, done, holds⟩ := models.remove steady remove room
    exact ⟨_, longer, congrArg (Option.map _) done, holds.reply _⟩
  | rmdir parent name =>
    obtain ⟨⟨ret, removed⟩, remove, ⟨⟩⟩ := Option.map_eq_some_iff.mp handled
    obtain ⟨next, longer, done, holds⟩ := models.remove steady remove room
    exact ⟨_, longer, congrArg (Option.map _) done, holds.reply _⟩

/-- The attempts to rename into a directory, over a whole run. -/
def leaked (shahash : FileName → Digest) (mds : Ref → UInt32) (servercount : UInt32) :
    Session Ref → List (Request Ref) → Ref → Nat
  | _, [], _ => 0
  | client, request :: rest, ref =>
      match Client.handle shahash mds servercount client request with
      | none => 0
      | some after => request.leaks client after ref + leaked shahash mds servercount after rest ref

def Process.Roomy (process : Process Addr Ref Padding) (request : Request Ref) : Prop :=
  process.dircache.Room request.fetches

theorem Process.Models.run {process : Process Addr Ref Padding} {client after : Session Ref} {counts : Ref → Nat}
    {entries : List (Addr × Ref)} (models : process.Models hash malloc padding client counts entries)
    (steady : Steady malloc stack padding) {requests : List (Request Ref)}
    (roomy : Meets (Process.handle hash malloc stack shahash mds servercount) Process.Roomy process requests)
    (ran : execute (Client.handle shahash mds servercount) client requests = some after) :
    ∃ next longer, execute (Process.handle hash malloc stack shahash mds servercount) process requests = some next ∧
      next.Models hash malloc padding after
        (fun ref => counts ref + leaked shahash mds servercount client requests ref) longer := by
  induction requests generalizing process client counts entries with
  | nil =>
    cases ran
    exact ⟨process, entries, rfl, models⟩
  | cons request rest ih =>
    obtain ⟨between, handled, more⟩ := Option.bind_eq_some_iff.mp ran
    obtain ⟨middle, longer, done, holds⟩ := models.handle steady handled roomy.1
    obtain ⟨next, final, ended, whole⟩ := ih holds (roomy.2 middle done) more
    refine ⟨next, final, ?_, ?_⟩
    · rw [execute, done]
      exact ended
    · have total : (fun ref => counts ref + leaked shahash mds servercount client (request :: rest) ref) = fun ref =>
          counts ref + request.leaks client between ref + leaked shahash mds servercount between rest ref := by
        funext ref
        rw [leaked, handled, Nat.add_assoc]
      rw [total]
      exact whole

end

section
variable {Addr Ref Padding : Type} [DecidableEq Addr] [DecidableEq Ref] [DecidableEq Padding]

end

end SkyeFS.Client
