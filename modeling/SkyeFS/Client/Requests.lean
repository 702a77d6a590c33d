import SkyeFS.Index.Mapping
import SkyeFS.Pvfs.Store

/-! The requests of client/operations.c that talk to the servers.

Each handler is a function of the outcomes of its calls, in order: whether `malloc`
finds memory for a directory, and what the RPCs return. `none` is a failed assertion,
or a handler that has not ended when the outcomes run out. A directory is named by the
handle that `inode2handle` gives, and the attributes of a reply are left out.
-/

set_option autoImplicit false

namespace SkyeFS.Client

open Index Pvfs

def eNoent : Int := 2
def eIo : Int := 5
def eNametoolong : Int := 36
def eNosys : Int := 38

def maxFilenameLen : Nat := 256

def sIfreg : UInt32 := 0o100000

inductive Rpc where
  | lookup
  | partition
  | create
  | mkdir
  | rename
  | remove
deriving DecidableEq

/-- `skye_lookup` or `skye_result` with all members of the union, of which `errnum` selects one. -/
structure RpcResult (Ref : Type) where
  errnum : Int
  bitmap : GigaMapping
  ref : Ref

inductive Outcome (Ref : Type) where
  | malloc (success : Bool)
  -- Whether the call returned `RPC_SUCCESS`, and what the result then holds.
  | rpc (call : Rpc) (success : Bool) (result : RpcResult Ref)

inductive FuseReply (Ref : Type) where
  | err (errno : Int)
  | entry (ref : Ref)
  | create (ref : Ref)
deriving DecidableEq

structure Session (Ref : Type) where
  dircache : Ref → Option GigaMapping
  outcomes : List (Outcome Ref)
  replies : List (FuseReply Ref)

section
variable {Ref : Type} [DecidableEq Ref]

def Session.reply (client : Session Ref) (answer : FuseReply Ref) : Session Ref :=
  { client with replies := client.replies ++ [answer] }

/-- What the client has learned about the directory `ref`, with the outcomes that remain. -/
def Session.learn (client : Session Ref) (ref : Ref) (mapping : GigaMapping) (outcomes : List (Outcome Ref)) :
    Session Ref :=
  { client with dircache := Function.update client.dircache ref (some mapping), outcomes }

variable (shahash : FileName → Digest) (mds : Ref → UInt32) (servercount : UInt32)

def cacheFetch (client : Session Ref) (ref : Ref) : Option (Option GigaMapping × Session Ref) :=
  match client.dircache ref, client.outcomes with
  | some mapping, _ => some (some mapping, client)
  | none, .malloc true :: rest =>
      let mapping := gigaInitMapping (mds ref) servercount
      some (some mapping, client.learn ref mapping rest)
  | none, .malloc false :: rest => some (none, { client with outcomes := rest })
  | none, _ => none

/-- `get_server_for_file`, and the assertion of `get_connection`. -/
def connects (mapping : GigaMapping) (name : FileName) : Prop :=
  ∃ server ∈ gigaGetServerForFile shahash mapping name, server < servercount.toNat

instance (mapping : GigaMapping) (name : FileName) : Decidable (connects shahash servercount mapping name) :=
  inferInstanceAs (Decidable (∃ server ∈ _, _))

/-- The loop at the label `bitmap`. It ends with the result of the call, or with `none` where the call itself failed. -/
def redirectLoop (call : Rpc) (name : FileName) :
    GigaMapping → List (Outcome Ref) → Option (Option (RpcResult Ref) × GigaMapping × List (Outcome Ref))
  | mapping, .rpc called success result :: rest =>
      if called = call ∧ connects shahash servercount mapping name then
        if success then
          if result.errnum = -eAgain then redirectLoop call name (gigaUpdateCache mapping result.bitmap) rest
          else some (some result, mapping, rest)
        else some (none, mapping, rest)
      else none
  | _, _ => none

/-- `cache_fetch` and the loop: `none` where there is no memory, `some none` where the call failed. -/
def request (call : Rpc) (client : Session Ref) (ref : Ref) (name : FileName) :
    Option (Option (Option (RpcResult Ref)) × Session Ref) := do
  let (dir, client) ← cacheFetch mds servercount client ref
  match dir with
  | none => some (none, client)
  | some mapping =>
      let (answer, mapping, rest) ← redirectLoop shahash servercount call name mapping client.outcomes
      some (some answer, client.learn ref mapping rest)

/-- The common body of `lookup` and `partition`: the return value, and `ref` afterwards. -/
def resolve (call : Rpc) (client : Session Ref) (ref : Ref) (pathname : FileName) :
    Option ((Int × Ref) × Session Ref) :=
  if maxFilenameLen ≤ pathname.length then some ((-eNametoolong, ref), client)
  else
    (request shahash mds servercount call client ref pathname).map fun
      | (none, client) | (some none, client) => ((-eIo, ref), client)
      | (some (some result), client) =>
          (if result.errnum < 0 then (result.errnum, ref) else (0, result.ref), client)

def lookup (client : Session Ref) (ref : Ref) (pathname : FileName) : Option ((Int × Ref) × Session Ref) :=
  resolve shahash mds servercount .lookup client ref pathname

def partition (client : Session Ref) (ref : Ref) (pathname : FileName) : Option ((Int × Ref) × Session Ref) :=
  resolve shahash mds servercount .partition client ref pathname

def skyeLlLookup (client : Session Ref) (parent : Ref) (name : FileName) : Option (Session Ref) :=
  (lookup shahash mds servercount client parent name).map fun ((ret, ref), client) =>
    client.reply (if ret < 0 then .err eNoent else .entry ref)

/-- The common body of the handlers that make a file or a directory. -/
def make (call : Rpc) (made : Ref → FuseReply Ref) (client : Session Ref) (parent : Ref) (filename : FileName) :
    Option (Session Ref) :=
  (request shahash mds servercount call client parent filename).map fun
    | (none, client) | (some none, client) => client.reply (.err eIo)
    | (some (some result), client) =>
        client.reply (if result.errnum < 0 then .err (-1 * result.errnum) else made result.ref)

def skyeLlMknod (client : Session Ref) (parent : Ref) (filename : FileName) (mode : UInt32) : Option (Session Ref) :=
  if mode &&& sIfreg = 0 then some (client.reply (.err eNosys))
  else make shahash mds servercount .create .entry client parent filename

def skyeLlCreate (client : Session Ref) (parent : Ref) (filename : FileName) : Option (Session Ref) :=
  make shahash mds servercount .create .create client parent filename

def skyeLlMkdir (client : Session Ref) (parent : Ref) (filename : FileName) : Option (Session Ref) :=
  make shahash mds servercount .mkdir .entry client parent filename

def skyeRemove (client : Session Ref) (parent : Ref) (filename : FileName) : Option (Int × Session Ref) :=
  (request shahash mds servercount .remove client parent filename).map fun
    | (none, client) | (some none, client) => (eIo, client)
    | (some (some result), client) => (if result.errnum < 0 then -1 * result.errnum else 0, client)

def skyeLlUnlink (client : Session Ref) (parent : Ref) (name : FileName) : Option (Session Ref) :=
  (skyeRemove shahash mds servercount client parent name).map fun (ret, client) => client.reply (.err ret)

def skyeLlRmdir (client : Session Ref) (parent : Ref) (name : FileName) : Option (Session Ref) :=
  (skyeRemove shahash mds servercount client parent name).map fun (ret, client) => client.reply (.err ret)

/-- The loop at `bitmap` of `skye_ll_rename`, up to an `errnum` that is not `-EAGAIN`. It reads the result of a
call that failed, too. -/
def renameLoop (dstName : FileName) :
    GigaMapping → List (FuseReply Ref) → List (Outcome Ref) →
      Option (Int × GigaMapping × List (FuseReply Ref) × List (Outcome Ref))
  | mapping, replies, .rpc .rename success result :: rest =>
      if connects shahash servercount mapping dstName then
        let replies := if success then replies else replies ++ [.err eIo]
        if result.errnum = -eAgain then renameLoop dstName (gigaUpdateCache mapping result.bitmap) replies rest
        else some (result.errnum, mapping, replies, rest)
      else none
  | _, _, _ => none

/-- The body of `skye_ll_rename` from the label `retry` on. -/
def renameRetry (srcParent : Ref) (srcName : FileName) (dstParent : Ref) (dstName : FileName) (retryCount : Nat)
    (client : Session Ref) : Option (Session Ref) := do
  let ((ret, _), client) ← partition shahash mds servercount client srcParent srcName
  if ret < 0 then some (client.reply (.err ret))
  else
    let (dir, client) ← cacheFetch mds servercount client dstParent
    match dir with
    | none => some (client.reply (.err eIo))
    | some mapping =>
        let (ret, mapping, replies, rest) ← renameLoop shahash servercount dstName mapping client.replies client.outcomes
        let client := { client.learn dstParent mapping rest with replies }
        if ret = -eNoent then
          match retryCount with
          | 0 => some (client.reply (.err eIo))
          | retryCount + 1 => renameRetry srcParent srcName dstParent dstName retryCount client
        else some (client.reply (.err 0))

def skyeLlRename (client : Session Ref) (srcParent : Ref) (srcName : FileName) (dstParent : Ref)
    (dstName : FileName) : Option (Session Ref) :=
  renameRetry shahash mds servercount srcParent srcName dstParent dstName 3 client

end

inductive Request (Ref : Type) where
  | lookup (parent : Ref) (name : FileName)
  | mknod (parent : Ref) (filename : FileName) (mode : UInt32)
  | create (parent : Ref) (filename : FileName)
  | mkdir (parent : Ref) (filename : FileName)
  | rename (srcParent : Ref) (srcName : FileName) (dstParent : Ref) (dstName : FileName)
  | unlink (parent : Ref) (name : FileName)
  | rmdir (parent : Ref) (name : FileName)

section
variable {Ref : Type} [DecidableEq Ref] (shahash : FileName → Digest) (mds : Ref → UInt32) (servercount : UInt32)

def handle (client : Session Ref) : Request Ref → Option (Session Ref)
  | .lookup parent name => skyeLlLookup shahash mds servercount client parent name
  | .mknod parent filename mode => skyeLlMknod shahash mds servercount client parent filename mode
  | .create parent filename => skyeLlCreate shahash mds servercount client parent filename
  | .mkdir parent filename => skyeLlMkdir shahash mds servercount client parent filename
  | .rename srcParent srcName dstParent dstName =>
      skyeLlRename shahash mds servercount client srcParent srcName dstParent dstName
  | .unlink parent name => skyeLlUnlink shahash mds servercount client parent name
  | .rmdir parent name => skyeLlRmdir shahash mds servercount client parent name

end

/-! ### How many replies a request gets -/

section
variable {Ref : Type}

def Outcome.renameFails : Outcome Ref → Bool
  | .rpc .rename false _ => true
  | _ => false

/-- The replies sent so far, and those that failed rename calls still to come will send on top. -/
def Session.due (client : Session Ref) : Nat := client.replies.length + client.outcomes.countP Outcome.renameFails

@[simp] theorem due_reply (client : Session Ref) (answer : FuseReply Ref) : (client.reply answer).due = client.due + 1 := by
  simp only [Session.due, Session.reply, List.length_append, List.length_singleton]
  omega

def Outcome.renamed : Outcome Ref → Option (Bool × Int)
  | .rpc .rename success result => some (success, result.errnum)
  | _ => none

def renames (outcomes : List (Outcome Ref)) : List (Bool × Int) := outcomes.filterMap Outcome.renamed

theorem renamed_of_ne {call : Rpc} (other : call ≠ .rename) (success : Bool) (result : RpcResult Ref) :
    (Outcome.rpc call success result).renamed = none := by
  cases call <;> first | rfl | exact absurd rfl other

theorem countP_renameFails (outcomes : List (Outcome Ref)) :
    outcomes.countP Outcome.renameFails = (renames outcomes).countP (!·.1) := by
  rw [renames, List.countP_filterMap]
  refine List.countP_congr fun outcome _ => ?_
  cases outcome with
  | malloc success => simp [Outcome.renamed, Outcome.renameFails]
  | rpc call success result => cases call <;> cases success <;> simp [Outcome.renamed, Outcome.renameFails]

/-- The client has not replied, and the outcomes of rename calls are still ahead of it. -/
structure Session.Quiet (before after : Session Ref) : Prop where
  replies : after.replies = before.replies
  renames : renames after.outcomes = renames before.outcomes

theorem Session.Quiet.trans {first second third : Session Ref} (one : first.Quiet second) (two : second.Quiet third) :
    first.Quiet third :=
  ⟨two.replies.trans one.replies, two.renames.trans one.renames⟩

theorem Session.Quiet.due {before after : Session Ref} (quiet : before.Quiet after) : after.due = before.due := by
  rw [Session.due, Session.due, countP_renameFails, countP_renameFails, quiet.replies, quiet.renames]

variable {shahash : FileName → Digest} {servercount : UInt32}

theorem renames_redirectLoop {call : Rpc} (other : call ≠ .rename) {name : FileName} {mapping after : GigaMapping}
    {outcomes rest : List (Outcome Ref)} {answer : Option (RpcResult Ref)}
    (looped : redirectLoop shahash servercount call name mapping outcomes = some (answer, after, rest)) :
    renames rest = renames outcomes := by
  fun_induction redirectLoop shahash servercount call name mapping outcomes with
  | case1 mapping called result pending allowed _ ih =>
    rw [ih looped, renames, renames, List.filterMap_cons_none (allowed.1 ▸ renamed_of_ne other _ _)]
  | case2 mapping called result pending allowed | case3 mapping called _ result pending allowed =>
    cases looped
    rw [renames, renames, List.filterMap_cons_none (allowed.1 ▸ renamed_of_ne other _ _)]
  | case4 | case5 => cases looped

theorem due_rename_call (replies : List (FuseReply Ref)) (success : Bool) (result : RpcResult Ref)
    (rest : List (Outcome Ref)) :
    (if success then replies else replies ++ [.err eIo]).length + rest.countP Outcome.renameFails =
      replies.length + (Outcome.rpc .rename success result :: rest).countP Outcome.renameFails := by
  cases success
  · rw [List.countP_cons_of_pos rfl, if_neg (by decide), List.length_append, List.length_singleton]
    omega
  · simp [Outcome.renameFails]

theorem due_renameLoop {dstName : FileName} {mapping after : GigaMapping} {replies sent : List (FuseReply Ref)}
    {outcomes rest : List (Outcome Ref)} {ret : Int}
    (looped : renameLoop shahash servercount dstName mapping replies outcomes = some (ret, after, sent, rest)) :
    sent.length + rest.countP Outcome.renameFails = replies.length + outcomes.countP Outcome.renameFails := by
  fun_induction renameLoop shahash servercount dstName mapping replies outcomes with
  | case1 mapping replies success result pending _ _ _ ih =>
    exact (ih looped).trans (due_rename_call replies success result pending)
  | case2 mapping replies success result pending =>
    simp only [Option.some.injEq, Prod.mk.injEq] at looped
    obtain ⟨-, -, rfl, rfl⟩ := looped
    exact due_rename_call replies success result pending
  | case3 | case4 => cases looped

variable [DecidableEq Ref] {mds : Ref → UInt32}

theorem quiet_cacheFetch {client after : Session Ref} {ref : Ref} {dir : Option GigaMapping}
    (fetched : cacheFetch mds servercount client ref = some (dir, after)) : client.Quiet after := by
  unfold cacheFetch at fetched
  split at fetched
  case h_1 =>
    cases fetched
    exact ⟨rfl, rfl⟩
  case h_2 pending | h_3 pending =>
    cases fetched
    exact ⟨rfl, by rw [pending]; rfl⟩
  case h_4 => cases fetched

theorem quiet_request {call : Rpc} (other : call ≠ .rename) {client after : Session Ref} {ref : Ref} {name : FileName}
    {answer : Option (Option (RpcResult Ref))}
    (requested : request shahash mds servercount call client ref name = some (answer, after)) :
    client.Quiet after := by
  obtain ⟨⟨dir, fetched⟩, fetch, continued⟩ := Option.bind_eq_some_iff.mp requested
  have kept : client.Quiet fetched := quiet_cacheFetch fetch
  cases dir with
  | none =>
    cases continued
    exact kept
  | some mapping =>
    obtain ⟨⟨result, mapping, rest⟩, looped, ⟨⟩⟩ := Option.bind_eq_some_iff.mp continued
    exact kept.trans ⟨rfl, renames_redirectLoop other looped⟩

theorem quiet_resolve {call : Rpc} (other : call ≠ .rename) {client after : Session Ref} {ref : Ref}
    {pathname : FileName} {resolved : Int × Ref}
    (returned : resolve shahash mds servercount call client ref pathname = some (resolved, after)) :
    client.Quiet after := by
  unfold resolve at returned
  split at returned
  · cases returned
    exact ⟨rfl, rfl⟩
  · obtain ⟨⟨answer, requested⟩, request, same⟩ := Option.map_eq_some_iff.mp returned
    have kept : client.Quiet requested := quiet_request other request
    rcases answer with _ | _ | result
    all_goals
      cases same
      exact kept

theorem due_make {call : Rpc} (other : call ≠ .rename) {made : Ref → FuseReply Ref} {client after : Session Ref}
    {parent : Ref} {filename : FileName}
    (returned : make shahash mds servercount call made client parent filename = some after) :
    after.due = client.due + 1 := by
  obtain ⟨⟨answer, requested⟩, request, same⟩ := Option.map_eq_some_iff.mp returned
  have kept : requested.due = client.due := (quiet_request other request).due
  rcases answer with _ | _ | result
  all_goals
    cases same
    rw [due_reply, kept]

theorem due_skyeRemove {client after : Session Ref} {parent : Ref} {filename : FileName} {ret : Int}
    (returned : skyeRemove shahash mds servercount client parent filename = some (ret, after)) :
    after.due = client.due := by
  obtain ⟨⟨answer, requested⟩, request, same⟩ := Option.map_eq_some_iff.mp returned
  have kept : requested.due = client.due := (quiet_request (by decide) request).due
  rcases answer with _ | _ | result
  all_goals
    cases same
    exact kept

/-- One attempt fails before the first rename call, or its last call decides: the request ends, or it starts over with
one retry less. -/
theorem renameRetry_cases {srcParent dstParent : Ref} {srcName dstName : FileName} {retryCount : Nat}
    {client after : Session Ref}
    (returned : renameRetry shahash mds servercount srcParent srcName dstParent dstName retryCount client = some after) :
    (∃ resolved errno, client.Quiet resolved ∧ errno ≠ 0 ∧ after = resolved.reply (.err errno)) ∨
      ∃ fetched between mapping learned errnum, client.Quiet fetched ∧
        renameLoop shahash servercount dstName mapping fetched.replies fetched.outcomes =
          some (errnum, learned, between.replies, between.outcomes) ∧
        (errnum ≠ -eNoent ∧ after = between.reply (.err 0) ∨
          errnum = -eNoent ∧ after = between.reply (.err eIo) ∨
          errnum = -eNoent ∧ ∃ fewer, retryCount = fewer + 1 ∧
            renameRetry shahash mds servercount srcParent srcName dstParent dstName fewer between = some after) := by
  unfold renameRetry at returned
  obtain ⟨⟨⟨ret, bucket⟩, resolved⟩, source, returned⟩ := Option.bind_eq_some_iff.mp returned
  have kept : client.Quiet resolved := quiet_resolve (by decide) source
  dsimp only at returned
  split at returned
  · rename_i failed
    cases returned
    exact .inl ⟨resolved, ret, kept, failed.ne, rfl⟩
  obtain ⟨⟨dir, fetched⟩, fetch, returned⟩ := Option.bind_eq_some_iff.mp returned
  have kept : client.Quiet fetched := kept.trans (quiet_cacheFetch fetch)
  cases dir with
  | none =>
    cases returned
    exact .inl ⟨fetched, eIo, kept, by decide, rfl⟩
  | some mapping =>
    obtain ⟨⟨errnum, learned, replies, rest⟩, looped, returned⟩ := Option.bind_eq_some_iff.mp returned
    refine .inr ⟨fetched, { fetched.learn dstParent learned rest with replies }, mapping, learned, errnum, kept, looped, ?_⟩
    dsimp only at returned
    split at returned
    · rename_i missing
      split at returned
      · cases returned
        exact .inr (.inl ⟨missing, rfl⟩)
      · exact .inr (.inr ⟨missing, _, rfl, returned⟩)
    · rename_i present
      cases returned
      exact .inl ⟨present, rfl⟩

theorem due_attempt {srcParent dstParent : Ref} {srcName dstName : FileName} {retryCount : Nat}
    {client after : Session Ref}
    (returned : renameRetry shahash mds servercount srcParent srcName dstParent dstName retryCount client = some after) :
    after.due = client.due + 1 ∨ ∃ fewer between, retryCount = fewer + 1 ∧ between.due = client.due ∧
      renameRetry shahash mds servercount srcParent srcName dstParent dstName fewer between = some after := by
  rcases renameRetry_cases returned with
    ⟨resolved, errno, kept, -, rfl⟩ | ⟨fetched, between, mapping, learned, errnum, kept, looped, ended⟩
  · exact .inl (by rw [due_reply, kept.due])
  · have balanced : between.due = client.due := (due_renameLoop looped).trans kept.due
    rcases ended with ⟨-, rfl⟩ | ⟨-, rfl⟩ | ⟨-, fewer, same, again⟩
    · exact .inl (by rw [due_reply, balanced])
    · exact .inl (by rw [due_reply, balanced])
    · exact .inr ⟨fewer, between, same, balanced, again⟩

theorem due_renameRetry {srcParent dstParent : Ref} {srcName dstName : FileName} {retryCount : Nat}
    {client after : Session Ref}
    (returned : renameRetry shahash mds servercount srcParent srcName dstParent dstName retryCount client = some after) :
    after.due = client.due + 1 := by
  induction retryCount generalizing client with
  | zero =>
    rcases due_attempt returned with ended | ⟨fewer, between, impossible, _⟩
    · exact ended
    · cases impossible
  | succ retryCount ih =>
    rcases due_attempt returned with ended | ⟨fewer, between, same, balanced, continued⟩
    · exact ended
    · cases same
      rw [ih continued, balanced]

/-- Every request that ends has sent one reply on top of those for its failed rename calls. -/
theorem due_handle {request : Request Ref} {client after : Session Ref}
    (handled : handle shahash mds servercount client request = some after) : after.due = client.due + 1 := by
  cases request with
  | lookup parent name =>
    obtain ⟨⟨⟨ret, ref⟩, resolved⟩, looked, ⟨⟩⟩ := Option.map_eq_some_iff.mp handled
    rw [due_reply, (quiet_resolve (by decide) looked).due]
  | mknod parent filename mode =>
    simp only [handle, skyeLlMknod] at handled
    split at handled
    · cases handled
      exact due_reply client _
    · exact due_make (by decide) handled
  | create parent filename | mkdir parent filename => exact due_make (by decide) handled
  | rename srcParent srcName dstParent dstName => exact due_renameRetry handled
  | unlink parent name | rmdir parent name =>
    obtain ⟨⟨ret, removed⟩, remove, ⟨⟩⟩ := Option.map_eq_some_iff.mp handled
    rw [due_reply, due_skyeRemove remove]

/-- A request whose calls have exactly these outcomes gets one reply, if and only if no call of the rename RPC
fails. -/
theorem one_reply {request : Request Ref} {dircache : Ref → Option GigaMapping} {outcomes : List (Outcome Ref)}
    {after : Session Ref} (handled : handle shahash mds servercount ⟨dircache, outcomes, []⟩ request = some after)
    (exhausted : after.outcomes = []) :
    after.replies.length = 1 ↔ ∀ result, Outcome.rpc .rename false result ∉ outcomes := by
  have counted := due_handle handled
  rw [Session.due, Session.due, exhausted, List.countP_nil, List.length_nil, Nat.zero_add, Nat.add_zero] at counted
  rw [counted, Nat.add_eq_right, List.countP_eq_zero]
  constructor
  · intro none_fails result member
    exact none_fails _ member rfl
  · intro none_fails outcome member fails
    unfold Outcome.renameFails at fails
    split at fails
    · exact none_fails _ member
    · cases fails

end

/-- A reply with this `errnum`, and with the table and the reference of a directory that has not been split. -/
def plainResult (errnum : Int) : RpcResult Nat := ⟨errnum, gigaInitMapping 0 1, 7⟩

/-- The rename of `a` to `b` in directory 7, which is not cached and whose server is the only one. -/
def renameInSeven (calls : List (Outcome Nat)) : Option (Session Nat) :=
  handle (flatDigest 0#8) (fun _ => 0) 1 ⟨fun _ => none, .malloc true :: calls, []⟩ (.rename 7 ['a'] 7 ['b'])

/-- A rename that is retried once. -/
def patientRename : List (Outcome Nat) :=
  [.rpc .partition true (plainResult 0), .rpc .rename true (plainResult (-eNoent)),
    .rpc .partition true (plainResult 0), .rpc .rename true (plainResult 0)]

theorem patient_rename_one_reply : ∃ after, renameInSeven patientRename = some after ∧ after.replies.length = 1 := by
  have ends : (renameInSeven patientRename).map (·.outcomes.isEmpty) = some true := by decide +kernel
  obtain ⟨after, handled, empty⟩ := Option.map_eq_some_iff.mp ends
  refine ⟨after, handled, (one_reply handled (List.isEmpty_iff.mp empty)).mpr ?_⟩
  intro result member
  simp [patientRename] at member

/-- The connection breaks during the rename, and the result is what an earlier success left there. -/
def brokenRename : List (Outcome Nat) := [.rpc .partition true (plainResult 0), .rpc .rename false (plainResult 0)]

/-- The rename is answered with `EIO` and then with success. -/
theorem broken_rename_two_replies : ∃ after, renameInSeven brokenRename = some after ∧
    after.replies = [.err eIo, .err 0] := by
  have ends : (renameInSeven brokenRename).map (·.replies) = some [.err eIo, .err 0] := by decide +kernel
  exact Option.map_eq_some_iff.mp ends

end SkyeFS.Client
