import SkyeFS.Client.Requests

/-! What the client tells the application about a failed step.

Inside the program an error is a negated errno, while `fuse_reply_err` takes the
errno itself and 0 for success. The handlers differ in where they change the sign, and
the rename handler in which errors it looks at.
-/

set_option autoImplicit false

namespace SkyeFS.Client

open Index Pvfs

/-! ### What a rename is answered with -/

section
variable {Ref : Type} {shahash : FileName → Digest} {servercount : UInt32}

/-- The reply to one rename call, which only a failed call gets. -/
def callAnswer (success : Bool) : List (FuseReply Ref) := if success then [] else [.err eIo]

theorem append_callAnswer (replies : List (FuseReply Ref)) (success : Bool) :
    (if success then replies else replies ++ [.err eIo]) = replies ++ callAnswer success := by
  cases success <;> simp [callAnswer]

theorem mem_callAnswer {success : Bool} {answer : FuseReply Ref} (member : answer ∈ callAnswer success) :
    answer = .err eIo := by
  cases success with
  | true => cases member
  | false => exact List.mem_singleton.mp member

/-- The loop uses up rename calls, the last with the `errnum` it returns, and answers only the failed ones. -/
theorem renameLoop_last {dstName : FileName} {mapping after : GigaMapping} {replies sent : List (FuseReply Ref)}
    {outcomes rest : List (Outcome Ref)} {errnum : Int}
    (looped : renameLoop shahash servercount dstName mapping replies outcomes = some (errnum, after, sent, rest)) :
    ∃ earlier success extra, renames outcomes = earlier ++ (success, errnum) :: renames rest ∧
      sent = replies ++ extra ∧ ∀ answer ∈ extra, answer = .err eIo := by
  fun_induction renameLoop shahash servercount dstName mapping replies outcomes with
  | case1 mapping replies success result pending _ _ _ ih =>
    obtain ⟨earlier, final, extra, calls, rfl, answers⟩ := ih looped
    refine ⟨(success, result.errnum) :: earlier, final, callAnswer success ++ extra, ?_, ?_, ?_⟩
    · exact congrArg _ calls
    · rw [← List.append_assoc, ← append_callAnswer]
    · intro answer member
      exact (List.mem_append.mp member).elim mem_callAnswer (answers answer)
  | case2 mapping replies success result pending =>
    simp only [Option.some.injEq, Prod.mk.injEq] at looped
    obtain ⟨rfl, -, rfl, rfl⟩ := looped
    exact ⟨[], success, callAnswer success, rfl, append_callAnswer replies success, fun _ => mem_callAnswer⟩
  | case3 | case4 => cases looped

/-- The rename calls of a request, and how it has replied. -/
structure RenameEnds (client after : Session Ref) (calls : List (Bool × Int)) (errno : Int) : Prop where
  used : renames client.outcomes = calls ++ renames after.outcomes
  replies : ∃ extra, after.replies = client.replies ++ extra ++ [.err errno] ∧ ∀ answer ∈ extra, answer = .err eIo
  -- The final reply is a success unless the last call returned `-ENOENT`, or there was none.
  verdict : errno = 0 ↔ ∃ last ∈ calls.getLast?, last.2 ≠ -eNoent

section
variable {client fetched between after : Session Ref} {dstName : FileName} {mapping learned : GigaMapping} {errnum errno : Int}

theorem RenameEnds.early (kept : client.Quiet fetched) (error : errno ≠ 0) :
    RenameEnds client (fetched.reply (.err errno)) [] errno where
  used := kept.renames.symm
  replies := ⟨[], by rw [Session.reply, kept.replies, List.append_nil], nofun⟩
  verdict := by simp [error]

variable (kept : client.Quiet fetched)
  (looped : renameLoop shahash servercount dstName mapping fetched.replies fetched.outcomes =
    some (errnum, learned, between.replies, between.outcomes))
include kept looped

theorem RenameEnds.last (verdict : errno = 0 ↔ errnum ≠ -eNoent) :
    ∃ calls, RenameEnds client (between.reply (.err errno)) calls errno := by
  obtain ⟨earlier, success, extra, calls, sent, answers⟩ := renameLoop_last looped
  refine ⟨earlier ++ [(success, errnum)], ?_, ⟨extra, ?_, answers⟩, by simp [verdict]⟩
  · rw [← kept.renames, calls]
    simp [Session.reply]
  · rw [Session.reply, sent, kept.replies]

theorem RenameEnds.again {calls : List (Bool × Int)} (missing : errnum = -eNoent)
    (ended : RenameEnds between after calls errno) : ∃ calls, RenameEnds client after calls errno := by
  obtain ⟨earlier, success, extra, loop, sent, answers⟩ := renameLoop_last looped
  obtain ⟨later, replies, others⟩ := ended.replies
  refine ⟨earlier ++ (success, errnum) :: calls, ?_, ⟨extra ++ later, ?_, ?_⟩, ?_⟩
  · rw [← kept.renames, loop, ended.used]
    simp
  · rw [replies, sent, kept.replies]
    simp
  · intro answer member
    exact (List.mem_append.mp member).elim (answers answer) (others answer)
  · -- Where the next attempt made no call, the last one is the call that returned `-ENOENT`.
    rw [ended.verdict, List.getLast?_append, List.getLast?_cons]
    cases calls.getLast? <;> simp [missing]

end

variable [DecidableEq Ref] {mds : Ref → UInt32} {srcParent dstParent : Ref} {srcName dstName : FileName}

theorem renameEnds {retryCount : Nat} {client after : Session Ref}
    (returned : renameRetry shahash mds servercount srcParent srcName dstParent dstName retryCount client = some after) :
    ∃ errno calls, RenameEnds client after calls errno := by
  induction retryCount using Nat.strong_induction_on generalizing client with
  | _ retryCount ih =>
    rcases renameRetry_cases returned with
      ⟨resolved, errno, kept, error, rfl⟩ | ⟨fetched, between, mapping, learned, errnum, kept, looped, ended⟩
    · exact ⟨errno, [], .early kept error⟩
    · rcases ended with ⟨present, rfl⟩ | ⟨missing, rfl⟩ | ⟨missing, fewer, rfl, again⟩
      · exact ⟨0, RenameEnds.last kept looped (by simp [present])⟩
      · exact ⟨eIo, RenameEnds.last kept looped (by simp [missing, eIo])⟩
      · obtain ⟨errno, calls, ended⟩ := ih fewer (Nat.lt_succ_self fewer) again
        exact ⟨errno, RenameEnds.again kept looped missing ended⟩

/-- The last call of the rename RPC: its transport and its `errnum`. -/
def lastRename (outcomes : List (Outcome Ref)) : Option (Bool × Int) := (renames outcomes).getLast?

/-- The reply of a rename tells what its last call did, if and only if that call succeeded or returned `-ENOENT`: every
other error is answered with success. -/
theorem rename_truthful_iff {dircache : Ref → Option GigaMapping} {outcomes : List (Outcome Ref)} {after : Session Ref}
    (handled : skyeLlRename shahash mds servercount ⟨dircache, outcomes, []⟩ srcParent srcName dstParent dstName =
      some after)
    (exhausted : after.outcomes = []) :
    ((.err 0 ∈ after.replies ↔ lastRename outcomes = some (true, 0)) ∧
        ∀ success errnum, lastRename outcomes = some (success, errnum) → errnum < 0 →
          ∃ errno ≠ 0, after.replies.getLast? = some (.err errno)) ↔
      ∀ success errnum, lastRename outcomes = some (success, errnum) → errnum = -eNoent ∨ success = true ∧ errnum = 0 := by
  obtain ⟨errno, calls, ended⟩ := renameEnds handled
  obtain ⟨extra, replies, answers⟩ := ended.replies
  have used : renames outcomes = calls := by simpa [exhausted, renames] using ended.used
  have told : .err 0 ∈ after.replies ↔ errno = 0 := by
    rw [replies, List.nil_append, List.mem_append, List.mem_singleton, FuseReply.err.injEq, eq_comm]
    refine or_iff_right fun member => ?_
    cases answers _ member
  have final : after.replies.getLast? = some (.err errno) := by rw [replies, List.getLast?_concat]
  rw [told, final, lastRename, used]
  cases last : calls.getLast? with
  | none => simp [ended.verdict, last]
  | some call =>
    obtain ⟨success, errnum⟩ := call
    have verdict : errno = 0 ↔ errnum ≠ -eNoent := by simp [ended.verdict, last]
    simp only [Option.some.injEq, Prod.mk.injEq, FuseReply.err.injEq]
    constructor
    · rintro ⟨truth, -⟩ _ _ ⟨rfl, rfl⟩
      exact (eq_or_ne errnum (-eNoent)).imp_right fun present => truth.mp (verdict.mpr present)
    · intro accepted
      rcases accepted success errnum ⟨rfl, rfl⟩ with rfl | ⟨rfl, rfl⟩
      · have error : errno ≠ 0 := fun zero => verdict.mp zero rfl
        exact ⟨by simp [error, eNoent], fun _ _ _ _ => ⟨errno, error, rfl⟩⟩
      · refine ⟨by simp [verdict, eNoent], ?_⟩
        rintro _ _ ⟨rfl, rfl⟩ negative
        exact absurd negative (lt_irrefl 0)

end

def refusedRename : List (Outcome Nat) :=
  [.rpc .partition true (plainResult 0), .rpc .rename true (plainResult (-17))]

/-- `EEXIST` becomes a success. -/
theorem refused_rename_succeeds : ∃ after, renameInSeven refusedRename = some after ∧ after.outcomes = [] ∧
    lastRename refusedRename = some (true, -17) ∧ after.replies = [.err 0] := by
  have ends : (renameInSeven refusedRename).map (fun after => (after.outcomes.isEmpty, after.replies)) =
      some (true, [.err 0]) := by decide +kernel
  obtain ⟨after, handled, observed⟩ := Option.map_eq_some_iff.mp ends
  obtain ⟨empty, replies⟩ := Prod.mk.inj observed
  exact ⟨after, handled, List.isEmpty_iff.mp empty, rfl, replies⟩

theorem patient_rename_truthful : ∃ after, renameInSeven patientRename = some after ∧ after.outcomes = [] ∧
    .err 0 ∈ after.replies := by
  have ends : (renameInSeven patientRename).map (·.outcomes.isEmpty) = some true := by decide +kernel
  obtain ⟨after, handled, empty⟩ := Option.map_eq_some_iff.mp ends
  have exhausted := List.isEmpty_iff.mp empty
  have last : lastRename (.malloc true :: patientRename) = some (true, 0) := rfl
  refine ⟨after, handled, exhausted, ((rename_truthful_iff handled exhausted).mpr ?_).1.mpr last⟩
  intro success errnum same
  cases last.symm.trans same
  exact Or.inr ⟨rfl, rfl⟩

/-! ### The operations on one object

`getattr`, `setattr`, `read` and `write` talk to PVFS only. Each is a function of what its
calls return, in order; the attributes and the data are left out.
-/

inductive PvfsCall where
  | getattr
  | setattr
  | truncate
  | requestContiguous
  | read
  | write
deriving DecidableEq

/-- The return value of a call, negative for an error, and `total_completed` of its response. -/
structure PvfsReturn where
  call : PvfsCall
  ret : Int
  totalCompleted : Nat

inductive FileReply where
  | err (errno : Int)
  | attr
  | buf (size : Nat)
  | write (count : Nat)
deriving DecidableEq

section
variable (getErrnoMapping : Int → Int)

def pvfs2errno (n : Int) : Int := -1 * getErrnoMapping n

def sysCall (call : PvfsCall) : List PvfsReturn → Option (PvfsReturn × List PvfsReturn)
  | answer :: rest => if answer.call = call then some (answer, rest) else none
  | [] => none

def orReply (call : PvfsCall) (returns : List PvfsReturn)
    (next : PvfsReturn → List PvfsReturn → Option (FileReply × List PvfsReturn)) :
    Option (FileReply × List PvfsReturn) := do
  let (answer, rest) ← sysCall call returns
  if answer.ret < 0 then some (.err (pvfs2errno getErrnoMapping answer.ret), rest) else next answer rest

def pvfsGetattr (returns : List PvfsReturn) : Option (Int × List PvfsReturn) := do
  let (answer, rest) ← sysCall .getattr returns
  some (if answer.ret < 0 then pvfs2errno getErrnoMapping answer.ret else 0, rest)

def skyeLlGetattr (returns : List PvfsReturn) : Option (FileReply × List PvfsReturn) := do
  let (ret, rest) ← pvfsGetattr getErrnoMapping returns
  some (if ret < 0 then .err ret else .attr, rest)

/-- `size` tells whether `to_set` has `FUSE_SET_ATTR_SIZE`. -/
def skyeLlSetattr (size : Bool) (returns : List PvfsReturn) : Option (FileReply × List PvfsReturn) :=
  orReply getErrnoMapping .setattr returns fun _ rest =>
    if size then orReply getErrnoMapping .truncate rest fun _ rest => skyeLlGetattr getErrnoMapping rest
    else skyeLlGetattr getErrnoMapping rest

/-- The common body of `skye_ll_read` and `skye_ll_write`. -/
def transfer (call : PvfsCall) (done : Nat → FileReply) (returns : List PvfsReturn) :
    Option (FileReply × List PvfsReturn) :=
  orReply getErrnoMapping .requestContiguous returns fun _ rest =>
    orReply getErrnoMapping call rest fun answer rest => some (done answer.totalCompleted, rest)

def skyeLlRead (returns : List PvfsReturn) : Option (FileReply × List PvfsReturn) :=
  transfer getErrnoMapping .read .buf returns

def skyeLlWrite (returns : List PvfsReturn) : Option (FileReply × List PvfsReturn) :=
  transfer getErrnoMapping .write .write returns

end

/-! ### The sign of the errno -/

inductive Operation (Ref : Type) where
  | getattr
  | setattr (size : Bool)
  | read
  | write
  | mknod (parent : Ref) (filename : FileName) (mode : UInt32)
  | create (parent : Ref) (filename : FileName)
  | mkdir (parent : Ref) (filename : FileName)
  | unlink (parent : Ref) (name : FileName)
  | rmdir (parent : Ref) (name : FileName)

def Operation.throughServers {Ref : Type} : Operation Ref → Bool
  | .getattr | .setattr _ | .read | .write => false
  | .mknod .. | .create .. | .mkdir .. | .unlink .. | .rmdir .. => true

structure Calls (Ref : Type) where
  outcomes : List (Outcome Ref)
  returns : List PvfsReturn

def FuseReply.errno {Ref : Type} : FuseReply Ref → Option Int
  | .err errno => some errno
  | .entry _ | .create _ => none

def FileReply.errno : FileReply → Option Int
  | .err errno => some errno
  | .attr | .buf _ | .write _ => none

section
variable {Ref : Type}

/-- The values that an operation on one object passes to `fuse_reply_err` when these are exactly its calls. -/
def Calls.ofFile (calls : Calls Ref) (ended : Option (FileReply × List PvfsReturn)) : Option (List Int) :=
  match calls.outcomes, ended with
  | [], some (reply, []) => some reply.errno.toList
  | _, _ => none

/-- The same for an operation on a name. -/
def Calls.ofSession (calls : Calls Ref) (ended : Option (Session Ref)) : Option (List Int) :=
  match calls.returns, ended with
  | [], some ⟨_, [], replies⟩ => some (replies.filterMap FuseReply.errno)
  | _, _ => none

variable [DecidableEq Ref] (getErrnoMapping : Int → Int) (shahash : FileName → Digest) (mds : Ref → UInt32)
  (servercount : UInt32)

def Operation.errnos (dircache : Ref → Option GigaMapping) (calls : Calls Ref) : Operation Ref → Option (List Int)
  | .getattr => calls.ofFile (skyeLlGetattr getErrnoMapping calls.returns)
  | .setattr size => calls.ofFile (skyeLlSetattr getErrnoMapping size calls.returns)
  | .read => calls.ofFile (skyeLlRead getErrnoMapping calls.returns)
  | .write => calls.ofFile (skyeLlWrite getErrnoMapping calls.returns)
  | .mknod parent filename mode =>
      calls.ofSession (skyeLlMknod shahash mds servercount ⟨dircache, calls.outcomes, []⟩ parent filename mode)
  | .create parent filename =>
      calls.ofSession (skyeLlCreate shahash mds servercount ⟨dircache, calls.outcomes, []⟩ parent filename)
  | .mkdir parent filename =>
      calls.ofSession (skyeLlMkdir shahash mds servercount ⟨dircache, calls.outcomes, []⟩ parent filename)
  | .unlink parent name =>
      calls.ofSession (skyeLlUnlink shahash mds servercount ⟨dircache, calls.outcomes, []⟩ parent name)
  | .rmdir parent name =>
      calls.ofSession (skyeLlRmdir shahash mds servercount ⟨dircache, calls.outcomes, []⟩ parent name)

/-- The errno of a call to a server that did not succeed, which is `EIO` for the transport. -/
def Outcome.failure : Outcome Ref → Option Int
  | .malloc _ => none
  | .rpc _ success result => if success then (if result.errnum < 0 then some (-result.errnum) else none) else some eIo

/-- The errno with which the last call failed. -/
def Calls.failure (calls : Calls Ref) : Option Int :=
  match calls.returns.getLast? with
  | some answer => if answer.ret < 0 then some (getErrnoMapping answer.ret) else none
  | none => calls.outcomes.getLast?.bind Outcome.failure

end

section
variable {getErrnoMapping : Int → Int}

/-- Where the last call fails, the reply is what `pvfs2errno` makes of it. -/
def Passes (getErrnoMapping : Int → Int) (returns : List PvfsReturn) (ended : Option (FileReply × List PvfsReturn)) : Prop :=
  ∀ reply last, ended = some (reply, []) → returns.getLast? = some last → last.ret < 0 →
    reply = .err (pvfs2errno getErrnoMapping last.ret)

theorem passes_done (reply : FileReply) (rest : List PvfsReturn) : Passes getErrnoMapping rest (some (reply, rest)) := by
  rintro _ last ⟨⟩ found
  cases found

theorem passes_orReply (call : PvfsCall) (returns : List PvfsReturn)
    {next : PvfsReturn → List PvfsReturn → Option (FileReply × List PvfsReturn)}
    (passes : ∀ answer rest, Passes getErrnoMapping rest (next answer rest)) :
    Passes getErrnoMapping returns (orReply getErrnoMapping call returns next) := by
  intro reply last ended final failed
  obtain ⟨⟨answer, rest⟩, called, continued⟩ := Option.bind_eq_some_iff.mp ended
  have used : returns = answer :: rest := by
    unfold sysCall at called
    split at called
    · split at called <;> cases called
      rfl
    · cases called
  subst used
  dsimp only at continued
  split at continued
  · cases continued
    cases final
    rfl
  · rename_i succeeded
    cases rest with
    | nil =>
      cases final
      exact absurd failed succeeded
    | cons second others => exact passes answer _ reply last continued (by rwa [List.getLast?_cons_cons] at final) failed

theorem skyeLlGetattr_eq (positive : ∀ n < 0, 0 < getErrnoMapping n) (returns : List PvfsReturn) :
    skyeLlGetattr getErrnoMapping returns =
      orReply getErrnoMapping .getattr returns fun _ rest => some (.attr, rest) := by
  rw [skyeLlGetattr, pvfsGetattr, orReply, Option.bind_eq_bind, Option.bind_eq_bind, Option.bind_assoc]
  refine congrArg _ (funext fun called => ?_)
  by_cases failed : called.1.ret < 0
  · have negative : pvfs2errno getErrnoMapping called.1.ret < 0 := by
      have mapped := positive _ failed
      unfold pvfs2errno
      omega
    simp [failed, negative]
  · simp [failed]

theorem passes_getattr (positive : ∀ n < 0, 0 < getErrnoMapping n) (returns : List PvfsReturn) :
    Passes getErrnoMapping returns (skyeLlGetattr getErrnoMapping returns) := by
  rw [skyeLlGetattr_eq positive]
  exact passes_orReply _ _ fun _ _ => passes_done _ _

theorem passes_setattr (positive : ∀ n < 0, 0 < getErrnoMapping n) (size : Bool) (returns : List PvfsReturn) :
    Passes getErrnoMapping returns (skyeLlSetattr getErrnoMapping size returns) := by
  refine passes_orReply _ _ fun _ rest => ?_
  cases size with
  | true => exact passes_orReply _ _ fun _ rest => passes_getattr positive rest
  | false => exact passes_getattr positive rest

theorem passes_transfer (call : PvfsCall) (done : Nat → FileReply) (returns : List PvfsReturn) :
    Passes getErrnoMapping returns (transfer getErrnoMapping call done returns) :=
  passes_orReply _ _ fun _ _ => passes_orReply _ _ fun _ _ => passes_done _ _

end

section
variable {Ref : Type} {shahash : FileName → Digest} {servercount : UInt32} {call : Rpc} {errno : Int}

/-- What a failed call leaves for the handler: no result, or the negated errno in it. -/
inductive FailedWith (errno : Int) : Option (RpcResult Ref) → Prop
  | transport (same : errno = eIo) : FailedWith errno none
  | server {result : RpcResult Ref} (negative : result.errnum < 0) (same : errno = -result.errnum) :
      FailedWith errno (some result)

theorem FailedWith.positive {result : Option (RpcResult Ref)} (failed : FailedWith errno result) : 0 < errno := by
  cases failed with
  | transport same => rw [same]; decide
  | server negative same => omega

theorem redirectLoop_failed {name : FileName} {mapping after : GigaMapping} {outcomes : List (Outcome Ref)}
    {answer : Option (RpcResult Ref)}
    (looped : redirectLoop shahash servercount call name mapping outcomes = some (answer, after, []))
    (failed : outcomes.getLast?.bind Outcome.failure = some errno) : FailedWith errno answer := by
  fun_induction redirectLoop shahash servercount call name mapping outcomes with
  | case1 mapping called result pending allowed _ ih =>
    cases pending with
    | nil => cases looped
    | cons => exact ih looped (by rwa [List.getLast?_cons_cons] at failed)
  | case2 mapping called result pending =>
    cases looped
    simp only [List.getLast?_singleton, Option.bind_some, Outcome.failure, if_true] at failed
    split at failed <;> cases failed
    rename_i negative
    exact .server negative rfl
  | case3 mapping called success result pending allowed broken =>
    cases looped
    simp only [List.getLast?_singleton, Option.bind_some, Outcome.failure, broken, Bool.false_eq_true, if_false,
      Option.some.injEq] at failed
    exact .transport failed.symm
  | case4 | case5 => cases looped

variable [DecidableEq Ref] {mds : Ref → UInt32} {client after : Session Ref} {parent : Ref} {name : FileName}

theorem cacheFetch_failed {ref : Ref} {dir : Option GigaMapping}
    (fetched : cacheFetch mds servercount client ref = some (dir, after))
    (failed : client.outcomes.getLast?.bind Outcome.failure = some errno) :
    after.outcomes.getLast?.bind Outcome.failure = some errno := by
  -- The table is at hand or memory is asked for first; only then comes a call.
  have memory : ∀ {success : Bool} {rest : List (Outcome Ref)}, client.outcomes = .malloc success :: rest →
      rest.getLast?.bind Outcome.failure = some errno := by
    intro success rest pending
    rw [pending] at failed
    cases rest with
    | nil => cases failed
    | cons => rwa [List.getLast?_cons_cons] at failed
  unfold cacheFetch at fetched
  split at fetched
  case h_1 =>
    cases fetched
    exact failed
  case h_2 pending | h_3 pending =>
    cases fetched
    exact memory pending
  case h_4 => cases fetched

theorem request_failed {answer : Option (Option (RpcResult Ref))}
    (requested : request shahash mds servercount call client parent name = some (answer, after))
    (exhausted : after.outcomes = []) (failed : client.outcomes.getLast?.bind Outcome.failure = some errno) :
    ∃ result, answer = some result ∧ FailedWith errno result := by
  obtain ⟨⟨dir, fetched⟩, fetch, continued⟩ := Option.bind_eq_some_iff.mp requested
  have failed := cacheFetch_failed fetch failed
  cases dir with
  | none =>
    cases continued
    rw [exhausted] at failed
    cases failed
  | some mapping =>
    obtain ⟨⟨result, mapping, rest⟩, looped, ⟨⟩⟩ := Option.bind_eq_some_iff.mp continued
    cases exhausted
    exact ⟨result, rfl, redirectLoop_failed looped failed⟩

/-- The handlers of the servers' calls turn the sign around once. -/
theorem make_failed (other : call ≠ .rename) {made : Ref → FuseReply Ref}
    (returned : make shahash mds servercount call made client parent name = some after)
    (exhausted : after.outcomes = []) (failed : client.outcomes.getLast?.bind Outcome.failure = some errno) :
    after.replies = client.replies ++ [.err errno] ∧ 0 < errno := by
  obtain ⟨⟨answer, requested⟩, request, same⟩ := Option.map_eq_some_iff.mp returned
  have ended : requested.outcomes = [] := by rcases answer with _ | _ | result <;> cases same <;> exact exhausted
  obtain ⟨result, rfl, failure⟩ := request_failed request ended failed
  refine ⟨?_, failure.positive⟩
  have quiet := (quiet_request other request).replies
  cases failure with
  | transport value =>
    cases same
    exact congrArg₂ (· ++ [.err ·]) quiet value.symm
  | @server result negative value =>
    cases same
    change requested.replies ++ [if result.errnum < 0 then .err (-1 * result.errnum) else made result.ref] = _
    rw [quiet, if_pos negative, value, neg_one_mul]

theorem skyeRemove_failed {ret : Int}
    (returned : skyeRemove shahash mds servercount client parent name = some (ret, after))
    (exhausted : after.outcomes = []) (failed : client.outcomes.getLast?.bind Outcome.failure = some errno) :
    ret = errno ∧ after.replies = client.replies ∧ 0 < errno := by
  obtain ⟨⟨answer, requested⟩, request, same⟩ := Option.map_eq_some_iff.mp returned
  have ended : requested.outcomes = [] := by rcases answer with _ | _ | result <;> cases same <;> exact exhausted
  obtain ⟨result, rfl, failure⟩ := request_failed request ended failed
  have quiet := (quiet_request (by decide) request).replies
  have positive := failure.positive
  cases failure with
  | transport value =>
    cases same
    exact ⟨value.symm, quiet, positive⟩
  | server negative value =>
    cases same
    exact ⟨by rw [if_pos negative, value, neg_one_mul], quiet, positive⟩

end

section
variable {Ref : Type} {getErrnoMapping : Int → Int} {calls : Calls Ref} {errnos : List Int} {errno : Int}

theorem ofFile_negated (positive : ∀ n < 0, 0 < getErrnoMapping n) {ended : Option (FileReply × List PvfsReturn)}
    (passes : Passes getErrnoMapping calls.returns ended) (ran : calls.ofFile ended = some errnos)
    (failed : calls.failure getErrnoMapping = some errno) : errnos = [-errno] ∧ 0 < errno := by
  unfold Calls.ofFile at ran
  split at ran
  · rename_i reply quiet
    cases ran
    unfold Calls.failure at failed
    split at failed
    · rename_i last final
      split at failed <;> cases failed
      rename_i negative
      rw [passes reply last rfl final negative]
      exact ⟨by simp [FileReply.errno, pvfs2errno], positive _ negative⟩
    · rw [quiet] at failed
      cases failed
  · cases ran

theorem ofSession_exact {ended : Option (Session Ref)} (ran : calls.ofSession ended = some errnos)
    (failed : calls.failure getErrnoMapping = some errno)
    (exact : ∀ after, ended = some after → after.outcomes = [] →
      calls.outcomes.getLast?.bind Outcome.failure = some errno → after.replies = [.err errno] ∧ 0 < errno) :
    errnos = [errno] ∧ 0 < errno := by
  unfold Calls.ofSession at ran
  split at ran
  · rename_i dircache replies quiet
    cases ran
    rw [Calls.failure, quiet] at failed
    obtain ⟨replied, positive⟩ := exact _ rfl rfl failed
    exact ⟨by rw [show replies = [.err errno] from replied]; rfl, positive⟩
  · cases ran

variable [DecidableEq Ref] {shahash : FileName → Digest} {mds : Ref → UInt32} {servercount : UInt32}

/-- A failed last step is replied with its errno exactly by the operations that ask the servers: those that call PVFS
themselves reply the negated one. -/
theorem fuse_errno_iff (positive : ∀ n < 0, 0 < getErrnoMapping n) {operation : Operation Ref}
    {dircache : Ref → Option GigaMapping}
    (ran : operation.errnos getErrnoMapping shahash mds servercount dircache calls = some errnos)
    (failed : calls.failure getErrnoMapping = some errno) :
    (errnos = [errno] ∧ 0 < errno) ↔ operation.throughServers = true := by
  have negated : errnos = [-errno] ∧ 0 < errno → ¬(errnos = [errno] ∧ 0 < errno) := by
    rintro ⟨rfl, larger⟩ ⟨same, -⟩
    have equal := List.singleton_inj.mp same
    omega
  cases operation with
  | getattr =>
    exact iff_of_false (negated (ofFile_negated positive (passes_getattr positive _) ran failed)) Bool.false_ne_true
  | setattr size =>
    exact iff_of_false (negated (ofFile_negated positive (passes_setattr positive size _) ran failed)) Bool.false_ne_true
  | read | write =>
    exact iff_of_false (negated (ofFile_negated positive (passes_transfer _ _ _) ran failed)) Bool.false_ne_true
  | mknod parent filename mode =>
    refine iff_of_true (ofSession_exact ran failed fun after handled exhausted last => ?_) rfl
    unfold skyeLlMknod at handled
    split at handled
    · -- A node that is not a regular file is refused before any call.
      cases handled
      rw [show calls.outcomes = [] from exhausted] at last
      cases last
    · exact make_failed (by decide) handled exhausted last
  | create parent filename | mkdir parent filename =>
    exact iff_of_true (ofSession_exact ran failed fun after handled exhausted last =>
      make_failed (by decide) handled exhausted last) rfl
  | unlink parent name | rmdir parent name =>
    refine iff_of_true (ofSession_exact ran failed fun after handled exhausted last => ?_) rfl
    obtain ⟨⟨ret, removed⟩, remove, ⟨⟩⟩ := Option.map_eq_some_iff.mp handled
    obtain ⟨rfl, quiet, larger⟩ := skyeRemove_failed remove exhausted last
    refine ⟨?_, larger⟩
    change removed.replies ++ [.err ret] = [.err ret]
    rw [quiet, List.nil_append]

end

def missingObject : Calls Nat := ⟨[], [⟨.getattr, -2, 0⟩]⟩

/-- `ENOENT` is passed on negated. -/
theorem getattr_replies_negative :
    Operation.getattr.errnos (fun n => -n) (flatDigest 0#8) (fun _ => 0) 1 (fun _ => none) missingObject = some [-2] ∧
      missingObject.failure (fun n => -n) = some 2 := by decide

def missingEntry : Calls Nat := ⟨[.malloc true, .rpc .remove true (plainResult (-2))], []⟩

theorem unlink_replies_errno :
    ∃ errnos, (Operation.unlink 7 ['a']).errnos (fun n => -n) (flatDigest 0#8) (fun _ => 0) 1 (fun _ => none) missingEntry =
        some errnos ∧ missingEntry.failure (fun n => -n) = some 2 ∧ errnos = [2] := by
  have ran : ((Operation.unlink 7 ['a']).errnos (fun n => -n) (flatDigest 0#8) (fun _ => 0) 1 (fun _ => none)
      missingEntry).isSome := by decide +kernel
  obtain ⟨errnos, ran⟩ := Option.isSome_iff_exists.mp ran
  have failed : missingEntry.failure (fun n => -n) = some 2 := by decide
  exact ⟨errnos, ran, failed, ((fuse_errno_iff (fun n negative => by omega) ran failed).mpr rfl).1⟩

end SkyeFS.Client
