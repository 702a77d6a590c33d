import Mathlib.Data.Multiset.AddSub
import SkyeFS.Foundation.Transition

/-! The semaphore that bounds how many requests a server works on.

Six handlers begin with `flow_start`, which waits for a permit for some time and then goes
on without one, and call `flow_stop` by hand before each return. `flow_stop` gives a permit
back if `flow_start` had taken one. A handler is the graph of its calls, with every way out
marked by whether `flow_stop` is called there; what a handler does after `flow_stop` only
fills in its reply.
-/

set_option autoImplicit false

namespace SkyeFS.Server

open Foundation

inductive Handler where
  | lookup
  | partition
  | create
  | mkdir
  | remove
  | rename
deriving DecidableEq

inductive HandlerCall where
  | flowStart
  | cacheFetch
  -- The comparison of the partition's server with `servernum`.
  | ownServer
  | enterBucket
  | refLookup
  -- The second try of the lookup, in the child of a splitting partition.
  | refLookupChild
  -- The lookup of the bucket in which the partition handler found the entry.
  | refLookupBucket
  | sysCreate
  | sysMkdir
  | mkdirServer
  | isdir
  | cacheFetchW
  | removeAllBuckets
  | removeZeroth
  | sysRemove
  | sysRename
deriving DecidableEq

/-- How a call ends: `no` is an error, a null pointer or a negative answer. -/
inductive Answer where
  | yes
  | no
  -- `-ENOENT`, in the partition that is being split.
  | splitting
deriving DecidableEq

inductive Next where
  | call (next : HandlerCall)
  | leave (stops : Bool)
deriving DecidableEq

namespace Handler

def lookupNext : HandlerCall → Answer → Option Next
  | .cacheFetch, .no => some (.leave false)
  | .cacheFetch, .yes => some (.call .ownServer)
  | .ownServer, .no => some (.leave true)
  | .ownServer, .yes => some (.call .refLookup)
  | .refLookup, .splitting => some (.call .refLookupChild)
  | .refLookup, _ | .refLookupChild, _ => some (.leave true)
  | _, _ => none

def partitionNext : HandlerCall → Answer → Option Next
  | .cacheFetch, .no => some (.leave false)
  | .cacheFetch, .yes => some (.call .ownServer)
  | .ownServer, .no => some (.leave true)
  | .ownServer, .yes => some (.call .refLookup)
  -- the jump to `gotindex`
  | .refLookup, .splitting => some (.call .ownServer)
  | .refLookup, .no => some (.leave true)
  | .refLookup, .yes => some (.call .refLookupBucket)
  | .refLookupBucket, _ => some (.leave true)
  | _, _ => none

def createNext : HandlerCall → Answer → Option Next
  | .cacheFetch, .no => some (.leave false)
  | .cacheFetch, .yes => some (.call .enterBucket)
  | .enterBucket, .no => some (.leave true)
  | .enterBucket, .yes => some (.call .sysCreate)
  | .sysCreate, .no => some (.leave true)
  | .sysCreate, .yes => some (.leave true)
  | _, _ => none

def mkdirNext : HandlerCall → Answer → Option Next
  | .cacheFetch, .no => some (.leave true)
  | .cacheFetch, .yes => some (.call .enterBucket)
  | .enterBucket, .no => some (.leave true)
  | .enterBucket, .yes => some (.call .sysMkdir)
  | .sysMkdir, .no => some (.leave true)
  | .sysMkdir, .yes => some (.call .mkdirServer)
  | .mkdirServer, _ => some (.leave true)
  | _, _ => none

/-- There is no way on from a `cache_fetch_w` that fails: the null pointer ends the process. -/
def removeNext : HandlerCall → Answer → Option Next
  | .cacheFetch, .no => some (.leave true)
  | .cacheFetch, .yes => some (.call .enterBucket)
  | .enterBucket, .no => some (.leave true)
  | .enterBucket, .yes => some (.call .refLookup)
  | .refLookup, .no => some (.leave true)
  | .refLookup, .yes => some (.call .isdir)
  | .isdir, .no => some (.call .sysRemove)
  | .isdir, .yes => some (.call .cacheFetchW)
  | .cacheFetchW, .yes => some (.call .removeAllBuckets)
  | .removeAllBuckets, .no => some (.leave true)
  | .removeAllBuckets, .yes => some (.call .removeZeroth)
  | .removeZeroth, .no => some (.leave true)
  | .removeZeroth, .yes => some (.call .sysRemove)
  | .sysRemove, _ => some (.leave true)
  | _, _ => none

def renameNext : HandlerCall → Answer → Option Next
  | .cacheFetch, .no => some (.leave true)
  | .cacheFetch, .yes => some (.call .enterBucket)
  | .enterBucket, .no => some (.leave true)
  | .enterBucket, .yes => some (.call .sysRename)
  | .sysRename, _ => some (.leave true)
  | _, _ => none

def next : Handler → HandlerCall → Answer → Option Next
  | .lookup => lookupNext
  | .partition => partitionNext
  | .create => createNext
  | .mkdir => mkdirNext
  | .remove => removeNext
  | .rename => renameNext

end Handler

structure Running where
  handler : Handler
  call : HandlerCall
  flow : Bool
deriving DecidableEq

structure FlowState where
  -- The value of `flow_sem`.
  flowSem : Nat
  running : Multiset Running

inductive FlowEvent where
  | request (handler : Handler)
  -- The call that the request is in returns.
  | returns (request : Running) (answer : Answer)

/-- `flow_start`: a timeout is possible even while there is a permit, as it may have just come free. -/
def flowStart (flowSem : Nat) : Answer → Option (Bool × Nat)
  | .yes => if 0 < flowSem then some (true, flowSem - 1) else none
  | .no => some (false, flowSem)
  | .splitting => none

def flowStop (flow : Bool) (flowSem : Nat) : Nat := if flow then flowSem + 1 else flowSem

def flowStep (state : FlowState) : FlowEvent → Option FlowState
  | .request handler => some { state with running := ⟨handler, .flowStart, false⟩ ::ₘ state.running }
  | .returns request answer =>
      if request ∈ state.running then
        let others := state.running.erase request
        if request.call = .flowStart then
          (flowStart state.flowSem answer).map fun (flow, flowSem) =>
            ⟨flowSem, { request with call := .cacheFetch, flow } ::ₘ others⟩
        else
          (request.handler.next request.call answer).map fun
            | .call next => { state with running := { request with call := next } ::ₘ others }
            | .leave stops => ⟨if stops then flowStop request.flow state.flowSem else state.flowSem, others⟩
      else none

def FlowState.permits (state : FlowState) : Nat := state.running.countP (·.flow = true)

def FlowState.total (state : FlowState) : Nat := state.flowSem + state.permits

def Leaks : FlowEvent → Prop
  | .request _ => False
  | .returns request answer => request.flow = true ∧ request.handler.next request.call answer = some (.leave false)

def FlowState.Waiting (state : FlowState) : Prop :=
  ∀ request ∈ state.running, request.call = .flowStart → request.flow = false

inductive FlowMove (state : FlowState) : FlowEvent → FlowState → Prop
  | request (handler : Handler) :
      FlowMove state (.request handler) { state with running := ⟨handler, .flowStart, false⟩ ::ₘ state.running }
  | acquires {request : Running} {others : Multiset Running} (found : state.running = request ::ₘ others)
      (starts : request.call = .flowStart) (free : 0 < state.flowSem) :
      FlowMove state (.returns request .yes)
        ⟨state.flowSem - 1, { request with call := .cacheFetch, flow := true } ::ₘ others⟩
  | timesOut {request : Running} {others : Multiset Running} (found : state.running = request ::ₘ others)
      (starts : request.call = .flowStart) :
      FlowMove state (.returns request .no)
        { state with running := { request with call := .cacheFetch, flow := false } ::ₘ others }
  | goesOn {request : Running} {others : Multiset Running} {answer : Answer} {next : HandlerCall}
      (found : state.running = request ::ₘ others)
      (continues : request.handler.next request.call answer = some (.call next)) :
      FlowMove state (.returns request answer) { state with running := { request with call := next } ::ₘ others }
  | leaves {request : Running} {others : Multiset Running} {answer : Answer} {stops : Bool}
      (found : state.running = request ::ₘ others)
      (returns : request.handler.next request.call answer = some (.leave stops)) :
      FlowMove state (.returns request answer)
        ⟨if stops then flowStop request.flow state.flowSem else state.flowSem, others⟩

theorem flowStep_move {state after : FlowState} {event : FlowEvent} (stepped : flowStep state event = some after) :
    FlowMove state event after := by
  cases event with
  | request handler =>
    cases stepped
    exact .request handler
  | returns request answer =>
    simp only [flowStep] at stepped
    split at stepped
    case isFalse => cases stepped
    case isTrue member =>
      have found : state.running = request ::ₘ state.running.erase request := (Multiset.cons_erase member).symm
      split at stepped
      · rename_i starts
        obtain ⟨⟨flow, flowSem⟩, started, ⟨⟩⟩ := Option.map_eq_some_iff.mp stepped
        unfold flowStart at started
        split at started
        · split at started <;> cases started
          rename_i free
          exact .acquires found starts free
        · cases started
          exact .timesOut found starts
        · cases started
      · obtain ⟨next, continues, same⟩ := Option.map_eq_some_iff.mp stepped
        cases next with
        | call next =>
          cases same
          exact .goesOn found continues
        | leave stops =>
          cases same
          exact .leaves found continues

theorem next_ne_flowStart {handler : Handler} {call next : HandlerCall} {answer : Answer}
    (continues : handler.next call answer = some (.call next)) : next ≠ .flowStart := by
  rintro rfl
  revert continues
  cases handler <;> cases call <;> cases answer <;> decide

section
variable {state after : FlowState} {event : FlowEvent}

theorem FlowState.Waiting.others {request : Running} {others : Multiset Running} (waiting : state.Waiting)
    (found : state.running = request ::ₘ others) (flowSem : Nat) : FlowState.Waiting ⟨flowSem, others⟩ :=
  fun other member => waiting other (found ▸ Multiset.mem_cons_of_mem member)

theorem FlowState.Waiting.cons {request : Running} {others : Multiset Running} {flowSem : Nat}
    (waiting : FlowState.Waiting ⟨flowSem, others⟩) (fresh : request.call = .flowStart → request.flow = false) :
    FlowState.Waiting ⟨flowSem, request ::ₘ others⟩ := by
  intro other member
  rcases Multiset.mem_cons.mp member with rfl | later
  · exact fresh
  · exact waiting other later

theorem FlowState.Waiting.step (waiting : state.Waiting) (move : FlowMove state event after) : after.Waiting := by
  cases move with
  | request handler => exact .cons waiting fun _ => rfl
  | acquires found | timesOut found => exact .cons (waiting.others found _) nofun
  | goesOn found continues => exact .cons (waiting.others found _) fun again => absurd again (next_ne_flowStart continues)
  | leaves found => exact waiting.others found _

theorem total_step (waiting : state.Waiting) (move : FlowMove state event after) :
    (Leaks event → after.total + 1 = state.total) ∧ (¬ Leaks event → after.total = state.total) := by
  unfold FlowState.total FlowState.permits
  cases move with
  | request handler => exact ⟨False.elim, fun _ => congrArg _ (Multiset.countP_cons_of_neg _ (by simp))⟩
  | @acquires request others found starts free =>
    have unheld : ¬ request.flow = true := by simp [waiting request (found ▸ Multiset.mem_cons_self _ _) starts]
    refine ⟨fun leak => absurd leak.1 unheld, fun _ => ?_⟩
    dsimp only
    rw [found, Multiset.countP_cons, Multiset.countP_cons, if_pos rfl, if_neg unheld]
    omega
  | @timesOut request others found starts =>
    have unheld : ¬ request.flow = true := by simp [waiting request (found ▸ Multiset.mem_cons_self _ _) starts]
    refine ⟨fun leak => absurd leak.1 unheld, fun _ => ?_⟩
    rw [found, Multiset.countP_cons, Multiset.countP_cons, if_neg Bool.false_ne_true, if_neg unheld]
  | goesOn found continues =>
    refine ⟨fun leak => (by cases continues.symm.trans leak.2), fun _ => ?_⟩
    rw [found, Multiset.countP_cons, Multiset.countP_cons]
  | @leaves request others answer stops found returns =>
    dsimp only
    rw [found, Multiset.countP_cons]
    cases stops with
    | true =>
      refine ⟨fun leak => (by cases returns.symm.trans leak.2), fun _ => ?_⟩
      rw [if_pos rfl, flowStop]
      split <;> omega
    | false =>
      rw [if_neg Bool.false_ne_true]
      refine ⟨fun leak => ?_, fun kept => ?_⟩
      · rw [if_pos leak.1, Nat.add_assoc]
      · rw [if_neg fun held => kept ⟨held, returns⟩]
        rfl

end

/-- Three of the handlers return from a failed `cache_fetch` at once. -/
theorem next_eq_leave_false {handler : Handler} {call : HandlerCall} {answer : Answer} :
    handler.next call answer = some (.leave false) ↔
      call = .cacheFetch ∧ answer = .no ∧ handler ∈ [.lookup, .partition, .create] := by
  cases handler <;> cases call <;> cases answer <;> decide

/-- No request that holds a permit is one of those three. -/
def Stopped (_ : FlowState) : FlowEvent → Prop
  | .request _ => True
  | .returns request answer =>
      ¬ (request.flow = true ∧ request.call = .cacheFetch ∧ answer = .no ∧
        request.handler ∈ [.lookup, .partition, .create])

theorem stopped_iff {state : FlowState} {event : FlowEvent} : Stopped state event ↔ ¬ Leaks event := by
  cases event with
  | request handler => exact iff_of_true trivial not_false
  | returns request answer => rw [Stopped, Leaks, next_eq_leave_false]

instance decidableStopped (state : FlowState) : (event : FlowEvent) → Decidable (Stopped state event)
  | .request _ => .isTrue trivial
  | .returns _ _ => inferInstanceAs (Decidable (¬ _))

/-- From a server without requests, along any run: the permits that are free and those that running requests hold add
up to what there was at the start, if and only if no lookup, partition or create request with a permit fails to get its
directory. -/
theorem permits_conserved_iff {permits : Nat} {final : FlowState} {events : List FlowEvent}
    (executed : execute flowStep ⟨permits, 0⟩ events = some final) :
    Always flowStep (fun state => state.flowSem + state.permits = permits) ⟨permits, 0⟩ events ↔
      Meets flowStep Stopped ⟨permits, 0⟩ events := by
  refine always_iff_meets (fun _ _ _ (waiting : FlowState.Waiting _) stepped => waiting.step (flowStep_move stepped))
    (fun state event after waiting conserved stepped => ?_) (fun _ => nofun) rfl executed
  obtain ⟨leaked, kept⟩ := total_step waiting (flowStep_move stepped)
  unfold FlowState.total at leaked kept
  rw [stopped_iff]
  constructor
  · intro stopped
    rw [kept stopped, conserved]
  · intro still leak
    have lost := leaked leak
    omega

/-- A lookup gets a permit and then no directory. -/
def failedLookup : List FlowEvent :=
  [.request .lookup, .returns ⟨.lookup, .flowStart, false⟩ .yes, .returns ⟨.lookup, .cacheFetch, true⟩ .no]

/-- The permit is gone with the request. -/
theorem failed_lookup_keeps_permit :
    ∃ final, execute flowStep ⟨12, 0⟩ failedLookup = some final ∧ final.running = 0 ∧ final.flowSem = 11 := by
  have runs : (execute flowStep ⟨12, 0⟩ failedLookup).map (fun final => (final.running.card, final.flowSem)) =
      some (0, 11) := by decide +kernel
  obtain ⟨final, executed, observed⟩ := Option.map_eq_some_iff.mp runs
  obtain ⟨none, value⟩ := Prod.mk.inj observed
  exact ⟨final, executed, Multiset.card_eq_zero.mp none, value⟩

/-- A rename for which there is no directory, and a lookup that timed out before. -/
def failedRename : List FlowEvent :=
  [.request .rename, .request .lookup, .returns ⟨.lookup, .flowStart, false⟩ .no,
    .returns ⟨.rename, .flowStart, false⟩ .yes, .returns ⟨.rename, .cacheFetch, true⟩ .no,
    .returns ⟨.lookup, .cacheFetch, false⟩ .no]

theorem failed_rename_conserves :
    ∃ final, execute flowStep ⟨12, 0⟩ failedRename = some final ∧
      Always flowStep (fun state => state.flowSem + state.permits = 12) ⟨12, 0⟩ failedRename := by
  have runs : (execute flowStep ⟨12, 0⟩ failedRename).isSome := by decide +kernel
  obtain ⟨final, executed⟩ := Option.isSome_iff_exists.mp runs
  exact ⟨final, executed, (permits_conserved_iff executed).mpr (by decide +kernel)⟩

end SkyeFS.Server
