import SkyeFS.Client.Requests
import SkyeFS.Foundation.Transition
import SkyeFS.Wire.Helper
import Mathlib.Data.List.Forall2

/-! The replies of the servers on the wire, after common/skye_rpc.x.

Both unions of the interface are sent as their discriminant and the one arm that it
selects. The other arms keep what the client had there before the call. The client reads
a table only behind `-EAGAIN` and a reference only behind success, so that its requests
end as if it had been handed the results of the servers themselves.
-/

set_option autoImplicit false

namespace SkyeFS.Wire

open Foundation Index Pvfs Client

def xdrRefArm : XdrFilter (RpcResult PvfsObjectRef) :=
  xdrPvfsObjectRef.field (·.ref) fun objp ref => { objp with ref }

def xdrBitmapArm : XdrFilter (RpcResult PvfsObjectRef) :=
  xdrGigaMapping.field (·.bitmap) fun objp bitmap => { objp with bitmap }

/-- The arm that `errnum` selects. Only one of the two unions has an arm for zero. -/
def xdrArm (hasRef : Bool) (errnum : Int32) : XdrFilter (RpcResult PvfsObjectRef) :=
  if hasRef ∧ errnum.toInt = 0 then xdrRefArm
  else if errnum.toInt = -eAgain then xdrBitmapArm
  else .sequence []

def xdrErrnumUnion (hasRef : Bool) : XdrFilter (RpcResult PvfsObjectRef) :=
  xdrInt.switch (Int32.ofInt ·.errnum) (fun objp errnum => { objp with errnum := errnum.toInt }) (xdrArm hasRef)

def xdrSkyeLookup : XdrFilter (RpcResult PvfsObjectRef) := xdrErrnumUnion true

def xdrSkyeResult : XdrFilter (RpcResult PvfsObjectRef) := xdrErrnumUnion false

def returnsRef : Rpc → Bool
  | .lookup | .partition | .create | .mkdir => true
  | .rename | .remove => false

def xdrReply : Rpc → XdrFilter (RpcResult PvfsObjectRef)
  | .lookup | .partition | .create | .mkdir => xdrSkyeLookup
  | .rename | .remove => xdrSkyeResult

theorem xdrReply_eq (call : Rpc) : xdrReply call = xdrErrnumUnion (returnsRef call) := by
  cases call <;> rfl

def copyArm (hasRef : Bool) (errnum : Int32) (value old : RpcResult PvfsObjectRef) : RpcResult PvfsObjectRef :=
  if hasRef ∧ errnum.toInt = 0 then { old with ref := value.ref }
  else if errnum.toInt = -eAgain then { old with bitmap := value.bitmap }
  else old

theorem xdrArm_copies (hasRef : Bool) (errnum : Int32) : (xdrArm hasRef errnum).Copies (copyArm hasRef errnum) := by
  intro value rest old
  rw [xdrArm, copyArm]
  split_ifs with zero again
  · exact XdrFilter.field_copies xdrPvfsObjectRef_roundTrips _ _ value rest old
  · exact XdrFilter.field_copies xdrGigaMapping_roundTrips _ _ value rest old
  · exact XdrFilter.sequence_nil_copies value rest old

/-- The members that the reply carries are those of the sent result, the others are the old ones. -/
def receive (call : Rpc) (sent old : RpcResult PvfsObjectRef) : RpcResult PvfsObjectRef where
  errnum := sent.errnum
  bitmap := if sent.errnum = -eAgain then sent.bitmap else old.bitmap
  ref := if returnsRef call ∧ sent.errnum = 0 then sent.ref else old.ref

/-- What the handlers of the servers put into `errnum`: zero or a negated error number, an `int`. -/
structure Sendable (result : RpcResult PvfsObjectRef) : Prop where
  int : (Int32.ofInt result.errnum).toInt = result.errnum
  settled : result.errnum ≤ 0

theorem reply_received (call : Rpc) {sent : RpcResult PvfsObjectRef} (sendable : Sendable sent) (rest : List UInt8)
    (old : RpcResult PvfsObjectRef) :
    (xdrReply call).decode ((xdrReply call).encode sent ++ rest) old = some (receive call sent old, rest) := by
  have decoded := XdrFilter.switch_copies xdrInt_roundTrips
    (fun objp : RpcResult PvfsObjectRef => Int32.ofInt objp.errnum)
    (fun objp errnum => { objp with errnum := errnum.toInt }) (xdrArm_copies (returnsRef call)) sent rest old
  rw [xdrReply_eq, xdrErrnumUnion, decoded]
  simp only [copyArm, receive]
  rw [sendable.int]
  congr 2
  -- The two arms exclude each other, as zero is not `-EAGAIN`.
  by_cases zero : returnsRef call ∧ sent.errnum = 0
  · have other : sent.errnum ≠ -eAgain := by
      rw [zero.2]
      decide
    rw [if_pos zero, if_pos zero, if_neg other]
  · rw [if_neg zero, if_neg zero]
    split <;> rfl

/-! ### What the client does with the replies -/

/-- The results of the servers, and what the client has of them after decoding over any old contents. Nothing is
decoded for a call that fails. -/
inductive Delivered : Outcome PvfsObjectRef → Outcome PvfsObjectRef → Prop where
  | malloc (success : Bool) : Delivered (.malloc success) (.malloc success)
  | lost (call : Rpc) (old : RpcResult PvfsObjectRef) : Delivered (.rpc call false old) (.rpc call false old)
  | reply {call : Rpc} {sent got old : RpcResult PvfsObjectRef} {rest : List UInt8} (sendable : Sendable sent)
      (decoded : (xdrReply call).decode ((xdrReply call).encode sent ++ rest) old = some (got, rest)) :
      Delivered (.rpc call true sent) (.rpc call true got)

/-- The same answer as far as the client reads it. -/
structure SameAnswer (call : Rpc) (sent got : RpcResult PvfsObjectRef) : Prop where
  settled : sent.errnum ≤ 0
  errnum : got.errnum = sent.errnum
  bitmap : sent.errnum = -eAgain → got.bitmap = sent.bitmap
  ref : returnsRef call → sent.errnum = 0 → got.ref = sent.ref

theorem SameAnswer.same_ref {call : Rpc} {sent got : RpcResult PvfsObjectRef} (same : SameAnswer call sent got)
    (hasRef : returnsRef call) (success : ¬ sent.errnum < 0) : got.ref = sent.ref :=
  same.ref hasRef (Int.le_antisymm same.settled (Int.not_lt.mp success))

theorem SameAnswer.of_decoded {call : Rpc} {sent got old : RpcResult PvfsObjectRef} {rest : List UInt8}
    (sendable : Sendable sent)
    (decoded : (xdrReply call).decode ((xdrReply call).encode sent ++ rest) old = some (got, rest)) :
    SameAnswer call sent got := by
  rw [reply_received call sendable] at decoded
  cases decoded
  refine ⟨sendable.settled, rfl, ?_, ?_⟩
  · intro again
    exact if_pos again
  · intro hasRef zero
    exact if_pos ⟨hasRef, zero⟩

/-- The client has answered the same and knows the same, and what is still to come is delivered. -/
structure SameSession (first second : Session PvfsObjectRef) : Prop where
  dircache : second.dircache = first.dircache
  outcomes : List.Forall₂ Delivered first.outcomes second.outcomes
  replies : second.replies = first.replies

def SameReturn {Value : Type} (same : Value → Value → Prop) :
    Option (Value × Session PvfsObjectRef) → Option (Value × Session PvfsObjectRef) → Prop :=
  Option.Rel fun first second => same first.1 second.1 ∧ SameSession first.2 second.2

section
variable {Value Other : Type} {same : Value → Value → Prop} {related : Other → Other → Prop}

theorem rel_map {first second : Option Value} (before : Option.Rel same first second) {f g : Value → Other}
    (step : ∀ one two, same one two → related (f one) (g two)) : Option.Rel related (first.map f) (second.map g) := by
  cases before with
  | none => exact .none
  | some holds => exact .some (step _ _ holds)

theorem rel_bind {first second : Option Value} (before : Option.Rel same first second) {f g : Value → Option Other}
    (step : ∀ one two, same one two → Option.Rel related (f one) (g two)) :
    Option.Rel related (first >>= f) (second >>= g) := by
  cases before with
  | none => exact .none
  | some holds => exact step _ _ holds

end

theorem SameSession.reply {first second : Session PvfsObjectRef} (same : SameSession first second)
    (answer : FuseReply PvfsObjectRef) : SameSession (first.reply answer) (second.reply answer) :=
  ⟨same.dircache, same.outcomes, congrArg (· ++ [answer]) same.replies⟩

theorem SameSession.learn {first second : Session PvfsObjectRef} (same : SameSession first second) (ref : PvfsObjectRef)
    (mapping : GigaMapping) {sent got : List (Outcome PvfsObjectRef)} (delivered : List.Forall₂ Delivered sent got) :
    SameSession (first.learn ref mapping sent) (second.learn ref mapping got) := by
  refine ⟨?_, delivered, same.replies⟩
  simp only [Session.learn, same.dircache]

section
variable (shahash : FileName → Digest) (mds : PvfsObjectRef → UInt32) (servercount : UInt32)

theorem cacheFetch_delivered {first second : Session PvfsObjectRef} (same : SameSession first second)
    (ref : PvfsObjectRef) :
    SameReturn (· = ·) (cacheFetch mds servercount first ref) (cacheFetch mds servercount second ref) := by
  obtain ⟨other, sent, answered⟩ := first
  obtain ⟨cache, got, answers⟩ := second
  obtain ⟨known, delivered, replied⟩ := same
  dsimp only at known delivered replied
  subst known replied
  simp only [cacheFetch]
  cases cache ref with
  | some mapping => exact .some ⟨rfl, rfl, delivered, rfl⟩
  | none =>
    cases delivered with
    | nil => exact .none
    | cons outcome others =>
      cases outcome with
      | malloc success =>
        cases success with
        | true => exact .some ⟨rfl, rfl, others, rfl⟩
        | false => exact .some ⟨rfl, rfl, others, rfl⟩
      | lost call old => exact .none
      | reply sendable decoded => exact .none

/-- The loop over redirects ends with the same table, and with the same answer, as far as it is read. -/
theorem redirectLoop_delivered (call : Rpc) (name : FileName) {sent got : List (Outcome PvfsObjectRef)}
    (delivered : List.Forall₂ Delivered sent got) (mapping : GigaMapping) :
    Option.Rel (fun (first second : Option (RpcResult PvfsObjectRef) × GigaMapping × List (Outcome PvfsObjectRef)) =>
        Option.Rel (SameAnswer call) first.1 second.1 ∧ first.2.1 = second.2.1 ∧
          List.Forall₂ Delivered first.2.2 second.2.2)
      (redirectLoop shahash servercount call name mapping sent)
      (redirectLoop shahash servercount call name mapping got) := by
  induction delivered generalizing mapping with
  | nil => exact .none
  | cons outcome others ih =>
    cases outcome with
    | malloc success => exact .none
    | lost called old =>
      -- A failed call ends the loop before anything of the result is read.
      simp only [redirectLoop, Bool.false_eq_true, if_false]
      split
      · exact .some ⟨.none, rfl, others⟩
      · exact .none
    | reply sendable decoded =>
      have same := SameAnswer.of_decoded sendable decoded
      simp only [redirectLoop, if_true, same.errnum]
      split
      · rename_i asked
        obtain ⟨rfl, -⟩ := asked
        split
        · -- Only here the bitmap is read, and such a reply carries it.
          rename_i again
          rw [same.bitmap again]
          exact ih _
        · exact .some ⟨.some same, rfl, others⟩
      · exact .none

theorem request_delivered (call : Rpc) {first second : Session PvfsObjectRef} (same : SameSession first second)
    (ref : PvfsObjectRef) (name : FileName) :
    SameReturn (Option.Rel (Option.Rel (SameAnswer call))) (request shahash mds servercount call first ref name)
      (request shahash mds servercount call second ref name) := by
  refine rel_bind (cacheFetch_delivered mds servercount same ref) ?_
  rintro ⟨dir, first⟩ ⟨other, second⟩ ⟨rfl, same⟩
  cases dir with
  | none => exact .some ⟨.none, same⟩
  | some mapping =>
    dsimp only
    refine rel_bind (redirectLoop_delivered shahash servercount call name same.outcomes mapping) ?_
    rintro ⟨answer, mapping, sent⟩ ⟨other, others, got⟩ ⟨answers, rfl, delivered⟩
    exact .some ⟨.some answers, same.learn ref mapping delivered⟩

/-- What a handler makes of a request: there was no memory, the call failed, or it was answered. -/
theorem answered_delivered {Value : Type} {related : Value → Value → Prop} (call : Rpc)
    {first second : Session PvfsObjectRef} (same : SameSession first second) (ref : PvfsObjectRef) (name : FileName)
    {f : Option (Option (RpcResult PvfsObjectRef)) × Session PvfsObjectRef → Value}
    (unsent : ∀ first second, SameSession first second → related (f (none, first)) (f (none, second)))
    (failed : ∀ first second, SameSession first second → related (f (some none, first)) (f (some none, second)))
    (answered : ∀ sent got first second, SameAnswer call sent got → SameSession first second →
      related (f (some (some sent), first)) (f (some (some got), second))) :
    Option.Rel related ((request shahash mds servercount call first ref name).map f)
      ((request shahash mds servercount call second ref name).map f) := by
  refine rel_map (request_delivered shahash mds servercount call same ref name) ?_
  rintro ⟨answer, first⟩ ⟨other, second⟩ ⟨answers, same⟩
  cases answers with
  | none => exact unsent first second same
  | some result =>
    cases result with
    | none => exact failed first second same
    | some result => exact answered _ _ first second result same

theorem resolve_delivered {call : Rpc} (hasRef : returnsRef call) {first second : Session PvfsObjectRef}
    (same : SameSession first second) (ref : PvfsObjectRef) (pathname : FileName) :
    SameReturn (· = ·) (resolve shahash mds servercount call first ref pathname)
      (resolve shahash mds servercount call second ref pathname) := by
  rw [resolve, resolve]
  split
  · exact .some ⟨rfl, same⟩
  · apply answered_delivered shahash mds servercount call same ref pathname
    · intro first second same
      exact ⟨rfl, same⟩
    · intro first second same
      exact ⟨rfl, same⟩
    · intro sent got first second answer same
      refine ⟨?_, same⟩
      dsimp only
      rw [answer.errnum]
      split
      · rfl
      · rename_i success
        rw [answer.same_ref hasRef success]

theorem lookup_delivered {first second : Session PvfsObjectRef} (same : SameSession first second)
    (parent : PvfsObjectRef) (name : FileName) :
    Option.Rel SameSession (skyeLlLookup shahash mds servercount first parent name)
      (skyeLlLookup shahash mds servercount second parent name) := by
  refine rel_map (resolve_delivered shahash mds servercount rfl same parent name) ?_
  rintro ⟨⟨ret, ref⟩, first⟩ ⟨other, second⟩ ⟨rfl, same⟩
  exact same.reply _

theorem make_delivered {call : Rpc} (hasRef : returnsRef call) (made : PvfsObjectRef → FuseReply PvfsObjectRef)
    {first second : Session PvfsObjectRef} (same : SameSession first second) (parent : PvfsObjectRef)
    (filename : FileName) :
    Option.Rel SameSession (make shahash mds servercount call made first parent filename)
      (make shahash mds servercount call made second parent filename) := by
  apply answered_delivered shahash mds servercount call same parent filename
  · intro first second same
    exact same.reply _
  · intro first second same
    exact same.reply _
  · intro sent got first second answer same
    dsimp only
    rw [answer.errnum]
    split
    · exact same.reply _
    · rename_i success
      rw [answer.same_ref hasRef success]
      exact same.reply _

theorem skyeRemove_delivered {first second : Session PvfsObjectRef} (same : SameSession first second)
    (parent : PvfsObjectRef) (filename : FileName) :
    SameReturn (· = ·) (skyeRemove shahash mds servercount first parent filename)
      (skyeRemove shahash mds servercount second parent filename) := by
  apply answered_delivered shahash mds servercount .remove same parent filename
  · intro first second same
    exact ⟨rfl, same⟩
  · intro first second same
    exact ⟨rfl, same⟩
  · intro sent got first second answer same
    refine ⟨?_, same⟩
    dsimp only
    rw [answer.errnum]

theorem unlink_delivered {first second : Session PvfsObjectRef} (same : SameSession first second)
    (parent : PvfsObjectRef) (name : FileName) :
    Option.Rel SameSession (skyeLlUnlink shahash mds servercount first parent name)
      (skyeLlUnlink shahash mds servercount second parent name) := by
  refine rel_map (skyeRemove_delivered shahash mds servercount same parent name) ?_
  rintro ⟨ret, first⟩ ⟨other, second⟩ ⟨rfl, same⟩
  exact same.reply _

theorem renameLoop_delivered (dstName : FileName) {sent got : List (Outcome PvfsObjectRef)}
    (delivered : List.Forall₂ Delivered sent got) (mapping : GigaMapping) (replies : List (FuseReply PvfsObjectRef)) :
    Option.Rel (fun first second => first.1 = second.1 ∧ first.2.1 = second.2.1 ∧ first.2.2.1 = second.2.2.1 ∧
        List.Forall₂ Delivered first.2.2.2 second.2.2.2)
      (renameLoop shahash servercount dstName mapping replies sent)
      (renameLoop shahash servercount dstName mapping replies got) := by
  -- The loop of `skye_ll_rename` reads `errnum` after a failed call as well; that result was not decoded.
  induction delivered generalizing mapping replies with
  | nil => exact .none
  | cons outcome others ih =>
    cases outcome with
    | malloc success => exact .none
    | lost call old =>
      cases call <;> try exact .none
      simp only [renameLoop]
      split
      · split
        · exact ih _ _
        · exact .some ⟨rfl, rfl, rfl, others⟩
      · exact .none
    | @reply call sent got old rest sendable decoded =>
      have same := SameAnswer.of_decoded sendable decoded
      cases call <;> try exact .none
      simp only [renameLoop, same.errnum]
      split
      · split
        · rename_i again
          rw [same.bitmap again]
          exact ih _ _
        · exact .some ⟨rfl, rfl, rfl, others⟩
      · exact .none

theorem renameRetry_delivered (srcParent : PvfsObjectRef) (srcName : FileName) (dstParent : PvfsObjectRef)
    (dstName : FileName) (retryCount : Nat) {first second : Session PvfsObjectRef} (same : SameSession first second) :
    Option.Rel SameSession (renameRetry shahash mds servercount srcParent srcName dstParent dstName retryCount first)
      (renameRetry shahash mds servercount srcParent srcName dstParent dstName retryCount second) := by
  -- On the retries that are left: after `ENOENT` the rename starts over in the session it has reached.
  induction retryCount using Nat.strongRecOn generalizing first second with
  | _ retryCount fewer =>
    unfold renameRetry
    refine rel_bind (resolve_delivered shahash mds servercount rfl same srcParent srcName) ?_
    rintro ⟨⟨ret, ref⟩, first⟩ ⟨other, second⟩ ⟨rfl, same⟩
    dsimp only
    split
    · exact .some (same.reply _)
    · refine rel_bind (cacheFetch_delivered mds servercount same dstParent) ?_
      rintro ⟨dir, first⟩ ⟨other, second⟩ ⟨rfl, same⟩
      cases dir with
      | none => exact .some (same.reply _)
      | some mapping =>
        dsimp only
        rw [same.replies]
        refine rel_bind (renameLoop_delivered shahash servercount dstName same.outcomes mapping first.replies) ?_
        rintro ⟨ret, mapping, replies, sent⟩ ⟨other, others, answers, got⟩ ⟨rfl, rfl, rfl, delivered⟩
        have learned : SameSession { first.learn dstParent mapping sent with replies }
            { second.learn dstParent mapping got with replies } :=
          ⟨(same.learn dstParent mapping delivered).dircache, delivered, rfl⟩
        dsimp only
        split
        · cases retryCount with
          | zero => exact .some (learned.reply _)
          | succ retryCount => exact fewer retryCount (Nat.lt_succ_self retryCount) learned
        · exact .some (learned.reply _)

/-- A request that works on decoded replies ends like one that works on the results of the servers. -/
theorem handle_delivered {first second : Session PvfsObjectRef} (same : SameSession first second)
    (request : Request PvfsObjectRef) :
    Option.Rel SameSession (handle shahash mds servercount first request)
      (handle shahash mds servercount second request) := by
  cases request with
  | lookup parent name => exact lookup_delivered shahash mds servercount same parent name
  | mknod parent filename mode =>
    simp only [handle, skyeLlMknod]
    split
    · exact .some (same.reply _)
    · exact make_delivered shahash mds servercount rfl _ same parent filename
  | create parent filename => exact make_delivered shahash mds servercount rfl _ same parent filename
  | mkdir parent filename => exact make_delivered shahash mds servercount rfl _ same parent filename
  | rename srcParent srcName dstParent dstName =>
    exact renameRetry_delivered shahash mds servercount srcParent srcName dstParent dstName 3 same
  | unlink parent name => exact unlink_delivered shahash mds servercount same parent name
  | rmdir parent name => exact unlink_delivered shahash mds servercount same parent name

/-- Any number of requests, one after the other: the unions of the interface lose nothing that the client reads, whatever
its results hold before they are decoded. -/
theorem requests_delivered (requests : List (Request PvfsObjectRef)) {first second : Session PvfsObjectRef}
    (same : SameSession first second) :
    Option.Rel SameSession (execute (handle shahash mds servercount) first requests)
      (execute (handle shahash mds servercount) second requests) := by
  induction requests generalizing first second with
  | nil => exact .some same
  | cons request others ih =>
    rw [execute, execute]
    refine rel_bind (handle_delivered shahash mds servercount same request) ?_
    intro first second same
    exact ih same

end

/-- A redirect, and the answer of the other server. -/
def redirectedLookup : List (RpcResult PvfsObjectRef) :=
  [⟨-eAgain, gigaInitMapping 0 1, ⟨0, 0⟩⟩, ⟨0, gigaInitMapping 0 1, ⟨7, 1⟩⟩]

/-- What the result of the client holds before each call. -/
def strayResult : RpcResult PvfsObjectRef := ⟨-5, gigaInitMapping 1 2, ⟨3, 3⟩⟩

def lookupSession (results : List (RpcResult PvfsObjectRef)) : Session PvfsObjectRef :=
  ⟨fun _ => none, .malloc true :: results.map (.rpc .lookup true), []⟩

theorem requests_delivered_redirect :
    (execute (handle (flatDigest 0#8) (fun _ => 0) 1)
      (lookupSession (redirectedLookup.map (receive .lookup · strayResult))) [.lookup ⟨9, 1⟩ ['a']]).map (·.replies) =
        some [.entry ⟨7, 1⟩] := by
  have sendable : ∀ sent ∈ redirectedLookup, Sendable sent := by
    intro sent member
    rcases List.mem_pair.mp member with rfl | rfl
    · exact ⟨by decide, by decide⟩
    · exact ⟨by decide, by decide⟩
  have same : SameSession (lookupSession redirectedLookup)
      (lookupSession (redirectedLookup.map (receive .lookup · strayResult))) := by
    refine ⟨rfl, .cons (.malloc true) ?_, rfl⟩
    rw [List.map_map, List.forall₂_map_left_iff, List.forall₂_map_right_iff, List.forall₂_same]
    intro sent member
    exact .reply (sendable sent member) (reply_received .lookup (sendable sent member) [] strayResult)
  have ends : (execute (handle (flatDigest 0#8) (fun _ => 0) 1) (lookupSession redirectedLookup)
      [.lookup ⟨9, 1⟩ ['a']]).map (·.replies) = some [.entry ⟨7, 1⟩] := by
    decide +kernel
  rw [← ends]
  have delivered := requests_delivered (flatDigest 0#8) (fun _ => 0) 1 [.lookup ⟨9, 1⟩ ['a']] same
  generalize execute _ (lookupSession redirectedLookup) _ = first at delivered ⊢
  generalize execute _ _ _ = second at delivered ⊢
  cases delivered with
  | none => rfl
  | some same => exact congrArg some same.replies

end SkyeFS.Wire
