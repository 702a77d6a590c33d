import SkyeFS.Server.Handlers

/-! Making a directory: the logical directory first, then its bucket `p00000`.

PVFS places a new directory on a server of its choice, so `pvfs_mkdir_server` makes and
removes `p00000` until it lands on the wanted one. The handler is a function of the
outcomes of these calls, in order. An error in them is replied, but the logical
directory is in its parent's bucket by then.
-/

set_option autoImplicit false

namespace SkyeFS.Server

open Index Pvfs

/-- What `PVFS_get_errno_mapping` gives for a call that failed. -/
structure PvfsError where
  errno : Int
  positive : 0 < errno

inductive RoundCall where
  -- `PVFS_sys_mkdir`, with what `pvfs_get_mds` gives for the new bucket.
  | mkdir (outcome : Except PvfsError Int)
  | remove (outcome : Except PvfsError Unit)

def RoundCall.Fails : RoundCall → Prop
  | .mkdir outcome => ∃ error, outcome = .error error
  | .remove outcome => ∃ error, outcome = .error error

/-- The loop, in a directory without `p00000`: the return value, where `p00000` then is, and the calls that remain. -/
def pvfsMkdirServer (server : Int) : List RoundCall → Option (Int × Option Int × List RoundCall)
  | .mkdir (.error error) :: rest => some (-1 * error.errno, none, rest)
  | .mkdir (.ok createdOn) :: rest =>
      if createdOn = server then some (0, some createdOn, rest)
      else
        match rest with
        | .remove (.error error) :: rest => some (-1 * error.errno, some createdOn, rest)
        | .remove (.ok ()) :: rest => pvfsMkdirServer server rest
        | _ => none
  | _ => none

structure NewDirectory where
  handle : Nat
  zeroth : Option Int
deriving DecidableEq

structure MkdirResult where
  errnum : Int
  -- The parent's buckets afterwards.
  store : Store
  made : Option NewDirectory
  rest : List RoundCall

def errnoCode : Errno → Int
  | .enoent => 2
  | .eio => 5
  | .eacces => 13
  | .eexist => 17
  | .enotempty => 39

section
variable (shahash : FileName → Digest) (servernum : Nat) (dir : Option SkyeDirectory) (store : Store) (mds : Nat → Int)

/-- `dir` is what `cache_fetch` returns. `fault` is an error of the first `PVFS_sys_mkdir` that does not come from what
is in the bucket. -/
def skyeRpcMkdir (dirname : FileName) (handle position : Nat) (fault : Option PvfsError) (calls : List RoundCall) :
    Option MkdirResult :=
  match dir with
  | none => some ⟨-errnoCode .eio, store, none, calls⟩
  | some dir => do
      match ← enterBucket shahash servernum dir store dirname with
      | .again _ => some ⟨-eAgain, store, none, calls⟩
      | .fail errno => some ⟨-errnoCode errno, store, none, calls⟩
      | .ok index =>
          match fault with
          | some error => some ⟨-1 * error.errno, store, none, calls⟩
          | none =>
              match sysCreate position store index dirname { handle, isdir := true } with
              | .error errno => some ⟨-1 * errnoCode errno, store, none, calls⟩
              | .ok after =>
                  (pvfsMkdirServer (mds handle) calls).map fun (rc, zeroth, rest) =>
                    ⟨rc, after, some ⟨handle, zeroth⟩, rest⟩

end

theorem PvfsError.negative (error : PvfsError) : -1 * error.errno < 0 := by
  have positive := error.positive
  omega

theorem errnoCode_pos (errno : Errno) : 0 < errnoCode errno := by
  cases errno <;> decide

/-- The loop returns 0 with `p00000` in its place, or an error after a call that failed. -/
theorem pvfsMkdirServer_used {server rc : Int} {calls rest : List RoundCall} {zeroth : Option Int}
    (returned : pvfsMkdirServer server calls = some (rc, zeroth, rest)) :
    ∃ used, calls = used ++ rest ∧
      ((∀ call ∈ used, ¬ call.Fails) ∧ rc = 0 ∧ zeroth = some server ∨ (∃ call ∈ used, call.Fails) ∧ rc < 0) := by
  fun_induction pvfsMkdirServer server calls with
  | case1 error pending =>
    cases returned
    exact ⟨[.mkdir (.error error)], rfl, Or.inr ⟨⟨_, List.mem_singleton_self _, error, rfl⟩, error.negative⟩⟩
  | case2 pending =>
    cases returned
    refine ⟨[.mkdir (.ok server)], rfl, Or.inl ⟨?_, rfl, rfl⟩⟩
    simp [RoundCall.Fails]
  | case3 createdOn misplaced error pending =>
    cases returned
    refine ⟨[.mkdir (.ok createdOn), .remove (.error error)], rfl, Or.inr ⟨⟨.remove (.error error), ?_, error, rfl⟩, ?_⟩⟩
    · simp
    · exact error.negative
  | case4 createdOn misplaced pending ih =>
    obtain ⟨used, rfl, ended⟩ := ih returned
    refine ⟨.mkdir (.ok createdOn) :: .remove (.ok ()) :: used, rfl, ended.imp ?_ ?_⟩
    · exact And.imp_left fun none_fails => by simpa [RoundCall.Fails] using none_fails
    · exact And.imp_left fun ⟨call, member, fails⟩ => ⟨call, by simp [member], fails⟩
  | case5 | case6 => cases returned

section
variable {shahash : FileName → Digest} {servernum : Nat} {dir : Option SkyeDirectory} {store : Store} {mds : Nat → Int}
  {dirname : FileName} {handle position : Nat} {fault : Option PvfsError} {calls : List RoundCall} {result : MkdirResult}
  (served : skyeRpcMkdir shahash servernum dir store mds dirname handle position fault calls = some result)
include served

theorem skyeRpcMkdir_cases :
    (result.errnum < 0 ∧ result.store = store ∧ result.rest = calls) ∨
      ∃ index zeroth, (store.bucket index).isSome ∧ store.find index dirname = none ∧
        result.store = store.bind position index dirname ⟨handle, true⟩ ∧ result.made = some ⟨handle, zeroth⟩ ∧
        pvfsMkdirServer (mds handle) calls = some (result.errnum, zeroth, result.rest) := by
  -- The request fails with nothing made, or the entry is made and `pvfs_mkdir_server` decides.
  cases dir with
  | none =>
    cases served
    exact Or.inl ⟨neg_lt_zero.mpr (errnoCode_pos .eio), rfl, rfl⟩
  | some dir =>
    obtain ⟨entered, -, continued⟩ := Option.bind_eq_some_iff.mp served
    cases entered with
    | again bitmap =>
      cases continued
      exact Or.inl ⟨neg_lt_zero.mpr (show 0 < eAgain by decide), rfl, rfl⟩
    | fail errno =>
      cases continued
      exact Or.inl ⟨neg_lt_zero.mpr (errnoCode_pos errno), rfl, rfl⟩
    | ok index =>
      cases fault with
      | some error =>
        cases continued
        exact Or.inl ⟨error.negative, rfl, rfl⟩
      | none =>
        dsimp only at continued
        split at continued
        · rename_i errno refused
          cases continued
          exact Or.inl ⟨(PvfsError.mk _ (errnoCode_pos errno)).negative, rfl, rfl⟩
        · rename_i after created
          obtain ⟨⟨rc, zeroth, rest⟩, returned, ⟨⟩⟩ := Option.map_eq_some_iff.mp continued
          obtain ⟨present, fresh, rfl⟩ := sysCreate_ok created
          exact Or.inr ⟨index, zeroth, present, fresh, rfl, rfl, returned⟩

/-- With these calls and no others: a failed request leaves the parent as it was and a successful one leaves the new
directory with `p00000` on its server, if and only if no call of `pvfs_mkdir_server` fails. -/
theorem mkdir_all_or_nothing_iff (exhausted : result.rest = []) :
    ((result.errnum ≠ 0 → ∀ index entry, result.store.find index entry = store.find index entry) ∧
        (result.errnum = 0 → (∃ index, result.store.find index dirname = some ⟨handle, true⟩) ∧
          result.made = some ⟨handle, some (mds handle)⟩)) ↔
      ∀ call ∈ calls, ¬ call.Fails := by
  rcases skyeRpcMkdir_cases served with ⟨failed, same, unused⟩ | ⟨index, zeroth, present, fresh, entry, made, returned⟩
  · -- Nothing was made and no call of the loop was reached.
    have none_made : calls = [] := unused.symm.trans exhausted
    rw [none_made, same]
    exact iff_of_true ⟨fun _ _ _ => rfl, fun zero => absurd zero failed.ne⟩ nofun
  · have bound : result.store.find index dirname = some ⟨handle, true⟩ := by
      rw [entry, Store.find_bind present, if_pos ⟨rfl, rfl⟩]
    obtain ⟨used, whole, ended⟩ := pvfsMkdirServer_used returned
    rw [exhausted, List.append_nil] at whole
    rcases ended with ⟨none_fails, zero, placed⟩ | ⟨⟨call, member, fails⟩, negative⟩
    · refine iff_of_true ⟨fun error => absurd zero error, fun _ => ⟨⟨index, bound⟩, ?_⟩⟩ (whole ▸ none_fails)
      rw [made, placed]
    · refine iff_of_false (fun kept => ?_) fun none_fails => none_fails call (whole ▸ member) fails
      -- The entry that the failed request should not have left.
      have still := kept.1 negative.ne index dirname
      rw [bound, fresh] at still
      cases still

end

/-- The handler with `pvfs_mkdir_server` as one step leaves the same tree, whatever error that step ends with. -/
theorem mkdir_store {shahash : FileName → Digest} {servernum : Nat} {dir : SkyeDirectory} {store : Store}
    {mds : Nat → Int} {dirname : FileName} {handle position : Nat} {calls : List RoundCall} {result : MkdirResult}
    (served : skyeRpcMkdir shahash servernum (some dir) store mds dirname handle position none calls = some result)
    (bucketError : Option Errno) :
    ∃ reply, mkdir shahash servernum dir store dirname handle position bucketError = some (reply, result.store) := by
  obtain ⟨entered, bucket, continued⟩ := Option.bind_eq_some_iff.mp served
  simp only [mkdir, inBucket, bucket, Option.bind_eq_bind, Option.bind_some]
  cases entered with
  | again bitmap | fail errno =>
    cases continued
    exact ⟨_, rfl⟩
  | ok index =>
    dsimp only at continued ⊢
    cases made : sysCreate position store index dirname { handle, isdir := true } with
    | error errno =>
      rw [made] at continued
      cases continued
      exact ⟨_, rfl⟩
    | ok after =>
      rw [made] at continued
      obtain ⟨_, -, ⟨⟩⟩ := Option.map_eq_some_iff.mp continued
      exact ⟨_, rfl⟩

def noSpace : PvfsError := ⟨28, by decide⟩

/-- The request to make `d` in a directory that has not been split, at its only server. PVFS gives it handle 7. -/
def mkdirInZero (calls : List RoundCall) : Option MkdirResult :=
  skyeRpcMkdir (fun _ => Vector.replicate 20 0#8) 0 (some ⟨gigaInitMapping 0 1, none⟩)
    (AList.singleton (bucketName 0) ∅) (fun _ => 0) ['d'] 7 0 none calls

/-- The request fails for lack of space and leaves a directory without `p00000`. -/
theorem failed_mkdir_leaves_entry :
    ∃ result, mkdirInZero [.mkdir (.error noSpace)] = some result ∧ result.rest = [] ∧ result.errnum = -28 ∧
      result.store.find 0 ['d'] = some ⟨7, true⟩ ∧ result.made = some ⟨7, none⟩ := by
  have runs : (mkdirInZero [.mkdir (.error noSpace)]).map (fun result =>
      (result.rest.length, result.errnum, result.store.find 0 ['d'], result.made)) =
      some (0, -28, some ⟨7, true⟩, some ⟨7, none⟩) := by decide +kernel
  obtain ⟨result, served, observed⟩ := Option.map_eq_some_iff.mp runs
  simp only [Prod.mk.injEq, List.length_eq_zero_iff] at observed
  exact ⟨result, served, observed⟩

theorem mkdir_second_round :
    ∃ result, mkdirInZero [.mkdir (.ok 3), .remove (.ok ()), .mkdir (.ok 0)] = some result ∧ result.rest = [] ∧
      result.errnum = 0 ∧ result.made = some ⟨7, some 0⟩ := by
  have runs : (mkdirInZero [.mkdir (.ok 3), .remove (.ok ()), .mkdir (.ok 0)]).map (fun result =>
      (result.rest.length, result.errnum)) = some (0, 0) := by decide +kernel
  obtain ⟨result, served, observed⟩ := Option.map_eq_some_iff.mp runs
  simp only [Prod.mk.injEq, List.length_eq_zero_iff] at observed
  obtain ⟨rest, errnum⟩ := observed
  have whole := (mkdir_all_or_nothing_iff served rest).mpr (by simp [RoundCall.Fails])
  exact ⟨result, served, rest, errnum, (whole.2 errnum).2⟩

end SkyeFS.Server
