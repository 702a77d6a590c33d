import SkyeFS.Server.Handlers
import SkyeFS.Foundation.Transition

/-! One split on the server that owns the partition, with its requests in between.

The split thread follows `do_split`: it takes the write lock, makes the child bucket
on the right PVFS server, gives the lock up and moves the entries page by page, taking
the lock for every page, until a pass over the bucket has moved nothing. It then takes
the lock a last time, informs the owner of the child and sets the bit. Handlers run
while the lock is free. A remove has two halves; that of a file keeps the read lock in
between, that of a directory does not.
-/

set_option autoImplicit false

namespace SkyeFS.Server

open Index Pvfs

def splitThreshold : Nat := 4000

/-- `pvfs_dirent_incount` of the move loop. -/
def moveIncount : Nat := 128

/-- Where the split thread stands in `do_split`. -/
inductive Thread where
  | start (pindex : Nat)
  -- In the loop of `pvfs_mkdir_server`, before `PVFS_sys_mkdir`.
  | making (pindex cindex : Nat)
  -- In the loop of `pvfs_mkdir_server`, with a bucket on the wrong server.
  | misplaced (pindex cindex : Nat)
  -- Before a page. After an empty page the lock is still held.
  | scanning (pindex cindex token moved : Nat) (held : Bool)
  -- Inside a page of `outcount` names, of which `rest` are to be looked at.
  | batch (pindex cindex token moved outcount : Nat) (rest : List FileName)
  -- After the last pass.
  | finishing (pindex cindex : Nat) (held : Bool)
  -- Before the owner of the child is informed and the bit set.
  | announcing (pindex cindex : Nat)
  | ended
deriving DecidableEq

def Thread.locked : Thread → Bool
  | .start _ | .ended => false
  | .making _ _ | .misplaced _ _ | .batch _ _ _ _ _ _ | .announcing _ _ => true
  | .scanning _ _ _ _ held | .finishing _ _ held => held

def Thread.working : Thread → Bool
  | .start _ | .making _ _ | .misplaced _ _ | .ended => false
  | .scanning _ _ _ _ _ | .batch _ _ _ _ _ _ | .finishing _ _ _ | .announcing _ _ => true

def Thread.creating : Thread → Bool
  | .making _ _ | .misplaced _ _ => true
  | .start _ | .scanning _ _ _ _ _ | .batch _ _ _ _ _ _ | .finishing _ _ _ | .announcing _ _ | .ended => false

structure SplitState where
  dir : SkyeDirectory
  store : Store
  thread : Thread
  removals : List Removal

def SplitState.unread (state : SplitState) : Bool := state.removals.all Removal.isdir

inductive MkdirOutcome where
  | inPlace
  | misplaced
  | failed
deriving DecidableEq

inductive SplitEvent where
  -- Lock, compute the child and check for overflow; `getattr` is whether PVFS answered.
  | begin_ (getattr : Bool)
  | makeChild (outcome : MkdirOutcome) (position : Nat)
  | dropChild (success : Bool)
  | readdir
  -- The next name of the page; a rename may fail.
  | moveNext (success : Bool) (position : Nat)
  | endBatch
  | lockAgain
  | finish
  | create (name : FileName) (handle position : Nat)
  | mkdir (name : FileName) (handle position : Nat) (bucketError : Option Errno)
  | rename (source : Source) (name : FileName) (position : Nat)
  | removeLookup (name : FileName)
  | removeEntry (slot : Nat) (emptied : Bool)
  -- Another server renames an entry out of one of the buckets.
  | takeAway (index : Nat) (name : FileName)
deriving DecidableEq

/-- The steps of the split thread, as opposed to those of other requests. -/
def SplitEvent.ofThread : SplitEvent → Bool
  | .begin_ _ | .makeChild _ _ | .dropChild _ | .readdir | .moveNext _ _ | .endBatch | .lockAgain | .finish => true
  | .create _ _ _ | .mkdir _ _ _ _ | .rename _ _ _ | .removeLookup _ | .removeEntry _ _ | .takeAway _ _ => false

section
variable (shahash : FileName → Digest) (servernum : Nat)

/-- After a pass: scan again if it moved something. -/
def afterPass (pindex cindex moved : Nat) (held : Bool) : Thread :=
  if 0 < moved then .scanning pindex cindex 0 0 held else .finishing pindex cindex held

def handle {Value : Type} (state : SplitState) (served : Option (Reply Value × Store)) : Option SplitState :=
  if state.thread.locked then none else served.map fun result => { state with store := result.2 }

def splitStep (state : SplitState) : SplitEvent → Option SplitState
  | .begin_ getattr =>
      match state.thread with
      | .start pindex =>
          if state.unread then do
            let cindex ← gigaIndexForSplitting state.dir.mapping pindex
            match state.store.bucket pindex with
            | none => some { state with thread := .ended }
            | some bucket =>
                -- isdir_overflow returns -1 on an error, which the caller takes for an overflow
                if getattr ∧ bucket.keys.length ≤ splitThreshold then some { state with thread := .ended }
                else some { state with thread := .making pindex cindex }
          else none
      | _ => none
  | .makeChild outcome position =>
      match state.thread with
      | .making pindex cindex =>
          if (state.store.bucket cindex).isSome then some { state with thread := .ended }
          else
            let made := Foundation.Listing.put position (bucketName cindex) ∅ state.store
            match outcome with
            | .failed => some { state with thread := .ended }
            | .misplaced => some { state with store := made, thread := .misplaced pindex cindex }
            | .inPlace => some { state with
                store := made
                dir := { state.dir with splittingIndex := some pindex }
                thread := .scanning pindex cindex 0 0 false }
      | _ => none
  | .dropChild success =>
      match state.thread with
      | .misplaced pindex cindex =>
          if success then some { state with
            store := state.store.erase (bucketName cindex), thread := .making pindex cindex }
          else some { state with thread := .ended }
      | _ => none
  | .readdir =>
      match state.thread with
      | .scanning pindex cindex token moved held =>
          if held || state.unread then do
            let bucket ← state.store.bucket pindex
            let page := sysReaddir bucket.keys token moveIncount
            -- an empty page skips the unlock
            if page.isEmpty then some { state with thread := afterPass pindex cindex moved true }
            else some { state with thread := .batch pindex cindex token moved page.length page }
          else none
      | _ => none
  | .moveNext success position =>
      match state.thread with
      | .batch pindex cindex token moved outcount (name :: rest) => do
          let migrates ← gigaFileMigrationStatus shahash name cindex
          if migrates then
            let renamed := sysRename position state.store (.bucket pindex name) cindex name
            let store := if success then renamed.toOption.getD state.store else state.store
            -- a failed rename counts as moved as well
            some { state with store, thread := .batch pindex cindex token (moved + 1) outcount rest }
          else some { state with thread := .batch pindex cindex token moved outcount rest }
      | _ => none
  | .endBatch =>
      match state.thread with
      | .batch pindex cindex token moved outcount [] =>
          if outcount = moveIncount then
            some { state with thread := .scanning pindex cindex (nextToken token outcount) moved false }
          else some { state with thread := afterPass pindex cindex moved false }
      | _ => none
  | .lockAgain =>
      match state.thread with
      | .finishing pindex cindex held =>
          if held || state.unread then some { state with thread := .announcing pindex cindex } else none
      | _ => none
  | .finish =>
      match state.thread with
      | .announcing _ cindex => some { state with
          dir := { mapping := gigaUpdateMapping state.dir.mapping cindex, splittingIndex := none }
          thread := .ended }
      | _ => none
  | .create name object position =>
      handle state (create shahash servernum state.dir state.store name object position)
  | .mkdir name object position bucketError =>
      handle state (mkdir shahash servernum state.dir state.store name object position bucketError)
  | .rename source name position =>
      handle state (rename shahash servernum state.dir state.store source name position)
  | .removeLookup name =>
      if state.thread.locked then none else
      match removeLookup shahash servernum state.dir state.store name with
      | some (.ok removal, _) => some { state with removals := state.removals ++ [removal] }
      | some _ => some state
      | none => none
  -- the second half looks at neither the table nor the lock again
  | .removeEntry slot emptied => do
      let removal ← state.removals[slot]?
      some { state with
        store := (removeEntry state.store removal emptied).2, removals := state.removals.eraseIdx slot }
  | .takeAway index name => some { state with store := state.store.unbind index name }

/-- The name that a request may bind, and where its entry comes from. A new entry comes from nowhere. -/
inductive Binds : SplitEvent → Source → FileName → Prop where
  | create {name : FileName} {object position : Nat} :
      Binds (.create name object position) (.elsewhere (some ⟨object, false⟩)) name
  | mkdir {name : FileName} {object position : Nat} {bucketError : Option Errno} :
      Binds (.mkdir name object position bucketError) (.elsewhere (some ⟨object, true⟩)) name
  | rename {source : Source} {name : FileName} {position : Nat} :
      Binds (.rename source name position) source name

/-- The requests for a new entry, which fail if the name has one in the entered bucket. -/
def SplitEvent.makes : SplitEvent → Bool
  | .create _ _ _ | .mkdir _ _ _ _ => true
  | _ => false

/-- What each event does, with the facts it rests on. -/
inductive SplitMove (state : SplitState) : SplitEvent → SplitState → Prop where
  | begin_ {getattr : Bool} {pindex cindex : Nat} : state.thread = .start pindex → state.unread = true →
      gigaIndexForSplitting state.dir.mapping pindex = some cindex → (state.store.bucket pindex).isSome →
      SplitMove state (.begin_ getattr) { state with thread := .making pindex cindex }
  | decline {getattr : Bool} {pindex : Nat} : state.thread = .start pindex →
      state.store.bucket pindex = none ∨ getattr = true →
      SplitMove state (.begin_ getattr) { state with thread := .ended }
  | mkdirFails {outcome : MkdirOutcome} {pindex cindex position : Nat} : state.thread = .making pindex cindex →
      outcome = .failed ∨ (state.store.bucket cindex).isSome →
      SplitMove state (.makeChild outcome position) { state with thread := .ended }
  | removeFails {pindex cindex : Nat} : state.thread = .misplaced pindex cindex →
      SplitMove state (.dropChild false) { state with thread := .ended }
  | makeMisplaced {pindex cindex position : Nat} : state.thread = .making pindex cindex →
      state.store.bucket cindex = none →
      SplitMove state (.makeChild .misplaced position) { state with
        store := Foundation.Listing.put position (bucketName cindex) ∅ state.store
        thread := .misplaced pindex cindex }
  | makeInPlace {pindex cindex position : Nat} : state.thread = .making pindex cindex →
      state.store.bucket cindex = none →
      SplitMove state (.makeChild .inPlace position) { state with
        store := Foundation.Listing.put position (bucketName cindex) ∅ state.store
        dir := { state.dir with splittingIndex := some pindex }
        thread := .scanning pindex cindex 0 0 false }
  | dropChild {pindex cindex : Nat} : state.thread = .misplaced pindex cindex →
      SplitMove state (.dropChild true) { state with
        store := state.store.erase (bucketName cindex), thread := .making pindex cindex }
  | readEmpty {pindex cindex token moved : Nat} {held : Bool} :
      state.thread = .scanning pindex cindex token moved held → (held || state.unread) = true →
      sysReaddir (state.store.names pindex) token moveIncount = [] →
      SplitMove state .readdir { state with thread := afterPass pindex cindex moved true }
  | readPage {pindex cindex token moved : Nat} {held : Bool} :
      state.thread = .scanning pindex cindex token moved held → (held || state.unread) = true →
      SplitMove state .readdir { state with
        thread := .batch pindex cindex token moved
          (sysReaddir (state.store.names pindex) token moveIncount).length
          (sysReaddir (state.store.names pindex) token moveIncount) }
  | skip {success : Bool} {pindex cindex token moved outcount position : Nat} {name : FileName}
      {rest : List FileName} : state.thread = .batch pindex cindex token moved outcount (name :: rest) →
      gigaFileMigrationStatus shahash name cindex = some false →
      SplitMove state (.moveNext success position)
        { state with thread := .batch pindex cindex token moved outcount rest }
  | moveFailed {success : Bool} {pindex cindex token moved outcount position : Nat} {name : FileName}
      {rest : List FileName} : state.thread = .batch pindex cindex token moved outcount (name :: rest) →
      gigaFileMigrationStatus shahash name cindex = some true →
      SplitMove state (.moveNext success position)
        { state with thread := .batch pindex cindex token (moved + 1) outcount rest }
  | move {pindex cindex token moved outcount position : Nat} {name : FileName} {rest : List FileName}
      {object : Object} : state.thread = .batch pindex cindex token moved outcount (name :: rest) →
      gigaFileMigrationStatus shahash name cindex = some true →
      state.store.find pindex name = some object → (state.store.bucket cindex).isSome →
      SplitMove state (.moveNext true position) { state with
        store := (state.store.unbind pindex name).bind position cindex name object
        thread := .batch pindex cindex token (moved + 1) outcount rest }
  | nextPage {pindex cindex token moved : Nat} : state.thread = .batch pindex cindex token moved moveIncount [] →
      SplitMove state .endBatch
        { state with thread := .scanning pindex cindex (nextToken token moveIncount) moved false }
  | endPass {pindex cindex token moved outcount : Nat} :
      state.thread = .batch pindex cindex token moved outcount [] → outcount ≠ moveIncount →
      SplitMove state .endBatch { state with thread := afterPass pindex cindex moved false }
  | lockAgain {pindex cindex : Nat} {held : Bool} : state.thread = .finishing pindex cindex held →
      (held || state.unread) = true →
      SplitMove state .lockAgain { state with thread := .announcing pindex cindex }
  | finish {pindex cindex : Nat} : state.thread = .announcing pindex cindex →
      SplitMove state .finish { state with
        dir := { mapping := gigaUpdateMapping state.dir.mapping cindex, splittingIndex := none }
        thread := .ended }
  | answer {event : SplitEvent} : event.ofThread = false → SplitMove state event state
  | bind {event : SplitEvent} {source : Source} {name : FileName} {index position : Nat} {object : Object} :
      state.thread.locked = false → Binds event source name →
      enterBucket shahash servernum state.dir state.store name = some (.ok index) →
      source.object state.store = some object → (event.makes = true → state.store.find index name = none) →
      source ≠ .bucket index name → (state.store.find index name).any Object.isdir = false →
      SplitMove state event { state with store := (source.clear state.store).bind position index name object }
  | removeLookup {removal : Removal} : state.thread.locked = false →
      enterBucket shahash servernum state.dir state.store removal.name = some (.ok removal.index) →
      SplitMove state (.removeLookup removal.name) { state with removals := state.removals ++ [removal] }
  | removeFailed {slot : Nat} {emptied : Bool} :
      SplitMove state (.removeEntry slot emptied) { state with removals := state.removals.eraseIdx slot }
  | removeEntry {slot : Nat} {emptied : Bool} {removal : Removal} : state.removals[slot]? = some removal →
      (state.store.find removal.index removal.name).any (fun object => !object.isdir || emptied) = true →
      SplitMove state (.removeEntry slot emptied) { state with
        store := state.store.unbind removal.index removal.name, removals := state.removals.eraseIdx slot }
  | takeAway {index : Nat} {name : FileName} :
      SplitMove state (.takeAway index name) { state with store := state.store.unbind index name }

variable {shahash servernum} {state after : SplitState}

theorem handle_move {Value : Type} {event : SplitEvent} {name : FileName} {call : Nat → Reply Value × Store}
    (request : event.ofThread = false)
    (served : handle state (inBucket shahash servernum state.dir state.store name call) = some after)
    (called : ∀ index, enterBucket shahash servernum state.dir state.store name = some (.ok index) →
      state.thread.locked = false →
      SplitMove shahash servernum state event { state with store := (call index).2 }) :
    SplitMove shahash servernum state event after := by
  unfold handle at served
  split at served
  · cases served
  · rename_i free
    obtain ⟨⟨reply, store⟩, computed, rfl⟩ := Option.map_eq_some_iff.mp served
    rcases inBucket_some computed with ⟨rfl, -⟩ | ⟨index, entered, same⟩
    · exact .answer request
    · have made := called index entered (by simpa using free)
      rw [same] at made
      exact made

theorem begin_move {getattr : Bool} (stepped : splitStep shahash servernum state (.begin_ getattr) = some after) :
    SplitMove shahash servernum state (.begin_ getattr) after := by
  cases thread : state.thread <;> simp only [splitStep, thread, reduceCtorEq] at stepped
  split at stepped
  · rename_i unread
    obtain ⟨cindex, child, stepped⟩ := Option.bind_eq_some_iff.mp stepped
    split at stepped
    · rename_i missing
      cases stepped
      exact .decline thread (.inl missing)
    · rename_i bucket found
      split at stepped <;> cases stepped
      · rename_i small
        exact .decline thread (.inr small.1)
      · exact .begin_ thread unread child (by simp [found])
  · cases stepped

theorem makeChild_move {outcome : MkdirOutcome} {position : Nat}
    (stepped : splitStep shahash servernum state (.makeChild outcome position) = some after) :
    SplitMove shahash servernum state (.makeChild outcome position) after := by
  cases thread : state.thread <;> simp only [splitStep, thread, reduceCtorEq] at stepped
  split at stepped
  · rename_i present
    cases stepped
    exact .mkdirFails thread (.inr present)
  · rename_i absent
    have missing : state.store.bucket _ = none := Option.not_isSome_iff_eq_none.mp absent
    cases outcome <;> cases stepped
    · exact .makeInPlace thread missing
    · exact .makeMisplaced thread missing
    · exact .mkdirFails thread (.inl rfl)

theorem readdir_move (stepped : splitStep shahash servernum state .readdir = some after) :
    SplitMove shahash servernum state .readdir after := by
  cases thread : state.thread <;> simp only [splitStep, thread, reduceCtorEq] at stepped
  split at stepped
  · rename_i ready
    obtain ⟨bucket, found, stepped⟩ := Option.bind_eq_some_iff.mp stepped
    rw [← Store.names_of_bucket found] at stepped
    split at stepped <;> cases stepped
    · rename_i empty
      exact .readEmpty thread ready (List.isEmpty_iff.mp empty)
    · exact .readPage thread ready
  · cases stepped

theorem moveNext_move {success : Bool} {position : Nat}
    (stepped : splitStep shahash servernum state (.moveNext success position) = some after) :
    SplitMove shahash servernum state (.moveNext success position) after := by
  cases thread : state.thread with
  | batch pindex cindex token moved outcount rest =>
    cases rest with
    | nil => simp [splitStep, thread] at stepped
    | cons name rest =>
      simp only [splitStep, thread] at stepped
      obtain ⟨migrates, status, stepped⟩ := Option.bind_eq_some_iff.mp stepped
      cases migrates with
      | false =>
        cases stepped
        exact .skip thread status
      | true =>
        cases stepped
        cases success with
        | false => exact .moveFailed thread status
        | true =>
          cases renamed : sysRename position state.store (.bucket pindex name) cindex name with
          | error errno => exact .moveFailed thread status
          | ok store =>
            rcases sysRename_ok renamed with rfl | ⟨object, found, present, -, -, rfl⟩
            · exact .moveFailed thread status
            · exact .move thread status found present
  | _ => simp [splitStep, thread] at stepped

theorem endBatch_move (stepped : splitStep shahash servernum state .endBatch = some after) :
    SplitMove shahash servernum state .endBatch after := by
  cases thread : state.thread with
  | batch pindex cindex token moved outcount rest =>
    cases rest with
    | nil =>
      simp only [splitStep, thread] at stepped
      split at stepped <;> cases stepped
      · rename_i full
        subst full
        exact .nextPage thread
      · rename_i partial_
        exact .endPass thread partial_
    | cons => simp [splitStep, thread] at stepped
  | _ => simp [splitStep, thread] at stepped

theorem create_move {name : FileName} {object position : Nat}
    (stepped : splitStep shahash servernum state (.create name object position) = some after) :
    SplitMove shahash servernum state (.create name object position) after := by
  refine handle_move rfl stepped fun index entered free => ?_
  cases created : sysCreate position state.store index name { handle := object, isdir := false } with
  | error errno => cases errno <;> exact .answer rfl
  | ok store =>
    obtain ⟨-, fresh, rfl⟩ := sysCreate_ok created
    have binds : Binds (.create name object position) (.elsewhere (some ⟨object, false⟩)) name := .create
    exact .bind free binds entered rfl (fun _ => fresh) nofun (by simp [fresh])

theorem mkdir_move {name : FileName} {object position : Nat} {bucketError : Option Errno}
    (stepped : splitStep shahash servernum state (.mkdir name object position bucketError) = some after) :
    SplitMove shahash servernum state (.mkdir name object position bucketError) after := by
  refine handle_move rfl stepped fun index entered free => ?_
  cases created : sysCreate position state.store index name { handle := object, isdir := true } with
  | error errno => exact .answer rfl
  | ok store =>
    obtain ⟨-, fresh, rfl⟩ := sysCreate_ok created
    have binds : Binds (.mkdir name object position bucketError) (.elsewhere (some ⟨object, true⟩)) name := .mkdir
    exact .bind free binds entered rfl (fun _ => fresh) nofun (by simp [fresh])

theorem rename_move {source : Source} {name : FileName} {position : Nat}
    (stepped : splitStep shahash servernum state (.rename source name position) = some after) :
    SplitMove shahash servernum state (.rename source name position) after := by
  refine handle_move rfl stepped fun index entered free => ?_
  cases renamed : sysRename position state.store source index name with
  | error errno => exact .answer rfl
  | ok store =>
    -- A rename of an entry onto itself succeeds and does nothing.
    rcases sysRename_ok renamed with rfl | ⟨object, found, -, distinct, replaced, rfl⟩
    · exact .answer rfl
    · exact .bind free .rename entered found (fun makes => by cases makes) distinct replaced

theorem removeLookup_move {name : FileName}
    (stepped : splitStep shahash servernum state (.removeLookup name) = some after) :
    SplitMove shahash servernum state (.removeLookup name) after := by
  simp only [splitStep] at stepped
  split at stepped
  · cases stepped
  · rename_i free
    split at stepped
    · rename_i removal _ served
      cases stepped
      rcases inBucket_some served with ⟨-, failed⟩ | ⟨index, entered, called⟩
      · exact absurd rfl (failed removal)
      · split at called
        · cases called
        · rename_i object _
          cases called
          let removal : Removal := ⟨index, name, object.isdir⟩
          exact @SplitMove.removeLookup _ _ _ removal (by simpa using free) entered
    · cases stepped
      exact .answer rfl
    · cases stepped

theorem removeEntry_move {slot : Nat} {emptied : Bool}
    (stepped : splitStep shahash servernum state (.removeEntry slot emptied) = some after) :
    SplitMove shahash servernum state (.removeEntry slot emptied) after := by
  obtain ⟨removal, found, stepped⟩ := Option.bind_eq_some_iff.mp stepped
  cases stepped
  unfold removeEntry
  cases removed : sysRemove emptied state.store removal.index removal.name with
  | error errno => exact .removeFailed
  | ok store =>
    cases sysRemove_ok removed
    exact .removeEntry found (sysRemove_found removed)

theorem splitStep_move {event : SplitEvent} (stepped : splitStep shahash servernum state event = some after) :
    SplitMove shahash servernum state event after := by
  cases event with
  | begin_ getattr => exact begin_move stepped
  | makeChild outcome position => exact makeChild_move stepped
  | dropChild success =>
    cases thread : state.thread <;> simp only [splitStep, thread, reduceCtorEq] at stepped
    cases success <;> cases stepped
    · exact .removeFails thread
    · exact .dropChild thread
  | readdir => exact readdir_move stepped
  | moveNext success position => exact moveNext_move stepped
  | endBatch => exact endBatch_move stepped
  | lockAgain =>
    cases thread : state.thread <;> simp only [splitStep, thread, reduceCtorEq] at stepped
    split at stepped <;> cases stepped
    rename_i ready
    exact .lockAgain thread ready
  | finish =>
    cases thread : state.thread <;> simp only [splitStep, thread, reduceCtorEq] at stepped
    cases stepped
    exact .finish thread
  | create name object position => exact create_move stepped
  | mkdir name object position bucketError => exact mkdir_move stepped
  | rename source name position => exact rename_move stepped
  | removeLookup name => exact removeLookup_move stepped
  | removeEntry slot emptied => exact removeEntry_move stepped
  | takeAway index name =>
    cases stepped
    exact .takeAway

end

end SkyeFS.Server
