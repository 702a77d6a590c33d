import SkyeFS.Server.SplitCalls
import SkyeFS.Server.SplitScan
import Mathlib.Data.Prod.Lex

/-! The move loop of `do_split` by itself, with renames that always or never succeed.

The loop has no choice left here: pages are what PVFS lists, and the rename of an entry
succeeds or fails for good. A pass that counts no move has changed nothing and so has
read every place of the bucket. The count goes up for failed renames as well.
-/

set_option autoImplicit false

namespace SkyeFS.Server

open Index Pvfs Foundation

section
variable (shahash : FileName → Digest) (servernum : Nat) (succeeds : FileName → Bool) (position : FileName → Nat)

/-- The next step of the thread, as long as it is in the loop. -/
def loopEvent : Thread → Option SplitEvent
  | .scanning _ _ _ _ _ => some .readdir
  | .batch _ _ _ _ _ (name :: _) => some (.moveNext (succeeds name) (position name))
  | .batch _ _ _ _ _ [] => some .endBatch
  | _ => none

/-- One step of the loop. There is none after the loop, and none when an assertion fails. -/
def loopStep (state : SplitState) : Option SplitState :=
  (loopEvent succeeds position state.thread).bind (splitStep shahash servernum state)

/-- The loop is about to begin: the child's bucket has just been made, and nobody reads the directory. -/
structure EntersLoop (pindex cindex : Nat) (state : SplitState) : Prop where
  thread : state.thread = .scanning pindex cindex 0 0 false
  unread : state.unread = true
  parent : (state.store.bucket pindex).isSome
  child : state.store.bucket cindex = some ∅
  different : pindex ≠ cindex

/-- The entries that migrate can be renamed. -/
def RenamesSucceed (pindex cindex : Nat) (store : Store) : Prop :=
  ∀ name ∈ store.names pindex, gigaFileMigrationStatus shahash name cindex = some true → succeeds name = true

end

theorem ne_of_gigaIndexForSplitting {mapping : GigaMapping} {pindex cindex : Nat}
    (chosen : gigaIndexForSplitting mapping pindex = some cindex) : pindex ≠ cindex := by
  rintro rfl
  obtain ⟨present, found⟩ := Option.ite_none_right_eq_some.mp chosen
  obtain ⟨radix, _, _, _, absent, _⟩ := firstFreeChild_some found
  exact absent (getBitStatus_iff.mp present)

/-- `do_split` comes to the loop in this way. -/
theorem entersLoop_of_execute {shahash : FileName → Digest} {servernum : Nat} {start state : SplitState}
    {pindex place : Nat} {getattr : Bool} (begun : start.thread = .start pindex)
    (executed : execute (splitStep shahash servernum) start [.begin_ getattr, .makeChild .inPlace place] = some state)
    (opened : state.thread ≠ .ended) : ∃ cindex, EntersLoop pindex cindex state := by
  obtain ⟨middle, first, executed⟩ := Option.bind_eq_some_iff.mp executed
  obtain ⟨last, second, ⟨⟩⟩ := Option.bind_eq_some_iff.mp executed
  cases begin_move first with
  | decline => cases second
  | answer request => cases request
  | bind _ binds => cases binds
  | begin_ thread unread chosen parent =>
    cases thread.symm.trans begun
    have different := ne_of_gigaIndexForSplitting chosen
    cases makeChild_move second with
    | mkdirFails => exact absurd rfl opened
    | answer request => cases request
    | bind _ binds => cases binds
    | makeInPlace making absent =>
      cases making
      refine ⟨_, rfl, unread, ?_, ?_, different⟩
      · rw [Store.bucket_put, if_neg different]
        exact parent
      · rw [Store.bucket_put, if_pos rfl]

section
variable {shahash : FileName → Digest} {servernum : Nat} {succeeds : FileName → Bool} {position : FileName → Nat}
  {state : SplitState} {pindex cindex token moved outcount : Nat} {held : Bool} {name : FileName} {rest : List FileName}

theorem loopStep_scanning (thread : state.thread = .scanning pindex cindex token moved held)
    (unread : state.unread = true) (parent : (state.store.bucket pindex).isSome) :
    loopStep shahash servernum succeeds position state =
      some { state with
        thread := match sysReaddir (state.store.names pindex) token moveIncount with
          | [] => afterPass pindex cindex moved true
          | page => .batch pindex cindex token moved page.length page } := by
  have ready : (held || state.unread) = true := by simp [unread]
  rw [loopStep, thread, loopEvent, Option.bind_some, splitStep_readdir shahash servernum state thread parent]
  simp only [splitCall, thread, ready, if_true]
  cases sysReaddir (state.store.names pindex) token moveIncount <;> rfl

def attempt (succeeds : FileName → Bool) (position : FileName → Nat) (pindex cindex : Nat) (name : FileName)
    (store : Store) : Store :=
  if succeeds name then (sysRename (position name) store (.bucket pindex name) cindex name).toOption.getD store
  else store

theorem loopStep_stays (thread : state.thread = .batch pindex cindex token moved outcount (name :: rest))
    (status : gigaFileMigrationStatus shahash name cindex = some false) :
    loopStep shahash servernum succeeds position state =
      some { state with thread := .batch pindex cindex token moved outcount rest } := by
  simp [loopStep, thread, loopEvent, splitStep, status]

theorem loopStep_migrates (thread : state.thread = .batch pindex cindex token moved outcount (name :: rest))
    (status : gigaFileMigrationStatus shahash name cindex = some true) :
    loopStep shahash servernum succeeds position state =
      some { state with
        store := attempt succeeds position pindex cindex name state.store
        thread := .batch pindex cindex token (moved + 1) outcount rest } := by
  simp [loopStep, thread, loopEvent, splitStep, status, attempt]

theorem loopStep_aborts (thread : state.thread = .batch pindex cindex token moved outcount (name :: rest))
    (status : gigaFileMigrationStatus shahash name cindex = none) :
    loopStep shahash servernum succeeds position state = none := by
  simp [loopStep, thread, loopEvent, splitStep, status]

theorem loopStep_endBatch (thread : state.thread = .batch pindex cindex token moved outcount []) :
    loopStep shahash servernum succeeds position state =
      some { state with
        thread := if outcount = moveIncount then .scanning pindex cindex (nextToken token outcount) moved false
          else afterPass pindex cindex moved false } := by
  simp only [loopStep, thread, loopEvent, splitStep, Option.bind_some]
  split <;> rfl

theorem loopStep_left (thread : state.thread = .finishing pindex cindex held) :
    loopStep shahash servernum succeeds position state = none := by
  simp [loopStep, thread, loopEvent]

end

/-! ### When all migrating entries can be renamed -/

/-- Both buckets exist, and no name is in both. -/
structure Apart (pindex cindex : Nat) (store : Store) : Prop where
  parent : (store.bucket pindex).isSome
  child : (store.bucket cindex).isSome
  distinct : ∀ name, (store.find pindex name).isSome → store.find cindex name = none

section
variable {succeeds : FileName → Bool} {position : FileName → Nat} {pindex cindex : Nat} {store : Store} {name : FileName}

theorem Apart.attempt (apart : Apart pindex cindex store) (member : name ∈ store.names pindex)
    (success : succeeds name = true) : ∃ object, Server.attempt succeeds position pindex cindex name store =
      (store.unbind pindex name).bind (position name) cindex name object := by
  obtain ⟨object, found⟩ := Option.isSome_iff_exists.mp (Store.mem_names.mp member)
  have fresh : store.find cindex name = none := apart.distinct name (Store.mem_names.mp member)
  have source : (Source.bucket pindex name).object store = some object := found
  refine ⟨object, ?_⟩
  rw [Server.attempt, if_pos success, sysRename_fresh source apart.child fresh]
  rfl

theorem Apart.moved (apart : Apart pindex cindex store) (different : pindex ≠ cindex) {place : Nat} {object : Object} :
    Apart pindex cindex ((store.unbind pindex name).bind place cindex name object) := by
  have keys : ((store.unbind pindex name).bind place cindex name object).keys = store.keys :=
    Store.keys_bind.trans Store.keys_unbind
  constructor
  · rw [Store.bucket_isSome, keys, ← Store.bucket_isSome]
    exact apart.parent
  · rw [Store.bucket_isSome, keys, ← Store.bucket_isSome]
    exact apart.child
  · intro other held
    by_cases same : other = name
    · subst same
      rw [find_moved apart.child, if_neg different, if_pos rfl] at held
      cases held
    · rw [find_moved_of_ne (Ne.symm same)] at held ⊢
      exact apart.distinct other held

theorem names_moved (different : pindex ≠ cindex) {place : Nat} {object : Object} :
    ((store.unbind pindex name).bind place cindex name object).names pindex =
      (store.names pindex).filter (· ≠ name) := by
  rw [Store.names_bind_of_ne different, Store.names_unbind]

end

section
variable (shahash : FileName → Digest) (succeeds : FileName → Bool) (pindex cindex limit : Nat)

def unmoved (store : Store) : Nat :=
  (store.names pindex).countP fun name => gigaFileMigrationStatus shahash name cindex = some true

/-- Where the thread stands in the loop. A page was read when the bucket reached beyond its first place. -/
inductive InLoop (store : Store) : Thread → Prop where
  | scanning {token moved : Nat} {held : Bool} : InLoop store (.scanning pindex cindex token moved held)
  | batch {token moved outcount : Nat} {rest : List FileName} : pageStart token < limit → rest.Nodup →
      (∀ name ∈ rest, name ∈ store.names pindex) → rest.length ≤ moveIncount →
      InLoop store (.batch pindex cindex token moved outcount rest)
  | left {held : Bool} : InLoop store (.finishing pindex cindex held)

structure Moving (state : SplitState) : Prop where
  unread : state.unread = true
  apart : Apart pindex cindex state.store
  succeed : RenamesSucceed shahash succeeds pindex cindex state.store
  short : (state.store.names pindex).length ≤ limit
  place : InLoop pindex cindex limit state.store state.thread

/-- A move pays for the pass that follows it; within a pass the position grows, and within a page the names run out. -/
def loopMeasure (state : SplitState) : ℕ ×ₗ ℕ ×ₗ ℕ :=
  let unmoved := unmoved shahash pindex cindex state.store
  match state.thread with
  | .scanning _ _ token moved _ => toLex (2 * unmoved + min moved 1, toLex (limit - pageStart token, moveIncount + 2))
  | .batch _ _ token moved _ rest => toLex (2 * unmoved + min moved 1, toLex (limit - pageStart token, rest.length + 1))
  | _ => toLex (0, toLex (0, 0))

variable {shahash succeeds pindex cindex limit}

theorem inLoop_afterPass {store : Store} {moved : Nat} {held : Bool} :
    InLoop pindex cindex limit store (afterPass pindex cindex moved held) := by
  unfold afterPass
  split
  · exact .scanning
  · exact .left

theorem loopMeasure_afterPass {state : SplitState} {moved first second third : Nat} {held : Bool}
    (thread : state.thread = afterPass pindex cindex moved held)
    (same : first = 2 * unmoved shahash pindex cindex state.store + min moved 1) (positive : 0 < third) :
    loopMeasure shahash pindex cindex limit state < toLex (first, toLex (second, third)) := by
  unfold afterPass at thread
  split at thread
  · simp only [loopMeasure, thread, Prod.Lex.toLex_lt_toLex]
    omega
  · simp only [loopMeasure, thread, Prod.Lex.toLex_lt_toLex]
    omega

theorem unmoved_moved {store : Store} {name : FileName} (member : name ∈ store.names pindex)
    (different : pindex ≠ cindex) (migrates : gigaFileMigrationStatus shahash name cindex = some true) {place : Nat}
    {object : Object} :
    unmoved shahash pindex cindex ((store.unbind pindex name).bind place cindex name object) <
      unmoved shahash pindex cindex store := by
  rw [unmoved, unmoved, names_moved different, List.countP_eq_length_filter, List.countP_eq_length_filter]
  have fewer := (List.filter_sublist (p := (· ≠ name)) (l := store.names pindex)).filter
    fun name => gigaFileMigrationStatus shahash name cindex = some true
  refine lt_of_le_of_ne fewer.length_le fun same => ?_
  have counted : name ∈ (store.names pindex).filter fun name => gigaFileMigrationStatus shahash name cindex = some true :=
    List.mem_filter.mpr ⟨member, by simp [migrates]⟩
  rw [← fewer.eq_of_length same] at counted
  simp at counted

theorem inLoop_page {store : Store} {token moved : Nat} (short : (store.names pindex).length ≤ limit)
    (some_ : sysReaddir (store.names pindex) token moveIncount ≠ []) :
    InLoop pindex cindex limit store (.batch pindex cindex token moved
      (sysReaddir (store.names pindex) token moveIncount).length (sysReaddir (store.names pindex) token moveIncount)) := by
  -- A page that is not empty begins inside the bucket and lists it in order.
  have listed : (sysReaddir (store.names pindex) token moveIncount).Sublist (store.names pindex) :=
    (List.take_sublist _ _).trans (List.drop_sublist _ _)
  have inside : pageStart token < (store.names pindex).length := by
    by_contra beyond
    exact some_ (by simp [sysReaddir, List.drop_eq_nil_of_le (Nat.le_of_not_lt beyond)])
  exact .batch (inside.trans_le short) (listed.nodup Store.nodup_names) (fun _ member => listed.subset member)
    (List.length_take_le _ _)

variable {servernum : Nat} {position : FileName → Nat} {state after : SplitState}

theorem Moving.read {token moved : Nat} {held : Bool} (moving : Moving shahash succeeds pindex cindex limit state)
    (thread : state.thread = .scanning pindex cindex token moved held)
    (stepped : loopStep shahash servernum succeeds position state = some after) :
    Moving shahash succeeds pindex cindex limit after ∧
      loopMeasure shahash pindex cindex limit after < loopMeasure shahash pindex cindex limit state := by
  rw [loopStep_scanning thread moving.unread moving.apart.parent] at stepped
  cases stepped
  have before : loopMeasure shahash pindex cindex limit state = toLex (2 * unmoved shahash pindex cindex state.store +
      min moved 1, toLex (limit - pageStart token, moveIncount + 2)) := by rw [loopMeasure, thread]
  rw [before]
  cases page : sysReaddir (state.store.names pindex) token moveIncount with
  | nil => exact ⟨{ moving with place := inLoop_afterPass }, loopMeasure_afterPass rfl rfl (by simp)⟩
  | cons name rest =>
    have place : InLoop pindex cindex limit state.store
        (.batch pindex cindex token moved (name :: rest).length (name :: rest)) := by
      have nonempty : sysReaddir (state.store.names pindex) token moveIncount ≠ [] := by simp [page]
      rw [← page]
      exact inLoop_page moving.short nonempty
    refine ⟨{ moving with place }, ?_⟩
    cases place with
    | batch inside distinct listed few =>
      simp only [loopMeasure, Prod.Lex.toLex_lt_toLex, true_and]
      omega

theorem Moving.next {token moved outcount : Nat} {name : FileName} {rest : List FileName}
    (moving : Moving shahash succeeds pindex cindex limit state) (different : pindex ≠ cindex)
    (thread : state.thread = .batch pindex cindex token moved outcount (name :: rest))
    (stepped : loopStep shahash servernum succeeds position state = some after) :
    Moving shahash succeeds pindex cindex limit after ∧
      loopMeasure shahash pindex cindex limit after < loopMeasure shahash pindex cindex limit state := by
  have place := moving.place
  rw [thread] at place
  cases place with
  | batch inside distinct listed few =>
  obtain ⟨outside, distinct⟩ := List.nodup_cons.mp distinct
  have fewer : rest.length ≤ moveIncount := by
    simp only [List.length_cons] at few
    omega
  cases status : gigaFileMigrationStatus shahash name cindex with
  | none =>
    rw [loopStep_aborts thread status] at stepped
    cases stepped
  | some migrates =>
    cases migrates with
    | false =>
      rw [loopStep_stays thread status] at stepped
      cases stepped
      have kept : ∀ other ∈ rest, other ∈ state.store.names pindex := fun other member =>
        listed other (List.mem_cons_of_mem name member)
      refine ⟨{ moving with place := .batch inside distinct kept fewer }, ?_⟩
      simp only [loopMeasure, thread, Prod.Lex.toLex_lt_toLex, true_and, List.length_cons]
      omega
    | true =>
      have member : name ∈ state.store.names pindex := listed name List.mem_cons_self
      obtain ⟨object, attempted⟩ := moving.apart.attempt member (moving.succeed name member status)
      rw [loopStep_migrates thread status, attempted] at stepped
      cases stepped
      have names := @names_moved pindex cindex state.store name different (position name) object
      have less := @unmoved_moved shahash pindex cindex state.store name member different status (position name) object
      refine ⟨⟨moving.unread, moving.apart.moved different, ?_, ?_, .batch inside distinct ?_ fewer⟩, ?_⟩
      · intro other left
        rw [names] at left
        exact moving.succeed other (List.mem_of_mem_filter left)
      · rw [names]
        exact (List.length_filter_le _ _).trans moving.short
      · intro other later
        rw [names, List.mem_filter]
        exact ⟨listed other (List.mem_cons_of_mem name later), decide_eq_true fun same => outside (same ▸ later)⟩
      · simp only [loopMeasure, thread, Prod.Lex.toLex_lt_toLex]
        omega

theorem Moving.turn {token moved outcount : Nat} (moving : Moving shahash succeeds pindex cindex limit state)
    (thread : state.thread = .batch pindex cindex token moved outcount [])
    (stepped : loopStep shahash servernum succeeds position state = some after) :
    Moving shahash succeeds pindex cindex limit after ∧
      loopMeasure shahash pindex cindex limit after < loopMeasure shahash pindex cindex limit state := by
  have place := moving.place
  rw [thread] at place
  cases place with
  | batch inside =>
  rw [loopStep_endBatch thread] at stepped
  cases stepped
  have before : loopMeasure shahash pindex cindex limit state = toLex (2 * unmoved shahash pindex cindex state.store +
      min moved 1, toLex (limit - pageStart token, 1)) := by rw [loopMeasure, thread]; rfl
  rw [before]
  by_cases full : outcount = moveIncount
  · subst full
    have further : pageStart (nextToken token moveIncount) = pageStart token + moveIncount :=
      pageStart_nextToken (by decide)
    have positive : 0 < moveIncount := by decide
    refine ⟨{ moving with place := by rw [if_pos rfl]; exact .scanning }, ?_⟩
    simp only [loopMeasure, if_true, Prod.Lex.toLex_lt_toLex, true_and, further]
    omega
  · refine ⟨{ moving with place := by rw [if_neg full]; exact inLoop_afterPass }, ?_⟩
    exact loopMeasure_afterPass (if_neg full) rfl (by simp)

/-- Every step of the loop decreases the measure. -/
theorem Moving.step (different : pindex ≠ cindex) (moving : Moving shahash succeeds pindex cindex limit state)
    (stepped : loopStep shahash servernum succeeds position state = some after) :
    Moving shahash succeeds pindex cindex limit after ∧
      loopMeasure shahash pindex cindex limit after < loopMeasure shahash pindex cindex limit state := by
  have place := moving.place
  generalize thread : state.thread = there at place
  cases place with
  | scanning => exact moving.read thread stepped
  | @batch token moved outcount rest =>
    cases rest with
    | nil => exact moving.turn thread stepped
    | cons name rest => exact moving.next different thread stepped
  | left =>
    rw [loopStep_left thread] at stepped
    cases stepped

/-- Only a failed assertion stops the loop in the middle. -/
theorem Moving.left_of_stops (moving : Moving shahash succeeds pindex cindex limit state)
    (bounded : getRadixFromIndex cindex < maxRadix)
    (stops : loopStep shahash servernum succeeds position state = none) :
    ∃ held, state.thread = .finishing pindex cindex held := by
  have place := moving.place
  generalize thread : state.thread = there at place
  cases place with
  | scanning => cases (loopStep_scanning thread moving.unread moving.apart.parent).symm.trans stops
  | @batch token moved outcount rest =>
    cases rest with
    | nil => cases (loopStep_endBatch thread).symm.trans stops
    | cons name rest =>
      obtain ⟨migrates, status⟩ := Option.isSome_iff_exists.mp ((gigaFileMigrationStatus_isSome shahash).mpr bounded)
      cases migrates with
      | false => cases (loopStep_stays thread status).symm.trans stops
      | true => cases (loopStep_migrates thread status).symm.trans stops
  | left => exact ⟨_, rfl⟩

end

/-! ### When a migrating entry cannot be renamed -/

section
variable (shahash : FileName → Digest) (succeeds : FileName → Bool) (pindex cindex : Nat)

/-- A pass that has counted no move has read a first part of the bucket, and nothing in it migrates. -/
inductive Quiet (names : List FileName) : Thread → Prop where
  | scanning {token moved : Nat} {held : Bool} :
      (moved = 0 → ∀ name ∈ names.take (pageStart token), gigaFileMigrationStatus shahash name cindex ≠ some true) →
      Quiet names (.scanning pindex cindex token moved held)
  | batch {token moved outcount : Nat} {rest : List FileName} :
      (moved = 0 → outcount = moveIncount ∨ names.length ≤ pageStart token + outcount) →
      (moved = 0 → ∃ read, read ++ rest = names.take (pageStart token + outcount) ∧
        ∀ name ∈ read, gigaFileMigrationStatus shahash name cindex ≠ some true) →
      Quiet names (.batch pindex cindex token moved outcount rest)

structure Endless (stuck : FileName) (state : SplitState) : Prop where
  unread : state.unread = true
  parent : (state.store.bucket pindex).isSome
  waits : stuck ∈ state.store.names pindex
  place : Quiet shahash pindex cindex (state.store.names pindex) state.thread

variable {shahash succeeds pindex cindex}

theorem quiet_afterPass {names : List FileName} {moved : Nat} {held : Bool} (counted : moved ≠ 0) :
    Quiet shahash pindex cindex names (afterPass pindex cindex moved held) := by
  rw [afterPass, if_pos (Nat.pos_of_ne_zero counted)]
  exact .scanning fun _ name member => by simp [pageStart] at member

theorem quiet_page {names : List FileName} {token moved : Nat}
    (read : moved = 0 → ∀ name ∈ names.take (pageStart token), gigaFileMigrationStatus shahash name cindex ≠ some true) :
    Quiet shahash pindex cindex names (.batch pindex cindex token moved (sysReaddir names token moveIncount).length
      (sysReaddir names token moveIncount)) := by
  refine .batch (fun _ => SplitSetting.page_length) fun quiet => ⟨names.take (pageStart token), ?_, read quiet⟩
  rw [List.take_add, sysReaddir]
  congr 1
  rw [List.length_take]
  exact List.take_eq_take_min

theorem attempt_cases (position : FileName → Nat) (name : FileName) (store : Store) :
    attempt succeeds position pindex cindex name store = store ∨ succeeds name = true ∧ ∃ object,
      attempt succeeds position pindex cindex name store =
        (store.unbind pindex name).bind (position name) cindex name object := by
  unfold attempt
  split
  case isFalse => exact .inl rfl
  case isTrue success =>
    cases renamed : sysRename (position name) store (.bucket pindex name) cindex name with
    | error errno => exact .inl rfl
    | ok changed =>
      rcases sysRename_ok renamed with same | ⟨object, _, _, _, _, same⟩
      · exact .inl same
      · exact .inr ⟨success, object, same⟩

theorem mem_names_attempt {position : FileName → Nat} {store : Store} {name stuck : FileName} (different : pindex ≠ cindex)
    (fails : succeeds stuck = false) (waits : stuck ∈ store.names pindex) :
    stuck ∈ (attempt succeeds position pindex cindex name store).names pindex := by
  rcases attempt_cases position name store with same | ⟨success, object, same⟩
  · rw [same]
    exact waits
  · have other : stuck ≠ name := by
      rintro rfl
      cases fails.symm.trans success
    rw [same, names_moved different, List.mem_filter]
    exact ⟨waits, decide_eq_true other⟩

theorem keys_attempt {position : FileName → Nat} {store : Store} {name : FileName} :
    (attempt succeeds position pindex cindex name store).keys = store.keys := by
  rcases attempt_cases position name store with same | ⟨-, object, same⟩
  · rw [same]
  · rw [same, Store.keys_bind, Store.keys_unbind]

variable {servernum : Nat} {position : FileName → Nat} {stuck : FileName} {state : SplitState}

theorem Endless.counted (endless : Endless shahash pindex cindex stuck state)
    (migrates : gigaFileMigrationStatus shahash stuck cindex = some true) {moved stop : Nat}
    (all : (state.store.names pindex).length ≤ stop)
    (read : moved = 0 → ∀ name ∈ (state.store.names pindex).take stop,
      gigaFileMigrationStatus shahash name cindex ≠ some true) : moved ≠ 0 := by
  -- A pass that has read the whole bucket has met the entry, and has counted its rename.
  intro quiet
  rw [List.take_of_length_le all] at read
  exact read quiet stuck endless.waits migrates

theorem Endless.read {token moved : Nat} {held : Bool} (endless : Endless shahash pindex cindex stuck state)
    (migrates : gigaFileMigrationStatus shahash stuck cindex = some true)
    (thread : state.thread = .scanning pindex cindex token moved held) :
    ∃ after, loopStep shahash servernum succeeds position state = some after ∧
      Endless shahash pindex cindex stuck after := by
  refine ⟨_, loopStep_scanning thread endless.unread endless.parent, { endless with place := ?_ }⟩
  have place := endless.place
  rw [thread] at place
  cases place with
  | scanning read =>
    cases page : sysReaddir (state.store.names pindex) token moveIncount with
    | nil =>
      have short := @SplitSetting.page_length (state.store.names pindex) token
      simp only [page, List.length_nil, Nat.add_zero] at short
      exact quiet_afterPass (endless.counted migrates (short.resolve_left (by decide)) read)
    | cons name rest =>
      dsimp only
      rw [← page]
      exact quiet_page read

theorem Endless.turn {token moved outcount : Nat} (endless : Endless shahash pindex cindex stuck state)
    (migrates : gigaFileMigrationStatus shahash stuck cindex = some true)
    (thread : state.thread = .batch pindex cindex token moved outcount []) :
    ∃ after, loopStep shahash servernum succeeds position state = some after ∧
      Endless shahash pindex cindex stuck after := by
  refine ⟨_, loopStep_endBatch thread, { endless with place := ?_ }⟩
  have place := endless.place
  rw [thread] at place
  cases place with
  | batch whole read =>
    have quiet : moved = 0 → ∀ name ∈ (state.store.names pindex).take (pageStart token + outcount),
        gigaFileMigrationStatus shahash name cindex ≠ some true := by
      intro none_moved
      obtain ⟨names, same, stay⟩ := read none_moved
      rw [← same, List.append_nil]
      exact stay
    by_cases full : outcount = moveIncount
    · subst full
      rw [if_pos rfl]
      refine .scanning ?_
      rw [pageStart_nextToken (by decide)]
      exact quiet
    · rw [if_neg full]
      refine quiet_afterPass fun none_moved => ?_
      exact endless.counted migrates ((whole none_moved).resolve_left full) quiet none_moved

theorem Endless.next {token moved outcount : Nat} {name : FileName} {rest : List FileName}
    (endless : Endless shahash pindex cindex stuck state) (different : pindex ≠ cindex)
    (migrates : gigaFileMigrationStatus shahash stuck cindex = some true) (fails : succeeds stuck = false)
    (thread : state.thread = .batch pindex cindex token moved outcount (name :: rest)) :
    ∃ after, loopStep shahash servernum succeeds position state = some after ∧
      Endless shahash pindex cindex stuck after := by
  have tested : (gigaFileMigrationStatus shahash name cindex).isSome := by
    rw [gigaFileMigrationStatus_isSome, ← @gigaFileMigrationStatus_isSome _ shahash stuck, migrates]
    rfl
  obtain ⟨answer, status⟩ := Option.isSome_iff_exists.mp tested
  have place := endless.place
  rw [thread] at place
  cases place with
  | batch whole read =>
    cases answer with
    | false =>
      refine ⟨_, loopStep_stays thread status, { endless with place := .batch whole fun none_moved => ?_ }⟩
      obtain ⟨names, same, stay⟩ := read none_moved
      refine ⟨names ++ [name], by simp [same], fun other member => ?_⟩
      rcases List.mem_append.mp member with earlier | now
      · exact stay other earlier
      · rw [List.mem_singleton.mp now, status]
        simp
    | true =>
      have kept : ((attempt succeeds position pindex cindex name state.store).bucket pindex).isSome := by
        rw [Store.bucket_isSome, keys_attempt, ← Store.bucket_isSome]
        exact endless.parent
      refine ⟨_, loopStep_migrates thread status, endless.unread, kept, ?_, .batch (by simp) (by simp)⟩
      exact mem_names_attempt different fails endless.waits

/-- The loop always has a next step. -/
theorem Endless.step (different : pindex ≠ cindex) (migrates : gigaFileMigrationStatus shahash stuck cindex = some true)
    (fails : succeeds stuck = false) (endless : Endless shahash pindex cindex stuck state) :
    ∃ after, loopStep shahash servernum succeeds position state = some after ∧
      Endless shahash pindex cindex stuck after := by
  have place := endless.place
  generalize thread : state.thread = there at place
  cases place with
  | scanning => exact endless.read migrates thread
  | @batch token moved outcount rest =>
    cases rest with
    | nil => exact endless.turn migrates thread
    | cons name rest => exact endless.next different migrates fails thread

end

/-! ### The loop -/

section
variable {shahash : FileName → Digest} {servernum : Nat} {succeeds : FileName → Bool} {position : FileName → Nat}
  {pindex cindex : Nat} {state : SplitState}

theorem EntersLoop.moving (enters : EntersLoop pindex cindex state)
    (succeed : RenamesSucceed shahash succeeds pindex cindex state.store) :
    Moving shahash succeeds pindex cindex (state.store.names pindex).length state where
  unread := enters.unread
  apart := {
    parent := enters.parent
    child := by rw [enters.child]; rfl
    distinct := fun name _ => by rw [Store.find, enters.child]; rfl }
  succeed := succeed
  short := le_rfl
  place := by
    rw [enters.thread]
    exact .scanning

theorem EntersLoop.endless (enters : EntersLoop pindex cindex state) {stuck : FileName}
    (waits : stuck ∈ state.store.names pindex) : Endless shahash pindex cindex stuck state where
  unread := enters.unread
  parent := enters.parent
  waits := waits
  place := by
    rw [enters.thread]
    exact .scanning fun _ name member => by simp [pageStart] at member

/-- The move loop comes to an end if and only if every entry that migrates can be renamed. It then leaves the loop,
unless the migration test fails its assertion. -/
theorem move_loop_ends (enters : EntersLoop pindex cindex state) :
    (Halts (loopStep shahash servernum succeeds position) state ↔
      RenamesSucceed shahash succeeds pindex cindex state.store) ∧
    (getRadixFromIndex cindex < maxRadix → RenamesSucceed shahash succeeds pindex cindex state.store →
      ∃ count last held, advance (loopStep shahash servernum succeeds position) count state = some last ∧
        last.thread = .finishing pindex cindex held) := by
  have ends (succeed : RenamesSucceed shahash succeeds pindex cindex state.store) : ∃ count last,
      advance (loopStep shahash servernum succeeds position) count state = some last ∧
        loopStep shahash servernum succeeds position last = none ∧
        Moving shahash succeeds pindex cindex (state.store.names pindex).length last :=
    halts_of_decreasing (loopMeasure shahash pindex cindex (state.store.names pindex).length)
      (fun _ _ moving stepped => moving.step enters.different stepped) (enters.moving succeed)
  refine ⟨⟨fun halts name member migrates => ?_, fun succeed => ?_⟩, fun bounded succeed => ?_⟩
  · by_contra fails
    exact not_halts_of_progress (fun _ endless => endless.step enters.different migrates (by simpa using fails))
      (enters.endless member) halts
  · obtain ⟨count, last, advanced, stops, _⟩ := ends succeed
    exact ⟨count, last, advanced, stops⟩
  · obtain ⟨count, last, advanced, stops, moving⟩ := ends succeed
    obtain ⟨held, left⟩ := moving.left_of_stops bounded stops
    exact ⟨count, last, held, advanced, left⟩

end

/-- The state of a split of a bucket with the one file `a`, after the child's bucket is made. -/
def lonelyLoop : SplitState :=
  { lonelyStart with
    store := Listing.put 1 (bucketName 1) ∅ lonelyStart.store
    dir := { lonelyStart.dir with splittingIndex := some 0 }
    thread := .scanning 0 1 0 0 false }

theorem enters_lonelyLoop : EntersLoop 0 1 lonelyLoop where
  thread := rfl
  unread := rfl
  parent := by decide +kernel
  child := by
    rw [lonelyLoop, Store.bucket_put, if_pos rfl]
  different := by decide

theorem names_lonelyLoop : lonelyLoop.store.names 0 = [['a']] := by decide +kernel

/-- The file migrates and can be renamed. -/
theorem lonely_loop_ends : ∃ count last held,
    advance (loopStep allMigrate 0 (fun _ => true) fun _ => 0) count lonelyLoop = some last ∧
      last.thread = .finishing 0 1 held :=
  (move_loop_ends enters_lonelyLoop).2 (by decide) fun _ _ _ => rfl

/-- The file migrates and cannot be renamed, and the loop goes on for ever. -/
theorem unmovable_file_loops : ¬ Halts (loopStep allMigrate 0 (fun _ => false) fun _ => 0) lonelyLoop := by
  have waits : ['a'] ∈ lonelyLoop.store.names 0 := by rw [names_lonelyLoop]; exact List.mem_singleton_self _
  have migrates : gigaFileMigrationStatus allMigrate ['a'] 1 = some true := by decide +kernel
  exact not_halts_of_progress (fun _ endless => Endless.step (by decide) migrates rfl endless)
    (enters_lonelyLoop.endless waits)

end SkyeFS.Server
