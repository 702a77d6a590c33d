import SkyeFS.Server.SplitServed

/-! What the page-wise move leaves behind.

A pass reads the parent's bucket page by page at growing positions and gives up the
lock in between. If a pass moves nothing, the thread takes the bucket for clean. The
places it has read then hold no migrating name, unless somebody takes an entry out of
them and so pulls an unread migrating name into a place that is not read again.
-/

set_option autoImplicit false

namespace SkyeFS.Server

open Index Pvfs Foundation Foundation.SuffixTree

namespace SplitSetting

variable {servernum : Nat} (setting : SplitSetting servernum) (shahash : FileName → Digest)

/-- How many places a pass has read that has moved nothing so far and will move nothing of its
current page. -/
def quietEnd : Thread → Option Nat
  | .scanning _ _ token moved _ => if moved = 0 then some (pageStart token) else none
  | .batch _ _ token moved outcount rest =>
      if moved = 0 ∧ ∀ name ∈ rest, ¬ setting.Migrates shahash name then some (pageStart token + outcount) else none
  | _ => none

/-- The name is in the places read by a quiet pass, and the next entry, which moves into them when the
name is taken out, migrates. -/
def Shifts (state : SplitState) (name : FileName) : Prop :=
  ∃ stop next, setting.quietEnd shahash state.thread = some stop ∧
    name ∈ (state.store.names setting.pindex).take stop ∧
    (state.store.names setting.pindex)[stop]? = some next ∧ setting.Migrates shahash next

/-- The event does not shift a quiet pass. -/
def Steady (state : SplitState) (event : SplitEvent) : Prop :=
  ∀ name, Takes shahash servernum state event setting.pindex name → ¬ setting.Shifts shahash state name

def Passed (state : SplitState) : Prop :=
  match state.thread with
  | .finishing _ _ _ | .announcing _ _ => True
  | .ended => setting.Opened state.dir
  | _ => False

structure Scan (state : SplitState) : Prop where
  read : ∀ stop, setting.quietEnd shahash state.thread = some stop →
    ∀ name ∈ (state.store.names setting.pindex).take stop, ¬ setting.Migrates shahash name
  page : ∀ pindex cindex token moved outcount rest, state.thread = .batch pindex cindex token moved outcount rest →
    outcount = moveIncount ∨ (state.store.names setting.pindex).length ≤ pageStart token + outcount
  clean : setting.Passed state → ∀ name, (state.store.find setting.pindex name).isSome →
    ¬ setting.Migrates shahash name

variable {setting shahash}

theorem steady_of_thread {state : SplitState} {event : SplitEvent} (own : event.ofThread = true) :
    setting.Steady shahash state event :=
  fun _ takes => absurd takes (not_takes_of_thread own)

theorem read_unbind {state : SplitState} {index : Nat} {name : FileName} {stop : Nat}
    (scan : setting.Scan shahash state)
    (spares : setting.pindex = index → (state.store.find index name).isSome → ¬ setting.Shifts shahash state name)
    (quiet : setting.quietEnd shahash state.thread = some stop) :
    ∀ entry ∈ ((state.store.unbind index name).names setting.pindex).take stop,
      ¬ setting.Migrates shahash entry := by
  -- Taking entries out of the read places of a quiet pass leaves them clean if nothing is shifted.
  intro entry member migrates
  rcases Store.mem_take_unbind member with kept | ⟨rfl, removed, next⟩
  · exact scan.read stop quiet entry kept migrates
  · exact spares rfl (Store.mem_names.mp (List.mem_of_mem_take removed)) ⟨stop, entry, quiet, removed, next, migrates⟩

theorem read_clear {state : SplitState} {source : Source} {stop : Nat} (scan : setting.Scan shahash state)
    (spares : ∀ name, source = .bucket setting.pindex name → ¬ setting.Shifts shahash state name)
    (quiet : setting.quietEnd shahash state.thread = some stop) :
    ∀ entry ∈ ((source.clear state.store).names setting.pindex).take stop, ¬ setting.Migrates shahash entry := by
  cases source with
  | bucket index entry => exact read_unbind scan (fun same _ => spares entry (by rw [same])) quiet
  | elsewhere object => exact scan.read stop quiet

theorem scan_restart {state : SplitState} {pindex cindex : Nat} {held : Bool}
    (thread : state.thread = .scanning pindex cindex 0 0 held) : setting.Scan shahash state where
  read stop quiet name member := by
    rw [thread] at quiet
    cases quiet
    cases member
  page _ _ _ _ _ _ batch := nomatch thread.symm.trans batch
  clean passed := by
    rw [Passed, thread] at passed
    exact passed.elim

theorem scan_idle {state : SplitState} (idle : setting.quietEnd shahash state.thread = none)
    (unread : ∀ pindex cindex token moved outcount rest,
      state.thread ≠ .batch pindex cindex token moved outcount rest)
    (clean : setting.Passed state → ∀ name, (state.store.find setting.pindex name).isSome →
      ¬ setting.Migrates shahash name) : setting.Scan shahash state where
  read stop quiet := by
    rw [idle] at quiet
    cases quiet
  page _ _ _ _ _ _ batch := absurd batch (unread _ _ _ _ _ _)
  clean := clean

theorem scan_failed {state : SplitState} (dir : state.dir = { mapping := setting.mapping, splittingIndex := none }) :
    setting.Scan shahash { state with thread := .ended } := by
  refine scan_idle rfl nofun fun passed => ?_
  exact absurd (dir ▸ passed) setting.not_opened

theorem ready_scan {state : SplitState} (ready : setting.Ready shahash state) : setting.Scan shahash state := by
  refine scan_idle ?_ ?_ fun passed => ?_
  · rw [ready.thread]
    rfl
  · intro _ _ _ _ _ _ batch
    exact nomatch ready.thread.symm.trans batch
  · rw [Passed, ready.thread] at passed
    exact passed.elim

theorem scan_afterPass {state : SplitState} {moved stop : Nat} {held : Bool}
    (thread : state.thread = afterPass setting.pindex setting.cindex moved held)
    (all : (state.store.names setting.pindex).length ≤ stop)
    (read : moved = 0 → ∀ name ∈ (state.store.names setting.pindex).take stop, ¬ setting.Migrates shahash name) :
    setting.Scan shahash state := by
  -- The end of a pass: it starts over, or has read every place of the bucket quietly.
  unfold afterPass at thread
  split at thread
  · exact scan_restart thread
  · rename_i nothing
    refine scan_idle ?_ ?_ fun _ name held => ?_
    · rw [thread]
      rfl
    · intro _ _ _ _ _ _ batch
      exact nomatch thread.symm.trans batch
    · refine read (by omega) name ?_
      rw [List.take_of_length_le all]
      exact Store.mem_names.mpr held

theorem read_page {state : SplitState} {pindex cindex token moved stop : Nat} {held : Bool}
    (scan : setting.Scan shahash state) (thread : state.thread = .scanning pindex cindex token moved held)
    (quiet : setting.quietEnd shahash (.batch pindex cindex token moved
      (sysReaddir (state.store.names setting.pindex) token moveIncount).length
      (sysReaddir (state.store.names setting.pindex) token moveIncount)) = some stop) :
    ∀ name ∈ (state.store.names setting.pindex).take stop, ¬ setting.Migrates shahash name := by
  simp only [quietEnd] at quiet
  split at quiet
  · rename_i still
    cases quiet
    intro name member
    rw [List.take_add, List.mem_append] at member
    rcases member with before | page
    · refine scan.read (pageStart token) ?_ name before
      rw [thread, quietEnd, if_pos still.1]
    · -- The names of the page are those that the batch still has to look at.
      refine still.2 name ?_
      unfold sysReaddir at page ⊢
      rw [List.length_take] at page
      exact List.take_subset_take_left _ (min_le_left _ _) page
  · cases quiet

theorem page_length {listing : List FileName} {token : Nat} :
    (sysReaddir listing token moveIncount).length = moveIncount ∨
      listing.length ≤ pageStart token + (sysReaddir listing token moveIncount).length := by
  unfold sysReaddir
  rw [List.length_take, List.length_drop]
  omega

theorem opened_of_quiet {state : SplitState} {stop : Nat} (sound : setting.Sound shahash state)
    (quiet : setting.quietEnd shahash state.thread = some stop) : setting.Opened state.dir := by
  have working : state.thread.working = true := by
    cases thread : state.thread <;> first | rfl | simp [thread, quietEnd] at quiet
  rw [(sound.phase.of_working rfl working).1]
  exact setting.opened_moving

theorem opened_of_passed {state : SplitState} (sound : setting.Sound shahash state) (passed : setting.Passed state) :
    setting.Opened state.dir := by
  unfold Passed at passed
  split at passed
  · rename_i thread
    rw [(sound.phase.of_working thread rfl).1]
    exact setting.opened_moving
  · rename_i thread
    rw [(sound.phase.of_working thread rfl).1]
    exact setting.opened_moving
  · exact passed
  · exact passed.elim

theorem Scan.bind {state : SplitState} {source : Source} {name : FileName} {index position : Nat} {object : Object}
    (scan : setting.Scan shahash state) (sound : setting.Sound shahash state)
    (spares : ∀ name, source = .bucket setting.pindex name → ¬ setting.Shifts shahash state name)
    (stays : setting.pindex = index →
      state.thread.locked = false ∧ (setting.Opened state.dir → ¬ setting.Migrates shahash name)) :
    setting.Scan shahash { state with store := (source.clear state.store).bind position index name object } := by
  -- A request that puts a name into the parent's bucket comes between two pages, and the name of an open split
  -- does not migrate.
  refine ⟨fun stop quiet entry member => ?_, ?_, fun passed entry held => ?_⟩
  · rcases Store.mem_take_bind member with ⟨same, rfl⟩ | kept
    · exact (stays same).2 (opened_of_quiet sound quiet)
    · exact read_clear scan spares quiet entry kept
  · intro pindex cindex token moved outcount rest batch
    by_cases same : setting.pindex = index
    · -- During a page the lock is held, and no request gets into the parent's bucket.
      have free := (stays same).1
      rw [show state.thread = _ from batch] at free
      cases free
    · rw [Store.names_bind_of_ne same]
      exact (scan.page pindex cindex token moved outcount rest batch).imp_right Source.length_names_clear.trans
  · rcases Store.isSome_find_bind held with ⟨same, rfl⟩ | kept
    · exact (stays same).2 (opened_of_passed sound passed)
    · exact scan.clean passed entry (source.isSome_find_clear kept)

theorem Scan.unbind {state : SplitState} {index : Nat} {name : FileName} {removals : List Removal}
    (scan : setting.Scan shahash state)
    (spares : setting.pindex = index → (state.store.find index name).isSome → ¬ setting.Shifts shahash state name) :
    setting.Scan shahash { state with store := state.store.unbind index name, removals := removals } where
  read _ quiet := read_unbind scan spares quiet
  page pindex cindex token moved outcount rest batch :=
    (scan.page pindex cindex token moved outcount rest batch).imp_right Store.length_names_unbind.trans
  clean passed entry held := scan.clean passed entry (Store.isSome_find_unbind held).1

theorem Scan.step {state after : SplitState} {event : SplitEvent} (scan : setting.Scan shahash state)
    (sound : setting.Sound shahash state) (steady : setting.Steady shahash state event)
    (move : SplitMove shahash servernum state event after) : setting.Scan shahash after := by
  cases move with
  | begin_ thread => exact scan_idle rfl nofun nofun
  | decline thread => exact scan_failed (sound.phase.of_start thread).1
  | mkdirFails thread => exact scan_failed (sound.phase.of_making (.inl thread)).1
  | removeFails thread => exact scan_failed (sound.phase.of_making (.inr thread)).1
  | makeMisplaced | dropChild => exact scan_idle rfl nofun nofun
  | makeInPlace => exact scan_restart rfl
  | readEmpty thread ready empty =>
    rename_i pindex cindex token moved held
    obtain ⟨-, rfl, rfl⟩ := sound.phase.of_working thread rfl
    -- An empty page means that the pass has got past the end of the bucket.
    have all : (state.store.names setting.pindex).length ≤ pageStart token := by
      have none_ := congrArg List.length empty
      simp only [sysReaddir, List.length_take, List.length_drop, List.length_nil, moveIncount] at none_
      omega
    refine scan_afterPass rfl all fun nothing => scan.read _ ?_
    rw [thread, quietEnd, if_pos nothing]
  | readPage thread ready =>
    obtain ⟨-, rfl, rfl⟩ := sound.phase.of_working thread rfl
    have quietly := fun stop => @read_page servernum setting shahash state _ _ _ _ stop _ scan thread
    refine ⟨quietly, ?_, nofun⟩
    intro _ _ _ _ _ _ batch
    cases batch
    exact page_length
  | skip thread status =>
    rename_i pindex cindex token moved outcount position name rest
    obtain ⟨-, rfl, rfl⟩ := sound.phase.of_working thread rfl
    rw [migrationStatus] at status
    refine ⟨fun stop quiet => scan.read stop ?_, ?_, nofun⟩
    · -- Looking at a name that stays does not change what the page will move.
      rw [thread]
      simpa [quietEnd, show ¬ setting.Migrates shahash name by simpa using status] using quiet
    · intro _ _ _ _ _ _ batch
      cases batch
      exact scan.page _ _ _ _ _ _ thread
  | moveFailed thread status =>
    refine ⟨fun stop quiet => ?_, ?_, nofun⟩
    · simp [quietEnd] at quiet
    · intro _ _ _ _ _ _ batch
      cases batch
      exact scan.page _ _ _ _ _ _ thread
  | move thread status found present =>
    obtain ⟨-, rfl, rfl⟩ := sound.phase.of_working thread rfl
    refine ⟨fun stop quiet => ?_, ?_, nofun⟩
    · simp [quietEnd] at quiet
    · intro _ _ _ _ _ _ batch
      cases batch
      refine (scan.page _ _ _ _ _ _ thread).imp_right fun all => ?_
      rw [Store.names_bind_of_ne setting.cindex_ne_pindex.symm]
      exact Store.length_names_unbind.trans all
  | nextPage thread =>
    rename_i pindex cindex token moved
    refine ⟨fun stop quiet => scan.read stop ?_, nofun, nofun⟩
    rw [thread]
    simpa [quietEnd, pageStart_nextToken (show 1 < moveIncount by decide)] using quiet
  | endPass thread partial_ =>
    rename_i pindex cindex token moved outcount
    obtain ⟨-, rfl, rfl⟩ := sound.phase.of_working thread rfl
    -- A page that is not full reaches the end of the bucket.
    have all := (scan.page _ _ _ _ _ _ thread).resolve_left partial_
    refine scan_afterPass rfl all fun nothing => scan.read _ ?_
    rw [thread]
    simp [quietEnd, nothing]
  | lockAgain thread | finish thread =>
    exact scan_idle rfl nofun fun _ => scan.clean (by rw [Passed, thread]; trivial)
  | answer => exact scan
  | bind free binds entered found fresh moves file =>
    refine scan.bind sound ?_ ?_
    · rintro name rfl
      exact steady name (binds.takes entered moves (Option.isSome_of_eq_some found) file)
    · rintro rfl
      exact ⟨free, fun opened migrates => (sound.phase.entered entered).parent.2 ⟨opened, migrates⟩⟩
  | removeLookup | removeFailed => exact ⟨scan.read, scan.page, scan.clean⟩
  | removeEntry found gone =>
    refine scan.unbind fun same _ => steady _ ?_
    rw [same]
    exact .removeEntry found gone
  | takeAway =>
    refine scan.unbind ?_
    rintro rfl held
    exact steady _ (.takeAway held)

theorem scan_of_reaches {start state : SplitState} (ready : setting.Ready shahash start)
    (reached : Reaches (splitStep shahash servernum) (setting.Steady shahash) start state) :
    setting.Sound shahash state ∧ setting.Scan shahash state := by
  induction reached with
  | here => exact ⟨ready_sound ready, ready_scan ready⟩
  | next _ steady stepped ih =>
    have move := splitStep_move stepped
    exact ⟨ih.1.step move, ih.2.step ih.1 steady move⟩

/-- When the bit of the child is set after a run in which no quiet pass was shifted, no migrating
name is left in the parent's bucket. An entry from the start that the run leaves alone is then in
exactly one bucket, if no request of the run has duplicated its name. -/
theorem split_strands_nothing {start state after : SplitState} {events : List SplitEvent}
    (ready : setting.Ready shahash start) (executed : execute (splitStep shahash servernum) start events = some state)
    (steady : Meets (splitStep shahash servernum) (setting.Steady shahash) start events)
    (finished : splitStep shahash servernum state .finish = some after) :
    setting.cindex ∈ after.dir.mapping.partitions ∧
    (∀ name, (after.store.find setting.pindex name).isSome →
      gigaFileMigrationStatus shahash name setting.cindex = some false) ∧
    ∀ name object, start.store.find setting.pindex name = some object →
      Meets (splitStep shahash servernum)
        (fun state event => ¬ setting.DuplicatesName shahash state event name ∧
          Leaves shahash servernum state name event) start events →
      after.store.find setting.pindex name = some object ∧ after.store.find setting.cindex name = none ∨
        after.store.find setting.pindex name = none ∧ after.store.find setting.cindex name = some object := by
  obtain ⟨sound, scan⟩ := scan_of_reaches ready (Reaches.of_execute executed steady)
  have installed : setting.cindex ∈ after.dir.mapping.partitions ∧ after.store = state.store ∧
      setting.Passed state := by
    cases thread : state.thread <;> simp only [splitStep, thread, reduceCtorEq] at finished
    cases finished
    obtain ⟨-, rfl, rfl⟩ := sound.phase.of_working thread rfl
    refine ⟨?_, rfl, by rw [Passed, thread]; trivial⟩
    rw [partitions_update _ setting.inside]
    exact Finset.mem_insert_self _ _
  obtain ⟨bit, same, passed⟩ := installed
  refine ⟨bit, fun name held => ?_, fun name object found untouched => ?_⟩
  · rw [same] at held
    rw [migrationStatus]
    simpa using scan.clean passed name held
  · obtain ⟨-, once, holds⟩ := holds_of_reaches ready .here (Or.inl found) (Reaches.of_execute executed untouched)
    rw [same]
    rcases holds with inParent | inChild
    · refine Or.inl ⟨inParent, ?_⟩
      by_contra inChild
      exact once ⟨by simp [inParent], Option.isSome_iff_ne_none.mpr inChild⟩
    · refine Or.inr ⟨?_, inChild⟩
      by_contra inParent
      exact once ⟨Option.isSome_iff_ne_none.mpr inParent, by simp [inChild]⟩

end SplitSetting

section
variable {shahash : FileName → Digest} {servernum : Nat} {state : SplitState}
variable {pindex cindex token moved outcount : Nat}

theorem execute_skips {names : List FileName}
    (thread : state.thread = .batch pindex cindex token moved outcount names)
    (stays : ∀ name ∈ names, gigaFileMigrationStatus shahash name cindex = some false) :
    execute (splitStep shahash servernum) state (List.replicate names.length (.moveNext true 0)) =
      some { state with thread := .batch pindex cindex token moved outcount [] } := by
  induction names generalizing state with
  | nil =>
    rw [← thread]
    rfl
  | cons name rest ih =>
    have first : splitStep shahash servernum state (.moveNext true 0) =
        some { state with thread := .batch pindex cindex token moved outcount rest } := by
      simp [splitStep, thread, stays name]
    rw [List.length_cons, List.replicate_succ, execute, first, Option.bind_some]
    exact ih rfl fun other member => stays other (by simp [member])

def quietPage (outcount : Nat) : List SplitEvent :=
  .readdir :: List.replicate outcount (.moveNext true 0) ++ [.endBatch]

theorem execute_quietPage {names : List FileName}
    (thread : state.thread = .scanning pindex cindex token moved false) (unread : state.unread = true)
    (read : sysReaddir (state.store.names pindex) token moveIncount = names) (nonempty : names ≠ [])
    (stays : ∀ name ∈ names, gigaFileMigrationStatus shahash name cindex = some false) :
    execute (splitStep shahash servernum) state (quietPage names.length) = some { state with
      thread := if names.length = moveIncount then .scanning pindex cindex (nextToken token moveIncount) moved false
        else afterPass pindex cindex moved false } := by
  obtain ⟨bucket, found⟩ : ∃ bucket, state.store.bucket pindex = some bucket := by
    cases found : state.store.bucket pindex with
    | none => simp [Store.names, found, sysReaddir, nonempty.symm] at read
    | some bucket => exact ⟨bucket, rfl⟩
  have reads : splitStep shahash servernum state .readdir =
      some { state with thread := .batch pindex cindex token moved names.length names } := by
    rw [Store.names_of_bucket found] at read
    simp [splitStep, thread, unread, found, read, nonempty]
  rw [quietPage, List.cons_append, execute, reads, Option.bind_some, execute_append,
    execute_skips rfl stays, Option.bind_some, execute]
  by_cases full : names.length = moveIncount <;> simp [splitStep, full, execute]

theorem execute_movingPage {name : FileName} {names : List FileName} {object : Object}
    (thread : state.thread = .scanning pindex cindex token moved false) (unread : state.unread = true)
    (read : sysReaddir (state.store.names pindex) token moveIncount = name :: names)
    (full : names.length + 1 = moveIncount) (found : state.store.find pindex name = some object)
    (present : (state.store.bucket cindex).isSome) (fresh : state.store.find cindex name = none)
    (moves : gigaFileMigrationStatus shahash name cindex = some true) (apart : pindex ≠ cindex)
    (stays : ∀ name ∈ names, gigaFileMigrationStatus shahash name cindex = some false) :
    execute (splitStep shahash servernum) state (quietPage moveIncount) = some { state with
      store := (state.store.unbind pindex name).bind 0 cindex name object
      thread := .scanning pindex cindex (nextToken token moveIncount) (moved + 1) false } := by
  obtain ⟨bucket, held⟩ := Option.isSome_iff_exists.mp (Store.bucket_of_find (Option.isSome_of_eq_some found))
  have reads : splitStep shahash servernum state .readdir =
      some { state with thread := .batch pindex cindex token moved moveIncount (name :: names) } := by
    rw [Store.names_of_bucket held] at read
    simp [splitStep, thread, unread, held, read, full]
  have renamed : sysRename 0 state.store (.bucket pindex name) cindex name =
      .ok ((state.store.unbind pindex name).bind 0 cindex name object) := by
    simp [sysRename, Source.object, found, fresh, Source.clear, apart, Option.isSome_iff_ne_none.mp present]
  have first : splitStep shahash servernum
      { state with thread := .batch pindex cindex token moved moveIncount (name :: names) } (.moveNext true 0) =
      some { state with
        store := (state.store.unbind pindex name).bind 0 cindex name object
        thread := .batch pindex cindex token (moved + 1) moveIncount names } := by
    simp [splitStep, moves, renamed, Except.toOption]
  rw [quietPage, List.cons_append, execute, reads, Option.bind_some, ← full, List.replicate_succ, List.cons_append,
    execute, full, first, Option.bind_some, execute_append, execute_skips rfl stays, Option.bind_some]
  simp [execute, splitStep]

def quietPass (full last : Nat) : List SplitEvent :=
  (List.replicate full (quietPage moveIncount)).flatten ++ quietPage last

theorem execute_quietPass {full last : Nat} (thread : state.thread = .scanning pindex cindex token moved false)
    (unread : state.unread = true) (positive : 0 < last) (short : last < moveIncount)
    (length : (state.store.names pindex).length = pageStart token + full * moveIncount + last)
    (stays : ∀ name ∈ (state.store.names pindex).drop (pageStart token),
      gigaFileMigrationStatus shahash name cindex = some false) :
    execute (splitStep shahash servernum) state (quietPass full last) =
      some { state with thread := afterPass pindex cindex moved false } := by
  induction full generalizing state token with
  | zero =>
    have size : ((state.store.names pindex).drop (pageStart token)).length = last := by
      rw [List.length_drop]
      omega
    have read : sysReaddir (state.store.names pindex) token moveIncount =
        (state.store.names pindex).drop (pageStart token) := List.take_of_length_le (size ▸ short.le)
    have paged := @execute_quietPage shahash servernum _ _ _ _ _ _ thread unread read
      (List.ne_nil_of_length_pos (size ▸ positive)) stays
    rw [size, if_neg short.ne] at paged
    exact paged
  | succ full ih =>
    have size : (sysReaddir (state.store.names pindex) token moveIncount).length = moveIncount := by
      rw [sysReaddir, List.length_take, List.length_drop, length, Nat.succ_mul]
      omega
    have paged := @execute_quietPage shahash servernum _ _ _ _ _ _ thread unread rfl
      (List.ne_nil_of_length_pos (by rw [size]; decide)) fun name member => stays name (List.mem_of_mem_take member)
    rw [size, if_pos rfl] at paged
    have start : pageStart (nextToken token moveIncount) = pageStart token + moveIncount :=
      pageStart_nextToken (by decide)
    rw [quietPass, List.replicate_succ, List.flatten_cons, List.append_assoc, execute_append, paged, Option.bind_some]
    refine ih rfl unread ?_ fun name member => ?_
    · rw [start, length, Nat.succ_mul]
      omega
    · rw [start, ← List.drop_drop] at member
      exact stays name (List.mem_of_mem_drop member)

theorem execute_finish {held : Bool} (thread : state.thread = .finishing pindex cindex held)
    (unread : state.unread = true) :
    execute (splitStep shahash servernum) state [.lockAgain, .finish] = some { state with
      dir := { mapping := gigaUpdateMapping state.dir.mapping cindex, splittingIndex := none }
      thread := .ended } := by
  simp [execute, splitStep, thread, unread]

end

section
variable {shahash : FileName → Digest} {state : SplitState} {name : FileName} {handle : Nat}
  (opened : state.dir = { mapping := gigaInitMapping 0 1, splittingIndex := some 0 })
  (free : state.thread.locked = false) (idle : state.removals = [])
  (found : state.store.find 0 name = some ⟨handle, false⟩)
  (stays : gigaFileMigrationStatus shahash name 1 = some false)
include opened free idle found stays

theorem splitStep_removeLookup : splitStep shahash 0 state (.removeLookup name) =
    some { state with removals := [{ index := 0, name, isdir := false }] } := by
  have child : gigaIndexForSplitting (gigaInitMapping 0 1) 0 = some 1 := unsplit.child
  have entered : enterBucket shahash 0 state.dir state.store name = some (.ok 0) := by
    rw [opened]
    refine enterBucket_ok.mpr ⟨Store.bucket_of_find (Option.isSome_of_eq_some found), 0,
      locality_here.mpr ⟨gigaGetIndexForFile_init _ 0 1 _, unsplit.owner⟩, ?_⟩
    simp [selectBucket, child, stays]
  simp [splitStep, free, removeLookup, inBucket_entered entered, found, idle]

theorem execute_removal : execute (splitStep shahash 0) state [.removeLookup name, .removeEntry 0 false] =
    some { state with store := state.store.unbind 0 name } := by
  rw [execute, splitStep_removeLookup opened free idle found stays]
  simp [execute, splitStep, removeEntry, sysRemove, found, idle]

end

/-- The thread reads a page and finds nothing to move, a client removes the first file, and the
thread reads on behind the place that the name behind the page has moved to. -/
def shiftedScan (first : FileName) : List SplitEvent :=
  [.begin_ true, .makeChild .inPlace 1] ++ quietPage 128 ++ [.removeLookup first, .removeEntry 0 false] ++
    quietPass 30 33 ++ [.lockAgain, .finish]

theorem opened_unsplitStart {bucket : Bucket} :
    (unsplit.afterOpening 1 (unsplitStart bucket)).store.bucket 0 = some bucket := by
  rw [SplitSetting.afterOpening, Store.bucket_put, if_neg (by decide), found_unsplitStart]

def afterShift (bucket : Bucket) (first : FileName) : SplitState :=
  { unsplit.afterOpening 1 (unsplitStart bucket) with
    store := (unsplit.afterOpening 1 (unsplitStart bucket)).store.unbind 0 first
    thread := .scanning 0 1 127 0 false }

section
variable {shahash : FileName → Digest} {bucket : Bucket} {first stranded : FileName} {page tail : List FileName}
variable (keys : bucket.keys = first :: (page ++ stranded :: tail)) (size : page.length = 127)
  (length : tail.length = 30 * moveIncount + 33)
  (stays : ∀ name ∈ first :: (page ++ tail), gigaFileMigrationStatus shahash name 1 = some false)

include keys

theorem names_afterShift : (afterShift bucket first).store.names 0 = page ++ stranded :: tail := by
  refine Store.names_unbind_head ?_
  rw [Store.names_of_bucket opened_unsplitStart, keys]

include size

theorem execute_firstPage (stay : ∀ name ∈ first :: page, gigaFileMigrationStatus shahash name 1 = some false) :
    execute (splitStep shahash 0) (unsplit.afterOpening 1 (unsplitStart bucket)) (quietPage 128) =
      some { unsplit.afterOpening 1 (unsplitStart bucket) with thread := .scanning 0 1 127 0 false } := by
  have read : sysReaddir ((unsplit.afterOpening 1 (unsplitStart bucket)).store.names 0) 0 moveIncount =
      first :: page := by
    rw [Store.names_of_bucket opened_unsplitStart, keys, sysReaddir, moveIncount, pageStart, if_pos rfl, List.drop_zero,
      List.take_succ_cons, List.take_left' size]
  have full : (first :: page).length = moveIncount := congrArg Nat.succ size
  have paged := @execute_quietPage shahash 0 _ _ _ _ _ _ rfl rfl read (by simp) stay
  rw [full, if_pos rfl] at paged
  exact paged

include length

theorem execute_otherPages (stay : ∀ name ∈ tail, gigaFileMigrationStatus shahash name 1 = some false) :
    execute (splitStep shahash 0) (afterShift bucket first) (quietPass 30 33) =
      some { afterShift bucket first with thread := .finishing 0 1 false } := by
  have names := names_afterShift keys
  refine @execute_quietPass shahash 0 _ 0 1 127 0 30 33 rfl rfl (by decide) (by decide) ?_ fun name member => ?_
  · rw [names, List.length_append, List.length_cons, size, length]
    rfl
  · -- The name that was behind the page has taken the last place of it.
    have behind : (page ++ stranded :: tail).drop (pageStart 127) = tail := by
      rw [List.append_cons, List.drop_left']
      simp [size, pageStart]
    rw [names, behind] at member
    exact stay name member

theorem execute_shiftedScan {handle : Nat} (file : bucket.lookup first = some ⟨handle, false⟩)
    (stays : ∀ name ∈ first :: (page ++ tail), gigaFileMigrationStatus shahash name 1 = some false) :
    execute (splitStep shahash 0) (unsplitStart bucket) (shiftedScan first) = some { afterShift bucket first with
      dir := { mapping := gigaUpdateMapping (gigaInitMapping 0 1) 1, splittingIndex := none }
      thread := .ended } := by
  have overflow : splitThreshold < bucket.keys.length := by
    rw [keys, List.length_cons, List.length_append, List.length_cons, size, length]
    unfold splitThreshold moveIncount
    omega
  have found : (unsplit.afterOpening 1 (unsplitStart bucket)).store.find 0 first = some ⟨handle, false⟩ := by
    rw [Store.find, opened_unsplitStart]
    exact file
  have removed : execute (splitStep shahash 0)
      { unsplit.afterOpening 1 (unsplitStart bucket) with thread := .scanning 0 1 127 0 false }
      [.removeLookup first, .removeEntry 0 false] = some (afterShift bucket first) :=
    execute_removal rfl rfl rfl found (stays first (by simp))
  rw [← List.cons_append] at stays
  rw [shiftedScan, execute_append, execute_append, execute_append, execute_append, opens_unsplitStart overflow,
    Option.bind_some, execute_firstPage keys size fun name member => stays name (List.mem_append_left _ member),
    Option.bind_some, removed, Option.bind_some,
    execute_otherPages keys size length fun name member => stays name (List.mem_append_right _ member),
    Option.bind_some]
  exact execute_finish rfl rfl

end

/-- Only the name `m` ends in 1. -/
def oneMigrates (name : FileName) : Digest := Vector.replicate 20 (if name = ['m'] then 1#8 else 0#8)

theorem stays_oneMigrates {name : FileName} (other : name ≠ ['m']) :
    gigaFileMigrationStatus oneMigrates name 1 = some false := by
  have zeros : gigaHashName oneMigrates name = gigaHashName oneMigrates [] := by
    simp [gigaHashName, oneMigrates, other]
  rw [gigaFileMigrationStatus, zeros]
  decide +kernel

/-- A full page of files that stay, the file `m` behind them, and the rest of an overflowing bucket. -/
def fullPage : Bucket := Listing.put 128 ['m'] ⟨9, false⟩ crowded

theorem keys_fullPage : fullPage.keys = ['a'] :: (filler.take 127 ++ ['m'] :: filler.drop 127) := by
  have fresh : ['m'] ∉ crowded := by
    rw [AList.mem_keys, keys_crowded, List.mem_cons, not_or]
    exact ⟨by decide, notMem_filler (by decide)⟩
  rw [fullPage, Listing.put, dif_neg fresh, Listing.keys_insertAt fresh, keys_crowded, List.take_succ_cons,
    List.drop_succ_cons, List.cons_append]

/-- The file `m` stays behind in the parent's bucket, and its name belongs to the child. -/
theorem shifted_scan_strands :
    unsplit.Ready oneMigrates (unsplitStart fullPage) ∧
    ∃ state, execute (splitStep oneMigrates 0) (unsplitStart fullPage) (shiftedScan ['a']) = some state ∧
      1 ∈ state.dir.mapping.partitions ∧ state.store.find 0 ['m'] = some ⟨9, false⟩ ∧
      gigaFileMigrationStatus oneMigrates ['m'] 1 = some true := by
  have page : (filler.take 127).length = 127 := by simp [length_filler, splitThreshold]
  have tail : (filler.drop 127).length = 30 * moveIncount + 33 := by
    simp [length_filler, splitThreshold, moveIncount]
  have file : fullPage.lookup ['a'] = some ⟨7, false⟩ := by
    rw [fullPage, Listing.lookup_put, if_neg (by decide)]
    exact List.dlookup_cons_eq _ _ _
  have executed := execute_shiftedScan keys_fullPage page tail file fun name member => stays_oneMigrates (by
    rintro rfl
    rw [List.take_append_drop, List.mem_cons] at member
    exact member.elim (by decide) (notMem_filler (by decide)))
  refine ⟨ready_unsplitStart _ _, _, executed, ?_, ?_, by decide +kernel⟩
  · rw [partitions_update _ (by decide)]
    exact Finset.mem_insert_self _ _
  · rw [afterShift, Store.find_unbind, if_neg (by decide), Store.find, opened_unsplitStart, Option.bind_some,
      fullPage, Listing.lookup_put, if_pos rfl]

/-- The file `m` at the head of an overflowing bucket. -/
def movingHead : Bucket := Listing.put 0 ['m'] ⟨9, false⟩ crowded

theorem keys_movingHead : movingHead.keys = ['m'] :: ['a'] :: filler := by
  have fresh : ['m'] ∉ crowded := by
    rw [AList.mem_keys, keys_crowded, List.mem_cons, not_or]
    exact ⟨by decide, notMem_filler (by decide)⟩
  rw [movingHead, Listing.put, dif_neg fresh, Listing.keys_insertAt fresh, keys_crowded, List.take_zero,
    List.drop_zero, List.nil_append]

/-- The first pass moves `m` out of its first page. A client removes `a` behind the first page of the
second pass, which finds nothing more to move. -/
def secondPass : List SplitEvent :=
  [.begin_ true, .makeChild .inPlace 1] ++ (quietPage moveIncount ++ (quietPass 30 33 ++ (quietPage moveIncount ++
    ([.removeLookup ['a'], .removeEntry 0 false] ++ (quietPass 30 32 ++ [.lockAgain])))))

theorem own_quietPage {outcount : Nat} {event : SplitEvent} (member : event ∈ quietPage outcount) :
    event.ofThread = true := by
  simp only [quietPage, List.mem_append, List.mem_cons, List.mem_replicate, List.not_mem_nil, or_false] at member
  rcases member with (rfl | ⟨-, rfl⟩) | rfl <;> rfl

theorem own_quietPass {full last : Nat} {event : SplitEvent} (member : event ∈ quietPass full last) :
    event.ofThread = true := by
  rw [quietPass, List.mem_append, List.mem_flatten] at member
  rcases member with ⟨page, pages, member⟩ | member
  · rw [List.eq_of_mem_replicate pages] at member
    exact own_quietPage member
  · exact own_quietPage member

/-- What the events of a run do not do to an entry of the parent, and to a quiet pass. -/
def Untouched (name : FileName) (state : SplitState) (event : SplitEvent) : Prop :=
  unsplit.Steady oneMigrates state event ∧ ¬ unsplit.DuplicatesName oneMigrates state event name ∧
    Leaves oneMigrates 0 state name event

theorem untouched_of_thread {events : List SplitEvent} (own : ∀ event ∈ events, event.ofThread = true)
    (name : FileName) (start : SplitState) : Meets (splitStep oneMigrates 0) (Untouched name) start events := by
  refine meets_of_forall (fun event member state => ?_) start
  have thread := own event member
  refine ⟨SplitSetting.steady_of_thread thread, SplitSetting.spares_of_unbound fun source binds => ?_,
    leaves_of_thread thread⟩
  cases binds <;> cases thread

def afterMove : SplitState :=
  { unsplit.afterOpening 1 (unsplitStart movingHead) with
    store := ((unsplit.afterOpening 1 (unsplitStart movingHead)).store.unbind 0 ['m']).bind 0 1 ['m'] ⟨9, false⟩
    thread := .scanning 0 1 127 1 false }

theorem names_afterMove : afterMove.store.names 0 = ['a'] :: filler := by
  rw [afterMove, Store.names_bind_of_ne (by decide)]
  refine Store.names_unbind_head ?_
  rw [Store.names_of_bucket opened_unsplitStart, keys_movingHead]

theorem stays_filler {name : FileName} (member : name ∈ ['a'] :: filler) :
    gigaFileMigrationStatus oneMigrates name 1 = some false := by
  refine stays_oneMigrates ?_
  rintro rfl
  exact (List.mem_cons.mp member).elim (by decide) (notMem_filler (by decide))

theorem execute_afterMove : execute (splitStep oneMigrates 0) (unsplit.afterOpening 1 (unsplitStart movingHead))
    (quietPage moveIncount) = some afterMove := by
  have read : sysReaddir ((unsplit.afterOpening 1 (unsplitStart movingHead)).store.names 0) 0 moveIncount =
      ['m'] :: ['a'] :: filler.take 126 := by
    rw [Store.names_of_bucket opened_unsplitStart, keys_movingHead, sysReaddir, moveIncount, pageStart, if_pos rfl,
      List.drop_zero, List.take_succ_cons, List.take_succ_cons]
  have child : (unsplit.afterOpening 1 (unsplitStart movingHead)).store.bucket 1 = some ∅ := by
    rw [SplitSetting.afterOpening, Store.bucket_put]
    exact if_pos rfl
  have found : (unsplit.afterOpening 1 (unsplitStart movingHead)).store.find 0 ['m'] = some ⟨9, false⟩ := by
    rw [Store.find, opened_unsplitStart, Option.bind_some, movingHead, Listing.lookup_put, if_pos rfl]
  exact execute_movingPage rfl rfl read (by simp [length_filler, splitThreshold, moveIncount]) found (by simp [child])
    (by simp [Store.find, child]) (by decide +kernel) (by decide) fun name member =>
      stays_filler ((List.mem_cons.mp member).elim (by simp +contextual) fun tail =>
        List.mem_cons_of_mem _ (List.mem_of_mem_take tail))

theorem execute_secondStart : execute (splitStep oneMigrates 0) { afterMove with thread := .scanning 0 1 0 0 false }
    (quietPage moveIncount) = some { afterMove with thread := .scanning 0 1 127 0 false } := by
  have read : sysReaddir (afterMove.store.names 0) 0 moveIncount = ['a'] :: filler.take 127 := by
    rw [names_afterMove, sysReaddir, moveIncount, pageStart, if_pos rfl, List.drop_zero, List.take_succ_cons]
  have full : (['a'] :: filler.take 127).length = moveIncount := by simp [length_filler, splitThreshold, moveIncount]
  have paged := @execute_quietPage oneMigrates 0 { afterMove with thread := .scanning 0 1 0 0 false } 0 1 0 0 _ rfl rfl
    read (by simp) fun name member => stays_filler (List.mem_of_mem_take (i := 128) member)
  rw [full, if_pos rfl] at paged
  exact paged

theorem found_afterMove : afterMove.store.find 0 ['a'] = some ⟨7, false⟩ := by
  rw [afterMove, Store.find_bind_of_ne (by decide), Store.find_unbind, if_neg (by decide), Store.find,
    opened_unsplitStart, Option.bind_some, movingHead, Listing.lookup_put, if_neg (by decide)]
  exact List.dlookup_cons_eq _ _ _

theorem untouched_removal : Meets (splitStep oneMigrates 0) (Untouched ['m'])
    { afterMove with thread := .scanning 0 1 127 0 false } [.removeLookup ['a'], .removeEntry 0 false] := by
  have steady : ∀ state event, state.store = afterMove.store → unsplit.Steady oneMigrates state event := by
    rintro state event same name - ⟨stop, next, -, -, behind, migrates⟩
    have member := List.mem_of_getElem? behind
    rw [same, show afterMove.store.names unsplit.pindex = _ from names_afterMove] at member
    have stays := stays_filler member
    rw [show gigaFileMigrationStatus oneMigrates next 1 = _ from unsplit.migrationStatus next] at stays
    simp [migrates] at stays
  constructor
  · refine ⟨steady _ _ rfl, ?_, fun index => ⟨?_, ?_⟩⟩
    · rintro ⟨_, ⟨⟩, -⟩
    · rintro ⟨⟩
    · rintro ⟨⟩
  · intro after stepped
    have looked : splitStep oneMigrates 0 { afterMove with thread := .scanning 0 1 127 0 false } (.removeLookup ['a']) =
        some { afterMove with
          thread := .scanning 0 1 127 0 false, removals := [{ index := 0, name := ['a'], isdir := false }] } :=
      splitStep_removeLookup rfl rfl rfl found_afterMove (stays_filler List.mem_cons_self)
    cases Option.some.inj (looked.symm.trans stepped)
    refine ⟨⟨steady _ _ rfl, ?_, fun index => ⟨?_, ?_⟩⟩, fun _ _ => trivial⟩
    · rintro ⟨_, ⟨⟩, -⟩
    · generalize entry : (['m'] : FileName) = name
      rintro (_ | ⟨⟨⟩, -⟩)
      cases entry
    · rintro ⟨⟩

theorem names_afterRemoval : (afterMove.store.unbind 0 ['a']).names 0 = filler :=
  Store.names_unbind_head names_afterMove

theorem execute_restOfPass {store : Store} {names : List FileName} {moved last : Nat} (listed : store.names 0 = names)
    (stay : ∀ name ∈ names, name ∈ ['a'] :: filler) (positive : 0 < last) (short : last < moveIncount)
    (length : names.length = 128 + 30 * moveIncount + last) :
    execute (splitStep oneMigrates 0) { afterMove with store, thread := .scanning 0 1 127 moved false }
      (quietPass 30 last) = some { afterMove with store, thread := afterPass 0 1 moved false } := by
  subst listed
  exact @execute_quietPass oneMigrates 0 { afterMove with store, thread := .scanning 0 1 127 moved false }
    0 1 127 moved 30 last rfl rfl positive short length fun name member =>
      stays_filler (stay name (List.mem_of_mem_drop member))

theorem secondPass_runs :
    execute (splitStep oneMigrates 0) (unsplitStart movingHead) secondPass = some { afterMove with
      store := afterMove.store.unbind 0 ['a'], thread := .announcing 0 1 } ∧
    Meets (splitStep oneMigrates 0) (Untouched ['m']) (unsplitStart movingHead) secondPass := by
  have overflow : splitThreshold < movingHead.keys.length := by simp [keys_movingHead, length_filler]
  have size : filler.length = 128 + 30 * moveIncount + 32 := length_filler
  have firstPass := @execute_restOfPass afterMove.store _ 1 33 names_afterMove (fun _ member => member) (by decide)
    (by decide) (by rw [List.length_cons, size])
  have lastPass := @execute_restOfPass (afterMove.store.unbind 0 ['a']) _ 0 32 names_afterRemoval
    (fun _ member => List.mem_cons_of_mem _ member) (by decide) (by decide) size
  have removed : execute (splitStep oneMigrates 0) { afterMove with thread := .scanning 0 1 127 0 false }
      [.removeLookup ['a'], .removeEntry 0 false] = some { afterMove with
        store := afterMove.store.unbind 0 ['a'], thread := .scanning 0 1 127 0 false } :=
    execute_removal rfl rfl rfl found_afterMove (stays_filler List.mem_cons_self)
  refine runs_append ⟨opens_unsplitStart overflow, untouched_of_thread (by decide) _ _⟩ ?_
  refine runs_append ⟨execute_afterMove, untouched_of_thread (fun _ => own_quietPage) _ _⟩ ?_
  refine runs_append ⟨firstPass, untouched_of_thread (fun _ => own_quietPass) _ _⟩ ?_
  refine runs_append ⟨execute_secondStart, untouched_of_thread (fun _ => own_quietPage) _ _⟩ ?_
  refine runs_append ⟨removed, untouched_removal⟩ ?_
  refine runs_append ⟨lastPass, untouched_of_thread (fun _ => own_quietPass) _ _⟩ ?_
  exact ⟨rfl, untouched_of_thread (by decide) _ _⟩

theorem split_strands_nothing_second_pass :
    ∃ state after, execute (splitStep oneMigrates 0) (unsplitStart movingHead) secondPass = some state ∧
      splitStep oneMigrates 0 state .finish = some after ∧ 1 ∈ after.dir.mapping.partitions ∧
      (∀ name, (after.store.find 0 name).isSome → gigaFileMigrationStatus oneMigrates name 1 = some false) ∧
      after.store.find 0 ['m'] = none ∧ after.store.find 1 ['m'] = some ⟨9, false⟩ := by
  obtain ⟨executed, meets⟩ := secondPass_runs
  have found : (unsplitStart movingHead).store.find 0 ['m'] = some ⟨9, false⟩ := by
    rw [Store.find, found_unsplitStart, Option.bind_some, movingHead, Listing.lookup_put, if_pos rfl]
  obtain ⟨bit, clean, once⟩ := SplitSetting.split_strands_nothing (ready_unsplitStart _ _) executed
    (meets.mono fun _ _ untouched => untouched.1) rfl
  refine ⟨_, _, executed, rfl, bit, clean, ?_⟩
  refine (once ['m'] _ found (meets.mono fun _ _ untouched => untouched.2)).resolve_left fun kept => ?_
  have stays := clean ['m'] (Option.isSome_of_eq_some kept.1)
  revert stays
  decide +kernel

end SkyeFS.Server
