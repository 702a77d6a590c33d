import SkyeFS.System.Placement
import SkyeFS.Server.SplitNames
import SkyeFS.Server.SplitThread

/-! What a split means for the names that it leaves where they are.

The split thread takes its steps one by one, and handlers, the second halves of removes
and renames by other servers come in between whenever the lock allows it. For the names
that migrate this goes wrong in several ways. The names that stay do not notice: each
answer is that of the map, as if there were no split.
-/

set_option autoImplicit false

namespace SkyeFS.Namespace

open Index Pvfs Server Foundation

/-- What happens on the server of a split, or to its buckets. -/
inductive Act where
  | thread (event : SplitEvent)
  | request (request : Request)
  -- The second half of a remove.
  | complete (slot : Nat) (emptied : Bool)
  -- Another server renames an entry away.
  | depart (index : Nat) (name : FileName)
deriving DecidableEq

section
variable {servernum : Nat} (setting : SplitSetting servernum) (shahash : FileName → Digest)

/-- The bucket of a name of this server that stays where it is. -/
def unmoved (name : FileName) : Option Nat :=
  (gigaGetIndexForFile shahash setting.mapping name).filter fun index =>
    decide (gigaGetServerForIndex setting.mapping index = servernum ∧
      ¬ (index = setting.pindex ∧ setting.Migrates shahash name))

/-- The entries of the names that stay. -/
def watched (store : Store) : Entries := fun name => (unmoved setting shahash name).bind (store.find · name)

/-- The entry that a rename takes away from the names that stay. -/
def unmovedSource : Source → Option FileName
  | .bucket index entry => if unmoved setting shahash entry = some index then some entry else none
  | .elsewhere _ => none

/-- What an answered request means for the names that stay. One end of a rename may be a name that does not. -/
def meaning (store : Store) (answer : Answer) : Request → Option (Operation × Answer)
  | .rename source name _ =>
      let taken := unmovedSource setting shahash source
      if (unmoved setting shahash name).isSome then
        some (taken.elim (.arrive (source.object store) name) (.rename · name), answer)
      else if answer = .done then taken.map fun entry => (.depart entry, .done)
      else none
  | request =>
      if (unmoved setting shahash request.name).isSome then some (request.operation store true, request.seen answer)
      else none

def respond (state : SplitState) (request : Request) : Served × Store → SplitState × Option (Operation × Answer)
  | (.again _, _) => (state, none)
  | (.removing removal, _) => ({ state with removals := state.removals ++ [removal] }, none)
  | (.answered answer, store) => ({ state with store }, meaning setting shahash state.store answer request)

def watchStep (state : SplitState) : Act → Option (SplitState × Option (Operation × Answer))
  | .thread event => if event.ofThread then (splitStep shahash servernum state event).map (·, none) else none
  | .request request =>
      if state.thread.locked then none
      else (request.serve shahash servernum state.dir state.store).map (respond setting shahash state request)
  | .complete slot emptied => do
      let removal ← state.removals[slot]?
      let (reply, store) := removeEntry state.store removal emptied
      let label :=
        if unmoved setting shahash removal.name = some removal.index then
          some (.remove removal.name emptied, .ofReply reply)
        else none
      some ({ state with store, removals := state.removals.eraseIdx slot }, label)
  | .depart index name =>
      let label :=
        if unmoved setting shahash name = some index then
          some (.depart name, if (state.store.find index name).isSome then .done else .fail .enoent)
        else none
      some ({ state with store := state.store.unbind index name }, label)

/-- No name of a bucket is looked up, which the fallback of the lookup would find. -/
def Ordinary (state : SplitState) : Act → Prop
  | .request (.lookup name) => name ∉ state.store
  | _ => True

instance (state : SplitState) (act : Act) : Decidable (Ordinary state act) := by
  unfold Ordinary
  split <;> infer_instance

end

section
variable {servernum : Nat} {setting : SplitSetting servernum} {shahash : FileName → Digest}

theorem unmoved_eq_some {name : FileName} {index : Nat} : unmoved setting shahash name = some index ↔
    setting.Routes shahash name index ∧ gigaGetServerForIndex setting.mapping index = servernum ∧
      ¬ (index = setting.pindex ∧ setting.Migrates shahash name) := by
  rw [unmoved, Option.filter_eq_some_iff, decide_eq_true_iff, SplitSetting.Routes]

theorem unmoved_ne_cindex {name : FileName} {index : Nat} (stays : unmoved setting shahash name = some index) :
    index ≠ setting.cindex := (unmoved_eq_some.mp stays).1.ne_cindex

theorem unmoved_migrates {name : FileName} (migrates : setting.Migrates shahash name) :
    unmoved setting shahash name ≠ some setting.pindex :=
  fun stays => (unmoved_eq_some.mp stays).2.2 ⟨rfl, migrates⟩

/-! ### The entries of the names that stay -/

theorem watched_eq {store : Store} {name : FileName} {index : Nat} (stays : unmoved setting shahash name = some index) :
    watched setting shahash store name = store.find index name := by
  rw [watched, stays, Option.bind_some]

theorem watched_congr {store after : Store}
    (same : ∀ name index, unmoved setting shahash name = some index → after.find index name = store.find index name) :
    watched setting shahash after = watched setting shahash store := by
  funext name
  unfold watched
  cases stays : unmoved setting shahash name with
  | none => rfl
  | some index => exact same name index stays

theorem watched_unbind {store : Store} {name : FileName} {index : Nat}
    (stays : unmoved setting shahash name = some index) :
    watched setting shahash (store.unbind index name) = Function.update (watched setting shahash store) name none := by
  funext entry
  by_cases same : entry = name
  · subst same
    rw [watched_eq stays, Store.find_unbind, if_pos ⟨rfl, rfl⟩, Function.update_self]
  · rw [Function.update_of_ne same]
    unfold watched
    congr 1
    funext other
    rw [Store.find_unbind, if_neg fun both => same both.2]

theorem watched_unbind_other {store : Store} {name : FileName} {index : Nat}
    (other : unmoved setting shahash name ≠ some index) :
    watched setting shahash (store.unbind index name) = watched setting shahash store := by
  apply watched_congr
  intro entry home stays
  rw [Store.find_unbind, if_neg]
  rintro ⟨rfl, rfl⟩
  exact other stays

theorem watched_bind {store : Store} {name : FileName} {index position : Nat} {object : Object}
    (stays : unmoved setting shahash name = some index) (present : (store.bucket index).isSome) :
    watched setting shahash (store.bind position index name object) =
      Function.update (watched setting shahash store) name (some object) := by
  funext entry
  by_cases same : entry = name
  · subst same
    rw [watched_eq stays, Store.find_bind present, if_pos ⟨rfl, rfl⟩, Function.update_self]
  · rw [Function.update_of_ne same]
    unfold watched
    congr 1
    funext other
    rw [Store.find_bind_of_ne fun both => same both.2]

theorem watched_bind_other {store : Store} {name : FileName} {index position : Nat} {object : Object}
    (other : unmoved setting shahash name ≠ some index) :
    watched setting shahash (store.bind position index name object) = watched setting shahash store := by
  apply watched_congr
  intro entry home stays
  rw [Store.find_bind_of_ne]
  rintro ⟨rfl, rfl⟩
  exact other stays

/-! ### Where a name that stays is served -/

section
variable {state after : SplitState} {name : FileName} {index : Nat}

/-- In every phase of the split the name is the server's own, and in the same bucket. -/
theorem locality_unmoved (sound : setting.Sound shahash state) (stays : unmoved setting shahash name = some index) :
    locality shahash servernum state.dir name = some (.here index) ∧
      selectBucket shahash state.dir name index = some index := by
  obtain ⟨routes, owner, kept⟩ := unmoved_eq_some.mp stays
  have phase := sound.phase
  generalize state.dir = dir at phase
  generalize state.thread = thread at phase
  have found : gigaGetIndexForFile shahash dir.mapping name = some index := by
    cases phase with
    | closed | moving => exact routes
    | installed =>
      have moved := SplitSetting.lookup_installed routes
      rwa [if_neg kept] at moved
  obtain ⟨selected, selection, serves⟩ := phase.select found
  have same : selected = index := by
    apply serves.unique
    refine ⟨index, routes, ?_⟩
    rw [if_neg]
    exact fun all => kept all.2
  refine ⟨locality_here.mpr ⟨found, ?_⟩, same ▸ selection⟩
  cases phase with
  | closed | moving | installed => exact owner

theorem splitting_eq (sound : setting.Sound shahash state) (splitting : state.dir.splittingIndex = some index) :
    index = setting.pindex ∧ state.dir.mapping = setting.mapping := by
  have phase := sound.phase
  generalize state.dir = dir at phase splitting
  generalize state.thread = thread at phase
  cases phase with
  | closed | installed => cases splitting
  | moving =>
    cases splitting
    exact ⟨rfl, rfl⟩

structure Watching (setting : SplitSetting servernum) (shahash : FileName → Digest) (state : SplitState) : Prop where
  sound : setting.Sound shahash state
  present : (state.store.bucket setting.pindex).isSome

theorem enterBucket_unmoved (watching : Watching setting shahash state)
    (stays : unmoved setting shahash name = some index) {reply : Reply Nat}
    (entered : enterBucket shahash servernum state.dir state.store name = some reply) :
    reply = .ok index ∧ (state.store.bucket index).isSome := by
  obtain ⟨here, selection⟩ := locality_unmoved watching.sound stays
  simp only [enterBucket, here, selection, Option.bind_eq_bind, Option.bind_some] at entered
  split at entered
  case isTrue present =>
    cases entered
    exact ⟨rfl, present⟩
  case isFalse absent =>
    split at entered
    case isFalse => cases entered
    case isTrue splitting =>
      -- Only the partition that is splitting answers for a missing bucket, and its bucket is there.
      obtain ⟨rfl, -⟩ := splitting_eq watching.sound splitting
      exact absurd watching.present absent

theorem child_unmoved (sound : setting.Sound shahash state) (stays : unmoved setting shahash name = some setting.pindex) :
    state.store.find setting.cindex name = none := by
  by_contra held
  obtain ⟨-, migrates⟩ := sound.contents.child name (Option.isSome_iff_ne_none.mpr held)
  exact unmoved_migrates migrates stays

/-- The call of a handler is made in the bucket of a name that stays; for other names it may be made anywhere. -/
theorem inBucket_unmoved (watching : Watching setting shahash state) {Value : Type} {call : Nat → Reply Value × Store}
    {reply : Reply Value} {left : Store}
    (served : inBucket shahash servernum state.dir state.store name call = some (reply, left)) :
    (∃ index, unmoved setting shahash name = some index ∧ (state.store.bucket index).isSome ∧
        call index = (reply, left)) ∨
      unmoved setting shahash name = none ∧
        (left = state.store ∧ (∀ value, reply ≠ .ok value) ∨ ∃ index, call index = (reply, left)) := by
  cases stays : unmoved setting shahash name with
  | none =>
    refine Or.inr ⟨rfl, ?_⟩
    exact (inBucket_some served).imp_right fun ⟨index, _, called⟩ => ⟨index, called⟩
  | some index =>
    obtain ⟨entered, computed, served⟩ := Option.bind_eq_some_iff.mp served
    obtain ⟨rfl, present⟩ := enterBucket_unmoved watching stays computed
    exact Or.inl ⟨index, rfl, present, Option.some.inj served⟩

end

section
variable {state : SplitState} {name : FileName} {index : Nat} {bitmap : GigaMapping} {left : Store}

theorem inBucket_not_again (watching : Watching setting shahash state)
    (stays : unmoved setting shahash name = some index) {Value : Type} {call : Nat → Reply Value × Store}
    {found : Value → Served} (values : ∀ value, found value ≠ .again bitmap)
    (calls : ∀ entered, (call entered).1 ≠ .again bitmap) :
    (inBucket shahash servernum state.dir state.store name call).map
      (fun result => (Served.ofReply found result.1, result.2)) ≠ some (.again bitmap, left) := by
  -- A handler with one PVFS call does not redirect a name that stays, whatever the call returns.
  intro served
  obtain ⟨⟨reply, after⟩, computed, same⟩ := Option.map_eq_some_iff.mp served
  rcases inBucket_unmoved watching computed with ⟨entered, -, -, called⟩ | ⟨moves, -⟩
  · have quiet := calls entered
    rw [called] at quiet
    cases reply with
    | ok value => exact values value (Prod.mk.inj same).1
    | fail errno => cases same
    | again other =>
      cases same
      exact quiet rfl
  · cases stays.symm.trans moves

/-- Where a name that stays is redirected all the same: its partition request looks for it in the child of the split when
the parent has no entry of it, and the child is another server's. -/
def Misled (setting : SplitSetting servernum) (state : SplitState) (index : Nat) : Request → Prop
  | .partition name => state.store.find index name = none ∧ state.dir.splittingIndex = some index ∧
      gigaGetServerForIndex setting.mapping setting.cindex ≠ servernum
  | .lookup _ | .create _ _ _ | .mkdir _ _ _ _ | .rename _ _ _ | .remove _ => False

theorem partition_misled (watching : Watching setting shahash state) (stays : unmoved setting shahash name = some index) :
    (∃ bitmap left, Request.serve shahash servernum state.dir state.store (.partition name) =
      some (.again bitmap, left)) ↔ Misled setting state index (.partition name) := by
  obtain ⟨looked, own⟩ := locality_here.mp (locality_unmoved watching.sound stays).1
  have child : state.dir.splittingIndex = some index →
      gigaIndexForSplitting state.dir.mapping index = some setting.cindex ∧ state.dir.mapping = setting.mapping := by
    intro splitting
    obtain ⟨rfl, same⟩ := splitting_eq watching.sound splitting
    rw [same]
    exact ⟨setting.child, rfl⟩
  constructor
  · rintro ⟨bitmap, left, served⟩
    obtain ⟨reply, answered, same⟩ := Option.map_eq_some_iff.mp served
    cases reply with
    | ok | fail => cases same
    | again other =>
      obtain ⟨-, found, located, foreign | ⟨-, splitting, missing, new, split, foreign⟩⟩ := partition_again.mp answered
      · cases looked.symm.trans located
        exact absurd own foreign
      · cases looked.symm.trans located
        obtain rfl := Option.some.inj ((child splitting).1.symm.trans split)
        exact ⟨missing, splitting, (child splitting).2 ▸ foreign⟩
  · rintro ⟨missing, splitting, foreign⟩
    rw [← (child splitting).2] at foreign
    have redirected := partition_again.mpr
      ⟨rfl, index, looked, Or.inr ⟨own, splitting, missing, setting.cindex, (child splitting).1, foreign⟩⟩
    exact ⟨state.dir.mapping, state.store, by simp only [Request.serve, redirected, Option.map_some, Served.ofReply]⟩

/-- The redirects of names that stay. -/
theorem serve_again_iff (watching : Watching setting shahash state) {request : Request}
    (stays : unmoved setting shahash request.name = some index) :
    (∃ bitmap left, request.serve shahash servernum state.dir state.store = some (.again bitmap, left)) ↔
      Misled setting state index request := by
  have answers : ∀ {bitmap : GigaMapping} (ref : Ref), (fun ref => Served.answered (.ref ref)) ref ≠ .again bitmap := by
    rintro _ _ ⟨⟩
  cases request with
  | partition name => exact partition_misled watching stays
  | lookup name =>
    refine ⟨?_, False.elim⟩
    rintro ⟨bitmap, left, served⟩
    obtain ⟨reply, answered, same⟩ := Option.map_eq_some_iff.mp served
    have here : locality shahash servernum state.dir name = some (.here index) := (locality_unmoved watching.sound stays).1
    simp only [Server.lookup, here, Option.bind_eq_bind, Option.bind_some] at answered
    obtain ⟨-, -, answered⟩ := Option.bind_eq_some_iff.mp answered
    split at answered
    · cases answered
      cases same
    · split at answered
      · obtain ⟨-, -, answered⟩ := Option.bind_eq_some_iff.mp answered
        split at answered <;> cases answered <;> cases same
      · cases answered
        cases same
  | create name handle position =>
    refine ⟨?_, False.elim⟩
    rintro ⟨bitmap, left, served⟩
    refine absurd served (inBucket_not_again watching stays answers fun entered => ?_)
    split <;> rintro ⟨⟩
  | mkdir name handle position bucketError =>
    refine ⟨?_, False.elim⟩
    rintro ⟨bitmap, left, served⟩
    refine absurd served (inBucket_not_again watching stays answers fun entered => ?_)
    cases bucketError <;> split <;> rintro ⟨⟩
  | rename source name position =>
    have done : ∀ {bitmap : GigaMapping} (value : Unit), (fun _ => Served.answered .done) value ≠ .again bitmap := by
      rintro _ _ ⟨⟩
    refine ⟨?_, False.elim⟩
    rintro ⟨bitmap, left, served⟩
    refine absurd served (inBucket_not_again watching stays done fun entered => ?_)
    split <;> rintro ⟨⟩
  | remove name =>
    have removing : ∀ {bitmap : GigaMapping} (removal : Removal), Served.removing removal ≠ .again bitmap := by
      rintro _ _ ⟨⟩
    refine ⟨?_, False.elim⟩
    rintro ⟨bitmap, left, served⟩
    refine absurd served (inBucket_not_again watching stays removing fun entered => ?_)
    split <;> rintro ⟨⟩

end

/-! ### Each answer is that of the map -/

/-- What happens to the entries of the names that stay is what the label says. -/
def Explains (setting : SplitSetting servernum) (shahash : FileName → Digest) (store : Store)
    (label : Option (Operation × Answer)) (after : Store) : Prop :=
  execute replay (watched setting shahash store) label.toList = some (watched setting shahash after)

section
variable {state : SplitState} {store left : Store} {name : FileName} {index position : Nat} {object : Object}
  {answer : Answer}

theorem explains_none {after : Store} (same : watched setting shahash after = watched setting shahash store) :
    Explains setting shahash store none after := by
  rw [Explains, same]
  rfl

theorem explains_some {after : Store} {operation : Operation}
    (performed : perform (watched setting shahash store) operation = (answer, watched setting shahash after)) :
    Explains setting shahash store (some (operation, answer)) after := by
  rw [Explains, Option.toList_some, execute, replay_eq performed]
  rfl

theorem watched_make (stays : unmoved setting shahash name = some index) (present : (store.bucket index).isSome) :
    sysCreate position store index name object = .error .eexist ∧
        (watched setting shahash store).make name object answer = (.fail .eexist, watched setting shahash store) ∨
      ∃ after, sysCreate position store index name object = .ok after ∧
        (watched setting shahash store).make name object answer = (answer, watched setting shahash after) := by
  unfold Entries.make
  rw [watched_eq stays]
  cases found : store.find index name with
  | some held => exact Or.inl ⟨sysCreate_exists found, rfl⟩
  | none =>
    refine Or.inr ⟨_, sysCreate_fresh present found, ?_⟩
    rw [watched_bind stays present]
    rfl

theorem watched_place (source : Source) (stays : unmoved setting shahash name = some index)
    (present : (store.bucket index).isSome) (found : source.object store = some object)
    (other : source ≠ .bucket index name) :
    sysRename position store source index name = .error .enotempty ∧
        (watched setting shahash store).place (watched setting shahash (source.clear store)) name object =
          (.fail .enotempty, watched setting shahash store) ∨
      ∃ after, sysRename position store source index name = .ok after ∧
        (watched setting shahash store).place (watched setting shahash (source.clear store)) name object =
          (.done, watched setting shahash after) := by
  have exists_ : (store.bucket index).isNone = false := by simpa using present
  simp only [sysRename, found, exists_, Bool.false_eq_true, if_false, if_neg other, Entries.place, watched_eq stays]
  by_cases directory : (store.find index name).any Object.isdir = true
  · rw [if_pos directory, if_pos directory]
    exact Or.inl ⟨rfl, rfl⟩
  · rw [if_neg directory, if_neg directory]
    refine Or.inr ⟨_, rfl, ?_⟩
    rw [watched_bind stays (by rw [Source.bucket_clear]; exact present)]

theorem make_explained (position : Nat) (watching : Watching setting shahash state) {call : Nat → Reply Ref × Store}
    {made : Answer} {operation : Operation}
    (performs : ∀ entries, perform entries operation = Entries.make entries name object made)
    (refused : ∀ index errno, sysCreate position state.store index name object = .error errno →
      (call index).2 = state.store ∧ (errno = .eexist → (call index).1 = .fail .eexist))
    (accepted : ∀ index after, sysCreate position state.store index name object = .ok after → (call index).2 = after ∧
      Served.ofReply (fun ref => .answered (.ref ref)) (call index).1 = .answered made)
    (served : (inBucket shahash servernum state.dir state.store name call).map (fun result =>
      (Served.ofReply (fun ref => .answered (.ref ref)) result.1, result.2)) = some (.answered answer, left)) :
    Explains setting shahash state.store
      (if (unmoved setting shahash name).isSome then some (operation, answer) else none) left := by
  obtain ⟨⟨reply, after⟩, computed, same⟩ := Option.map_eq_some_iff.mp served
  simp only [Prod.mk.injEq] at same
  obtain ⟨answers, rfl⟩ := same
  rcases inBucket_unmoved watching computed with ⟨index, stays, present, called⟩ | ⟨moves, rest⟩
  · rw [stays, Option.isSome_some, if_pos rfl]
    apply explains_some
    rw [performs]
    rcases watched_make stays present with ⟨exists_, same⟩ | ⟨created, success, same⟩
    · obtain ⟨kept, reported⟩ := refused index _ exists_
      rw [called] at kept reported
      cases kept
      cases reported rfl
      cases answers
      exact same
    · obtain ⟨left, reported⟩ := accepted index created success
      rw [called] at left reported
      cases left
      cases answers.symm.trans reported
      exact same
  · rw [moves, Option.isSome_none, if_neg (by decide)]
    apply explains_none
    rcases rest with ⟨rfl, -⟩ | ⟨index, called⟩
    · rfl
    · cases created : sysCreate position state.store index name object with
      | error errno =>
        have kept : (call index).2 = state.store := (refused index errno created).1
        rw [called] at kept
        cases kept
        rfl
      | ok made =>
        have left : (call index).2 = made := (accepted index made created).1
        rw [called] at left
        cases left
        obtain ⟨-, -, rfl⟩ := sysCreate_ok created
        exact watched_bind_other (by simp [moves])

theorem create_explained (watching : Watching setting shahash state) {handle : Nat}
    (served : Request.serve shahash servernum state.dir state.store (.create name handle position) =
      some (.answered answer, left)) :
    Explains setting shahash state.store (meaning setting shahash state.store answer (.create name handle position))
      left := by
  apply make_explained position watching (fun _ => rfl) _ _ served
  · intro index errno failed
    rw [failed]
    cases errno <;> exact ⟨rfl, by simp⟩
  · intro index after created
    rw [created]
    exact ⟨rfl, rfl⟩

theorem mkdir_explained (watching : Watching setting shahash state) {handle : Nat} {bucketError : Option Errno}
    (served : Request.serve shahash servernum state.dir state.store (.mkdir name handle position bucketError) =
      some (.answered answer, left)) :
    Explains setting shahash state.store
      (meaning setting shahash state.store answer (.mkdir name handle position bucketError)) left := by
  apply make_explained position watching (fun _ => rfl) _ _ served
  · intro index errno failed
    rw [failed]
    exact ⟨rfl, fun same => by rw [same]⟩
  · intro index after created
    rw [created]
    cases bucketError <;> exact ⟨rfl, rfl⟩

theorem unmovedSource_some {source : Source} {entry : FileName}
    (taken : unmovedSource setting shahash source = some entry) :
    ∃ from_, source = .bucket from_ entry ∧ unmoved setting shahash entry = some from_ := by
  cases source with
  | elsewhere object => cases taken
  | bucket from_ other =>
    obtain ⟨stays, same⟩ := Option.ite_none_right_eq_some.mp taken
    cases same
    exact ⟨from_, rfl, stays⟩

theorem watched_clear {source : Source} (foreign : unmovedSource setting shahash source = none) :
    watched setting shahash (source.clear store) = watched setting shahash store := by
  cases source with
  | elsewhere object => rfl
  | bucket from_ entry =>
    apply watched_unbind_other
    intro stays
    rw [unmovedSource, if_pos stays] at foreign
    cases foreign

theorem rename_performed (source : Source) (stays : unmoved setting shahash name = some index)
    (present : (store.bucket index).isSome) {reply : Reply Unit}
    (called : (match sysRename position store source index name with
      | .error errno => (Reply.fail errno, store)
      | .ok after => (.ok (), after)) = (reply, left)) :
    perform (watched setting shahash store) ((unmovedSource setting shahash source).elim
      (.arrive (source.object store) name) (.rename · name)) = (Answer.ofReply reply, watched setting shahash left) := by
  cases found : source.object store with
  | none =>
    have refused : sysRename position store source index name = .error .enoent := by simp only [sysRename, found]
    rw [refused] at called
    cases called
    cases taken : unmovedSource setting shahash source with
    | none => rfl
    | some entry =>
      obtain ⟨from_, rfl, entryStays⟩ := unmovedSource_some taken
      have missing : watched setting shahash store entry = none := (watched_eq entryStays).trans found
      simp only [Option.elim_some, perform, missing, Answer.ofReply]
  | some object =>
    by_cases self : source = .bucket index name
    · -- The entry is renamed onto itself.
      subst self
      have renamed : sysRename position store (.bucket index name) index name = .ok store := by
        have exists_ : (store.bucket index).isNone = false := by simpa using present
        simp only [sysRename, found, exists_, Bool.false_eq_true, if_false, if_true]
      have taken : unmovedSource setting shahash (.bucket index name) = some name := if_pos stays
      have there : watched setting shahash store name = some object := (watched_eq stays).trans found
      rw [renamed] at called
      cases called
      simp only [taken, Option.elim_some, perform, there, if_true, Answer.ofReply]
    · have performed : perform (watched setting shahash store) ((unmovedSource setting shahash source).elim
          (.arrive (some object) name) (.rename · name)) =
          (watched setting shahash store).place (watched setting shahash (source.clear store)) name object := by
        cases taken : unmovedSource setting shahash source with
        | none => rw [watched_clear taken, Option.elim_none, perform]
        | some entry =>
          obtain ⟨from_, rfl, entryStays⟩ := unmovedSource_some taken
          have there : watched setting shahash store entry = some object := (watched_eq entryStays).trans found
          have other : entry ≠ name := by
            rintro rfl
            cases entryStays.symm.trans stays
            exact self rfl
          rw [Source.clear, watched_unbind entryStays]
          simp only [Option.elim_some, perform, there, if_neg other]
      rw [performed]
      rcases watched_place source stays present found self with ⟨refused, placed⟩ | ⟨after, renamed, placed⟩
      · rw [refused] at called
        cases called
        exact placed
      · rw [renamed] at called
        cases called
        exact placed

theorem sysRename_moved {source : Source} {after : Store} (other : source ≠ .bucket index name)
    (renamed : sysRename position store source index name = .ok after) : ∃ object, source.object store = some object ∧
      after = (source.clear store).bind position index name object := by
  simp only [sysRename, if_neg other] at renamed
  split at renamed
  case h_1 => cases renamed
  case h_2 object found =>
    split at renamed
    case isTrue => cases renamed
    case isFalse =>
      split at renamed <;> cases renamed
      exact ⟨object, found, rfl⟩

theorem rename_away (source : Source) (moves : unmoved setting shahash name = none) {after : Store}
    (renamed : sysRename position store source index name = .ok after) :
    Explains setting shahash store ((unmovedSource setting shahash source).map fun entry => (.depart entry, .done))
      after := by
  cases taken : unmovedSource setting shahash source with
  | none =>
    apply explains_none
    rcases sysRename_ok renamed with rfl | ⟨object, -, -, -, -, rfl⟩
    · rfl
    · rw [watched_bind_other (by simp [moves]), watched_clear taken]
  | some entry =>
    obtain ⟨from_, rfl, stays⟩ := unmovedSource_some taken
    have other : Source.bucket from_ entry ≠ .bucket index name := by
      rintro ⟨⟩
      rw [moves] at stays
      cases stays
    obtain ⟨object, found, rfl⟩ := sysRename_moved other renamed
    apply explains_some
    have there : watched setting shahash store entry = some object := (watched_eq stays).trans found
    rw [watched_bind_other (by simp [moves]), Source.clear, watched_unbind stays]
    simp only [perform, there, Option.isSome_some, if_true]

theorem rename_explained (watching : Watching setting shahash state) {source : Source}
    (served : Request.serve shahash servernum state.dir state.store (.rename source name position) =
      some (.answered answer, left)) :
    Explains setting shahash state.store (meaning setting shahash state.store answer (.rename source name position))
      left := by
  obtain ⟨⟨reply, after⟩, computed, same⟩ := Option.map_eq_some_iff.mp served
  simp only [Prod.mk.injEq] at same
  obtain ⟨answers, rfl⟩ := same
  have reported : answer = Answer.ofReply reply := by
    cases reply <;> cases answers <;> rfl
  subst reported
  rcases inBucket_unmoved watching computed with ⟨index, stays, present, called⟩ | ⟨moves, rest⟩
  · simp only [meaning, stays, Option.isSome_some, if_true]
    exact explains_some (rename_performed source stays present called)
  · simp only [meaning, moves, Option.isSome_none, Bool.false_eq_true, if_false]
    rcases rest with ⟨rfl, failed⟩ | ⟨index, called⟩
    · -- Nothing was renamed, and no label says so.
      have refused : Answer.ofReply reply ≠ .done := by
        cases reply with
        | ok value => exact absurd rfl (failed value)
        | again bitmap => cases answers
        | fail errno => nofun
      rw [if_neg refused]
      exact explains_none rfl
    · cases renamed : sysRename position state.store source index name with
      | error errno =>
        rw [renamed] at called
        cases called
        exact explains_none rfl
      | ok made =>
        rw [renamed] at called
        cases called
        exact rename_away source moves renamed

theorem remove_explained (watching : Watching setting shahash state)
    (served : Request.serve shahash servernum state.dir state.store (.remove name) = some (.answered answer, left)) :
    Explains setting shahash state.store (meaning setting shahash state.store answer (.remove name)) left := by
  obtain ⟨⟨reply, after⟩, computed, same⟩ := Option.map_eq_some_iff.mp served
  simp only [Prod.mk.injEq] at same
  obtain ⟨answers, rfl⟩ := same
  rcases inBucket_unmoved watching computed with ⟨index, stays, present, called⟩ | ⟨moves, rest⟩
  · have entry : watched setting shahash state.store name = state.store.find index name := watched_eq stays
    simp only [meaning, Request.name, stays, Option.isSome_some, if_true]
    cases found : state.store.find index name with
    | some object =>
      rw [found] at called
      cases called
      cases answers
    | none =>
      rw [found] at called entry
      cases called
      cases answers
      apply explains_some
      simp only [Request.operation, perform, entry, Request.seen]
  · simp only [meaning, Request.name, moves, Option.isSome_none, Bool.false_eq_true, if_false]
    apply explains_none
    rcases rest with ⟨rfl, -⟩ | ⟨index, called⟩
    · rfl
    · split at called <;> cases called <;> rfl

theorem lookup_explained (watching : Watching setting shahash state) (ordinary : name ∉ state.store)
    (served : Request.serve shahash servernum state.dir state.store (.lookup name) = some (.answered answer, left)) :
    Explains setting shahash state.store (meaning setting shahash state.store answer (.lookup name)) left := by
  -- The fallback of the lookup finds nothing where the name is not that of a bucket.
  obtain ⟨reply, computed, same⟩ := Option.map_eq_some_iff.mp served
  simp only [Prod.mk.injEq] at same
  obtain ⟨answers, rfl⟩ := same
  cases stays : unmoved setting shahash name with
  | none =>
    simp only [meaning, Request.name, stays, Option.isSome_none, Bool.false_eq_true, if_false]
    exact explains_none rfl
  | some index =>
    have entry : watched setting shahash state.store name = state.store.find index name := watched_eq stays
    simp only [meaning, Request.name, stays, Option.isSome_some, if_true]
    apply explains_some
    obtain ⟨here, -⟩ := locality_unmoved watching.sound stays
    simp only [Server.lookup, here, Option.bind_eq_bind, Option.bind_some] at computed
    obtain ⟨-, -, computed⟩ := Option.bind_eq_some_iff.mp computed
    cases found : state.store.find index name with
    | some object =>
      rw [found] at computed entry
      cases computed
      cases answers
      simp only [Request.operation, perform, entry, Request.seen]
    | none =>
      rw [found] at computed entry
      have missing : reply = .fail .enoent := by
        simp only [if_neg ordinary] at computed
        split at computed
        case isTrue =>
          obtain ⟨-, -, computed⟩ := Option.bind_eq_some_iff.mp computed
          cases computed
          rfl
        case isFalse =>
          cases computed
          rfl
      subst missing
      cases answers
      simp only [Request.operation, perform, entry, Request.seen]

theorem partition_explained (watching : Watching setting shahash state)
    (served : Request.serve shahash servernum state.dir state.store (.partition name) = some (.answered answer, left)) :
    Explains setting shahash state.store (meaning setting shahash state.store answer (.partition name)) left := by
  -- No name that stays is in the child, where the handler looks next.
  obtain ⟨reply, computed, same⟩ := Option.map_eq_some_iff.mp served
  simp only [Prod.mk.injEq] at same
  obtain ⟨answers, rfl⟩ := same
  cases stays : unmoved setting shahash name with
  | none =>
    simp only [meaning, Request.name, stays, Option.isSome_none, Bool.false_eq_true, if_false]
    exact explains_none rfl
  | some index =>
    have entry : watched setting shahash state.store name = state.store.find index name := watched_eq stays
    simp only [meaning, Request.name, stays, Option.isSome_some, if_true]
    apply explains_some
    obtain ⟨here, -⟩ := locality_unmoved watching.sound stays
    obtain ⟨routed, owner⟩ := locality_here.mp here
    simp only [Server.partition, routed, Option.bind_some] at computed
    rw [gotIndex, if_neg (not_not.mpr owner)] at computed
    cases found : state.store.find index name with
    | some object =>
      rw [found] at computed entry
      have present := Store.bucket_of_find (Option.isSome_of_eq_some found)
      simp only [present, if_true] at computed
      cases computed
      cases answers
      simp only [Request.operation, perform, entry, Option.isSome_some, if_true, Request.seen]
    | none =>
      rw [found] at computed entry
      dsimp only at computed
      have missing : reply = .fail .enoent := by
        split at computed
        case isFalse =>
          cases computed
          rfl
        case isTrue splitting =>
          obtain ⟨rfl, table⟩ := splitting_eq watching.sound splitting
          rw [table, setting.child, Option.bind_some, gotIndex, child_unmoved watching.sound stays, splitting] at computed
          split at computed
          case isTrue =>
            cases computed
            cases answers
          case isFalse =>
            have other : some setting.pindex ≠ some setting.cindex :=
              fun same => setting.cindex_ne_pindex (Option.some.inj same).symm
            simp only [if_neg other] at computed
            cases computed
            rfl
      subst missing
      cases answers
      simp only [Request.operation, perform, entry, Option.isSome_none, Bool.false_eq_true, if_false, Request.seen]

theorem request_explained (watching : Watching setting shahash state) {request : Request}
    (ordinary : Ordinary state (.request request))
    (served : request.serve shahash servernum state.dir state.store = some (.answered answer, left)) :
    Explains setting shahash state.store (meaning setting shahash state.store answer request) left := by
  cases request with
  | lookup name => exact lookup_explained watching ordinary served
  | partition name => exact partition_explained watching served
  | create name handle position => exact create_explained watching served
  | mkdir name handle position bucketError => exact mkdir_explained watching served
  | rename source name position => exact rename_explained watching served
  | remove name => exact remove_explained watching served

theorem removeEntry_explained (removal : Removal) (emptied : Bool) :
    Explains setting shahash store
      (if unmoved setting shahash removal.name = some removal.index then
        some (.remove removal.name emptied, .ofReply (removeEntry store removal emptied).1)
      else none) (removeEntry store removal emptied).2 := by
  unfold removeEntry
  split
  case isFalse moves =>
    apply explains_none
    cases removed : sysRemove emptied store removal.index removal.name with
    | error errno => rfl
    | ok after =>
      cases sysRemove_ok removed
      exact watched_unbind_other moves
  case isTrue stays =>
    apply explains_some
    have entry : watched setting shahash store removal.name = store.find removal.index removal.name := watched_eq stays
    cases found : store.find removal.index removal.name with
    | none =>
      rw [found] at entry
      simp only [sysRemove, found, perform, entry, Answer.ofReply]
    | some object =>
      rw [found] at entry
      by_cases occupied : (object.isdir && !emptied) = true
      · simp only [sysRemove, found, perform, entry, occupied, if_true, Answer.ofReply]
      · simp only [sysRemove, found, perform, entry, occupied, Bool.false_eq_true, if_false, Answer.ofReply,
          watched_unbind stays]

theorem depart_explained (index : Nat) (name : FileName) :
    Explains setting shahash store
      (if unmoved setting shahash name = some index then
        some (.depart name, if (store.find index name).isSome then .done else .fail .enoent)
      else none) (store.unbind index name) := by
  split
  case isFalse moves => exact explains_none (watched_unbind_other moves)
  case isTrue stays =>
    apply explains_some
    rw [watched_unbind stays]
    have entry : watched setting shahash store name = store.find index name := watched_eq stays
    cases found : store.find index name with
    | none =>
      rw [found] at entry
      have absent : Function.update (watched setting shahash store) name none = watched setting shahash store := by
        rw [← entry, Function.update_eq_self]
      simp only [perform, entry, Option.isSome_none, Bool.false_eq_true, if_false, absent]
    | some object =>
      rw [found] at entry
      simp only [perform, entry, Option.isSome_some, if_true]

theorem thread_explained {after : SplitState} (watching : Watching setting shahash state) {event : SplitEvent}
    (own : event.ofThread = true) (moved : SplitMove shahash servernum state event after) :
    Explains setting shahash state.store none after.store := by
  -- The thread makes and drops the child, and moves names that migrate.
  apply explains_none
  have rewrites := rewrites_of_move own moved
  generalize after.store = left at rewrites
  cases rewrites with
  | keep => rfl
  | make made thread absent =>
    apply watched_congr
    intro name index _
    exact find_empty absent
  | drop thread =>
    obtain ⟨-, rfl, rfl⟩ := watching.sound.phase.of_making (.inr thread)
    apply watched_congr
    intro name index stays
    exact Store.find_erase_of_ne (unmoved_ne_cindex stays)
  | move thread status =>
    obtain ⟨-, rfl, rfl⟩ := watching.sound.phase.of_working thread rfl
    rw [SplitSetting.migrationStatus, Option.some.injEq, decide_eq_true_iff] at status
    rw [watched_bind_other fun stays => unmoved_ne_cindex stays rfl, watched_unbind_other (unmoved_migrates status)]

end

/-! ### The names that stay, over a whole split -/

section
variable {state after : SplitState}

theorem Watching.move (watching : Watching setting shahash state) {event : SplitEvent}
    (moved : SplitMove shahash servernum state event after) : Watching setting shahash after where
  sound := watching.sound.step moved
  present := by
    have kept : ∀ {left : Store}, left.keys = state.store.keys → (left.bucket setting.pindex).isSome := by
      intro left keys
      rw [Store.bucket_isSome, keys, ← Store.bucket_isSome]
      exact watching.present
    cases moved with
    | makeMisplaced thread | makeInPlace thread =>
      obtain ⟨-, rfl, rfl⟩ := watching.sound.phase.of_making (.inl thread)
      rw [Store.bucket_put, if_neg setting.cindex_ne_pindex.symm]
      exact watching.present
    | dropChild thread =>
      obtain ⟨-, rfl, rfl⟩ := watching.sound.phase.of_making (.inr thread)
      rw [Store.bucket_erase, if_neg setting.cindex_ne_pindex.symm]
      exact watching.present
    | move => exact kept (Store.keys_bind.trans Store.keys_unbind)
    | bind => exact kept (Store.keys_bind.trans Source.keys_clear)
    | removeEntry | takeAway => exact kept Store.keys_unbind
    | _ => exact watching.present

/-- A handler that answers has taken its step in the machine of the split. -/
theorem respond_handle {Value : Type} {found : Value → Answer} {served : Option (Reply Value × Store)} {request : Request}
    {label : Option (Operation × Answer)} (free : state.thread.locked = false)
    (responded : (served.map fun result => (Served.ofReply (fun value => .answered (found value)) result.1, result.2)).map
      (respond setting shahash state request) = some (after, label)) :
    after = state ∨ handle state served = some after := by
  obtain ⟨answered, mapped, same⟩ := Option.map_eq_some_iff.mp responded
  obtain ⟨⟨reply, left⟩, rfl, rfl⟩ := Option.map_eq_some_iff.mp mapped
  have handled : handle state (some (reply, left)) = some { state with store := left } := by
    rw [handle, free]
    rfl
  cases reply with
  | again bitmap =>
    cases same
    exact Or.inl rfl
  | ok value =>
    cases same
    exact Or.inr handled
  | fail errno =>
    cases same
    exact Or.inr handled

theorem watchStep_split {act : Act} {label : Option (Operation × Answer)}
    (stepped : watchStep setting shahash state act = some (after, label)) :
    after = state ∨ ∃ event, splitStep shahash servernum state event = some after := by
  cases act with
  | thread event =>
    obtain ⟨-, stepped⟩ := Option.ite_none_right_eq_some.mp stepped
    obtain ⟨moved, ran, same⟩ := Option.map_eq_some_iff.mp stepped
    cases same
    exact Or.inr ⟨event, ran⟩
  | complete slot emptied =>
    refine Or.inr ⟨.removeEntry slot emptied, ?_⟩
    obtain ⟨removal, found, same⟩ := Option.bind_eq_some_iff.mp stepped
    cases same
    simp only [splitStep, found, Option.bind_eq_bind, Option.bind_some]
    rfl
  | depart index name =>
    refine Or.inr ⟨.takeAway index name, ?_⟩
    cases stepped
    rfl
  | request request =>
    obtain ⟨free, responded⟩ := Option.ite_none_left_eq_some.mp stepped
    have unlocked : state.thread.locked = false := Bool.eq_false_iff.mpr free
    cases request with
    | create name handle position =>
      exact (respond_handle unlocked responded).imp_right fun handled => ⟨.create name handle position, handled⟩
    | mkdir name handle position bucketError =>
      exact (respond_handle unlocked responded).imp_right fun handled =>
        ⟨.mkdir name handle position bucketError, handled⟩
    | rename source name position =>
      exact (respond_handle unlocked responded).imp_right fun handled => ⟨.rename source name position, handled⟩
    | lookup name | partition name =>
      obtain ⟨answered, mapped, same⟩ := Option.map_eq_some_iff.mp responded
      obtain ⟨reply, -, rfl⟩ := Option.map_eq_some_iff.mp mapped
      cases reply <;> cases same <;> exact Or.inl rfl
    | remove name =>
      obtain ⟨answered, mapped, same⟩ := Option.map_eq_some_iff.mp responded
      obtain ⟨⟨reply, left⟩, looked, rfl⟩ := Option.map_eq_some_iff.mp mapped
      cases reply with
      | again bitmap =>
        cases same
        exact Or.inl rfl
      | ok removal =>
        cases same
        refine Or.inr ⟨.removeLookup name, ?_⟩
        simp only [splitStep, unlocked, Bool.false_eq_true, if_false, looked]
      | fail errno =>
        cases same
        -- The first half of a remove leaves the tree alone.
        have kept : left = state.store := by
          rcases inBucket_some looked with ⟨kept, -⟩ | ⟨index, -, called⟩
          · exact kept
          · split at called <;> cases called
            rfl
        subst kept
        exact Or.inl rfl

theorem watchStep_explained (watching : Watching setting shahash state) {act : Act} (ordinary : Ordinary state act)
    {label : Option (Operation × Answer)} (stepped : watchStep setting shahash state act = some (after, label)) :
    Explains setting shahash state.store label after.store := by
  cases act with
  | thread event =>
    obtain ⟨own, stepped⟩ := Option.ite_none_right_eq_some.mp stepped
    obtain ⟨moved, ran, same⟩ := Option.map_eq_some_iff.mp stepped
    cases same
    exact thread_explained watching own (splitStep_move ran)
  | complete slot emptied =>
    obtain ⟨removal, -, same⟩ := Option.bind_eq_some_iff.mp stepped
    cases same
    exact removeEntry_explained removal emptied
  | depart index name =>
    cases stepped
    exact depart_explained index name
  | request request =>
    obtain ⟨-, responded⟩ := Option.ite_none_left_eq_some.mp stepped
    obtain ⟨⟨served, left⟩, computed, same⟩ := Option.map_eq_some_iff.mp responded
    cases served with
    | again bitmap | removing removal =>
      cases same
      exact explains_none rfl
    | answered answer =>
      cases same
      exact request_explained watching ordinary computed

end

end

/-- The name `b` migrates, and all other names stay. -/
def onlyBMigrates (name : FileName) : Digest := Vector.replicate 20 (if name = ['b'] then 1#8 else 0#8)

/-- The file `a` is made while the split moves `b`, looked up before it is over, and removed after it. -/
def aroundMove : List Act :=
  [.thread (.begin_ false), .thread (.makeChild .inPlace 1), .request (.create ['a'] 7 0), .thread .readdir,
    .thread (.moveNext true 0), .thread (.moveNext true 0), .thread .endBatch, .request (.lookup ['a']),
    .thread .readdir, .thread (.moveNext true 0), .thread .endBatch, .thread .lockAgain, .thread .finish,
    .request (.remove ['a']), .complete 0 true]

theorem aroundMove_history :
    (history (watchStep unsplit onlyBMigrates) (unsplitStart (Listing.put 0 ['b'] ⟨9, false⟩ ∅)) aroundMove).map Prod.snd =
      some [(.create ['a'] 7, .ref (.object 7)), (.lookup ['a'], .ref (.object 7)), (.remove ['a'] true, .done)] := by
  decide +kernel

end SkyeFS.Namespace
