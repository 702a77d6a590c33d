import SkyeFS.Server.SplitNames
import SkyeFS.Server.SplitThread

/-! A client that lists a directory while one of its partitions splits.

`skye_ll_opendir` reads the buckets from PVFS without asking a server: `pvfs_readdir`
over the directory, and for every bucket it lists `pvfs_readdir` over that bucket. No
lock keeps the split thread from moving entries between two page reads.

The inner call has the handle of the bucket, and here its name. A bucket keeps its handle
for as long as it is there, so that the two differ only for a bucket that is dropped and
made again after its page was read, in the middle of the listing.
-/

set_option autoImplicit false

namespace SkyeFS.Client

open Index Pvfs Server Foundation

/-- `pvfs_dirent_incount` of `pvfs_readdir`. -/
def readdirIncount : Nat := 256

/-- Where the two nested loops stand. A position is the number of names read so far, for which the
token of the last reply stands. -/
inductive Opendir where
  | outer (next : Nat)
  -- In the loop over `outcount` buckets, of which `rest` are to be read.
  | page (next outcount : Nat) (rest : List FileName)
  -- Before a page of the bucket.
  | inner (next outcount : Nat) (rest : List FileName) (bucket : FileName) (position : Nat)
  | done
deriving DecidableEq

/-- One page read or one turn of the loop over the buckets, with the names that are put in the buffer. -/
def opendirStep (store : Store) : Opendir → Option (Opendir × List FileName)
  | .outer next =>
      let page := (store.keys.drop next).take readdirIncount
      some (.page (next + page.length) page.length page, [])
  | .page next outcount [] => some (if outcount = readdirIncount then .outer next else .done, [])
  | .page next outcount (name :: rest) =>
      if name.head? = some 'p' then some (.inner next outcount rest name 0, [])
      else some (.page next outcount rest, [])
  | .inner next outcount rest bucket position =>
      match store.lookup bucket with
      -- the error of the inner call ends the loop over the page
      | none => some (.page next outcount [], [])
      | some content =>
          let page := (content.keys.drop position).take readdirIncount
          let client := if page.length = readdirIncount then
              .inner next outcount rest bucket (position + page.length)
            else .page next outcount rest
          some (client, page)
  | .done => none

structure OpendirState where
  split : SplitState
  client : Opendir
  buffer : List FileName

inductive OpendirEvent where
  -- A step of `do_split`.
  | split (event : SplitEvent)
  | client

namespace Opendir

def ahead (keys : List FileName) : Opendir → List FileName
  | .outer next => keys.drop next
  | .page next _ rest | .inner next _ rest _ _ => rest ++ keys.drop next
  | .done => []

def current : Opendir → Option FileName
  | .inner _ _ _ bucket _ => some bucket
  | .outer _ | .page _ _ _ | .done => none

/-- Before the first page read or after the last. -/
def Apart (client : Opendir) : Prop := client = .outer 0 ∨ client = .done

instance (client : Opendir) : Decidable client.Apart := inferInstanceAs (Decidable (_ ∨ _))

end Opendir

section
variable (shahash : FileName → Digest) (servernum : Nat)

def listingStep (state : OpendirState) : OpendirEvent → Option OpendirState
  | .split event =>
      if event.ofThread then (splitStep shahash servernum state.split event).map ({ state with split := · }) else none
  | .client => do
      let (client, names) ← opendirStep state.split.store state.client
      some { state with client, buffer := state.buffer ++ names }

/-- An entry is moved only if neither of the two buckets is being read, and both are still to be read or
none is. The child's bucket is not made or dropped in the middle of the listing. -/
def Spares (state : OpendirState) : OpendirEvent → Prop
  | .split (.moveNext success _) =>
      match state.split.thread with
      | .batch pindex cindex _ _ _ (name :: _) =>
          success = true → gigaFileMigrationStatus shahash name cindex = some true →
            (bucketName pindex ∈ state.client.ahead state.split.store.keys ↔
              bucketName cindex ∈ state.client.ahead state.split.store.keys) ∧
            state.client.current ≠ some (bucketName pindex) ∧ state.client.current ≠ some (bucketName cindex)
      | _ => True
  | .split (.makeChild outcome _) =>
      match state.split.thread with
      | .making _ cindex => outcome ≠ .failed → (state.split.store.bucket cindex).isNone → state.client.Apart
      | _ => True
  | .split (.dropChild success) => success = true → state.client.Apart
  | .split _ | .client => True

instance decidableSpares (state : OpendirState) (event : OpendirEvent) : Decidable (Spares shahash state event) := by
  unfold Spares
  split
  · split <;> infer_instance
  · split <;> infer_instance
  all_goals infer_instance

end

def bucketNames (store : Store) (bucket : FileName) : List FileName := ((store.lookup bucket).map AList.keys).getD []

namespace Opendir

/-- Where the loops stand in the listing of the buckets. -/
def Follows (keys : List FileName) : Opendir → Prop
  | .outer _ | .done => True
  | .page next outcount rest =>
      (∃ read, read ++ rest = keys.take next) ∧ (outcount ≠ readdirIncount → keys.length ≤ next)
  | .inner next outcount rest bucket _ =>
      (∃ read, read ++ bucket :: rest = keys.take next) ∧ (outcount ≠ readdirIncount → keys.length ≤ next)

/-- How often an entry is in the buffer that stands in the bucket, among its names. -/
def seen (keys names : List FileName) (bucket name : FileName) (client : Opendir) : Nat :=
  if bucket ∈ client.ahead keys then 0
  else
    match client with
    | .inner _ _ _ reading position => if bucket = reading then (names.take position).count name else 1
    | .outer _ | .page _ _ _ | .done => 1

variable {keys names : List FileName} {bucket name : FileName}

theorem take_append_drop_page {listing : List FileName} {start count : Nat} :
    (listing.drop start).take count ++ listing.drop (start + ((listing.drop start).take count).length) =
      listing.drop start := by
  rw [← List.drop_drop, List.length_take]
  by_cases short : (listing.drop start).length ≤ count
  · rw [List.take_of_length_le short, Nat.min_eq_right short, List.drop_length, List.append_nil]
  · rw [Nat.min_eq_left (by omega), List.take_append_drop]

theorem follows_mem {next outcount position : Nat} {rest : List FileName}
    (follows : Follows keys (.inner next outcount rest bucket position)) : bucket ∈ keys := by
  obtain ⟨⟨read, split⟩, -⟩ := follows
  refine List.mem_of_mem_take (i := next) ?_
  rw [← split]
  simp

theorem follows_notMem {next outcount position : Nat} {rest : List FileName} (distinct : keys.Nodup)
    (follows : Follows keys (.inner next outcount rest bucket position)) :
    bucket ∉ ahead keys (.inner next outcount rest bucket position) := by
  obtain ⟨⟨read, split⟩, -⟩ := follows
  have whole : read ++ bucket :: (rest ++ keys.drop next) = keys := by
    rw [← List.cons_append, ← List.append_assoc, split, List.take_append_drop]
  rw [← whole] at distinct
  exact (List.nodup_cons.mp (List.nodup_append.mp distinct).2.1).1

theorem seen_of_not_reading {client : Opendir} (elsewhere : client.current ≠ some bucket) :
    client.seen keys names bucket name = if bucket ∈ client.ahead keys then 0 else 1 := by
  cases client with
  | inner next outcount rest reading position =>
    have other : bucket ≠ reading := fun same => elsewhere (congrArg some same.symm)
    simp only [seen, if_neg other]
  | _ => rfl

theorem seen_between {client : Opendir} (between : client.current = none) :
    client.seen keys names bucket name = if bucket ∈ client.ahead keys then 0 else 1 := by
  refine seen_of_not_reading ?_
  rw [between]
  nofun

theorem seen_outer {next : Nat} :
    seen keys names bucket name (.page (next + ((keys.drop next).take readdirIncount).length)
        ((keys.drop next).take readdirIncount).length ((keys.drop next).take readdirIncount)) =
      seen keys names bucket name (.outer next) := by
  rw [seen_between rfl, seen_between rfl, ahead, ahead, take_append_drop_page]

theorem follows_outer {next : Nat} :
    Follows keys (.page (next + ((keys.drop next).take readdirIncount).length)
      ((keys.drop next).take readdirIncount).length ((keys.drop next).take readdirIncount)) := by
  refine ⟨⟨keys.take next, ?_⟩, fun short => ?_⟩
  · rw [List.take_add, List.length_take]
    congr 1
    by_cases long : readdirIncount ≤ (keys.drop next).length
    · rw [Nat.min_eq_left long]
    · rw [Nat.min_eq_right (by omega), List.take_of_length_le (by omega), List.take_length]
  · rw [List.length_take, List.length_drop] at short ⊢
    omega

theorem seen_lastPage {next outcount : Nat} (follows : Follows keys (.page next outcount [])) :
    seen keys names bucket name (if outcount = readdirIncount then .outer next else .done) =
      seen keys names bucket name (.page next outcount []) := by
  split
  · rw [seen_between rfl, seen_between rfl]
    rfl
  · rename_i short
    rw [seen_between rfl, seen_between rfl, ahead, ahead, List.drop_eq_nil_of_le (follows.2 short)]
    rfl

theorem seen_enter {next outcount : Nat} {rest : List FileName} {first : FileName} (distinct : keys.Nodup)
    (follows : Follows keys (.inner next outcount rest first 0)) :
    seen keys names bucket name (.inner next outcount rest first 0) =
      seen keys names bucket name (.page next outcount (first :: rest)) := by
  have before : seen keys names bucket name (.page next outcount (first :: rest)) =
      if bucket ∈ first :: rest ++ keys.drop next then 0 else 1 := rfl
  rw [before, seen]
  by_cases same : bucket = first
  · subst same
    rw [if_neg (follows_notMem distinct follows)]
    simp
  · simp [ahead, same]

section
variable {store : Store} {index next outcount position : Nat} {rest : List FileName} {reading : FileName}
  {content : Bucket}

theorem count_page {count : Nat} (distinct : names.Nodup) (member : name ∈ names)
    (short : ((names.drop position).take count).length ≠ count) :
    (names.take position).count name + ((names.drop position).take count).count name = 1 := by
  rw [List.length_take] at short
  have last : (names.drop position).take count = names.drop position := List.take_of_length_le (by omega)
  rw [last, ← List.count_append, List.take_append_drop]
  exact List.count_eq_one_of_mem distinct member

theorem seen_read (distinct : keys.Nodup) (follows : Follows keys (.inner next outcount rest reading position))
    (same : bucket = reading → content.keys = names) (member : name ∈ names)
    (only : name ∈ content.keys → bucket = reading) :
    seen keys names bucket name
        (if ((content.keys.drop position).take readdirIncount).length = readdirIncount then
          .inner next outcount rest reading (position + ((content.keys.drop position).take readdirIncount).length)
        else .page next outcount rest) =
      seen keys names bucket name (.inner next outcount rest reading position) +
        ((content.keys.drop position).take readdirIncount).count name := by
  by_cases here : bucket = reading
  · subst here
    obtain rfl := same rfl
    have absent : bucket ∉ rest ++ keys.drop next := follows_notMem distinct follows
    have reads : ∀ read, seen keys content.keys bucket name (.inner next outcount rest bucket read) =
        (content.keys.take read).count name := by
      intro read
      rw [seen, ahead, if_neg absent]
      exact if_pos rfl
    rw [reads]
    split
    · rename_i full
      rw [full, reads, List.take_add, List.count_append]
    · rename_i short
      rw [count_page content.keys_nodup member short, seen_between rfl]
      exact if_neg absent
  · -- The names of another bucket.
    have others : ((content.keys.drop position).take readdirIncount).count name = 0 := by
      refine List.count_eq_zero_of_not_mem fun present => here (only ?_)
      exact List.mem_of_mem_drop (List.mem_of_mem_take present)
    rw [others, Nat.add_zero]
    split
    · simp only [seen, if_neg here]
      rfl
    · simp only [seen, if_neg here]
      rfl

theorem opendirStep_follows {client after : Opendir} {added : List FileName} (follows : client.Follows store.keys)
    (stepped : opendirStep store client = some (after, added)) : after.Follows store.keys := by
  cases client with
  | outer next =>
    cases stepped
    exact follows_outer
  | page next outcount rest =>
    cases rest with
    | nil =>
      cases stepped
      split <;> trivial
    | cons first rest =>
      rw [opendirStep] at stepped
      split at stepped
      · cases stepped
        exact follows
      · cases stepped
        obtain ⟨⟨read, parts⟩, last⟩ := follows
        exact ⟨⟨read ++ [first], by rw [List.append_assoc]; exact parts⟩, last⟩
  | inner next outcount rest reading position =>
    obtain ⟨⟨read, parts⟩, last⟩ := follows
    have behind : ∃ read, read ++ rest = store.keys.take next :=
      ⟨read ++ [reading], by rw [List.append_assoc]; exact parts⟩
    rw [opendirStep] at stepped
    split at stepped
    · cases stepped
      exact ⟨⟨store.keys.take next, List.append_nil _⟩, last⟩
    · cases stepped
      split
      · exact ⟨⟨read, parts⟩, last⟩
      · exact ⟨behind, last⟩
  | done => cases stepped

/-- One step of the client, for an entry that stands in one bucket only. -/
theorem opendirStep_seen {client after : Opendir} {added : List FileName}
    (named : ∀ bucket ∈ store.keys, ∃ index, bucket = bucketName index) (follows : client.Follows store.keys)
    (found : (store.find index name).isSome) (only : ∀ other, (store.find other name).isSome → other = index)
    (stepped : opendirStep store client = some (after, added)) :
    after.seen store.keys (store.names index) (bucketName index) name =
      client.seen store.keys (store.names index) (bucketName index) name + added.count name := by
  cases client with
  | outer next =>
    cases stepped
    exact seen_outer
  | page next outcount rest =>
    cases rest with
    | nil =>
      cases stepped
      exact seen_lastPage follows
    | cons first rest =>
      have entered : Follows store.keys (.inner next outcount rest first 0) := follows
      have listed : first ∈ store.keys := follows_mem entered
      obtain ⟨number, rfl⟩ := named first listed
      simp only [opendirStep, bucketName, List.head?_cons, if_true] at stepped
      cases stepped
      exact seen_enter store.keys_nodup follows
  | inner next outcount rest reading position =>
    have listed : reading ∈ store.keys := follows_mem follows
    obtain ⟨number, rfl⟩ := named reading listed
    obtain ⟨content, held⟩ := Option.isSome_iff_exists.mp (Store.bucket_isSome.mpr listed)
    have lookup : store.lookup (bucketName number) = some content := held
    simp only [opendirStep, lookup, Option.some.injEq, Prod.mk.injEq] at stepped
    obtain ⟨rfl, rfl⟩ := stepped
    have contents : store.names number = content.keys := Store.names_of_bucket held
    refine seen_read store.keys_nodup follows (fun same => ?_) (Store.mem_names.mpr found) fun present => ?_
    · rw [← contents, bucketName_injective same]
    · rw [← contents, Store.mem_names] at present
      rw [only number present]
  | done => cases stepped

end

/-! ### The loops end -/

/-- What decreases: the names of the directory behind the page, the state of the outer loop, the rest of the page, and
the rest of the bucket. -/
def rank (store : Store) : Opendir → Nat × Nat × Nat × Nat
  | .outer next => (store.keys.length - next, 2, 0, 0)
  | .page next outcount rest =>
      (store.keys.length - next, if outcount = readdirIncount then 3 else 1, 2 * rest.length, 0)
  | .inner next outcount rest bucket position =>
      (store.keys.length - next, if outcount = readdirIncount then 3 else 1, 2 * rest.length + 1,
        (bucketNames store bucket).length - position)
  | .done => (0, 0, 0, 0)

/-- The places compare by rank, the first number that differs deciding. -/
def Before (store : Store) (first second : Opendir) : Prop :=
  Prod.Lex (· < ·) (Prod.Lex (· < ·) (Prod.Lex (· < ·) (· < ·))) (first.rank store) (second.rank store)

theorem before_wellFounded (store : Store) : WellFounded (Before store) :=
  InvImage.wf (rank store) <|
    Nat.lt_wfRel.wf.prod_lex (Nat.lt_wfRel.wf.prod_lex (Nat.lt_wfRel.wf.prod_lex Nat.lt_wfRel.wf))

theorem before_opendirStep {store : Store} {client after : Opendir} {added : List FileName}
    (stepped : opendirStep store client = some (after, added)) : Before store after client := by
  have positive : 0 < readdirIncount := by decide
  cases client with
  | outer next =>
    cases stepped
    simp only [Before, rank, Prod.lex_def, List.length_take, List.length_drop]
    -- Only the page behind the last name does not get any further, and it is not full.
    split <;> omega
  | page next outcount rest =>
    cases rest with
    | nil =>
      cases stepped
      split
      · rename_i full
        simp only [Before, rank, Prod.lex_def, if_pos full, true_and]
        omega
      · rename_i short
        simp only [Before, rank, Prod.lex_def, if_neg short]
        omega
    | cons first rest =>
      rw [opendirStep] at stepped
      split at stepped
      all_goals
        cases stepped
        simp only [Before, rank, Prod.lex_def, List.length_cons, true_and]
        omega
  | inner next outcount rest bucket position =>
    rw [opendirStep] at stepped
    split at stepped
    · cases stepped
      simp only [Before, rank, Prod.lex_def, List.length_nil, true_and]
      omega
    · rename_i content found
      have names : (bucketNames store bucket).length = content.keys.length := by rw [bucketNames, found]; rfl
      cases stepped
      split
      · rename_i full
        rw [List.length_take, List.length_drop] at full
        simp only [Before, rank, Prod.lex_def, List.length_take, List.length_drop, names, true_and]
        omega
      · simp only [Before, rank, Prod.lex_def, true_and]
        omega
  | done => cases stepped

theorem opendirStep_eq_none {store : Store} {client : Opendir} (stops : opendirStep store client = none) :
    client = .done := by
  cases client with
  | done => rfl
  | outer next => cases stops
  | page next outcount rest =>
    cases rest with
    | nil => cases stops
    | cons first rest =>
      rw [opendirStep] at stops
      split at stops <;> cases stops
  | inner next outcount rest bucket position =>
    rw [opendirStep] at stops
    split at stops <;> cases stops

end Opendir

/-- The entry stands in one bucket, and is in the buffer as often as the client has read it there. -/
structure OpendirState.Sound (name : FileName) (state : OpendirState) : Prop where
  named : ∀ bucket ∈ state.split.store.keys, ∃ index, bucket = bucketName index
  vacant : state.split.Vacant name
  follows : state.client.Follows state.split.store.keys
  placed : ∃ index, (state.split.store.find index name).isSome ∧
    (∀ other, (state.split.store.find other name).isSome → other = index) ∧
    state.buffer.count name =
      state.client.seen state.split.store.keys (state.split.store.names index) (bucketName index) name

namespace OpendirState
variable {shahash : FileName → Digest} {servernum : Nat} {name : FileName} {state after : OpendirState}

theorem Sound.client (sound : state.Sound name) (stepped : listingStep shahash servernum state .client = some after) :
    after.Sound name := by
  obtain ⟨⟨client, added⟩, read, stepped⟩ := Option.bind_eq_some_iff.mp stepped
  cases stepped
  obtain ⟨index, found, only, count⟩ := sound.placed
  have follows := Opendir.opendirStep_follows sound.follows read
  have seen := Opendir.opendirStep_seen sound.named sound.follows found only read
  refine ⟨sound.named, sound.vacant, follows, index, found, only, ?_⟩
  rw [List.count_append, count, seen]

theorem seen_apart {client : Opendir} {keys names : List FileName} {bucket : FileName}
    (apart : client.Apart) (listed : bucket ∈ keys) :
    client.seen keys names bucket name = if client = .outer 0 then 0 else 1 := by
  -- A client that has read nothing, or everything, does not mind a bucket that is made or dropped.
  rcases apart with rfl | rfl
  · rw [Opendir.seen_between rfl, Opendir.ahead, List.drop_zero, if_pos listed, if_pos rfl]
  · rw [Opendir.seen_between rfl]
    rfl

theorem mem_keys_of_find {store : Store} {index : Nat} (found : (store.find index name).isSome) :
    bucketName index ∈ store.keys := Store.bucket_isSome.mp (Store.bucket_of_find found)

theorem Sound.rebuild {split : SplitState} (sound : state.Sound name)
    (apart : state.client.Apart)
    (named : ∀ bucket ∈ split.store.keys, ∃ index, bucket = bucketName index) (vacant : split.Vacant name)
    (stays : ∀ index, split.store.find index name = state.split.store.find index name) :
    ({ state with split } : OpendirState).Sound name := by
  obtain ⟨index, found, only, count⟩ := sound.placed
  have still : (split.store.find index name).isSome := by
    rw [stays]
    exact found
  refine ⟨named, vacant, ?_, index, still, fun other => ?_, ?_⟩
  · rcases apart with client | client <;> simp only [client, Opendir.Follows]
  · rw [stays]
    exact only other
  · rw [count, seen_apart apart (mem_keys_of_find found), seen_apart apart (mem_keys_of_find still)]

theorem Sound.move {split : SplitState} {pindex cindex position : Nat} {entry : FileName} {object : Object}
    (sound : state.Sound name) (vacant : split.Vacant name)
    (moved : split.store = (state.split.store.unbind pindex entry).bind position cindex entry object)
    (found : state.split.store.find pindex entry = some object) (present : (state.split.store.bucket cindex).isSome)
    (both : bucketName pindex ∈ state.client.ahead state.split.store.keys ↔
      bucketName cindex ∈ state.client.ahead state.split.store.keys)
    (source : state.client.current ≠ some (bucketName pindex))
    (target : state.client.current ≠ some (bucketName cindex)) :
    ({ state with split } : OpendirState).Sound name := by
  -- An entry is moved, which may be the one that is followed.
  have keys : split.store.keys = state.split.store.keys := by rw [moved, Store.keys_bind, Store.keys_unbind]
  obtain ⟨index, located, only, count⟩ := sound.placed
  refine ⟨?_, vacant, ?_, ?_⟩
  · rw [keys]
    exact sound.named
  · rw [keys]
    exact sound.follows
  · dsimp only
    rw [keys, moved]
    by_cases same : entry = name
    · -- The entry itself: its bucket was to be read exactly if the new one is.
      subst same
      obtain rfl := only pindex (Option.isSome_of_eq_some found)
      refine ⟨cindex, ?_, fun other => ?_, ?_⟩
      · rw [find_moved present, if_pos rfl]
        rfl
      · rw [find_moved present]
        intro isSome
        by_contra different
        rw [if_neg different] at isSome
        split at isSome
        · cases isSome
        · rename_i elsewhere
          exact elsewhere (only other isSome)
      · rw [count, Opendir.seen_of_not_reading source, Opendir.seen_of_not_reading target]
        simp only [both]
    · refine ⟨index, ?_, fun other => ?_, ?_⟩
      · rw [find_moved_of_ne same]
        exact located
      · rw [find_moved_of_ne same]
        exact only other
      · rw [count]
        by_cases reading : state.client.current = some (bucketName index)
        · -- The bucket that is being read keeps its names.
          have notSource : index ≠ pindex := fun equal => source (equal ▸ reading)
          have notTarget : index ≠ cindex := fun equal => target (equal ▸ reading)
          rw [Store.names_bind_of_ne notTarget, Store.names_unbind_of_ne notSource]
        · rw [Opendir.seen_of_not_reading reading, Opendir.seen_of_not_reading reading]

theorem Sound.split {event : SplitEvent} {split : SplitState} (sound : state.Sound name)
    (spares : Spares shahash state (.split event)) (vacant : split.Vacant name)
    (rewrites : Rewrites shahash state.split event split.store) : ({ state with split } : OpendirState).Sound name := by
  generalize rewritten : split.store = store at rewrites
  cases rewrites with
  | keep =>
    refine ⟨?_, vacant, ?_, ?_⟩ <;> dsimp only <;> rw [rewritten]
    · exact sound.named
    · exact sound.follows
    · exact sound.placed
  | @make _ pindex cindex position made thread absent =>
    simp only [Spares, thread] at spares
    refine sound.rebuild (spares made (Option.isNone_iff_eq_none.mpr absent)) (fun bucket member => ?_) vacant fun index => ?_
    · rw [rewritten] at member
      rcases Listing.mem_put.mp (AList.mem_keys.mpr member) with rfl | older
      · exact ⟨cindex, rfl⟩
      · exact sound.named bucket (AList.mem_keys.mp older)
    · rw [rewritten]
      exact find_empty absent
  | drop thread =>
    refine sound.rebuild (spares rfl) (fun bucket member => ?_) vacant fun index => ?_
    · rw [rewritten] at member
      exact sound.named bucket (Listing.keys_erase_sublist.subset member)
    · rw [rewritten]
      exact find_dropped_empty (sound.vacant thread)
  | move thread migrates found present =>
    simp only [Spares, thread] at spares
    obtain ⟨both, source, target⟩ := spares trivial migrates
    exact sound.move vacant rewritten found present both source target

theorem Sound.step {event : OpendirEvent} (sound : state.Sound name) (spares : Spares shahash state event)
    (stepped : listingStep shahash servernum state event = some after) : after.Sound name := by
  cases event with
  | split event =>
    simp only [listingStep] at stepped
    split at stepped
    · rename_i own
      obtain ⟨split, moved, rfl⟩ := Option.map_eq_some_iff.mp stepped
      have move := splitStep_move moved
      exact sound.split spares (vacant_of_move sound.vacant own move) (rewrites_of_move own move)
    · cases stepped
  | client => exact sound.client stepped

end OpendirState

section
variable {shahash : FileName → Digest} {servernum : Nat} {name : FileName}

/-- A listing, with a split of any partition of the directory by any server at any point. -/
theorem listed_once {start state : OpendirState} {index : Nat}
    (named : ∀ bucket ∈ start.split.store.keys, ∃ index, bucket = bucketName index)
    (vacant : start.split.Vacant name) (begins : start.client = .outer 0) (empty : start.buffer = [])
    (found : (start.split.store.find index name).isSome)
    (unique : ∀ other, (start.split.store.find other name).isSome → other = index)
    (reached : Reaches (listingStep shahash servernum) (Spares shahash) start state)
    (finished : state.client = .done) : state.buffer.count name = 1 := by
  have sound : start.Sound name := by
    refine ⟨named, vacant, ?_, index, found, unique, ?_⟩
    · simp only [begins, Opendir.Follows]
    · rw [empty, OpendirState.seen_apart (Or.inl begins) (OpendirState.mem_keys_of_find found), if_pos begins]
      rfl
  obtain ⟨place, -, -, count⟩ :=
    (reached.invariant sound fun _ _ _ before spares stepped => before.step spares stepped).placed
  rw [count, finished]
  rfl

def Continues (shahash : FileName → Digest) (servernum : Nat) (state after : OpendirState) : Prop :=
  after.split = state.split ∧ Reaches (listingStep shahash servernum) (fun _ event => event = .client) state after

theorem Continues.trans {first second third : OpendirState} (one : Continues shahash servernum first second)
    (two : Continues shahash servernum second third) : Continues shahash servernum first third :=
  ⟨two.1.trans one.1, one.2.trans two.2⟩

theorem continues_step {state : OpendirState} {client : Opendir} {names : List FileName}
    (stepped : opendirStep state.split.store state.client = some (client, names)) :
    Continues shahash servernum state { state with client, buffer := state.buffer ++ names } := by
  refine ⟨rfl, Reaches.here.next rfl ?_⟩
  simp only [listingStep, stepped]
  rfl

/-- From any point on, a client that is left alone finishes its listing. -/
theorem opendir_ends (state : OpendirState) :
    ∃ after, Continues shahash servernum state after ∧ after.client = .done := by
  obtain ⟨split, client, buffer⟩ := state
  induction client using (Opendir.before_wellFounded split.store).induction generalizing buffer with
  | _ client ih =>
    cases read : opendirStep split.store client with
    | none => exact ⟨_, ⟨rfl, .here⟩, Opendir.opendirStep_eq_none read⟩
    | some page =>
      obtain ⟨after, further, ends⟩ := ih page.1 (Opendir.before_opendirStep read) (buffer ++ page.2)
      exact ⟨after, (continues_step read).trans further, ends⟩

end

/-- A directory with the file `a`, a client that opens it, and a split of its only partition. -/
def openedSplit : OpendirState where
  split := unsplitStart (AList.singleton ['a'] ⟨7, false⟩)
  client := .outer 0
  buffer := []

/-- The split thread makes the child's bucket at the given position. -/
def makesChild (position : Nat) : List OpendirEvent := [.split (.begin_ false), .split (.makeChild .inPlace position)]

def movesEntry : List OpendirEvent := [.split .readdir, .split (.moveNext true 0)]

/-- The client reads the first bucket of the two before the entry is moved, and the second one after. -/
def crossedListing (position : Nat) : List OpendirEvent :=
  makesChild position ++ List.replicate 3 .client ++ movesEntry ++ List.replicate 3 .client

/-- The file is listed twice if PVFS lists the child's bucket last, and not at all if it lists it first. -/
theorem crossed_listing_miscounts :
    (∃ state, execute (listingStep allMigrate 0) openedSplit (crossedListing 1) = some state ∧
      state.client = .done ∧ state.buffer.count ['a'] = 2) ∧
    ∃ state, execute (listingStep allMigrate 0) openedSplit (crossedListing 0) = some state ∧
      state.client = .done ∧ state.buffer.count ['a'] = 0 := by
  have twice : (execute (listingStep allMigrate 0) openedSplit (crossedListing 1)).map (fun state =>
      (state.client, state.buffer.count ['a'])) = some (.done, 2) := by decide +kernel
  have never : (execute (listingStep allMigrate 0) openedSplit (crossedListing 0)).map (fun state =>
      (state.client, state.buffer.count ['a'])) = some (.done, 0) := by decide +kernel
  obtain ⟨first, firstRun, firstSeen⟩ := Option.map_eq_some_iff.mp twice
  obtain ⟨second, secondRun, secondSeen⟩ := Option.map_eq_some_iff.mp never
  simp only [Prod.mk.injEq] at firstSeen secondSeen
  exact ⟨⟨first, firstRun, firstSeen⟩, second, secondRun, secondSeen⟩

/-- The entry is moved before the client reads either bucket. -/
def earlyMove : List OpendirEvent := makesChild 1 ++ movesEntry ++ List.replicate 6 .client

theorem listed_once_early_move : ∃ state, execute (listingStep allMigrate 0) openedSplit earlyMove = some state ∧
    (state.split.store.find 1 ['a']).isSome ∧ state.buffer.count ['a'] = 1 := by
  have runs : (execute (listingStep allMigrate 0) openedSplit earlyMove).map (fun state =>
      (state.client, (state.split.store.find 1 ['a']).isSome)) = some (.done, true) := by decide +kernel
  obtain ⟨state, executed, observed⟩ := Option.map_eq_some_iff.mp runs
  obtain ⟨finished, moved⟩ := Prod.mk.inj observed
  have reached : Reaches (listingStep allMigrate 0) (Spares allMigrate) openedSplit state :=
    Reaches.of_execute executed (by decide +kernel)
  have named : ∀ bucket ∈ openedSplit.split.store.keys, ∃ index, bucket = bucketName index := by
    intro bucket member
    exact ⟨0, List.mem_singleton.mp member⟩
  have unique : ∀ other, (openedSplit.split.store.find other ['a']).isSome → other = 0 := by
    intro other isSome
    by_contra different
    rw [Store.find, openedSplit, bucket_unsplitStart different] at isSome
    cases isSome
  have vacant : openedSplit.split.Vacant ['a'] := by
    intro pindex cindex misplaced
    cases misplaced
  refine ⟨state, executed, moved, ?_⟩
  exact listed_once named vacant rfl rfl (by decide +kernel) unique reached finished

end SkyeFS.Client
