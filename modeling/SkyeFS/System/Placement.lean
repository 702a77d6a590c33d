import SkyeFS.System.Flat
import SkyeFS.Cluster.Agreement

/-! Entries in the buckets of their partitions, and what the handlers do to the map.

Every entry is in the bucket of the deepest partition that its name leads to. A server
without a split under way makes its PVFS call in that bucket, or redirects the client.
So each call is an operation of the map, and a whole split is none.
-/

set_option autoImplicit false

namespace SkyeFS.Namespace

open Index Pvfs Server Cluster Foundation Foundation.SuffixTree

theorem findSome_eq {Key Value : Type} {search : Key → Option Value} {keys : List Key} {value : Option Value}
    (agree : ∀ key ∈ keys, search key = none ∨ search key = value)
    (hit : value = none ∨ ∃ key ∈ keys, search key = value) : keys.findSome? search = value := by
  cases found : keys.findSome? search with
  | none =>
    rcases hit with nothing | ⟨key, member, same⟩
    · exact nothing.symm
    · exact (List.findSome?_eq_none_iff.mp found key member).symm.trans same
  | some first =>
    obtain ⟨key, member, same⟩ := List.exists_of_findSome?_eq_some found
    rcases agree key member with nothing | every
    · cases nothing.symm.trans same
    · exact same.symm.trans every

/-! ### Entries in their place -/

/-- The buckets are those of the partitions, and every entry is in the bucket of its name. -/
structure Kept (shahash : FileName → Digest) (all : Finset Nat) (store : Store) : Prop where
  root : 0 ∈ all
  listed : Buckets store.keys
  buckets : ∀ index, bucketName index ∈ store.keys ↔ index ∈ all
  home : ∀ index name, (store.find index name).isSome → Deepest all (hashNumber shahash name) index

section
variable {shahash : FileName → Digest} {all : Finset Nat} {store : Store} (kept : Kept shahash all store)
include kept

theorem Kept.present {index : Nat} (member : index ∈ all) : (store.bucket index).isSome :=
  Store.bucket_isSome.mpr ((kept.buckets index).mpr member)

theorem Kept.absent {index : Nat} (missing : index ∉ all) (name : FileName) : store.find index name = none := by
  by_contra held
  exact missing (kept.home index name (Option.isSome_iff_ne_none.mpr held)).mem

theorem Kept.entry_eq {name : FileName} {index : Nat} (deepest : Deepest all (hashNumber shahash name) index) :
    entryOf store name = store.find index name := by
  apply findSome_eq
  · intro key member
    obtain ⟨other, -, rfl⟩ := kept.listed key member
    by_cases held : (store.find other name).isSome
    · rw [deepest.unique (kept.home other name held)]
      exact Or.inr rfl
    · exact Or.inl (Option.not_isSome_iff_eq_none.mp held)
  · exact Or.inr ⟨bucketName index, (kept.buckets index).mpr deepest.mem, rfl⟩

theorem Kept.exists_home (name : FileName) : ∃ index, Deepest all (hashNumber shahash name) index :=
  exists_deepest kept.root _

theorem Kept.not_strayed {name : FileName} {index : Nat} (deepest : Deepest all (hashNumber shahash name) index) :
    strayed store index name = false := by
  rw [strayed, kept.entry_eq deepest]
  cases store.find index name <;> rfl

theorem Kept.entry_of_find {name : FileName} {index : Nat} {object : Object}
    (found : store.find index name = some object) : entryOf store name = some object := by
  rw [kept.entry_eq (kept.home index name (Option.isSome_of_eq_some found)), found]

theorem Kept.of_find {after : Store} (keys : after.keys = store.keys)
    (home : ∀ index name, (after.find index name).isSome →
      (store.find index name).isSome ∨ Deepest all (hashNumber shahash name) index) :
    Kept shahash all after where
  root := kept.root
  listed := keys ▸ kept.listed
  buckets := keys ▸ kept.buckets
  home index name found := (home index name found).elim (kept.home index name) id

theorem Kept.bind {name : FileName} {index position : Nat} {object : Object}
    (deepest : Deepest all (hashNumber shahash name) index) :
    Kept shahash all (store.bind position index name object) := by
  apply kept.of_find Store.keys_bind
  intro other entry found
  rcases Store.isSome_find_bind found with ⟨rfl, rfl⟩ | before
  · exact Or.inr deepest
  · exact Or.inl before

theorem Kept.unbind {name : FileName} {index : Nat} : Kept shahash all (store.unbind index name) := by
  apply kept.of_find Store.keys_unbind
  intro other entry found
  exact Or.inl (Store.isSome_find_unbind found).1

theorem Kept.clear {source : Source} : Kept shahash all (source.clear store) := by
  cases source with
  | bucket index name => exact kept.unbind
  | elsewhere object => exact kept

theorem Kept.entry_bind {name : FileName} {index position : Nat} {object : Object}
    (deepest : Deepest all (hashNumber shahash name) index) :
    entryOf (store.bind position index name object) = Function.update (entryOf store) name (some object) := by
  funext entry
  obtain ⟨home, place⟩ := kept.exists_home entry
  have present := kept.present deepest.mem
  rw [(kept.bind deepest).entry_eq place, Store.find_bind present]
  by_cases same : entry = name
  · subst same
    rw [place.unique deepest, if_pos ⟨rfl, rfl⟩, Function.update_self]
  · rw [if_neg fun both => same both.2, Function.update_of_ne same, kept.entry_eq place]

theorem Kept.entry_unbind {name : FileName} {index : Nat} {object : Object}
    (found : store.find index name = some object) :
    entryOf (store.unbind index name) = Function.update (entryOf store) name none := by
  funext entry
  obtain ⟨home, place⟩ := kept.exists_home entry
  rw [kept.unbind.entry_eq place, Store.find_unbind]
  by_cases same : entry = name
  · subst same
    have deepest := kept.home index entry (Option.isSome_of_eq_some found)
    rw [place.unique deepest, if_pos ⟨rfl, rfl⟩, Function.update_self]
  · rw [if_neg fun both => same both.2, Function.update_of_ne same, kept.entry_eq place]

theorem Kept.unbind_nothing {name : FileName} {index : Nat} (missing : store.find index name = none) :
    entryOf (store.unbind index name) = entryOf store := by
  funext entry
  obtain ⟨home, place⟩ := kept.exists_home entry
  rw [kept.unbind.entry_eq place, kept.entry_eq place, Store.find_unbind]
  split
  · rename_i same
    rw [same.1, same.2, missing]
  · rfl

end

theorem entry_none {store : Store} {name : FileName} {index : Nat} (missing : store.find index name = none)
    (still : strayed store index name = false) : entryOf store name = none := by
  -- An entry that is missing from its bucket has strayed, or there is none.
  simpa [strayed, missing] using still

theorem strayed_of_find {store : Store} {name : FileName} {index : Nat} {object : Object}
    (found : store.find index name = some object) : strayed store index name = false := by
  simp [strayed, found]

/-- A split moves entries to where they now belong. -/
theorem Kept.divides {servernum : Nat} {setting : SplitSetting servernum} {shahash : FileName → Digest}
    {all : Finset Nat} {store after : Store} (kept : Kept shahash all store) (member : setting.pindex ∈ all)
    (fresh : setting.cindex ∉ all) (divides : setting.Divides shahash store after) :
    Kept shahash (insert setting.cindex all) after ∧ entryOf after = entryOf store := by
  obtain ⟨-, -, radix, low, -, sum, -⟩ := gigaIndexForSplitting_some setting.child
  have grown : ∀ {name index}, Deepest all (hashNumber shahash name) index →
      Deepest (insert setting.cindex all) (hashNumber shahash name)
        (if index = setting.pindex ∧ setting.Migrates shahash name then setting.cindex else index) := by
    intro name index deepest
    have inserted := deepest_insert member (depth_le_iff.mp low) deepest
    rw [← sum] at inserted
    exact inserted
  have home : ∀ index name, (after.find index name).isSome →
      Deepest (insert setting.cindex all) (hashNumber shahash name) index := by
    intro index name found
    by_cases child : index = setting.cindex
    · subst child
      rw [divides.child] at found
      split at found
      · rename_i migrates
        have deepest := grown (kept.home _ name found)
        rwa [if_pos ⟨rfl, migrates⟩] at deepest
      · cases found
    · by_cases parent : index = setting.pindex
      · subst parent
        rw [divides.parent] at found
        split at found
        · cases found
        · rename_i stays
          have deepest := grown (kept.home _ name found)
          rwa [if_neg fun both => stays both.2] at deepest
      · rw [divides.others index name parent child] at found
        have deepest := grown (kept.home _ name found)
        rwa [if_neg fun both => parent both.1] at deepest
  have keptAfter : Kept shahash (insert setting.cindex all) after := by
    refine ⟨Finset.mem_insert_of_mem kept.root, ?_, ?_, home⟩
    · intro key listed
      rcases (divides.keys key).mp listed with same | before
      · exact ⟨setting.cindex, setting.bounded, same⟩
      · exact kept.listed key before
    · intro index
      rw [divides.keys, bucketName_injective.eq_iff, kept.buckets, Finset.mem_insert]
  refine ⟨keptAfter, ?_⟩
  funext name
  obtain ⟨index, deepest⟩ := kept.exists_home name
  rw [kept.entry_eq deepest, keptAfter.entry_eq (grown deepest)]
  split
  · rename_i moves
    rw [divides.child, if_pos moves.2, moves.1]
  · rename_i stays
    by_cases parent : index = setting.pindex
    · rw [parent, divides.parent, if_neg fun migrates => stays ⟨parent, migrates⟩]
    · exact divides.others index name parent fun same => fresh (same ▸ deepest.mem)

/-! ### What the handlers do to the map -/

theorem replay_eq {entries after : Entries} {operation : Operation} {answer : Answer}
    (performed : perform entries operation = (answer, after)) : replay entries (operation, answer) = some after := by
  rw [replay, performed, if_pos rfl]

/-- A server without a split under way redirects a name or calls PVFS in the bucket of its partition. -/
theorem inBucket_settled {Value : Type} {shahash : FileName → Digest} {servernum : Nat} {dir : SkyeDirectory}
    {store after : Store} {name : FileName} {call : Nat → Reply Value × Store} {reply : Reply Value}
    (settled : dir.splittingIndex = none)
    (served : inBucket shahash servernum dir store name call = some (reply, after)) :
    (reply = .again dir.mapping ∧ after = store ∧ locality shahash servernum dir name = some (.again dir.mapping)) ∨
      ∃ index, locality shahash servernum dir name = some (.here index) ∧ (store.bucket index).isSome ∧
        call index = (reply, after) := by
  obtain ⟨entered, computed, served⟩ := Option.bind_eq_some_iff.mp served
  obtain ⟨choice, decision, computed⟩ := Option.bind_eq_some_iff.mp computed
  cases choice with
  | again bitmap =>
    cases computed
    cases served
    obtain ⟨rfl, -⟩ := locality_again.mp decision
    exact Or.inl ⟨rfl, rfl, decision⟩
  | here index =>
    simp only [selectBucket, settled, reduceCtorEq, if_false, Option.bind_eq_bind, Option.bind_some] at computed
    split at computed
    · rename_i present
      cases computed
      exact Or.inr ⟨index, decision, present, Option.some.inj served⟩
    · cases computed

section
variable {shahash : FileName → Digest} {all : Finset Nat} {store : Store} (kept : Kept shahash all store)
include kept

theorem Kept.make {name : FileName} {index position : Nat} {object : Object} {answer : Answer}
    (deepest : Deepest all (hashNumber shahash name) index) :
    sysCreate position store index name object = .error .eexist ∧
        (entryOf store).make name object answer = (.fail .eexist, entryOf store) ∨
      ∃ after, sysCreate position store index name object = .ok after ∧ Kept shahash all after ∧
        (entryOf store).make name object answer = (answer, entryOf after) := by
  unfold Entries.make
  rw [kept.entry_eq deepest]
  cases found : store.find index name with
  | some held => exact Or.inl ⟨sysCreate_exists found, rfl⟩
  | none =>
    refine Or.inr ⟨_, sysCreate_fresh (kept.present deepest.mem) found, kept.bind deepest, ?_⟩
    rw [kept.entry_bind deepest]
    rfl

theorem Kept.place (source : Source) {name : FileName} {index position : Nat} {object : Object}
    (deepest : Deepest all (hashNumber shahash name) index) (found : source.object store = some object)
    (other : source ≠ .bucket index name) :
    sysRename position store source index name = .error .enotempty ∧
        (entryOf store).place (entryOf (source.clear store)) name object = (.fail .enotempty, entryOf store) ∨
      ∃ after, sysRename position store source index name = .ok after ∧ Kept shahash all after ∧
        (entryOf store).place (entryOf (source.clear store)) name object = (.done, entryOf after) := by
  have present : (store.bucket index).isNone = false := by simpa using kept.present deepest.mem
  simp only [sysRename, found, present, Bool.false_eq_true, if_false, if_neg other, Entries.place,
    kept.entry_eq deepest]
  by_cases directory : (store.find index name).any Object.isdir = true
  · rw [if_pos directory, if_pos directory]
    exact Or.inl ⟨rfl, rfl⟩
  · rw [if_neg directory, if_neg directory]
    refine Or.inr ⟨_, rfl, kept.clear.bind deepest, ?_⟩
    rw [kept.clear.entry_bind deepest]

end

section
variable {shahash : FileName → Digest} {all : Finset Nat} {store : Store} (kept : Kept shahash all store)
include kept

theorem Kept.removeEntry (removal : Removal) (emptied : Bool) :
    Kept shahash all (Server.removeEntry store removal emptied).2 ∧
      replay (entryOf store)
        (removalOperation store removal emptied, .ofReply (Server.removeEntry store removal emptied).1) =
        some (entryOf (Server.removeEntry store removal emptied).2) := by
  -- The second half of a remove, whatever has happened since the first.
  unfold removalOperation
  cases found : store.find removal.index removal.name with
  | none =>
    have refused : Server.removeEntry store removal emptied = (.fail .enoent, store) := by
      simp only [Server.removeEntry, sysRemove, found]
    rw [refused]
    refine ⟨kept, replay_eq ?_⟩
    cases still : strayed store removal.index removal.name with
    | true => rfl
    | false => simp only [Bool.false_eq_true, if_false, perform, entry_none found still, Answer.ofReply]
  | some object =>
    rw [strayed_of_find found, if_neg (by decide)]
    have entry := kept.entry_of_find found
    by_cases occupied : (object.isdir && !emptied) = true
    · have refused : Server.removeEntry store removal emptied = (.fail .enotempty, store) := by
        simp only [Server.removeEntry, sysRemove, found, occupied, if_true]
      rw [refused]
      exact ⟨kept, replay_eq (by simp only [perform, entry, occupied, if_true, Answer.ofReply])⟩
    · have removed : Server.removeEntry store removal emptied = (.ok (), store.unbind removal.index removal.name) := by
        simp only [Server.removeEntry, sysRemove, found, occupied, Bool.false_eq_true, if_false]
      rw [removed]
      refine ⟨kept.unbind, replay_eq ?_⟩
      simp only [perform, entry, occupied, Bool.false_eq_true, if_false, kept.entry_unbind found, Answer.ofReply]

theorem Kept.depart (index : Nat) (name : FileName) :
    replay (entryOf store) (if strayed store index name then .overtaken name else .depart name,
      if (store.find index name).isSome then .done else .fail .enoent) = some (entryOf (store.unbind index name)) := by
  cases found : store.find index name with
  | none =>
    rw [kept.unbind_nothing found]
    apply replay_eq
    cases still : strayed store index name with
    | true => rfl
    | false => simp [perform, entry_none found still]
  | some object =>
    rw [strayed_of_find found, kept.entry_unbind found]
    exact replay_eq (by simp [perform, kept.entry_of_find found])

end

section
variable (shahash : FileName → Digest) (all : Finset Nat) (servernum : Nat) (dir : SkyeDirectory) (store : Store)

/-- What a handler leaves: a redirect and a remove under way change nothing, and an answer is that of the map. -/
def Served.Faithful (request : Request) (after : Store) : Served → Prop
  | .again bitmap => bitmap = dir.mapping ∧ after = store ∧
      locality shahash servernum dir request.name = some (.again bitmap)
  | .removing removal => after = store ∧ request = .remove removal.name ∧
      (store.find removal.index removal.name).isSome
  | .answered answer => Kept shahash all after ∧
      ∀ emptied, replay (entryOf store) (request.operation store emptied, request.seen answer) = some (entryOf after)

end

section
variable {shahash : FileName → Digest} {all : Finset Nat} {store after : Store} {servernum : Nat} {dir : SkyeDirectory}
  {served : Served} (kept : Kept shahash all store) (settled : dir.splittingIndex = none)
  (accepts : ∀ {name index}, locality shahash servernum dir name = some (.here index) →
    Deepest all (hashNumber shahash name) index)
include kept settled accepts

omit kept in
theorem serve_inBucket (request : Request) {Value : Type} {call : Nat → Reply Value × Store} {found : Value → Served}
    (answered : (inBucket shahash servernum dir store request.name call).map
      (fun result => (Served.ofReply found result.1, result.2)) = some (served, after))
    (called : ∀ index, Deepest all (hashNumber shahash request.name) index →
      (Served.ofReply found (call index).1).Faithful shahash all servernum dir store request (call index).2) :
    served.Faithful shahash all servernum dir store request after := by
  obtain ⟨⟨reply, left⟩, computed, same⟩ := Option.map_eq_some_iff.mp answered
  cases same
  rcases inBucket_settled settled computed with ⟨rfl, rfl, redirects⟩ | ⟨index, here, -, result⟩
  · exact ⟨rfl, rfl, redirects⟩
  · have faithful := called index (accepts here)
    rwa [result] at faithful

theorem Kept.serve_lookup {name : FileName}
    (answered : Request.serve shahash servernum dir store (.lookup name) = some (served, after)) :
    served.Faithful shahash all servernum dir store (.lookup name) after := by
  obtain ⟨reply, computed, same⟩ := Option.map_eq_some_iff.mp answered
  cases same
  obtain ⟨choice, decision, computed⟩ := Option.bind_eq_some_iff.mp computed
  cases choice with
  | again bitmap =>
    cases computed
    exact ⟨(locality_again.mp decision).1, rfl, decision⟩
  | here index =>
    obtain ⟨-, -, computed⟩ := Option.bind_eq_some_iff.mp computed
    have entry := kept.entry_eq (accepts decision)
    cases found : store.find index name with
    | some object =>
      rw [found] at computed entry
      cases computed
      exact ⟨kept, fun _ => replay_eq (by simp only [Request.operation, perform, entry, Request.seen])⟩
    | none =>
      rw [found] at computed entry
      simp only [settled, reduceCtorEq, if_false] at computed
      cases computed
      exact ⟨kept, fun _ => replay_eq (by simp only [Request.operation, perform, entry, Request.seen])⟩

theorem Kept.serve_partition {name : FileName}
    (answered : Request.serve shahash servernum dir store (.partition name) = some (served, after)) :
    served.Faithful shahash all servernum dir store (.partition name) after := by
  obtain ⟨reply, computed, same⟩ := Option.map_eq_some_iff.mp answered
  cases same
  obtain ⟨index, routed, computed⟩ := Option.bind_eq_some_iff.mp computed
  rw [gotIndex] at computed
  split at computed
  · rename_i foreign
    cases computed
    exact ⟨rfl, rfl, locality_again.mpr ⟨rfl, index, routed, foreign⟩⟩
  · rename_i own
    have deepest := accepts (locality_here.mpr ⟨routed, not_not.mp own⟩)
    have entry := kept.entry_eq deepest
    cases found : store.find index name with
    | some object =>
      rw [found] at computed entry
      simp only [kept.present deepest.mem, if_true] at computed
      cases computed
      exact ⟨kept, fun _ => replay_eq (by simp [Request.operation, perform, entry, Request.seen])⟩
    | none =>
      rw [found] at computed entry
      simp only [settled, reduceCtorEq, if_false] at computed
      cases computed
      exact ⟨kept, fun _ => replay_eq (by simp [Request.operation, perform, entry, Request.seen])⟩

theorem Kept.serve_create {name : FileName} {handle position : Nat}
    (answered : Request.serve shahash servernum dir store (.create name handle position) = some (served, after)) :
    served.Faithful shahash all servernum dir store (.create name handle position) after := by
  apply serve_inBucket settled accepts (.create name handle position) answered
  intro index (deepest : Deepest all (hashNumber shahash name) index)
  rcases kept.make deepest with ⟨exists_, refused⟩ | ⟨left, created, keptLeft, made⟩
  · rw [exists_]
    exact ⟨kept, fun _ => replay_eq refused⟩
  · rw [created]
    exact ⟨keptLeft, fun _ => replay_eq made⟩

theorem Kept.serve_mkdir {name : FileName} {handle position : Nat} {bucketError : Option Errno}
    (answered : Request.serve shahash servernum dir store (.mkdir name handle position bucketError) =
      some (served, after)) :
    served.Faithful shahash all servernum dir store (.mkdir name handle position bucketError) after := by
  apply serve_inBucket settled accepts (.mkdir name handle position bucketError) answered
  intro index (deepest : Deepest all (hashNumber shahash name) index)
  rcases kept.make deepest with ⟨exists_, refused⟩ | ⟨left, created, keptLeft, made⟩
  · rw [exists_]
    exact ⟨kept, fun _ => replay_eq refused⟩
  · rw [created]
    cases bucketError with
    | none => exact ⟨keptLeft, fun _ => replay_eq made⟩
    | some errno => exact ⟨keptLeft, fun _ => replay_eq made⟩

theorem Kept.serve_remove {name : FileName}
    (answered : Request.serve shahash servernum dir store (.remove name) = some (served, after)) :
    served.Faithful shahash all servernum dir store (.remove name) after := by
  apply serve_inBucket settled accepts (.remove name) answered
  intro index (deepest : Deepest all (hashNumber shahash name) index)
  have entry := kept.entry_eq deepest
  cases found : store.find index name with
  | none =>
    rw [found] at entry
    exact ⟨kept, fun _ => replay_eq (by simp only [Request.operation, perform, entry, Request.seen])⟩
  | some object => exact ⟨rfl, rfl, Option.isSome_of_eq_some found⟩

theorem Kept.serve_rename {source : Source} {name : FileName} {position : Nat}
    (answered : Request.serve shahash servernum dir store (.rename source name position) = some (served, after)) :
    served.Faithful shahash all servernum dir store (.rename source name position) after := by
  apply serve_inBucket settled accepts (.rename source name position) answered
  intro index (deepest : Deepest all (hashNumber shahash name) index)
  cases source with
  | elsewhere object =>
    cases object with
    | none => exact ⟨kept, fun _ => replay_eq rfl⟩
    | some object =>
      rcases kept.place (.elsewhere (some object)) deepest rfl (by simp) with
        ⟨refused, placed⟩ | ⟨left, renamed, keptLeft, placed⟩
      · rw [refused]
        exact ⟨kept, fun _ => replay_eq placed⟩
      · rw [renamed]
        exact ⟨keptLeft, fun _ => replay_eq placed⟩
  | bucket from_ entry =>
    cases found : store.find from_ entry with
    | none =>
      have refused : sysRename position store (.bucket from_ entry) index name = .error .enoent := by
        simp only [sysRename, Source.object, found]
      rw [refused]
      refine ⟨kept, fun _ => replay_eq ?_⟩
      cases still : strayed store from_ entry with
      | true => simp only [Request.operation, still, if_true, perform, Request.seen]
      | false =>
        simp only [Request.operation, still, Bool.false_eq_true, if_false, perform, entry_none found still, Request.seen]
    | some object =>
      have place := kept.home from_ entry (Option.isSome_of_eq_some found)
      have operation : ∀ emptied,
          Request.operation store emptied (.rename (.bucket from_ entry) name position) = .rename entry name := by
        intro emptied
        simp only [Request.operation, strayed_of_find found, Bool.false_eq_true, if_false]
      simp only [Served.Faithful, Served.ofReply, operation]
      by_cases same : entry = name
      · -- Source and target are one entry, since the name has one home.
        subst same
        cases place.unique deepest
        have renamed : sysRename position store (.bucket index entry) index entry = .ok store := by
          have present : (store.bucket index).isNone = false := by simpa using kept.present deepest.mem
          simp only [sysRename, Source.object, found, present, Bool.false_eq_true, if_false, if_true]
        rw [renamed]
        exact ⟨kept, fun _ => replay_eq (by simp only [perform, kept.entry_of_find found, if_true, Request.seen])⟩
      · have performed : perform (entryOf store) (.rename entry name) =
            (entryOf store).place (entryOf (store.unbind from_ entry)) name object := by
          simp only [perform, kept.entry_of_find found, if_neg same, kept.entry_unbind found]
        rcases kept.place (.bucket from_ entry) deepest found (by simp [same]) with
          ⟨refused, placed⟩ | ⟨left, renamed, keptLeft, placed⟩
        · rw [refused]
          exact ⟨kept, fun _ => replay_eq (performed.trans placed)⟩
        · rw [renamed]
          exact ⟨keptLeft, fun _ => replay_eq (performed.trans placed)⟩

theorem Kept.serve {request : Request}
    (answered : request.serve shahash servernum dir store = some (served, after)) :
    served.Faithful shahash all servernum dir store request after := by
  cases request with
  | lookup name => exact kept.serve_lookup settled accepts answered
  | partition name => exact kept.serve_partition settled accepts answered
  | create name handle position => exact kept.serve_create settled accepts answered
  | mkdir name handle position bucketError => exact kept.serve_mkdir settled accepts answered
  | rename source name position => exact kept.serve_rename settled accepts answered
  | remove name => exact kept.serve_remove settled accepts answered

end

end SkyeFS.Namespace
