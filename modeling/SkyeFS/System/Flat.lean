import SkyeFS.Server.WholeSplit
import SkyeFS.Server.Cache
import SkyeFS.Foundation.Labelled

/-! One directory on all its servers, and the map from names to objects that it stands for.

The servers share the buckets in PVFS and keep a table each. Clients route by tables
of their own, which may be behind, and follow redirects. A request takes effect in the
PVFS call of its handler. A split runs from start to end between two requests, but a
request that was sent, a bucket that was looked up for a rename, and the remove of a
directory between its two halves may all see a split come in between.

The map knows no servers, buckets or tables. Its operations are what the requests mean.
-/

set_option autoImplicit false

namespace SkyeFS.Namespace

open Index Pvfs Server Foundation

/-! ### The map -/

abbrev Entries := FileName → Option Object

inductive Answer where
  | ref (ref : Ref)
  | done
  | fail (errno : Errno)
deriving DecidableEq

inductive Operation where
  | lookup (name : FileName)
  -- The first call of a rename, which asks where the entry is.
  | partition (name : FileName)
  | create (name : FileName) (handle : Nat)
  | mkdir (name : FileName) (handle : Nat) (bucketError : Option Errno)
  | rename (entry name : FileName)
  -- A rename from another directory.
  | arrive (object : Option Object) (name : FileName)
  -- A rename into another directory.
  | depart (name : FileName)
  | remove (name : FileName) (emptied : Bool)
  -- A call for an entry in a bucket that it has left: a split came between the lookup of the bucket and the call.
  | overtaken (name : FileName)
deriving DecidableEq

def Entries.make (entries : Entries) (name : FileName) (object : Object) (answer : Answer) : Answer × Entries :=
  if (entries name).isSome then (.fail .eexist, entries) else (answer, Function.update entries name (some object))

/-- Bind a name to an object that has left its old place. A directory is not replaced. -/
def Entries.place (entries cleared : Entries) (name : FileName) (object : Object) : Answer × Entries :=
  if (entries name).any Object.isdir then (.fail .enotempty, entries)
  else (.done, Function.update cleared name (some object))

def perform (entries : Entries) : Operation → Answer × Entries
  | .lookup name =>
      match entries name with
      | some object => (.ref (.object object.handle), entries)
      | none => (.fail .enoent, entries)
  | .partition name => if (entries name).isSome then (.done, entries) else (.fail .enoent, entries)
  | .create name handle => entries.make name ⟨handle, false⟩ (.ref (.object handle))
  | .mkdir name handle bucketError =>
      entries.make name ⟨handle, true⟩ (bucketError.elim (.ref (.object handle)) .fail)
  | .rename entry name =>
      match entries entry with
      | none => (.fail .enoent, entries)
      | some object =>
          if entry = name then (.done, entries)
          else entries.place (Function.update entries entry none) name object
  | .arrive object name =>
      match object with
      | none => (.fail .enoent, entries)
      | some object => entries.place entries name object
  | .depart name =>
      if (entries name).isSome then (.done, Function.update entries name none) else (.fail .enoent, entries)
  | .remove name emptied =>
      match entries name with
      | none => (.fail .enoent, entries)
      | some object =>
          if object.isdir && !emptied then (.fail .enotempty, entries)
          else (.done, Function.update entries name none)
  | .overtaken _ => (.fail .enoent, entries)

def replay (entries : Entries) (label : Operation × Answer) : Option Entries :=
  if (perform entries label.1).1 = label.2 then some (perform entries label.1).2 else none

/-! ### The servers -/

inductive Request where
  | lookup (name : FileName)
  | partition (name : FileName)
  | create (name : FileName) (handle position : Nat)
  | mkdir (name : FileName) (handle position : Nat) (bucketError : Option Errno)
  | rename (source : Source) (name : FileName) (position : Nat)
  | remove (name : FileName)
deriving DecidableEq

def Request.name : Request → FileName
  | .lookup name | .partition name | .create name _ _ | .mkdir name _ _ _ | .rename _ name _ | .remove name => name

inductive Served where
  | again (bitmap : GigaMapping)
  | answered (answer : Answer)
  | removing (removal : Removal)

def Served.ofReply {Value : Type} (found : Value → Served) : Reply Value → Served
  | .ok value => found value
  | .again bitmap => .again bitmap
  | .fail errno => .answered (.fail errno)

section
variable (shahash : FileName → Digest)

def Request.serve (servernum : Nat) (dir : SkyeDirectory) (store : Store) : Request → Option (Served × Store)
  | .lookup name => (Server.lookup shahash servernum dir store name).map fun reply =>
      (.ofReply (fun ref => .answered (.ref ref)) reply, store)
  | .partition name => (Server.partition shahash servernum dir store name).map fun reply =>
      (.ofReply (fun ref => .answered (.ref ref)) reply, store)
  | .create name handle position => (Server.create shahash servernum dir store name handle position).map fun result =>
      (.ofReply (fun ref => .answered (.ref ref)) result.1, result.2)
  | .mkdir name handle position bucketError =>
      (Server.mkdir shahash servernum dir store name handle position bucketError).map fun result =>
        (.ofReply (fun ref => .answered (.ref ref)) result.1, result.2)
  | .rename source name position => (Server.rename shahash servernum dir store source name position).map fun result =>
      (.ofReply (fun _ => .answered .done) result.1, result.2)
  | .remove name => (Server.removeLookup shahash servernum dir store name).map fun result =>
      (.ofReply .removing result.1, result.2)

end

/-- Where a request stands in the client's loop, or on the server that has it. -/
inductive Call (servers : Nat) where
  -- At the label `bitmap`.
  | routing (client : Nat) (request : Request)
  | sent (client : Nat) (request : Request) (server : Fin servers)
  -- Answered with `-EAGAIN` and a table that is not merged yet.
  | redirected (client : Nat) (request : Request) (bitmap : GigaMapping)
  -- A remove handler between its lookup and `PVFS_sys_remove`.
  | removing (server : Fin servers) (removal : Removal)
  | answered (answer : Answer)
  | lost

structure Site (servers : Nat) where
  dirs : Fin servers → SkyeDirectory
  store : Store
  tables : Nat → GigaMapping
  calls : List (Call servers)

inductive Event (servers : Nat) where
  | submit (client : Nat) (request : Request)
  | send (id : Nat)
  | answer (id : Nat)
  -- The second half of a remove; `emptied` is whether the buckets of a directory are gone.
  | complete (id : Nat) (emptied : Bool)
  | merge (id : Nat)
  | lose (id : Nat)
  -- A server of another directory renames an entry away.
  | depart (index : Nat) (name : FileName)
  | split (server : Fin servers) (pindex : Nat) (events : List SplitEvent)
  -- The server starts again and loads its table.
  | reload (server : Fin servers)

def entryOf (store : Store) : Entries := fun name =>
  store.keys.findSome? fun key => (store.lookup key).bind (AList.lookup name)

/-- The name has an entry, but not in this bucket. -/
def strayed (store : Store) (index : Nat) (name : FileName) : Bool :=
  (store.find index name).isNone && (entryOf store name).isSome

/-- What a request means for the map, if a directory that it removes has been emptied or not. -/
def Request.operation (store : Store) (emptied : Bool) : Request → Operation
  | .lookup name => .lookup name
  | .partition name => .partition name
  | .create name handle _ => .create name handle
  | .mkdir name handle _ bucketError => .mkdir name handle bucketError
  | .rename (.bucket index entry) name _ => if strayed store index entry then .overtaken entry else .rename entry name
  | .rename (.elsewhere object) name _ => .arrive object name
  | .remove name => .remove name emptied

def removalOperation (store : Store) (removal : Removal) (emptied : Bool) : Operation :=
  if strayed store removal.index removal.name then .overtaken removal.name else .remove removal.name emptied

def Answer.ofReply : Reply Unit → Answer
  | .fail errno => .fail errno
  | .ok _ | .again _ => .done

/-- The answer as the map gives it, which names no bucket. -/
def Request.seen : Request → Answer → Answer
  | .partition _, .ref _ => .done
  | _, answer => answer

section
variable {servers : Nat}

def Site.setCall (site : Site servers) (id : Nat) (call : Call servers) : Site servers :=
  { site with calls := site.calls.set id call }

def Call.removalAt (server : Fin servers) : Call servers → Option Removal
  | .removing at_ removal => if at_ = server then some removal else none
  | _ => none

def Site.removals (site : Site servers) (server : Fin servers) : List Removal :=
  site.calls.filterMap (Call.removalAt server)

/-- The tables after a split: the new bit is set by the server itself and by the owner of the child. -/
def Site.announce (site : Site servers) (server : Fin servers) (pindex : Nat) (dir : SkyeDirectory)
    (other : Fin servers) : SkyeDirectory :=
  if other = server then dir
  else
    match gigaIndexForSplitting (site.dirs server).mapping pindex with
    | none => site.dirs other
    | some cindex =>
        if getBitStatus dir.mapping.bitmap cindex ∧ gigaGetServerForIndex dir.mapping cindex = other then
          { site.dirs other with mapping := gigaUpdateMapping (site.dirs other).mapping cindex }
        else site.dirs other

variable (shahash : FileName → Digest) (mapping : GigaMapping)

/-- One event; `mapping` says where PVFS keeps the directory and how many servers there are. -/
def siteStep (site : Site servers) : Event servers → Option (Site servers × Option (Operation × Answer))
  | .submit client request => some ({ site with calls := site.calls ++ [.routing client request] }, none)
  | .send id => do
      let .routing client request ← site.calls[id]? | none
      let server ← gigaGetServerForFile shahash (site.tables client) request.name
      if reachable : server < servers then
        some (site.setCall id (.sent client request ⟨server, reachable⟩), none)
      else none
  | .answer id => do
      let .sent client request server ← site.calls[id]? | none
      let (served, store) ← request.serve shahash server (site.dirs server) site.store
      match served with
      | .again bitmap => some (site.setCall id (.redirected client request bitmap), none)
      | .removing removal => some (site.setCall id (.removing server removal), none)
      | .answered answer =>
          -- a remove that is answered here has found nothing to empty
          some ({ site with store }.setCall id (.answered answer), some (request.operation site.store true, request.seen answer))
  | .complete id emptied => do
      let .removing _ removal ← site.calls[id]? | none
      let (reply, store) := removeEntry site.store removal emptied
      let answer := Answer.ofReply reply
      some ({ site with store }.setCall id (.answered answer), some (removalOperation site.store removal emptied, answer))
  | .merge id => do
      let .redirected client request bitmap ← site.calls[id]? | none
      let merged := gigaUpdateCache (site.tables client) bitmap
      some ({ site with tables := Function.update site.tables client merged }.setCall id (.routing client request), none)
  | .lose id => some (site.setCall id .lost, none)
  | .depart index name =>
      let operation := if strayed site.store index name then .overtaken name else .depart name
      let answer := if (site.store.find index name).isSome then .done else .fail .enoent
      some ({ site with store := site.store.unbind index name }, some (operation, answer))
  | .split server pindex events =>
      -- the tasks of a server are its own partitions, and the write lock waits for the readers
      if gigaGetServerForIndex (site.dirs server).mapping pindex = server ∧
          (site.removals server).all Removal.isdir then do
        let (dir, store) ← doSplit shahash server (site.dirs server) site.store pindex events
        some ({ site with dirs := site.announce server pindex dir, store }, none)
      else none
  | .reload server =>
      if (site.removals server).isEmpty then
        let dir := newDirectory (fun _ => true) mapping.zerothServer mapping.serverCount site.store.keys
        some ({ site with dirs := Function.update site.dirs server dir }, none)
      else none

/-- All servers know the table of the directory, and all clients that of an empty one. -/
def start (mapping : GigaMapping) (store : Store) : Site servers where
  dirs _ := { mapping, splittingIndex := none }
  store := store
  tables _ := gigaInitMapping mapping.zerothServer mapping.serverCount
  calls := []

/-- A split keeps below the radix bound, and drops what it made on the wrong server. -/
def Orderly (site : Site servers) : Event servers → Prop
  | .split server pindex events => (∀ event ∈ events, event.Tidy) ∧
      ∀ cindex ∈ gigaIndexForSplitting (site.dirs server).mapping pindex, cindex < 2 ^ (maxRadix - 1)
  | .submit _ _ | .send _ | .answer _ | .complete _ _ | .merge _ | .lose _ | .depart _ _ | .reload _ => True

instance (site : Site servers) (event : Event servers) : Decidable (Orderly site event) := by
  cases event <;> unfold Orderly <;> infer_instance

end

end SkyeFS.Namespace
