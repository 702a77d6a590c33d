import SkyeFS.Server.Rmdir
import SkyeFS.Server.SplitThread

/-! All directories of a file system, and the requests of all clients.

A request fetches its directory into the cache of the server it was sent to, enters a
bucket there and makes its PVFS call, each in a step of its own. The cache has the
directory from the first step of a load on; the page loop fills it in further ones. A
mkdir goes on with the bucket `p00000` of the new directory, and the remove of a
directory goes through its buckets; both have given back, or never taken, the lock that
would keep other requests away. Each server has a split thread for every directory.

A server has at most one entry and one load of a directory here: that two threads may
both miss it and add it twice is the subject of `Server.fetchStep`.
-/

set_option autoImplicit false

namespace SkyeFS.System

open Index Pvfs Server Foundation

/-- What has become of the bucket `p00000`. -/
inductive Rooting where
  -- The mkdir handler has made the directory, and no bucket yet.
  | making
  -- In the loop of `pvfs_mkdir_server`, with the bucket on the wrong server.
  | misplaced
  -- The mkdir handler returned 0.
  | ready
  -- It returned an error.
  | failed
  -- A remove handler has removed it.
  | unrooted
deriving DecidableEq

structure Place where
  parent : Nat
  index : Nat
  name : FileName
deriving DecidableEq

/-- Where a remove handler that holds the write lock stands, and the entry it was called for. -/
inductive Remover where
  | idle
  | listing (origin : Place) (token : Nat)
  -- Inside a page of `outcount` buckets, of which `rest` are to be removed.
  | page (origin : Place) (token outcount : Nat) (rest : List FileName)
  -- `remove_all_buckets` returned 0.
  | emptied (origin : Place)
  -- `p00000` is removed.
  | unrooted (origin : Place)
deriving DecidableEq

structure Directory where
  tree : Tree
  -- The threads in the page loop of `fill_bitmap`.
  loaders : Nat → Option Loader
  threads : Nat → Thread
  removers : Nat → Remover
  rooting : Rooting

def Directory.locked (directory : Directory) (server : Nat) : Bool :=
  (directory.threads server).locked || directory.removers server ≠ .idle

/-- What a client asks for, and what PVFS answers: the handle of a new object and its position. -/
inductive Call where
  | lookup (name : FileName)
  | create (name : FileName) (object position : Nat)
  | mkdir (name : FileName) (object position : Nat) (zerothServer : UInt32)
  | remove (name : FileName)
  | rename (source : Place) (name : FileName) (position : Nat)
deriving DecidableEq

def Call.name : Call → FileName
  | .lookup name | .create name _ _ | .mkdir name _ _ _ | .remove name | .rename _ name _ => name

/-- The lookup handler calls `get_partition_handle` itself, the others through `enter_bucket`. -/
def Call.looksUp : Call → Bool
  | .lookup _ => true
  | .create _ _ _ | .mkdir _ _ _ _ | .remove _ | .rename _ _ _ => false

/-- A handler in the bucket it entered, before its PVFS call. -/
structure Pending where
  server : Nat
  handle : Nat
  index : Nat
  call : Call
deriving DecidableEq

/-- The directories by their handles, the handles that clients have obtained, and the handlers. -/
structure World where
  dirs : Nat → Option Directory
  refs : List Nat
  pending : List Pending
  -- A handler has asked `get_partition_handle` for a bucket that does not exist. The assertion there fails unless
  -- an older handle of the bucket is still in the table of handles.
  aborted : Bool

inductive Event where
  -- `cache_fetch` and `cache_fetch_w`, as far as the entry is in the hash table.
  | fetch (server handle : Nat)
  -- A step of `fill_bitmap`, which fails if it is a page read without success.
  | fill (server handle : Nat) (success : Bool)
  | enter (server handle : Nat) (call : Call)
  | perform (slot : Nat)
  | makeZeroth (handle : Nat) (outcome : MkdirOutcome) (position : Nat)
  | dropZeroth (handle : Nat) (success : Bool)
  | removePage (server handle : Nat) (success : Bool)
  | removeNext (server handle : Nat) (reachable : Nat → Bool)
  | removeZeroth (server handle : Nat)
  | removeEntry (server handle : Nat) (success : Bool)
  | dequeue (server handle pindex : Nat)
  | split (server handle : Nat) (event : SplitEvent)

namespace Directory

def empty (zerothServer serverCount : UInt32) : Directory where
  tree := { zerothServer, serverCount, store := ∅, cached := fun _ => none }
  loaders _ := none
  threads _ := .ended
  removers _ := .idle
  rooting := .making

def setStore (directory : Directory) (store : Store) : Directory :=
  { directory with tree := { directory.tree with store } }

def setCached (directory : Directory) (server : Nat) (dir : Option SkyeDirectory) : Directory :=
  { directory with tree := { directory.tree with cached := Function.update directory.tree.cached server dir } }

def setThread (directory : Directory) (server : Nat) (thread : Thread) : Directory :=
  { directory with threads := Function.update directory.threads server thread }

def setRemover (directory : Directory) (server : Nat) (remover : Remover) : Directory :=
  { directory with removers := Function.update directory.removers server remover }

def setLoader (directory : Directory) (server : Nat) (loader : Option Loader) : Directory :=
  { directory with loaders := Function.update directory.loaders server loader }

/-- A directory that is not cached is entered into the hash table before `fill_bitmap` reads its buckets. -/
def fetch (directory : Directory) (server : Nat) : Directory :=
  if (directory.tree.cached server).isSome then directory
  else
    let mapping := gigaInitMapping directory.tree.zerothServer directory.tree.serverCount
    (directory.setCached server (some { mapping, splittingIndex := none })).setLoader server (some (.reading 0))

/-- The write goes to the entry, whatever lock others have on it. -/
def fill (directory : Directory) (server : Nat) (loader : Loader) (dir : SkyeDirectory) (success : Bool) : Directory :=
  let (next, mapping) := fillStep directory.tree.store.keys success dir.mapping loader
  (directory.setCached server (some { dir with mapping })).setLoader server next

/-- `pvfs_mkdir_server` for `p00000`: one `PVFS_sys_mkdir` of its loop. -/
def makeZeroth (directory : Directory) (outcome : MkdirOutcome) (position : Nat) : Directory :=
  if (directory.tree.store.bucket 0).isSome then { directory with rooting := .failed }
  else
    let made := directory.setStore (Listing.put position (bucketName 0) ∅ directory.tree.store)
    match outcome with
    | .failed => { directory with rooting := .failed }
    | .misplaced => { made with rooting := .misplaced }
    | .inPlace => { made with rooting := .ready }

def dropZeroth (directory : Directory) (success : Bool) : Directory :=
  if success then { directory.setStore (directory.tree.store.erase (bucketName 0)) with rooting := .making }
  else { directory with rooting := .failed }

/-- One turn of the loop of `remove_all_buckets` over a page. -/
def removeNext (directory : Directory) (server : Nat) (reachable : Nat → Bool) (origin : Place)
    (token outcount : Nat) : List FileName → Directory
  | [] => directory.setRemover server
      (if outcount = bucketIncount then .listing origin (nextToken token outcount) else .emptied origin)
  | name :: rest =>
      match Tree.removeListed ⟨fun _ => true, reachable⟩ server directory.tree name with
      | (none, tree) => { directory with tree }.setRemover server (.page origin token outcount rest)
      | (some _, tree) => { directory with tree }.setRemover server .idle

/-- A call waits until the server it goes to has fetched the directory and has its lock. -/
def ready (directory : Directory) (server owner : Nat) : Bool :=
  (directory.tree.cached owner).isSome && (owner = server || directory.locked owner = false)

def proceeds (directory : Directory) (server : Nat) (reachable : Nat → Bool) : List FileName → Bool
  | [] => true
  | name :: _ =>
      ((Tree.otherBucket name).map (gigaGetServerForIndex (directory.tree.dir server).mapping)).all fun owner =>
        directory.ready server owner || (owner ≠ server && reachable owner = false)

def removeZeroth (directory : Directory) (server : Nat) (origin : Place) : Directory :=
  match sysRemoveBucket directory.tree.store 0 with
  | .error _ => directory.setRemover server .idle
  | .ok store => { directory.setStore store with rooting := .unrooted }.setRemover server (.unrooted origin)

def informed (directory : Directory) (server : Nat) (dir : SkyeDirectory) : SplitEvent → Option (Nat × Nat)
  | .finish =>
      match directory.threads server with
      | .announcing _ cindex =>
          let owner := gigaGetServerForIndex dir.mapping cindex
          if owner = server then none else some (owner, cindex)
      | _ => none
  | _ => none

def bucketAdd (directory : Directory) (owner cindex : Nat) : Directory :=
  let dir := directory.tree.dir owner
  directory.setCached owner (some { dir with mapping := gigaUpdateMapping dir.mapping cindex })

def tell (directory : Directory) (server : Nat) (dir : SkyeDirectory) (event : SplitEvent) : Option Directory :=
  match directory.informed server dir event with
  | none => some directory
  | some (owner, cindex) => if directory.ready server owner then some (directory.bucketAdd owner cindex) else none

end Directory

namespace World

def set (world : World) (handle : Nat) (directory : Directory) : World :=
  { world with dirs := Function.update world.dirs handle (some directory) }

def write (world : World) (handle : Nat) (directory : Directory) : Except Errno Store → World
  | .error _ => world
  | .ok store => world.set handle (directory.setStore store)

end World

section
variable (shahash : FileName → Digest) (serverCount : UInt32)

/-- The locality check of a handler and `get_partition_handle`. While the partition is splitting, `enter_bucket` looks
the bucket up itself and returns the error. -/
def enterStep (world : World) (server handle : Nat) (directory : Directory) (dir : SkyeDirectory) (call : Call) :
    Option World := do
  match ← locality shahash server dir call.name with
  | .again _ => some world
  | .here index =>
      if call.looksUp ∨ dir.splittingIndex ≠ some index then
        if (directory.tree.store.bucket index).isSome then
          some { world with pending := world.pending ++ [⟨server, handle, index, call⟩] }
        else some { world with aborted := true }
      else
        let selected ← selectBucket shahash dir call.name index
        if (directory.tree.store.bucket selected).isSome then
          some { world with pending := world.pending ++ [⟨server, handle, selected, call⟩] }
        else some world

/-- The rest of a handler. That of a mkdir and of the remove of a directory has steps of its own. -/
def performStep (world : World) (task : Pending) (directory : Directory) : Option World :=
  let store := directory.tree.store
  match task.call with
  | .lookup name =>
      match store.find task.index name with
      | some object => some { world with refs := object.handle :: world.refs }
      | none => some world
  | .create name object position =>
      some (world.write task.handle directory (sysCreate position store task.index name ⟨object, false⟩))
  | .mkdir name object position zerothServer =>
      -- PVFS gives every object a new handle
      if (world.dirs object).isSome then none
      else
        match sysCreate position store task.index name ⟨object, true⟩ with
        | .error _ => some world
        | .ok after => some
            ((world.set task.handle (directory.setStore after)).set object (.empty zerothServer serverCount))
  | .remove name =>
      match store.find task.index name with
      | none => some world
      | some object =>
          if object.isdir then do
            let child ← world.dirs object.handle
            -- the directory is fetched, and its write lock taken, after the parent's lock is returned
            if (child.tree.cached task.server).isSome ∧ child.locked task.server = false then
              some (world.set object.handle
                (child.setRemover task.server (.listing ⟨task.handle, task.index, name⟩ 0)))
            else none
          else some (world.write task.handle directory (sysRemove true store task.index name))
  | .rename source name position => do
      let from_ ← world.dirs source.parent
      if source.parent = task.handle then
        some (world.write task.handle directory
          (sysRename position store (.bucket source.index source.name) task.index name))
      else
        match sysRename position store (.elsewhere (from_.tree.store.find source.index source.name)) task.index name with
        | .error _ => some world
        | .ok after => some ((world.set task.handle (directory.setStore after)).set source.parent
            (from_.setStore (from_.tree.store.unbind source.index source.name)))

/-- `cache_destroy` and the last `PVFS_sys_remove` of a remove, which may fail. A load that is not finished goes on in an
entry that nobody finds any more. -/
def removeEntryStep (world : World) (server handle : Nat) (directory : Directory) (origin : Place) (success : Bool) :
    Option World := do
  let destroyed := world.set handle (((directory.setCached server none).setLoader server none).setRemover server .idle)
  if success then
    let parent ← destroyed.dirs origin.parent
    some (destroyed.write origin.parent parent
      (sysRemove directory.tree.store.keys.isEmpty parent.tree.store origin.index origin.name))
  else some destroyed

def splitThreadStep (world : World) (server handle : Nat) (directory : Directory) (event : SplitEvent) :
    Option World := do
  let dir ← directory.tree.cached server
  let unread := world.pending.all fun task => ¬ (task.server = server ∧ task.handle = handle)
  if event.ofThread ∧ unread ∧ directory.removers server = .idle then
    let after ← splitStep shahash server ⟨dir, directory.tree.store, directory.threads server, []⟩ event
    let told ← directory.tell server dir event
    some (world.set handle
      (((told.setStore after.store).setCached server (some after.dir)).setThread server after.thread))
  else none

def directoryStep (world : World) (handle : Nat) (directory : Directory) : Event → Option World
  | .fetch server _ => some (world.set handle (directory.fetch server))
  | .fill server _ success => do
      let loader ← directory.loaders server
      let dir ← directory.tree.cached server
      some (world.set handle (directory.fill server loader dir success))
  | .enter server _ call => do
      let dir ← directory.tree.cached server
      if handle ∈ world.refs ∧ directory.locked server = false then
        enterStep shahash world server handle directory dir call
      else none
  | .makeZeroth _ outcome position =>
      if directory.rooting = .making then
        let made := directory.makeZeroth outcome position
        -- the client has the handle once the request succeeds
        let refs := if made.rooting = .ready then handle :: world.refs else world.refs
        some { world.set handle made with refs }
      else none
  | .dropZeroth _ success =>
      if directory.rooting = .misplaced then some (world.set handle (directory.dropZeroth success)) else none
  | .removePage server _ success =>
      match directory.removers server with
      | .listing origin token =>
          let page := sysReaddir directory.tree.store.keys token bucketIncount
          some (world.set handle (directory.setRemover server
            (if success then .page origin token page.length page else .idle)))
      | _ => none
  | .removeNext server _ reachable =>
      match directory.removers server with
      | .page origin token outcount rest =>
          if directory.proceeds server reachable rest then
            some (world.set handle (directory.removeNext server reachable origin token outcount rest))
          else none
      | _ => none
  | .removeZeroth server _ =>
      match directory.removers server with
      | .emptied origin => some (world.set handle (directory.removeZeroth server origin))
      | _ => none
  | .removeEntry server _ success =>
      match directory.removers server with
      | .unrooted origin => removeEntryStep world server handle directory origin success
      | _ => none
  | .dequeue server _ pindex =>
      if server < directory.tree.serverCount.toNat ∧ (directory.tree.cached server).isSome ∧
          directory.threads server = .ended then
        some (world.set handle (directory.setThread server (.start pindex)))
      else none
  | .split server _ event => splitThreadStep shahash world server handle directory event
  | .perform _ => none

def Event.handle : Event → Option Nat
  | .fetch _ handle | .fill _ handle _ | .enter _ handle _ | .makeZeroth handle _ _ | .dropZeroth handle _
  | .removePage _ handle _ | .removeNext _ handle _ | .removeZeroth _ handle | .removeEntry _ handle _ | .dequeue _ handle _
  | .split _ handle _ => some handle
  | .perform _ => none

def worldStep (world : World) (event : Event) : Option World :=
  if world.aborted then none
  else
    match event with
    | .perform slot => do
        let task ← world.pending[slot]?
        let directory ← world.dirs task.handle
        performStep serverCount { world with pending := world.pending.eraseIdx slot } task directory
    | _ => do
        let handle ← event.handle
        let directory ← world.dirs handle
        directoryStep shahash world handle directory event

end

end SkyeFS.System
