import SkyeFS.Foundation.CText
import Mathlib.Data.List.Forall2

/-! The numbers of the servers, after common/connection.c and server/server.c.

Every node asks PVFS for the addresses of all servers, and every server looks for its own
host name among them. The routing tables name servers by these numbers, a connection is made
to each number, and the server of a PVFS object is found as a number too.
-/

set_option autoImplicit false

namespace SkyeFS.Connection

open Foundation Foundation.CText

/-- `strndup` with a size that a subtraction of pointers gave: a negative one is a huge `size_t`. -/
def strndup (buffer : List Char) (position : Nat) (size : Int) : List Char :=
  if size < 0 then read buffer position else (read buffer position).take size.toNat

/-- The server portion of `tcp://servername:port`; `none` where a null pointer is subtracted. -/
def serverName (address : List Char) : Option (List Char) := do
  let buffer := address ++ [nul]
  let end_ ← rindex buffer 0 ':'
  let start ← rindex buffer 0 '/'
  some (strndup buffer (start + 1) (end_ - start - 1))

/-- The loop of `pvfs_generate_serverlist` from the server `i` on. -/
def serverLoop (myhostname : List Char) : Nat → Int → List (List Char) → Option (List (List Char) × Int)
  | _, servernum, [] => some ([], servernum)
  | i, servernum, address :: rest => do
      let server ← serverName address
      let (servers, servernum) ← serverLoop myhostname (i + 1) (if server = myhostname then i else servernum) rest
      some (server :: servers, servernum)

structure SkyeOptions (Addr : Type) where
  servernum : Int
  serverlist : List (List Char)
  serveraddrs : List Addr
  servercount : Nat

section
variable {Addr : Type}

/-- `mapAddr` is `PVFS_mgmt_map_addr`. -/
def pvfsGenerateServerlist (mapAddr : Addr → List Char) (myhostname : List Char) (serveraddrs : List Addr) :
    Option (SkyeOptions Addr) :=
  (serverLoop myhostname 0 (-1) (serveraddrs.map mapAddr)).map fun (serverlist, servernum) =>
    { servernum, serverlist, serveraddrs, servercount := serveraddrs.length }

/-- What `main` of a server makes of the options: its number, or it quits. -/
def mainServernum (options : SkyeOptions Addr) : Option Int :=
  let servernum := if options.servercount = 1 then 0 else options.servernum
  if servernum = -1 then none else some servernum

/-- The host that `rpc_connect` connects to for `get_connection(serverid)`. -/
def connectedHost (options : SkyeOptions Addr) (serverid : Nat) : Option (List Char) := options.serverlist[serverid]?

/-- The loop of `pvfs_get_mds` from the server `i` on, which fails its assertion at the end of the addresses. -/
def mdsLoop [DecidableEq Addr] (addr : Addr) : Nat → List Addr → Option Nat
  | _, [] => none
  | i, candidate :: rest => if addr = candidate then some i else mdsLoop addr (i + 1) rest

def pvfsGetMds [DecidableEq Addr] (options : SkyeOptions Addr) (addr : Addr) : Option Nat :=
  mdsLoop addr 0 options.serveraddrs

end

/-! ### The name in an address -/

/-- The addresses of a host, with a port or without. -/
inductive AddressOf (host : List Char) : List Char → Prop where
  | port {scheme port : List Char} : '/' ∉ host → '/' ∉ port → ':' ∉ port →
      AddressOf host (scheme ++ '/' :: (host ++ ':' :: port))
  | noPort {scheme : List Char} : '/' ∉ host → ':' ∉ host → ':' ∈ scheme → AddressOf host (scheme ++ '/' :: host)

theorem serverName_eq {host address : List Char} (text : nul ∉ address) (addressed : AddressOf host address) :
    serverName address = some host := by
  have behind : ∀ {scheme rest : List Char}, nul ∉ scheme ++ '/' :: rest →
      read ((scheme ++ '/' :: rest) ++ [nul]) (scheme.length + 1) = rest := by
    intro scheme rest clean
    have moved : (scheme ++ '/' :: rest) ++ [nul] = (scheme ++ ['/']) ++ (rest ++ nul :: []) := by simp
    have position : scheme.length + 1 = (scheme ++ ['/']).length := by simp
    rw [moved, position]
    exact read_append fun inside => clean (by simp [inside])
  cases addressed with
  | @port scheme port noSlash portNoSlash portNoColon =>
    have slash : rindex ((scheme ++ '/' :: (host ++ ':' :: port)) ++ [nul]) 0 '/' = some scheme.length := by
      apply rindex_zero text
      simp only [List.mem_append, List.mem_cons, not_or]
      exact ⟨noSlash, by decide, portNoSlash⟩
    have regrouped : scheme ++ '/' :: (host ++ ':' :: port) = (scheme ++ '/' :: host) ++ ':' :: port := by simp
    have colon : rindex ((scheme ++ '/' :: (host ++ ':' :: port)) ++ [nul]) 0 ':' = some (scheme ++ '/' :: host).length := by
      rw [regrouped]
      exact rindex_zero (regrouped ▸ text) portNoColon
    have size : (((scheme ++ '/' :: host).length : Int) - scheme.length - 1) = host.length := by
      rw [List.length_append, List.length_cons]
      omega
    simp only [serverName, colon, slash, Option.bind_eq_bind, Option.bind_some, size, strndup, behind text]
    rw [if_neg (by omega), Int.toNat_natCast, List.take_left' rfl]
  | @noPort scheme noSlash noColon inScheme =>
    have slash : rindex ((scheme ++ '/' :: host) ++ [nul]) 0 '/' = some scheme.length := rindex_zero text noSlash
    obtain ⟨front, back, rfl, absent⟩ := exists_last inScheme
    have regrouped : (front ++ ':' :: back) ++ '/' :: host = front ++ ':' :: (back ++ '/' :: host) := by simp
    have colon : rindex (((front ++ ':' :: back) ++ '/' :: host) ++ [nul]) 0 ':' = some front.length := by
      rw [regrouped]
      apply rindex_zero (regrouped ▸ text)
      simp only [List.mem_append, List.mem_cons, not_or]
      exact ⟨absent, by decide, noColon⟩
    -- The colon is that of the scheme, in front of the host: the size is negative, and nothing is cut off.
    have negative : ((front.length : Int) - (front ++ ':' :: back).length - 1) < 0 := by
      rw [List.length_append]
      omega
    simp only [serverName, colon, slash, Option.bind_eq_bind, Option.bind_some, strndup, behind text, if_pos negative]

/-! ### The numbers -/

section
variable {hosts addresses : List (List Char)} {myhostname : List Char}

theorem serverLoop_absent (text : ∀ address ∈ addresses, nul ∉ address) (listed : List.Forall₂ AddressOf hosts addresses)
    (absent : myhostname ∉ hosts) (i : Nat) (servernum : Int) :
    serverLoop myhostname i servernum addresses = some (hosts, servernum) := by
  induction listed generalizing i with
  | nil => rfl
  | @cons host address hosts addresses first rest ih =>
    rw [List.mem_cons, not_or] at absent
    obtain ⟨other, later⟩ := absent
    have named := serverName_eq (text address List.mem_cons_self) first
    have remaining := ih (fun other member => text other (List.mem_cons_of_mem _ member)) later (i + 1)
    simp only [serverLoop, named, Option.bind_eq_bind, Option.bind_some, if_neg (Ne.symm other), remaining]

theorem serverLoop_present (text : ∀ address ∈ addresses, nul ∉ address)
    (listed : List.Forall₂ AddressOf hosts addresses) {front back : List (List Char)}
    (own : hosts = front ++ myhostname :: back) (absent : myhostname ∉ back) (i : Nat) (servernum : Int) :
    serverLoop myhostname i servernum addresses = some (hosts, ((i + front.length : Nat) : Int)) := by
  induction listed generalizing i servernum front with
  | nil => exact absurd own.symm (List.append_ne_nil_of_right_ne_nil _ (List.cons_ne_nil _ _))
  | @cons host address hosts addresses first rest ih =>
    have named := serverName_eq (text address List.mem_cons_self) first
    have texts : ∀ other ∈ addresses, nul ∉ other := fun other member => text other (List.mem_cons_of_mem _ member)
    cases front with
    | nil =>
      cases own
      simp only [serverLoop, named, Option.bind_eq_bind, Option.bind_some, if_true, serverLoop_absent texts rest absent,
        List.length_nil, Nat.add_zero]
    | cons other front =>
      cases own
      have remaining := ih texts rfl (i + 1) (if host = myhostname then i else servernum)
      simp only [serverLoop, named, Option.bind_eq_bind, Option.bind_some, remaining, List.length_cons]
      rw [Nat.add_right_comm, Nat.add_assoc]

/-- A number stands for the last server of a host name. -/
def LastServer (hosts : List (List Char)) (name : List Char) (number : Nat) : Prop :=
  hosts[number]? = some name ∧ ∀ later, number < later → hosts[later]? ≠ some name

theorem lastServer_append {front back : List (List Char)} {name : List Char} (absent : name ∉ back) (number : Nat) :
    LastServer (front ++ name :: back) name number ↔ number = front.length := by
  have behind : ∀ later, front.length < later → (front ++ name :: back)[later]? ≠ some name := by
    intro later beyond found
    obtain ⟨offset, rfl⟩ := Nat.exists_eq_add_of_lt beyond
    rw [Nat.add_assoc, List.getElem?_append_right (Nat.le_add_right _ _), Nat.add_sub_cancel_left,
      List.getElem?_cons_succ] at found
    exact absent (List.mem_of_getElem? found)
  have there : (front ++ name :: back)[front.length]? = some name := by
    rw [List.getElem?_append_right (Nat.le_refl _), Nat.sub_self, List.getElem?_cons_zero]
  constructor
  · rintro ⟨found, last⟩
    rcases Nat.lt_trichotomy number front.length with before | same | beyond
    · exact absurd there (last _ before)
    · exact same
    · exact absurd found (behind _ beyond)
  · rintro rfl
    exact ⟨there, behind⟩

theorem mainServernum_eq {Addr : Type} (options : SkyeOptions Addr) (several : options.servercount ≠ 1) (number : Int) :
    mainServernum options = some number ↔ options.servernum = number ∧ number ≠ -1 := by
  rw [mainServernum, if_neg several]
  by_cases missing : options.servernum = -1
  · rw [if_pos missing]
    constructor
    · nofun
    · rintro ⟨same, listed⟩
      exact absurd (same ▸ missing) listed
  · rw [if_neg missing, Option.some.injEq]
    constructor
    · intro same
      exact ⟨same, same ▸ missing⟩
    · exact And.left

/-- The list of servers is the same at every node, and only the own number depends on the node. -/
theorem pvfsGenerateServerlist_eq {Addr : Type} {mapAddr : Addr → List Char} {serveraddrs : List Addr}
    (text : ∀ addr ∈ serveraddrs, nul ∉ mapAddr addr)
    (listed : List.Forall₂ AddressOf hosts (serveraddrs.map mapAddr)) (name : List Char) :
    ∃ servernum, pvfsGenerateServerlist mapAddr name serveraddrs =
        some ⟨servernum, hosts, serveraddrs, serveraddrs.length⟩ ∧
      (∀ number : Nat, servernum = number ↔ LastServer hosts name number) ∧ (servernum = -1 ↔ name ∉ hosts) := by
  have texts : ∀ address ∈ serveraddrs.map mapAddr, nul ∉ address := by
    simpa only [List.mem_map, forall_exists_index, and_imp, forall_apply_eq_imp_iff₂] using text
  by_cases member : name ∈ hosts
  · obtain ⟨front, back, own, absent⟩ := exists_last member
    refine ⟨(front.length : Nat), ?_, ?_, ?_⟩
    · rw [pvfsGenerateServerlist, serverLoop_present texts listed own absent, Nat.zero_add, Option.map_some]
    · intro number
      rw [own, lastServer_append absent, Int.ofNat_inj, eq_comm]
    · exact ⟨by omega, (absurd member ·)⟩
  · refine ⟨-1, ?_, ?_, ?_⟩
    · rw [pvfsGenerateServerlist, serverLoop_absent texts listed member, Option.map_some]
    · intro number
      exact ⟨by omega, fun last => absurd (List.mem_of_getElem? last.1) member⟩
    · exact iff_of_true rfl member

theorem mdsLoop_finds {Addr : Type} [DecidableEq Addr] {serveraddrs : List Addr} {addr : Addr}
    (listed : addr ∈ serveraddrs) (i : Nat) :
    ∃ position, mdsLoop addr i serveraddrs = some (i + position) ∧ serveraddrs[position]? = some addr := by
  induction serveraddrs generalizing i with
  | nil => nomatch listed
  | cons candidate rest ih =>
    rw [mdsLoop]
    by_cases same : addr = candidate
    · exact ⟨0, if_pos same, congrArg some same.symm⟩
    · rw [if_neg same]
      obtain ⟨position, found, there⟩ := ih ((List.mem_cons.mp listed).resolve_left same) (i + 1)
      exact ⟨position + 1, by rw [found, Nat.add_assoc, Nat.add_comm 1], there⟩

end

/-- All nodes agree on the servers: they cut the same hosts out of the addresses. A server among several takes the last
number under which the others connect to its host, and quits if there is none; a single one serves under any name. The
metadata server of an object is the number of a connection to its host. -/
theorem servers_agree {Addr : Type} [DecidableEq Addr] (mapAddr : Addr → List Char) (serveraddrs : List Addr)
    (hosts : List (List Char)) (text : ∀ addr ∈ serveraddrs, nul ∉ mapAddr addr)
    (listed : List.Forall₂ AddressOf hosts (serveraddrs.map mapAddr)) (me other : List Char) :
    ∃ mine theirs, pvfsGenerateServerlist mapAddr me serveraddrs = some mine ∧
      pvfsGenerateServerlist mapAddr other serveraddrs = some theirs ∧
      mine.serverlist = hosts ∧ theirs.serverlist = hosts ∧
      (mine.servercount = 1 → mainServernum mine = some 0) ∧
      (mine.servercount ≠ 1 →
        (∀ serverid : Nat, mainServernum mine = some (serverid : Int) ↔
          connectedHost theirs serverid = some me ∧ ∀ later, serverid < later → connectedHost theirs later ≠ some me) ∧
        (mainServernum mine = none ↔ ∀ serverid, connectedHost theirs serverid ≠ some me)) ∧
      ∀ addr ∈ serveraddrs, ∃ serverid host, pvfsGetMds theirs addr = some serverid ∧
        connectedHost theirs serverid = some host ∧ AddressOf host (mapAddr addr) := by
  obtain ⟨myNumber, mine, last, missing⟩ := pvfsGenerateServerlist_eq text listed me
  obtain ⟨theirNumber, theirs, -⟩ := pvfsGenerateServerlist_eq text listed other
  refine ⟨_, _, mine, theirs, rfl, rfl, ?_, ?_, ?_⟩
  · intro single
    rw [mainServernum, if_pos single, if_neg (by decide)]
  · intro several
    constructor
    · intro serverid
      rw [mainServernum_eq _ several]
      exact ⟨fun own => (last serverid).mp own.1, fun own => ⟨(last serverid).mpr own, by omega⟩⟩
    · rw [mainServernum, if_neg several, ite_eq_left_iff]
      simp only [reduceCtorEq, imp_false, not_not, missing]
      constructor
      · intro absent serverid there
        exact absent (List.mem_of_getElem? there)
      · intro unconnected member
        obtain ⟨serverid, there⟩ := List.mem_iff_getElem?.mp member
        exact unconnected serverid there
  · intro addr member
    obtain ⟨serverid, found, there⟩ := mdsLoop_finds member 0
    rw [Nat.zero_add] at found
    obtain ⟨inside, same⟩ := List.getElem?_eq_some_iff.mp there
    have count : hosts.length = serveraddrs.length := by rw [listed.length_eq, List.length_map]
    have addressed := listed.get (count ▸ inside) (by rwa [List.length_map])
    refine ⟨serverid, hosts[serverid], found, List.getElem?_eq_getElem _, ?_⟩
    simpa only [List.get_eq_getElem, List.getElem_map, same] using addressed

/-- Two servers on the host `a`, and between them one on `b` without a port. -/
def sharedHost : List (List Char) := ["tcp://a:1".toList, "tcp://b".toList, "tcp://a:2".toList]

/-- The process on `a` is number two, and no process is number zero, though the others connect there for it. -/
theorem servers_agree_shared_host : ∃ mine theirs, pvfsGenerateServerlist id ['a'] sharedHost = some mine ∧
    pvfsGenerateServerlist id ['b'] sharedHost = some theirs ∧ mainServernum mine = some 2 ∧
    mainServernum theirs = some 1 ∧ connectedHost theirs 0 = some ['a'] ∧ mine.serverlist = theirs.serverlist := by
  have addressed : List.Forall₂ AddressOf [['a'], ['b'], ['a']] (sharedHost.map id) :=
    .cons (@AddressOf.port ['a'] ['t', 'c', 'p', ':', '/'] ['1'] (by decide) (by decide) (by decide))
      (.cons (@AddressOf.noPort ['b'] ['t', 'c', 'p', ':', '/'] (by decide) (by decide) (by decide))
        (.cons (@AddressOf.port ['a'] ['t', 'c', 'p', ':', '/'] ['2'] (by decide) (by decide) (by decide)) .nil))
  obtain ⟨mine, theirs, generated, others, myHosts, theirHosts, -, numbered, -⟩ :=
    servers_agree id sharedHost [['a'], ['b'], ['a']] (by decide) addressed ['a'] ['b']
  cases Option.some.inj (generated.symm.trans rfl)
  cases Option.some.inj (others.symm.trans rfl)
  refine ⟨_, _, generated, others, ?_, by decide, by decide, myHosts.trans theirHosts.symm⟩
  refine ((numbered (by decide)).1 2).mpr ⟨by decide, ?_⟩
  intro later beyond
  exact (List.getElem?_eq_none beyond).trans_ne nofun

end SkyeFS.Connection
