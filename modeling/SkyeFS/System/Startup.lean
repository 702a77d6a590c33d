import SkyeFS.Common.Servers
import SkyeFS.Foundation.Transition

/-! How the processes of a cluster come up, after `main` of server/server.c and `skye_init` of client/client.c.

A server takes its number, creates the root's zeroth partition if it is number zero, opens
its socket and sleeps, so that the others can start. Then it connects to the servers one
after the other, and quits at the first one that does not answer. A client connects in the
same way. The sleep is the order of the steps: a server may start at any time. What PVFS
and the network answer is part of the steps.
-/

set_option autoImplicit false

namespace SkyeFS.Connection

open Foundation Foundation.CText

inductive Phase where
  | down
  -- In `rpc_connect`, with so many connections. A server accepts them itself already.
  | connecting (made : Nat)
  | online
  | quit
deriving DecidableEq

def Phase.accepts : Phase → Bool
  | .connecting _ | .online => true
  | .down | .quit => false

/-- One process of each kind on a host. -/
inductive Node where
  | server (host : List Char)
  | client (host : List Char)
deriving DecidableEq

def Node.host : Node → List Char
  | .server host | .client host => host

structure StartState where
  phase : Node → Phase
  -- There is `/p00000`.
  rootPartition : Bool

/-- How `pvfs_mkdir_server` ends for the root's partition. -/
inductive Creation where
  | made
  | failed
  -- It was made on another metadata server, and could not be removed.
  | misplaced
deriving DecidableEq

structure StartOutcome where
  -- `pvfs_connect` returns 0.
  mounted : Bool
  -- The lookup of `/p00000` finds it or says ENOENT.
  confirmed : Bool
  creation : Creation
  -- The socket is bound and the threads are created.
  listening : Bool

inductive StartEvent where
  -- `main` of a server up to its sleep.
  | start (host : List Char) (outcome : StartOutcome)
  -- `skye_init` of a client up to `rpc_connect`.
  | mount (host : List Char) (mounted : Bool)
  -- One round of the loop of `rpc_connect`, or its end. Even a server that is up may not be reached.
  | connect (node : Node) (reached : Bool)
  -- A signal, or an `accept` that fails.
  | stop (node : Node)

def StartState.enter (state : StartState) (node : Node) (phase : Phase) : StartState :=
  { state with phase := Function.update state.phase node phase }

section
variable {Addr : Type} (mapAddr : Addr → List Char) (serveraddrs : List Addr)

/-- The state that `create_root_partition` leaves, and whether it returns. -/
def createRootPartition (state : StartState) (outcome : StartOutcome) : StartState × Bool :=
  if outcome.confirmed = false then (state, false)
  else if state.rootPartition then (state, true)
  else
    match outcome.creation with
    | .made => ({ state with rootPartition := true }, true)
    | .failed => (state, false)
    | .misplaced => ({ state with rootPartition := true }, false)

def startStep (state : StartState) : StartEvent → Option StartState
  | .start host outcome => do
      if state.phase (.server host) ≠ .down then none
      -- What `pvfs_connect` returns is not looked at, but without it there is no number, or no file system to look in.
      else if outcome.mounted = false then some (state.enter (.server host) .quit)
      else
        let options ← pvfsGenerateServerlist mapAddr host serveraddrs
        match mainServernum options with
        | none => some (state.enter (.server host) .quit)
        | some number =>
            let (state, returns) := if number = 0 then createRootPartition state outcome else (state, true)
            some (state.enter (.server host) (if returns && outcome.listening then .connecting 0 else .quit))
  | .mount host mounted =>
      if state.phase (.client host) = .down then
        some (state.enter (.client host) (if mounted then .connecting 0 else .quit))
      else none
  | .connect node reached =>
      match state.phase node with
      | .connecting made => do
          let options ← pvfsGenerateServerlist mapAddr node.host serveraddrs
          match connectedHost options made with
          | none => some (state.enter node .online)
          | some host =>
              some (state.enter node
                (if reached && (state.phase (.server host)).accepts then .connecting (made + 1) else .quit))
      | _ => none
  | .stop node => if (state.phase node).accepts then some (state.enter node .quit) else none

/-- No process runs yet, on a file system that may have been used before. -/
def allDown (rootPartition : Bool) : StartState := ⟨fun _ => .down, rootPartition⟩

end

/-! ### Who is number zero -/

def ServesZero (hosts : List (List Char)) (host : List Char) : Prop := hosts.length = 1 ∨ LastServer hosts host 0

def Roots (state : StartState) (outcome : StartOutcome) : Prop :=
  outcome.confirmed = true ∧ (state.rootPartition = false → outcome.creation = .made)

/-- What lets the server on this host get to its sleep. -/
structure Starts (hosts : List (List Char)) (state : StartState) (host : List Char) (outcome : StartOutcome) : Prop where
  mounted : outcome.mounted = true
  named : hosts.length = 1 ∨ host ∈ hosts
  roots : ServesZero hosts host → Roots state outcome
  listening : outcome.listening = true

theorem createRootPartition_eq (state : StartState) (outcome : StartOutcome) :
    ∃ rootPartition returns, createRootPartition state outcome = ({ state with rootPartition }, returns) ∧
      (state.rootPartition = true → rootPartition = true) ∧ (returns = true ↔ Roots state outcome) ∧
      (returns = true → rootPartition = true) := by
  unfold createRootPartition Roots
  rcases state with ⟨phase, _ | _⟩
  all_goals rcases outcome with ⟨mounted, _ | _, _ | _ | _, listening⟩
  all_goals exact ⟨_, _, rfl, by simp⟩

/-- Only number zero has anything to create. -/
theorem createRootPartition_number {hosts : List (List Char)} {host : List Char} {number : Int} (state : StartState)
    (outcome : StartOutcome) (zero : number = 0 ↔ ServesZero hosts host) :
    ∃ rootPartition returns, (if number = 0 then createRootPartition state outcome else (state, true)) =
        ({ state with rootPartition }, returns) ∧
      (state.rootPartition = true → rootPartition = true) ∧
      (returns = true ↔ (ServesZero hosts host → Roots state outcome)) ∧
      (returns = true → ServesZero hosts host → rootPartition = true) := by
  by_cases number = 0
  case pos here =>
    obtain ⟨rootPartition, returns, left, kept, roots, there⟩ := createRootPartition_eq state outcome
    refine ⟨rootPartition, returns, (if_pos here).trans left, kept, ?_, fun ends _ => there ends⟩
    rw [roots]
    exact ⟨fun holds _ => holds, fun holds => holds (zero.mp here)⟩
  case neg other =>
    have absent : ¬ ServesZero hosts host := fun serves => other (zero.mpr serves)
    exact ⟨state.rootPartition, true, if_neg other, id, iff_of_true rfl fun serves => absurd serves absent,
      fun _ serves => absurd serves absent⟩

section
variable {Addr : Type} {mapAddr : Addr → List Char} {serveraddrs : List Addr} {hosts : List (List Char)}
  (text : ∀ addr ∈ serveraddrs, nul ∉ mapAddr addr)
  (listed : List.Forall₂ AddressOf hosts (serveraddrs.map mapAddr))
include text listed

theorem generated_number (host : List Char) :
    ∃ options, pvfsGenerateServerlist mapAddr host serveraddrs = some options ∧ options.serverlist = hosts ∧
      (mainServernum options = none ↔ ¬ (hosts.length = 1 ∨ host ∈ hosts)) ∧
      ∀ number, mainServernum options = some number → (number = 0 ↔ ServesZero hosts host) := by
  obtain ⟨servernum, generated, last, missing⟩ := pvfsGenerateServerlist_eq text listed host
  have count : hosts.length = serveraddrs.length := by rw [listed.length_eq, List.length_map]
  refine ⟨_, generated, rfl, ?_⟩
  by_cases single : serveraddrs.length = 1
  · simp [mainServernum, ServesZero, count, single]
  · rw [ServesZero, count, or_iff_right single, or_iff_right single, ← missing]
    constructor
    · rw [mainServernum, if_neg single, ite_eq_left_iff]
      simp
    · intro number numbered
      rw [← (mainServernum_eq _ single number).mp numbered |>.1]
      exact last 0

theorem startStep_start {state after : StartState} {host : List Char} {outcome : StartOutcome}
    (stepped : startStep mapAddr serveraddrs state (.start host outcome) = some after) :
    state.phase (.server host) = .down ∧ ∃ rootPartition, (state.rootPartition = true → rootPartition = true) ∧
      (¬ Starts hosts state host outcome ∧ after = { state with rootPartition }.enter (.server host) .quit ∨
        Starts hosts state host outcome ∧ (ServesZero hosts host → rootPartition = true) ∧
          after = { state with rootPartition }.enter (.server host) (.connecting 0)) := by
  obtain ⟨options, generated, -, unnumbered, zero⟩ := generated_number text listed host
  by_cases running : state.phase (.server host) ≠ .down
  · simp [startStep, running] at stepped
  refine ⟨not_not.mp running, ?_⟩
  simp only [startStep, running, if_false, generated, Option.bind_eq_bind, Option.bind_some] at stepped
  by_cases mounted : outcome.mounted = false
  · rw [if_pos mounted] at stepped
    refine ⟨state.rootPartition, id, .inl ⟨?_, (Option.some.inj stepped).symm⟩⟩
    exact fun starts => Bool.noConfusion (mounted.symm.trans starts.mounted)
  rw [if_neg mounted] at stepped
  rw [Bool.not_eq_false] at mounted
  cases numbered : mainServernum options with
  | none =>
    rw [numbered] at stepped
    exact ⟨state.rootPartition, id, .inl ⟨fun starts => unnumbered.mp numbered starts.named, (Option.some.inj stepped).symm⟩⟩
  | some number =>
    rw [numbered] at stepped
    have named : hosts.length = 1 ∨ host ∈ hosts := by
      by_contra missing
      cases numbered.symm.trans (unnumbered.mpr missing)
    obtain ⟨rootPartition, returns, left, kept, roots, there⟩ :=
      createRootPartition_number state outcome (zero number numbered)
    simp only [left] at stepped
    refine ⟨rootPartition, kept, ?_⟩
    by_cases ends : (returns && outcome.listening) = true
    · rw [if_pos ends] at stepped
      rw [Bool.and_eq_true] at ends
      exact .inr ⟨⟨mounted, named, roots.mp ends.1, ends.2⟩, there ends.1, (Option.some.inj stepped).symm⟩
    · rw [if_neg ends] at stepped
      rw [Bool.and_eq_true] at ends
      exact .inl ⟨fun starts => ends ⟨roots.mpr starts.roots, starts.listening⟩, (Option.some.inj stepped).symm⟩

theorem startStep_connect {state after : StartState} {node : Node} {reached : Bool}
    (stepped : startStep mapAddr serveraddrs state (.connect node reached) = some after) :
    ∃ made, state.phase node = .connecting made ∧
      (hosts[made]? = none ∧ after = state.enter node .online ∨
        ∃ host, hosts[made]? = some host ∧
          ((reached && (state.phase (.server host)).accepts) = true ∧ after = state.enter node (.connecting (made + 1)) ∨
            (reached && (state.phase (.server host)).accepts) = false ∧ after = state.enter node .quit)) := by
  obtain ⟨options, generated, same, -⟩ := generated_number text listed node.host
  cases phase : state.phase node with
  | connecting made =>
    refine ⟨made, rfl, ?_⟩
    simp only [startStep, phase, generated, connectedHost, same, Option.bind_eq_bind, Option.bind_some] at stepped
    cases next : hosts[made]? with
    | none =>
      rw [next] at stepped
      exact .inl ⟨rfl, (Option.some.inj stepped).symm⟩
    | some host =>
      rw [next] at stepped
      dsimp only at stepped
      refine .inr ⟨host, rfl, ?_⟩
      cases answers : reached && (state.phase (.server host)).accepts with
      | true =>
        rw [answers] at stepped
        exact .inl ⟨rfl, (Option.some.inj stepped).symm⟩
      | false =>
        rw [answers] at stepped
        exact .inr ⟨rfl, (Option.some.inj stepped).symm⟩
  | _ => simp [startStep, phase] at stepped

end

/-! ### What an online process can rely on -/

/-- The server on this host has been started, and has created the root's partition if that was its part. -/
def StartState.Served (state : StartState) (hosts : List (List Char)) (host : List Char) : Prop :=
  state.phase (.server host) ≠ .down ∧ (ServesZero hosts host → state.rootPartition = true)

structure StartState.Sound (hosts : List (List Char)) (state : StartState) : Prop where
  accepting : ∀ host, (state.phase (.server host)).accepts = true → state.Served hosts host
  connecting : ∀ node made, state.phase node = .connecting made →
    ∀ serverid < made, ∀ host, hosts[serverid]? = some host → state.Served hosts host
  online : ∀ node, state.phase node = .online → ∀ host ∈ hosts, state.Served hosts host

section
variable {state after : StartState} {hosts : List (List Char)}

theorem sound_allDown (rootPartition : Bool) : (allDown rootPartition).Sound hosts where
  accepting := by simp [allDown, Phase.accepts]
  connecting := by simp [allDown]
  online := by simp [allDown]

/-- A process enters a phase other than `down`, and what was there stays. -/
structure Enters (state after : StartState) (node : Node) (phase : Phase) : Prop where
  up : phase ≠ .down
  phases : after.phase = Function.update state.phase node phase
  root : state.rootPartition = true → after.rootPartition = true

theorem StartState.enters (state : StartState) (node : Node) (phase : Phase) (up : phase ≠ .down) :
    Enters state (state.enter node phase) node phase :=
  ⟨up, rfl, id⟩

theorem StartState.Served.kept {node : Node} {phase : Phase} (enters : Enters state after node phase) {host : List Char}
    (served : state.Served hosts host) : after.Served hosts host := by
  refine ⟨?_, fun zero => enters.root (served.2 zero)⟩
  rw [enters.phases]
  by_cases same : Node.server host = node
  · rw [same, Function.update_self]
    exact enters.up
  · rw [Function.update_of_ne same]
    exact served.1

theorem StartState.Sound.enter {node : Node} {phase : Phase} (sound : state.Sound hosts)
    (enters : Enters state after node phase)
    (accepting : phase.accepts = true → ∀ host, node = .server host → after.Served hosts host)
    (connecting : ∀ made, phase = .connecting made →
      ∀ serverid < made, ∀ host, hosts[serverid]? = some host → after.Served hosts host)
    (online : phase = .online → ∀ host ∈ hosts, after.Served hosts host) : after.Sound hosts := by
  have elsewhere : ∀ other, other ≠ node → after.phase other = state.phase other := by
    intro other ne
    rw [enters.phases, Function.update_of_ne ne]
  have here : after.phase node = phase := by rw [enters.phases, Function.update_self]
  refine ⟨?_, ?_, ?_⟩
  · intro host answers
    by_cases same : Node.server host = node
    · subst same
      exact accepting (here ▸ answers) host rfl
    · exact (sound.accepting host (elsewhere _ same ▸ answers)).kept enters
  · intro other made there serverid before host listed
    by_cases same : other = node
    · subst same
      exact connecting made (here.symm.trans there) serverid before host listed
    · exact (sound.connecting other made ((elsewhere _ same).symm.trans there) serverid before host listed).kept enters
  · intro other there host member
    by_cases same : other = node
    · subst same
      exact online (here.symm.trans there) host member
    · exact (sound.online other ((elsewhere _ same).symm.trans there) host member).kept enters

theorem StartState.Sound.quit {node : Node} (sound : state.Sound hosts) (enters : Enters state after node .quit) :
    after.Sound hosts := by
  refine sound.enter enters ?_ ?_ ?_
  · intro answers
    cases answers
  · intro made entered
    cases entered
  · intro entered
    cases entered

end

section
variable {Addr : Type} {mapAddr : Addr → List Char} {serveraddrs : List Addr} {hosts : List (List Char)}
  (text : ∀ addr ∈ serveraddrs, nul ∉ mapAddr addr)
  (listed : List.Forall₂ AddressOf hosts (serveraddrs.map mapAddr))
include text listed

theorem StartState.Sound.step {state after : StartState} {event : StartEvent} (sound : state.Sound hosts)
    (stepped : startStep mapAddr serveraddrs state event = some after) : after.Sound hosts := by
  cases event with
  | start host outcome =>
    obtain ⟨-, rootPartition, kept, ⟨-, rfl⟩ | ⟨-, zero, rfl⟩⟩ := startStep_start text listed stepped
    · exact sound.quit ⟨nofun, rfl, kept⟩
    · have enters : Enters state ({ state with rootPartition }.enter (.server host) (.connecting 0)) (.server host)
          (.connecting 0) := ⟨nofun, rfl, kept⟩
      refine sound.enter enters ?_ ?_ nofun
      · rintro - other ⟨⟩
        exact ⟨by simp [StartState.enter], zero⟩
      · rintro made ⟨⟩ serverid before
        exact absurd before (Nat.not_lt_zero serverid)
  | mount host mounted =>
    obtain ⟨-, same⟩ := Option.ite_none_right_eq_some.mp stepped
    cases same
    cases mounted with
    | false => exact sound.quit (state.enters (.client host) .quit nofun)
    | true =>
      refine sound.enter (state.enters (.client host) (.connecting 0) nofun) nofun ?_ nofun
      rintro made ⟨⟩ serverid before
      exact absurd before (Nat.not_lt_zero serverid)
  | stop node =>
    obtain ⟨-, same⟩ := Option.ite_none_right_eq_some.mp stepped
    cases same
    exact sound.quit (state.enters node .quit nofun)
  | connect node reached =>
    obtain ⟨made, phase, ended⟩ := startStep_connect text listed stepped
    have own : ∀ host, node = .server host → state.Served hosts host := by
      rintro host rfl
      exact sound.accepting host (by rw [phase]; rfl)
    rcases ended with ⟨past, rfl⟩ | ⟨host, next, ⟨answers, rfl⟩ | ⟨-, rfl⟩⟩
    · have enters := state.enters node .online nofun
      refine sound.enter enters (fun _ host same => (own host same).kept enters) nofun ?_
      intro _ host member
      -- The loop has gone through the whole list.
      obtain ⟨serverid, there⟩ := List.mem_iff_getElem?.mp member
      obtain ⟨inside, -⟩ := List.getElem?_eq_some_iff.mp there
      have before : serverid < made := Nat.lt_of_lt_of_le inside (List.getElem?_eq_none_iff.mp past)
      exact (sound.connecting node made phase serverid before host there).kept enters
    · have enters := state.enters node (.connecting (made + 1)) nofun
      refine sound.enter enters (fun _ host same => (own host same).kept enters) ?_ nofun
      rintro _ ⟨⟩ serverid before other there
      rcases Nat.lt_succ_iff_lt_or_eq.mp before with earlier | rfl
      · exact (sound.connecting node made phase serverid earlier other there).kept enters
      · cases next.symm.trans there
        exact (sound.accepting host (Bool.and_eq_true_iff.mp answers).2).kept enters
    · exact sound.quit (state.enters node .quit nofun)

end

/-- Every process that has connected to all servers, and so every client that can send a request, finds them started
and the root's zeroth partition there, if the first host of the list is the host of number zero. -/
theorem requests_find_root {Addr : Type} {mapAddr : Addr → List Char} {serveraddrs : List Addr}
    {hosts : List (List Char)} (text : ∀ addr ∈ serveraddrs, nul ∉ mapAddr addr)
    (listed : List.Forall₂ AddressOf hosts (serveraddrs.map mapAddr)) {used : Bool} {events : List StartEvent}
    {state : StartState} (ran : execute (startStep mapAddr serveraddrs) (allDown used) events = some state) {node : Node}
    (online : state.phase node = .online) :
    (∀ host ∈ hosts, state.phase (.server host) ≠ .down) ∧
      ∀ host ∈ hosts, ServesZero hosts host → state.rootPartition = true := by
  have sound : state.Sound hosts := Reaches.invariant (sound_allDown used)
    (fun _ _ _ sound _ stepped => sound.step text listed stepped) (reaches_of_execute ran)
  exact ⟨fun host member => (sound.online node online host member).1,
    fun host member => (sound.online node online host member).2⟩

def threeServers : List (List Char) := ["tcp://a:1".toList, "tcp://b:1".toList, "tcp://c:1".toList]

theorem threeServers_addresses : List.Forall₂ AddressOf [['a'], ['b'], ['c']] (threeServers.map id) :=
  .cons (@AddressOf.port ['a'] ['t', 'c', 'p', ':', '/'] ['1'] (by decide) (by decide) (by decide))
    (.cons (@AddressOf.port ['b'] ['t', 'c', 'p', ':', '/'] ['1'] (by decide) (by decide) (by decide))
      (.cons (@AddressOf.port ['c'] ['t', 'c', 'p', ':', '/'] ['1'] (by decide) (by decide) (by decide)) .nil))

/-- The server on `c` starts after the one on `b` has tried it, and before the one on `a` does. -/
def lateServer : List StartEvent :=
  let fine : StartOutcome := ⟨true, true, .made, true⟩
  [.start ['a'] fine, .start ['b'] fine, .connect (.server ['a']) true, .connect (.server ['a']) true,
    .connect (.server ['b']) true, .connect (.server ['b']) true, .connect (.server ['b']) true, .start ['c'] fine,
    .connect (.server ['a']) true, .connect (.server ['a']) true]

/-- The server on `a` comes online although the one on `b` has quit. -/
theorem requests_find_root_late_server : ∃ state,
    execute (startStep id threeServers) (allDown false) lateServer = some state ∧
      state.phase (.server ['a']) = .online ∧ state.phase (.server ['b']) = .quit ∧ state.rootPartition = true := by
  obtain ⟨state, ran, online, quit⟩ : ∃ state,
      execute (startStep id threeServers) (allDown false) lateServer = some state ∧
        state.phase (.server ['a']) = .online ∧ state.phase (.server ['b']) = .quit := ⟨_, rfl, rfl, rfl⟩
  obtain ⟨-, root⟩ := requests_find_root (by decide) threeServers_addresses ran online
  have zero : ServesZero [['a'], ['b'], ['c']] ['a'] :=
    .inr ((@lastServer_append [] [['b'], ['c']] ['a'] (by decide) 0).mpr rfl)
  exact ⟨state, ran, online, quit, root ['a'] (by decide) zero⟩

/-! ### What the sleep is for -/

def StartState.NoQuit (state : StartState) : Prop := ∀ node, state.phase node ≠ .quit

/-- A server is one of the list and nothing fails, and a process connects only to servers that have been started. -/
def Punctual (hosts : List (List Char)) (state : StartState) : StartEvent → Prop
  | .start host outcome => Starts hosts state host outcome
  | .mount _ mounted => mounted = true
  | .connect node reached => ∀ made host, state.phase node = .connecting made → hosts[made]? = some host →
      reached = true ∧ state.phase (.server host) ≠ .down
  | .stop _ => False

theorem StartState.NoQuit.enter {state after : StartState} {node : Node} {phase : Phase} (noQuit : state.NoQuit)
    (enters : Enters state after node phase) : after.NoQuit ↔ phase ≠ .quit := by
  have here : after.phase node = phase := by rw [enters.phases, Function.update_self]
  constructor
  · intro still
    exact here ▸ still node
  · intro stays other
    by_cases same : other = node
    · rw [same, here]
      exact stays
    · rw [enters.phases, Function.update_of_ne same]
      exact noQuit other

/-- While nobody has quit, the servers that accept connections are those that have been started. -/
theorem StartState.NoQuit.accepts {state : StartState} (noQuit : state.NoQuit) (node : Node) :
    (state.phase node).accepts = true ↔ state.phase node ≠ .down := by
  have stays := noQuit node
  cases phase : state.phase node <;> simp_all [Phase.accepts]

section
variable {Addr : Type} {mapAddr : Addr → List Char} {serveraddrs : List Addr} {hosts : List (List Char)}
  (text : ∀ addr ∈ serveraddrs, nul ∉ mapAddr addr)
  (listed : List.Forall₂ AddressOf hosts (serveraddrs.map mapAddr))
include text listed

theorem StartState.NoQuit.step {state after : StartState} {event : StartEvent} (noQuit : state.NoQuit)
    (stepped : startStep mapAddr serveraddrs state event = some after) : Punctual hosts state event ↔ after.NoQuit := by
  cases event with
  | start host outcome =>
    obtain ⟨-, rootPartition, kept, ⟨missed, rfl⟩ | ⟨starts, -, rfl⟩⟩ := startStep_start text listed stepped
    · have enters : Enters state ({ state with rootPartition }.enter (.server host) .quit) (.server host) .quit :=
        ⟨nofun, rfl, kept⟩
      rw [noQuit.enter enters]
      exact iff_of_false missed fun stays => stays rfl
    · have enters : Enters state ({ state with rootPartition }.enter (.server host) (.connecting 0)) (.server host)
          (.connecting 0) := ⟨nofun, rfl, kept⟩
      rw [noQuit.enter enters]
      exact iff_of_true starts nofun
  | mount host mounted =>
    obtain ⟨-, same⟩ := Option.ite_none_right_eq_some.mp stepped
    cases same
    cases mounted with
    | false =>
      have enters := noQuit.enter (state.enters (.client host) .quit nofun)
      exact iff_of_false Bool.false_ne_true fun still => enters.mp still rfl
    | true =>
      have enters := noQuit.enter (state.enters (.client host) (.connecting 0) nofun)
      exact iff_of_true rfl (enters.mpr nofun)
  | stop node =>
    obtain ⟨-, same⟩ := Option.ite_none_right_eq_some.mp stepped
    cases same
    rw [noQuit.enter (state.enters node .quit nofun)]
    exact iff_of_false id fun stays => stays rfl
  | connect node reached =>
    obtain ⟨made, phase, ended⟩ := startStep_connect text listed stepped
    rcases ended with ⟨past, rfl⟩ | ⟨host, next, ⟨answers, rfl⟩ | ⟨silent, rfl⟩⟩
    · rw [noQuit.enter (state.enters node .online nofun)]
      refine iff_of_true ?_ nofun
      intro other host there found
      cases phase.symm.trans there
      cases past.symm.trans found
    · rw [noQuit.enter (state.enters node (.connecting (made + 1)) nofun)]
      refine iff_of_true ?_ nofun
      intro other target there found
      cases phase.symm.trans there
      cases next.symm.trans found
      rw [Bool.and_eq_true] at answers
      exact ⟨answers.1, (noQuit.accepts _).mp answers.2⟩
    · rw [noQuit.enter (state.enters node .quit nofun)]
      refine iff_of_false ?_ fun stays => stays rfl
      intro punctual
      obtain ⟨reaches, started⟩ := punctual made host phase next
      rw [reaches, (noQuit.accepts _).mpr started] at silent
      cases silent

end

end SkyeFS.Connection
