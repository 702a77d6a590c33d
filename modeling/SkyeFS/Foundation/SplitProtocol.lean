import SkyeFS.Foundation.SuffixTree
import Mathlib.Data.Finset.Union
import Mathlib.Data.Fintype.Basic

/-! A protocol that grows a suffix tree on servers with partial views.

Every server keeps a set of nodes, and every node belongs to at most one server.
A server may add a missing child of a node it holds and owns: it tells the owner
of the child first and enters the child into its own view afterwards. Between the
two it is withheld, that is, it answers nobody.

The views are stale in different ways and need not be parent-closed. What holds
in every run is `Coherent`: the union is parent-closed, and each server knows its
own nodes and, unless it is withheld, all children of its own nodes.
-/

set_option autoImplicit false

namespace Foundation.SplitProtocol

open SuffixTree

variable {Server : Type} [Fintype Server]

@[ext]
structure State (Server : Type) where
  view : Server → Finset Nat
  -- The child a server is adding, and whether its owner has been told.
  pending : Server → Option (Nat × Bool)

/-- The nodes known to any server. -/
def State.all (state : State Server) : Finset Nat := Finset.univ.biUnion state.view

/-- A server that has told another one and has not yet caught up itself. -/
def State.Withheld {Server : Type} (state : State Server) (server : Server) : Prop :=
  ∃ child, state.pending server = some (child, true)

inductive Step {Server : Type} [DecidableEq Server] (owns : Server → Nat → Prop) (state : State Server) :
    State Server → Prop where
  | start (server : Server) (child : Nat) : state.pending server = none → child ≠ 0 →
      parent child ∈ state.view server → owns server (parent child) → child ∉ state.view server →
      Step owns state { state with pending := Function.update state.pending server (some (child, false)) }
  | drop (server : Server) (child : Nat) : state.pending server = some (child, false) →
      Step owns state { state with pending := Function.update state.pending server none }
  | tell (server target : Server) (child : Nat) : state.pending server = some (child, false) →
      owns target child →
      Step owns state
        { view := Function.update state.view target (insert child (state.view target))
          pending := Function.update state.pending server (some (child, true)) }
  | finish (server : Server) (child : Nat) (told : Bool) : state.pending server = some (child, told) →
      (told = false → owns server child) →
      Step owns state
        { view := Function.update state.view server (insert child (state.view server))
          pending := Function.update state.pending server none }

structure Coherent (owns : Server → Nat → Prop) (state : State Server) : Prop where
  closed : ParentClosed state.all
  owned : ∀ server, ∀ node ∈ state.all, owns server node → node ∈ state.view server
  children : ∀ server, ∀ node ∈ state.all, node ≠ 0 → owns server (parent node) →
    node ∈ state.view server ∨ state.pending server = some (node, true)
  pending : ∀ server child told, state.pending server = some (child, told) →
    child ≠ 0 ∧ owns server (parent child) ∧ parent child ∈ state.all ∧ (child ∈ state.all ↔ told = true)

theorem State.view_subset (state : State Server) (server : Server) : state.view server ⊆ state.all :=
  Finset.subset_biUnion_of_mem state.view (Finset.mem_univ server)

theorem State.mem_all {state : State Server} {node : Nat} :
    node ∈ state.all ↔ ∃ server, node ∈ state.view server := by
  simp [State.all]

omit [Fintype Server] in
theorem view_update [DecidableEq Server] (state : State Server) (server : Server) (child : Nat) {other : Server}
    {node : Nat} (member : node ∈ state.view other) :
    node ∈ Function.update state.view server (insert child (state.view server)) other := by
  by_cases same : other = server
  · subst same
    rw [Function.update_self]
    exact Finset.mem_insert_of_mem member
  · rwa [Function.update_of_ne same]

omit [Fintype Server] in
theorem Step.view_mono [DecidableEq Server] {owns : Server → Nat → Prop} {state after : State Server}
    (moved : Step owns state after) (server : Server) : state.view server ⊆ after.view server := by
  cases moved with
  | start | drop => exact Finset.Subset.refl _
  | tell _ target child => exact fun _ member => view_update state target child member
  | finish other child => exact fun _ member => view_update state other child member

theorem all_mono {state after : State Server}
    (grown : ∀ server, state.view server ⊆ after.view server) : state.all ⊆ after.all :=
  Finset.biUnion_mono fun server _ => grown server

theorem all_update [DecidableEq Server] (state : State Server) (server : Server) (child : Nat)
    (pending : Server → Option (Nat × Bool)) :
    State.all { view := Function.update state.view server (insert child (state.view server)), pending } =
      insert child state.all := by
  ext node
  simp only [State.mem_all, Finset.mem_insert]
  constructor
  · rintro ⟨other, member⟩
    by_cases same : other = server
    · subst same
      rw [Function.update_self, Finset.mem_insert] at member
      exact member.imp_right (fun inside => ⟨_, inside⟩)
    · rw [Function.update_of_ne same] at member
      exact Or.inr ⟨other, member⟩
  · rintro (rfl | ⟨other, member⟩)
    · exact ⟨server, by rw [Function.update_self]; exact Finset.mem_insert_self _ _⟩
    · exact ⟨other, view_update state server child member⟩

/-- Servers that all begin with one parent-closed view and no split under way. -/
theorem coherent_initial {owns : Server → Nat → Prop} {nodes : Finset Nat} (closed : ParentClosed nodes) :
    Coherent owns { view := fun _ => nodes, pending := fun _ => none } where
  closed := by
    intro node member positive
    obtain ⟨server, inside⟩ := State.mem_all.mp member
    exact State.mem_all.mpr ⟨server, closed node inside positive⟩
  owned := by
    intro server node member _
    exact (State.mem_all.mp member).choose_spec
  children := by
    intro server node member _ _
    exact Or.inl (State.mem_all.mp member).choose_spec
  pending := by
    intro server child told waiting
    cases waiting

theorem parentClosed_insert {nodes : Finset Nat} (closed : ParentClosed nodes) {child : Nat}
    (above : parent child ∈ nodes) : ParentClosed (insert child nodes) := by
  intro node member positive
  rcases Finset.mem_insert.mp member with rfl | inside
  · exact Finset.mem_insert_of_mem above
  · exact Finset.mem_insert_of_mem (closed node inside positive)

variable {owns : Server → Nat → Prop}

section
variable {state : State Server} (coherent : Coherent owns state)
include coherent

theorem Coherent.pending_distinct (unique : ∀ {first second node}, owns first node → owns second node → first = second)
    {first second : Server} {one two : Nat} {toldOne toldTwo : Bool}
    (left : state.pending first = some (one, toldOne)) (right : state.pending second = some (two, toldTwo))
    (different : first ≠ second) : one ≠ two := by
  -- Entries that other servers are adding hang below other nodes.
  rintro rfl
  obtain ⟨-, ownLeft, -⟩ := coherent.pending _ _ _ left
  obtain ⟨-, ownRight, -⟩ := coherent.pending _ _ _ right
  exact different (unique ownLeft ownRight)

variable [DecidableEq Server]

theorem Coherent.start {server : Server} {child : Nat} (positive : child ≠ 0)
    (above : parent child ∈ state.view server) (own : owns server (parent child))
    (free : state.pending server = none) (missing : child ∉ state.view server) :
    Coherent owns { state with pending := Function.update state.pending server (some (child, false)) } where
  closed := coherent.closed
  owned := coherent.owned
  children := by
    intro other node member nonzero below
    rcases coherent.children other node member nonzero below with known | waiting
    · exact Or.inl known
    · refine Or.inr ?_
      have distinct : other ≠ server := by
        rintro rfl
        rw [free] at waiting
        cases waiting
      exact (Function.update_of_ne distinct _ _).trans waiting
  pending := by
    intro other added told waiting
    by_cases same : other = server
    · subst same
      simp only [Function.update_self] at waiting
      cases waiting
      refine ⟨positive, own, state.view_subset _ above, iff_of_false (fun member => ?_) (by decide)⟩
      -- The server knows every child of its own nodes, so the child is new everywhere.
      rcases coherent.children _ _ member positive own with known | waiting
      · exact missing known
      · rw [free] at waiting
        cases waiting
    · exact coherent.pending other added told ((Function.update_of_ne same _ _).symm.trans waiting)

theorem Coherent.drop {server : Server} {child : Nat} (waiting : state.pending server = some (child, false)) :
    Coherent owns { state with pending := Function.update state.pending server none } where
  closed := coherent.closed
  owned := coherent.owned
  children := by
    intro other node member nonzero below
    rcases coherent.children other node member nonzero below with known | told
    · exact Or.inl known
    · refine Or.inr ?_
      have distinct : other ≠ server := by
        rintro rfl
        rw [waiting] at told
        cases told
      exact (Function.update_of_ne distinct _ _).trans told
  pending := by
    intro other added told held
    have distinct : other ≠ server := by
      rintro rfl
      simp only [Function.update_self] at held
      cases held
    exact coherent.pending other added told ((Function.update_of_ne distinct _ _).symm.trans held)

theorem Coherent.tell (unique : ∀ {first second node}, owns first node → owns second node → first = second)
    {server target : Server} {child : Nat} (waiting : state.pending server = some (child, false))
    (own : owns target child) :
    Coherent owns
      { view := Function.update state.view target (insert child (state.view target))
        pending := Function.update state.pending server (some (child, true)) } := by
  obtain ⟨positive, ownAbove, above, fresh⟩ := coherent.pending _ _ _ waiting
  have grown := all_update state target child (Function.update state.pending server (some (child, true)))
  refine ⟨?_, ?_, ?_, ?_⟩
  · rw [grown]
    exact parentClosed_insert coherent.closed above
  · intro other node member owner
    rw [grown] at member
    rcases Finset.mem_insert.mp member with rfl | inside
    · -- The owner of the child is the one that is told.
      obtain rfl := unique owner own
      simp
    · exact view_update state target child (coherent.owned other node inside owner)
  · intro other node member nonzero owner
    rw [grown] at member
    rcases Finset.mem_insert.mp member with rfl | inside
    · -- The owner of the parent is the splitter, which is withheld until it finishes.
      obtain rfl := unique owner ownAbove
      exact Or.inr (Function.update_self ..)
    · rcases coherent.children other node inside nonzero owner with known | told
      · exact Or.inl (view_update state target child known)
      · have distinct : other ≠ server := by
          rintro rfl
          rw [waiting] at told
          cases told
        exact Or.inr ((Function.update_of_ne distinct _ _).trans told)
  · intro other added told held
    rw [grown]
    by_cases same : other = server
    · subst same
      simp only [Function.update_self] at held
      cases held
      exact ⟨positive, ownAbove, Finset.mem_insert_of_mem above, iff_of_true (Finset.mem_insert_self _ _) rfl⟩
    · have before : state.pending other = some (added, told) := (Function.update_of_ne same _ _).symm.trans held
      obtain ⟨nonzero, owner, inside, known⟩ := coherent.pending _ _ _ before
      refine ⟨nonzero, owner, Finset.mem_insert_of_mem inside, ?_⟩
      rw [Finset.mem_insert, or_iff_right (coherent.pending_distinct unique before waiting same), known]

theorem Coherent.finish (unique : ∀ {first second node}, owns first node → owns second node → first = second)
    {server : Server} {child : Nat} {told : Bool} (waiting : state.pending server = some (child, told))
    (own : told = false → owns server child) :
    Coherent owns
      { view := Function.update state.view server (insert child (state.view server))
        pending := Function.update state.pending server none } := by
  obtain ⟨positive, ownAbove, above, fresh⟩ := coherent.pending _ _ _ waiting
  have grown := all_update state server child (Function.update state.pending server none)
  refine ⟨?_, ?_, ?_, ?_⟩
  · rw [grown]
    exact parentClosed_insert coherent.closed above
  · intro other node member owner
    rw [grown] at member
    rcases Finset.mem_insert.mp member with rfl | inside
    · -- If the owner was told it has the child already, and else it is the splitter.
      cases told with
      | true => exact view_update state server node (coherent.owned other node (fresh.mpr rfl) owner)
      | false =>
        obtain rfl := unique owner (own rfl)
        simp
    · exact view_update state server child (coherent.owned other node inside owner)
  · intro other node member nonzero owner
    rw [grown] at member
    rcases Finset.mem_insert.mp member with rfl | inside
    · obtain rfl := unique owner ownAbove
      simp
    · rcases coherent.children other node inside nonzero owner with known | held
      · exact Or.inl (view_update state server child known)
      · by_cases same : other = server
        · subst same
          rw [waiting] at held
          cases held
          simp
        · exact Or.inr ((Function.update_of_ne same _ _).trans held)
  · intro other added toldOther held
    rw [grown]
    have distinct : other ≠ server := by
      rintro rfl
      simp only [Function.update_self] at held
      cases held
    have before : state.pending other = some (added, toldOther) :=
      (Function.update_of_ne distinct _ _).symm.trans held
    obtain ⟨nonzero, owner, inside, known⟩ := coherent.pending _ _ _ before
    refine ⟨nonzero, owner, Finset.mem_insert_of_mem inside, ?_⟩
    rw [Finset.mem_insert, or_iff_right (coherent.pending_distinct unique before waiting distinct), known]

theorem Coherent.step (unique : ∀ {first second node}, owns first node → owns second node → first = second)
    {after : State Server} (moved : Step owns state after) : Coherent owns after := by
  cases moved with
  | start server child free positive above own missing => exact coherent.start positive above own free missing
  | drop server child waiting => exact coherent.drop waiting
  | tell server target child waiting own => exact coherent.tell unique waiting own
  | finish server child told waiting own => exact coherent.finish unique waiting own

end

/-! ### Splits and restarts as a whole -/

section
variable {view : Server → Finset Nat} (coherent : Coherent owns { view, pending := fun _ => none })
  (after : Server → Finset Nat)
include coherent

/-- A child that enters, at once, the view of its owner and that of the owner of its parent. -/
theorem Coherent.settle (unique : ∀ {first second node}, owns first node → owns second node → first = second)
    {server : Server} {child : Nat} (above : parent child ∈ view server) (own : owns server (parent child))
    (grown : ∀ other node, node ∈ after other ↔ node ∈ view other ∨ node = child ∧ (other = server ∨ owns other child)) :
    State.all { view := after, pending := fun _ => none } =
      insert child (State.all { view, pending := fun _ => none }) ∧
      Coherent owns { view := after, pending := fun _ => none } := by
  have all : State.all { view := after, pending := fun _ => none } =
      insert child (State.all { view, pending := fun _ => none }) := by
    ext node
    simp only [State.mem_all, Finset.mem_insert, grown]
    constructor
    · rintro ⟨other, inside | ⟨same, -⟩⟩
      · exact Or.inr ⟨other, inside⟩
      · exact Or.inl same
    · rintro (same | ⟨other, inside⟩)
      · exact ⟨server, Or.inr ⟨same, Or.inl rfl⟩⟩
      · exact ⟨other, Or.inl inside⟩
  refine ⟨all, ?_, ?_, ?_, nofun⟩
  · rw [all]
    exact parentClosed_insert coherent.closed (State.mem_all.mpr ⟨server, above⟩)
  · intro other node member owner
    rw [all] at member
    rcases Finset.mem_insert.mp member with same | inside
    · exact (grown other node).mpr (Or.inr ⟨same, Or.inr (same ▸ owner)⟩)
    · exact (grown other node).mpr (Or.inl (coherent.owned other node inside owner))
  · intro other node member positive owner
    rw [all] at member
    rcases Finset.mem_insert.mp member with rfl | inside
    · exact Or.inl ((grown other node).mpr (Or.inr ⟨rfl, Or.inl (unique owner own)⟩))
    · obtain known | waiting := coherent.children other node inside positive owner
      · exact Or.inl ((grown other node).mpr (Or.inl known))
      · cases waiting

/-- A server that takes over everything that any server knows. -/
theorem Coherent.refresh (server : Server) (others : ∀ other, other ≠ server → after other = view other)
    (refreshed : after server = State.all { view, pending := fun _ => none }) :
    State.all { view := after, pending := fun _ => none } = State.all { view, pending := fun _ => none } ∧
      Coherent owns { view := after, pending := fun _ => none } := by
  have grown : ∀ other, view other ⊆ after other := by
    intro other
    by_cases same : other = server
    · rw [same, refreshed]
      exact State.view_subset { view, pending := fun _ => none } server
    · rw [others other same]
  have all : State.all { view := after, pending := fun _ => none } = State.all { view, pending := fun _ => none } := by
    refine Finset.Subset.antisymm (fun node member => ?_) (all_mono grown)
    obtain ⟨other, inside⟩ := State.mem_all.mp member
    by_cases same : other = server
    · have known : node ∈ after server := same ▸ inside
      rwa [refreshed] at known
    · have known : node ∈ view other := (others other same).subset inside
      exact State.mem_all.mpr ⟨other, known⟩
  refine ⟨all, all ▸ coherent.closed, ?_, ?_, nofun⟩
  · intro other node member owner
    exact grown other (coherent.owned other node (all ▸ member) owner)
  · intro other node member positive owner
    obtain known | waiting := coherent.children other node (all ▸ member) positive owner
    · exact Or.inl (grown other known)
    · cases waiting

end

section
variable {state : State Server} (coherent : Coherent owns state)
include coherent

/-- What a server that is not withheld finds among its own nodes is found in the union as well. -/
theorem Coherent.agrees {server : Server} (ready : ¬ state.Withheld server) {key node : Nat}
    (deepest : Deepest (state.view server) key node) (own : owns server node) : Deepest state.all key node := by
  refine Deepest.agrees (state.view_subset server) coherent.closed deepest ?_
  intro child member below positive
  rcases coherent.children server child member positive (below ▸ own) with known | held
  · exact known
  · exact absurd ⟨child, held⟩ ready

/-- A server that is asked for one of its own nodes and finds a node of another server instead
knows a node the asking side did not know. -/
theorem Coherent.redirect {server : Server} {asked : Finset Nat} (known : asked ⊆ state.all) {key node found : Nat}
    (route : Deepest asked key node) (own : owns server node)
    (deepest : Deepest (state.view server) key found) (foreign : ¬ owns server found) :
    ∃ fresh ∈ state.view server, fresh ∉ asked := by
  refine ⟨found, deepest.mem, fun member => foreign ?_⟩
  have held : node ∈ state.view server := coherent.owned server node (known route.mem) own
  have same : found = node := by
    have upper := route.maximal found member deepest.suffix
    have lower := deepest.maximal node held route.suffix
    omega
  exact same ▸ own

end

end Foundation.SplitProtocol
