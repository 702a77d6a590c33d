import SkyeFS.Foundation.Linked

/-! The doubly linked lists of common/utlist.h.

The head pointer is null for the empty list. The last element has no next one, and the
`prev` of the first one is the last one, so that appending does not walk. `none` is a
null pointer followed.
-/

set_option autoImplicit false

namespace SkyeFS.Utlist

open Foundation

variable {Addr : Type} [DecidableEq Addr]

def dlAppend (links : Links Addr) (head : Option Addr) (add : Addr) : Option (Links Addr × Option Addr) :=
  match head with
  | some first => do
      let links := links.setPrev add (links.prev first)
      let tail ← links.prev first
      let links := links.setNext tail (some add)
      let links := links.setPrev first (some add)
      some (links.setNext add none, some first)
  | none => some ((links.setPrev add (some add)).setNext add none, some add)

def dlDelete (links : Links Addr) (head : Option Addr) (del : Addr) : Option (Links Addr × Option Addr) :=
  if links.prev del = some del then some (links, none)
  else if head = some del then do
    let next ← links.next del
    let links := links.setPrev next (links.prev del)
    some (links, links.next del)
  else do
    let before ← links.prev del
    let links := links.setNext before (links.next del)
    match links.next del with
    | some next => some (links.setPrev next (links.prev del), head)
    | none =>
        let first ← head
        some (links.setPrev first (links.prev del), head)

/-- The elements of a list, in its order. -/
def Ring (links : Links Addr) (cells : List Addr) : Prop := links.Segment cells.getLast? cells none

variable {links : Links Addr}

theorem Ring.append {cells : List Addr} {cell : Addr} (ring : Ring links cells) (distinct : (cell :: cells).Nodup) :
    ∃ after, dlAppend links cells.head? cell = some (after, (cells ++ [cell]).head?) ∧ Ring after (cells ++ [cell]) := by
  obtain ⟨fresh, -⟩ := List.nodup_cons.mp distinct
  cases cells with
  | nil =>
    refine ⟨_, rfl, ?_, ?_, trivial⟩
    · exact Function.update_self _ _ _
    · exact Function.update_self _ _ _
  | cons head rest =>
    obtain ⟨tail, last⟩ : ∃ tail, (head :: rest).getLast? = some tail :=
      ⟨_, List.getLast?_eq_some_getLast (List.cons_ne_nil head rest)⟩
    have apart : ∀ {other}, other ∈ head :: rest → other ≠ cell := fun member same => fresh (same ▸ member)
    have atHead : links.prev head = some tail := ring.1.trans last
    have afterFirst : (links.setPrev cell (some tail)).prev head = some tail :=
      (Function.update_of_ne (apart List.mem_cons_self) _ _).trans atHead
    -- The writes of the macro come in another order, to other fields or other elements.
    have reordered : (((links.setPrev cell (some tail)).setNext tail (some cell)).setPrev head (some cell)).setNext cell none =
        (links.append (some tail) cell).setPrev head (some cell) := by
      have swap := Function.update_comm (apart (List.mem_of_getLast? last)) (some cell) none links.next
      rw [Links.append, Links.setNextOf]
      exact congrArg (Links.mk · _) swap
    refine ⟨(links.append (some tail) cell).setPrev head (some cell), ?_, ?_⟩
    · simp only [dlAppend, List.head?_cons, atHead, afterFirst, Option.bind_eq_bind, Option.bind_some, reordered,
        List.cons_append]
    · have appended := Links.Segment.append ring distinct (.inr (List.cons_ne_nil head rest))
      rw [last] at appended
      rw [Ring, List.getLast?_concat]
      refine Links.Segment.setPrevOf_head appended ?_
      exact (List.perm_append_singleton cell (head :: rest)).nodup_iff.mpr distinct

theorem Ring.delete {front back : List Addr} {del : Addr} (ring : Ring links (front ++ del :: back))
    (distinct : (front ++ del :: back).Nodup) :
    ∃ after, dlDelete links (front ++ del :: back).head? del = some (after, (front ++ back).head?) ∧
      Ring after (front ++ back) := by
  obtain ⟨first, behind, ahead, second⟩ := Links.segment_append.mp ring
  rw [Option.or_none] at ahead
  have others : (front ++ back).Nodup := distinct.sublist ((List.sublist_cons_self del back).append_left front)
  cases front with
  | nil =>
    cases back with
    | nil =>
      -- The only element is its own predecessor.
      exact ⟨links, if_pos behind, trivial⟩
    | cons next back =>
      have last : links.prev del = (next :: back).getLast? := behind
      have apart : (next :: back).getLast? ≠ some del := Links.ne_last_of_nodup distinct
      refine ⟨links.setPrev next (links.prev del), ?_, ?_⟩
      · rw [dlDelete, if_neg (last ▸ apart), List.nil_append, List.head?_cons, if_pos rfl, ahead]
        simp only [List.head?_cons, Option.bind_eq_bind, Option.bind_some, Links.setPrev, ahead, List.nil_append]
      · rw [last]
        exact Links.Segment.setPrevOf_head second others
  | cons head rest =>
    obtain ⟨before, last⟩ : ∃ before, (head :: rest).getLast? = some before :=
      ⟨_, List.getLast?_eq_some_getLast (List.cons_ne_nil head rest)⟩
    have apart : ∀ other ∈ head :: rest, other ≠ del :=
      fun other member => (List.nodup_append.mp distinct).2.2 other member del List.mem_cons_self
    have predecessor : links.prev del = some before := by rw [behind, last, Option.some_or]
    have notAlone : links.prev del ≠ some del := by
      rw [predecessor]
      exact fun same => apart before (List.mem_of_getLast? last) (Option.some.inj same)
    have notFirst : some head ≠ some del := fun same => apart head List.mem_cons_self (Option.some.inj same)
    have keptPrev : ∀ target, (links.setNext before target).prev del = some before := fun _ => predecessor
    have keptNext : ∀ target, (links.setNext before target).next del = back.head? := fun _ =>
      (Function.update_of_ne (apart before (List.mem_of_getLast? last)).symm _ _).trans ahead
    obtain ⟨ofFront, -, -⟩ := List.nodup_append.mp distinct
    cases back with
    | nil =>
      refine ⟨(links.setNext before none).setPrev head (some before), ?_, ?_⟩
      · rw [List.cons_append, List.head?_cons, dlDelete, if_neg notAlone, if_neg notFirst]
        simp only [predecessor, ahead, keptNext, keptPrev, Option.bind_eq_bind, Option.bind_some, List.head?_nil,
          List.append_nil, List.head?_cons]
      · have shortened := @Links.Segment.setNextOf_last _ _ _ _ _ none _ first ofFront
        rw [last] at shortened
        rw [List.append_nil, Ring, last]
        exact shortened.setPrevOf_head ofFront
    | cons next back =>
      refine ⟨(links.setNext before (some next)).setPrev next (some before), ?_, ?_⟩
      · rw [List.cons_append, List.head?_cons, dlDelete, if_neg notAlone, if_neg notFirst]
        simp only [predecessor, ahead, keptNext, keptPrev, Option.bind_eq_bind, Option.bind_some, List.head?_cons,
          List.cons_append]
      · have joined := first.join second others
        have same : (head :: rest ++ del :: next :: back).getLast? = (head :: rest ++ next :: back).getLast? := by
          rw [List.getLast?_append, List.getLast?_append, List.getLast?_cons_cons]
        rw [last, same] at joined
        exact joined

end SkyeFS.Utlist
