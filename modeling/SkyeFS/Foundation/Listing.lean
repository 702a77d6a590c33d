import Mathlib.Data.List.AList

/-! Listings: keyed entries in an order that readers page through.

A listing binds every key at most once and keeps its entries in an order that a
reader sees. New entries may appear at any position, an overwritten entry keeps
its place, and a removal moves the entries behind it one place forward. The last
lemmas say what that does to a reader that has read a number of places so far.
-/

set_option autoImplicit false

namespace Foundation

abbrev Listing (Key Value : Type) := AList (fun _ : Key => Value)

namespace Listing

variable {Key Value : Type} [DecidableEq Key]

/-- A new entry at the given position, or at the end of a shorter listing. -/
def insertAt (position : Nat) (key : Key) (value : Value) (listing : Listing Key Value)
    (fresh : key ∉ listing) : Listing Key Value where
  entries := listing.entries.take position ++ ⟨key, value⟩ :: listing.entries.drop position
  nodupKeys := by
    rw [List.nodupKeys_middle, List.take_append_drop, List.nodupKeys_cons]
    exact ⟨fresh, listing.nodupKeys⟩

/-- Bind a key. Only a new key uses the position. -/
def put (position : Nat) (key : Key) (value : Value) (listing : Listing Key Value) : Listing Key Value :=
  if present : key ∈ listing then listing.replace key value else insertAt position key value listing present

theorem lookup_insertAt {position : Nat} {key other : Key} {value : Value} {listing : Listing Key Value}
    (fresh : key ∉ listing) :
    (insertAt position key value listing fresh).lookup other =
      if other = key then some value else listing.lookup other := by
  have reordered : (insertAt position key value listing fresh).entries.Perm (listing.insert key value).entries := by
    rw [AList.entries_insert_of_notMem fresh]
    refine List.perm_middle.trans ?_
    rw [List.take_append_drop]
  rw [AList.perm_lookup reordered]
  split
  · rename_i same
    subst same
    exact AList.lookup_insert listing
  · rename_i different
    exact AList.lookup_insert_ne different

theorem dlookup_kreplace {key other : Key} {value : Value} {entries : List (Σ _ : Key, Value)} :
    (List.kreplace key value entries).dlookup other =
      if other = key ∧ key ∈ entries.keys then some value else entries.dlookup other := by
  induction entries with
  | nil => simp [List.kreplace, List.lookmap_nil]
  | cons entry rest ih =>
    obtain ⟨first, held⟩ := entry
    by_cases replaced : key = first
    · subst replaced
      have changed : List.kreplace key value (⟨key, held⟩ :: rest) = ⟨key, value⟩ :: rest :=
        List.lookmap_cons_some _ _ (if_pos rfl)
      rw [changed]
      by_cases same : other = key
      · subst same
        simp
      · simp [same, List.dlookup_cons_ne]
    · have kept : List.kreplace key value (⟨first, held⟩ :: rest) = ⟨first, held⟩ :: List.kreplace key value rest :=
        List.lookmap_cons_none _ _ (if_neg replaced)
      rw [kept]
      by_cases same : other = first
      · subst same
        simp [Ne.symm replaced]
      · simp [List.dlookup_cons_ne, same, ih, replaced]

theorem lookup_put {position : Nat} {key other : Key} {value : Value} {listing : Listing Key Value} :
    (put position key value listing).lookup other =
      if other = key then some value else listing.lookup other := by
  unfold put
  split
  · rename_i present
    rw [AList.replace, AList.lookup, dlookup_kreplace]
    simp only [show key ∈ listing.entries.keys from present, and_true]
    rfl
  · rename_i fresh
    exact lookup_insertAt fresh

theorem erase_put {position : Nat} {key : Key} {value : Value} {listing : Listing Key Value} (fresh : key ∉ listing) :
    (put position key value listing).erase key = listing := by
  have outside : key ∉ (listing.entries.take position).keys := fun member =>
    fresh ((List.take_sublist position listing.entries).map Sigma.fst |>.subset member)
  apply AList.ext
  rw [put, dif_neg fresh]
  change List.kerase key (listing.entries.take position ++ ⟨key, value⟩ :: listing.entries.drop position) = _
  have removed : List.kerase key (⟨key, value⟩ :: listing.entries.drop position) = listing.entries.drop position :=
    List.kerase_cons_eq rfl
  rw [List.kerase_append_right outside, removed, List.take_append_drop]

theorem mem_put {position : Nat} {key other : Key} {value : Value} {listing : Listing Key Value} :
    other ∈ put position key value listing ↔ other = key ∨ other ∈ listing := by
  rw [← AList.lookup_isSome, ← AList.lookup_isSome, lookup_put]
  split <;> simp [*]

omit [DecidableEq Key] in
theorem keys_insertAt {position : Nat} {key : Key} {value : Value} {listing : Listing Key Value}
    (fresh : key ∉ listing) :
    (insertAt position key value listing fresh).keys =
      listing.keys.take position ++ key :: listing.keys.drop position := by
  simp [insertAt, AList.keys, List.keys, List.map_take, List.map_drop]

omit [DecidableEq Key] in
theorem mem_take_insert {position count : Nat} {key other : Key} {keys : List Key}
    (member : other ∈ (keys.take position ++ key :: keys.drop position).take count) :
    other = key ∨ other ∈ keys.take count := by
  induction keys generalizing position count with
  | nil =>
    simp only [List.take_nil, List.drop_nil, List.nil_append] at member
    exact Or.inl (List.mem_singleton.mp (List.mem_of_mem_take member))
  | cons first rest ih =>
    cases count with
    | zero => simp at member
    | succ count =>
      cases position with
      | zero =>
        simp only [List.take_zero, List.drop_zero, List.nil_append, List.take_succ_cons, List.mem_cons] at member
        exact member.imp_right fun later => List.take_subset_take_left _ count.le_succ later
      | succ position =>
        simp only [List.take_succ_cons, List.drop_succ_cons, List.cons_append, List.mem_cons] at member ⊢
        rcases member with same | member
        · exact Or.inr (Or.inl same)
        · exact (ih member).imp_right Or.inr

omit [DecidableEq Key] in
theorem mem_drop_insert {position count : Nat} {key other : Key} {keys : List Key} (member : other ∈ keys.drop count) :
    other ∈ (keys.take position ++ key :: keys.drop position).drop count := by
  induction keys generalizing position count with
  | nil => simp at member
  | cons first rest ih =>
    cases count with
    | zero =>
      rw [List.drop_zero, ← List.take_append_drop position (first :: rest), List.mem_append] at member
      exact List.mem_append.mpr (member.imp_right (List.mem_cons_of_mem key))
    | succ count =>
      cases position with
      | zero => exact List.drop_subset_drop_left (first :: rest) count.le_succ member
      | succ position => exact ih member

/-- What is new among the first `count` entries after a binding is the key itself. -/
theorem mem_take_put {position count : Nat} {key other : Key} {value : Value} {listing : Listing Key Value}
    (member : other ∈ (put position key value listing).keys.take count) :
    other = key ∨ other ∈ listing.keys.take count := by
  unfold put at member
  split at member
  · rw [AList.keys_replace] at member
    exact Or.inr member
  · rename_i fresh
    rw [keys_insertAt fresh] at member
    exact mem_take_insert member

/-- A binding moves nothing forward. -/
theorem mem_drop_put {position count : Nat} {key other : Key} {value : Value} {listing : Listing Key Value}
    (member : other ∈ listing.keys.drop count) : other ∈ (put position key value listing).keys.drop count := by
  unfold put
  split
  · rw [AList.keys_replace]
    exact member
  · rename_i fresh
    rw [keys_insertAt fresh]
    exact mem_drop_insert member

theorem keys_erase_sublist {key : Key} {listing : Listing Key Value} :
    (listing.erase key).keys.Sublist listing.keys := by
  rw [AList.keys_erase]
  exact List.erase_sublist

theorem keys_erase_head {key : Key} {rest : List Key} {listing : Listing Key Value}
    (first : listing.keys = key :: rest) : (listing.erase key).keys = rest := by
  rw [AList.keys_erase, first, List.erase_cons_head]

theorem keys_erase_eq_filter {key : Key} {listing : Listing Key Value} :
    (listing.erase key).keys = listing.keys.filter (· ≠ key) := by
  rw [AList.keys_erase, listing.keys_nodup.erase_eq_filter]
  refine List.filter_congr fun other _ => ?_
  simp [bne, BEq.beq]

theorem length_keys_erase {key : Key} {listing : Listing Key Value} :
    (listing.erase key).keys.length ≤ listing.keys.length := by
  rw [AList.keys_erase]
  exact List.length_erase_le

/-- What is new among the first `count` entries after a removal is the entry that stood
behind them, and only if the removed one stood among them. -/
theorem mem_take_erase {count : Nat} {key other : Key} {keys : List Key}
    (member : other ∈ (keys.erase key).take count) :
    other ∈ keys.take count ∨ key ∈ keys.take count ∧ keys[count]? = some other := by
  induction keys generalizing count with
  | nil => simp at member
  | cons first rest ih =>
    cases count with
    | zero => simp at member
    | succ count =>
      by_cases same : first = key
      · subst same
        -- The removed entry comes first, so the places behind it all move by one.
        rw [List.erase_cons_head, List.take_add_one, List.mem_append, Option.mem_toList] at member
        rcases member with kept | next
        · exact Or.inl (by simp [kept])
        · exact Or.inr ⟨by simp, by simpa using next⟩
      · rw [List.erase_cons_tail (by simpa using same), List.take_succ_cons, List.mem_cons] at member
        rcases member with rfl | member
        · exact Or.inl (by simp)
        · rcases ih member with kept | ⟨removed, next⟩
          · exact Or.inl (by simp [kept])
          · exact Or.inr ⟨by simp [removed], by simpa using next⟩

end Listing

end Foundation
