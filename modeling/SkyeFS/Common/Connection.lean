import SkyeFS.Foundation.CText

/-! The file system that a node is told to connect to, after common/connection.c.

The argument lists the addresses of some servers, each followed by the name of the file
system. `pvfs_connect` takes it apart in place: zeros replace the commas and the last slash
of every address, so that an error message shows what is left of the argument up to the
first zero.
-/

set_option autoImplicit false

namespace SkyeFS.Connection

open Foundation Foundation.CText

/-- The members of `struct PVFS_sys_mntent` that the argument fills. -/
structure PvfsMntent where
  numPvfsConfigServers : Nat
  -- Zeroed memory, in which a null pointer is `none`.
  pvfsConfigServers : List (Option (List Char))
  pvfsFsName : List Char
deriving DecidableEq

inductive Exit where
  -- The process prints the text and exits.
  | message (text : List Char)
  -- It writes beyond the array of the servers, or to a null pointer.
  | fault
deriving DecidableEq

def invalidSpec (shown : List Char) : Exit := .message ("Error: invalid FS spec: ".toList ++ shown ++ ['\n'])

def differentNames (shown : List Char) : Exit :=
  .message ("Error: different fs names in server addresses: ".toList ++ shown ++ ['\n'])

/-- The loop over the slashes of a token; it has at most as many rounds as the buffer has characters. -/
def countSlashes (fsSpec : List Char) : Nat → Nat → Nat
  | 0, _ => 0
  | rounds + 1, slash =>
      match index fsSpec slash '/' with
      | none => 0
      | some found => countSlashes fsSpec rounds (found + 1) + 1

/-- One token: the buffer and the entry after it. -/
def parseToken (fsSpec : List Char) (tok curServer : Nat) (me : PvfsMntent) : Except Exit (List Char × PvfsMntent) :=
  if countSlashes fsSpec fsSpec.length tok ≠ 3 then .error (invalidSpec (read fsSpec 0))
  else
    match rindex fsSpec tok '/' with
    | none => .error .fault
    | some lastSlash =>
        let fsSpec := fsSpec.set lastSlash nul
        if curServer < me.pvfsConfigServers.length then
          let me := { me with pvfsConfigServers := me.pvfsConfigServers.set curServer (some (read fsSpec tok)) }
          if curServer = 0 then .ok (fsSpec, { me with pvfsFsName := read fsSpec (lastSlash + 1) })
          else if read fsSpec (lastSlash + 1) ≠ me.pvfsFsName then .error (differentNames (read fsSpec 0))
          else .ok (fsSpec, me)
        else .error .fault

/-- `none` if the rounds do not suffice. -/
def parseLoop : Nat → List Char → Option Nat → Nat → PvfsMntent → Option (Except Exit PvfsMntent)
  | 0, _, _, _, _ => none
  | rounds + 1, fsSpec, cp, curServer, me =>
      match strsep ',' fsSpec cp with
      | (none, _, _) => some (.ok me)
      | (some tok, cp, fsSpec) =>
          match parseToken fsSpec tok curServer me with
          | .error exit => some (.error exit)
          | .ok (fsSpec, me) => parseLoop rounds fsSpec cp (curServer + 1) me

/-- The part of `pvfs_connect` that reads its argument. There is one round for each token, and one that ends the loop. -/
def parseFsSpec (fsSpec : List Char) : Option (Except Exit PvfsMntent) :=
  let servers := fsSpec.count ',' + 1
  parseLoop (servers + 1) (fsSpec ++ [nul]) (some 0) 0 ⟨servers, List.replicate servers none, []⟩

/-! ### One token -/

section
variable {before after text front back : List Char}

theorem countSlashes_eq {rounds : Nat} (noNul : nul ∉ text) (enough : text.count '/' ≤ rounds) :
    countSlashes (before ++ (text ++ nul :: after)) rounds before.length = text.count '/' := by
  induction rounds generalizing before text with
  | zero => rw [countSlashes, Nat.le_zero.mp enough]
  | succ rounds ih =>
    rw [countSlashes]
    by_cases member : '/' ∈ text
    · obtain ⟨front, back, rfl, absent⟩ := List.eq_append_cons_of_mem member
      have counted : (front ++ '/' :: back).count '/' = back.count '/' + 1 := by
        rw [List.count_append, List.count_cons_self, List.count_eq_zero.mpr absent, Nat.zero_add]
      rw [index_append noNul absent]
      -- The rest of the string is the string at the next position.
      have moved : before ++ ((front ++ '/' :: back) ++ nul :: after) =
          (before ++ (front ++ ['/'])) ++ (back ++ nul :: after) := by simp
      have position : before.length + front.length + 1 = (before ++ (front ++ ['/'])).length := by
        simp only [List.length_append, List.length_singleton, Nat.add_assoc]
      have clean : nul ∉ back := fun inside => noNul (by simp [inside])
      dsimp only
      rw [moved, position, ih clean (by omega), counted]
    · rw [index_none noNul member, List.count_eq_zero.mpr member]

theorem parseToken_invalid (before after : List Char) (noNul : nul ∉ text) (wrong : text.count '/' ≠ 3)
    (curServer : Nat) (me : PvfsMntent) :
    parseToken (before ++ (text ++ nul :: after)) before.length curServer me =
      .error (invalidSpec (read (before ++ (text ++ nul :: after)) 0)) := by
  have enough : text.count '/' ≤ (before ++ (text ++ nul :: after)).length := by
    have part := List.count_le_length (a := '/') (l := text)
    simp only [List.length_append]
    omega
  rw [parseToken, countSlashes_eq noNul enough, if_pos wrong]

/-- A token with its three slashes is cut at the last one. -/
theorem parseToken_valid (before after : List Char) (noNul : nul ∉ front ++ '/' :: back) (absent : '/' ∉ back)
    (three : (front ++ '/' :: back).count '/' = 3) {curServer : Nat} {me : PvfsMntent}
    (room : curServer < me.pvfsConfigServers.length) :
    parseToken (before ++ ((front ++ '/' :: back) ++ nul :: after)) before.length curServer me =
      let fsSpec := before ++ ((front ++ nul :: back) ++ nul :: after)
      let me := { me with pvfsConfigServers := me.pvfsConfigServers.set curServer (some front) }
      if curServer = 0 then .ok (fsSpec, { me with pvfsFsName := back })
      else if back ≠ me.pvfsFsName then .error (differentNames (read fsSpec 0))
      else .ok (fsSpec, me) := by
  have enough : (front ++ '/' :: back).count '/' ≤ (before ++ ((front ++ '/' :: back) ++ nul :: after)).length := by
    have part := List.count_le_length (a := '/') (l := front ++ '/' :: back)
    simp only [List.length_append] at part ⊢
    omega
  have cut : (before ++ ((front ++ '/' :: back) ++ nul :: after)).set (before.length + front.length) nul =
      before ++ ((front ++ nul :: back) ++ nul :: after) := by
    rw [List.append_assoc, List.cons_append, set_append, List.append_assoc, List.cons_append]
  have server : read (before ++ ((front ++ nul :: back) ++ nul :: after)) before.length = front := by
    rw [List.append_assoc, List.cons_append]
    exact read_append fun inside => noNul (by simp [inside])
  have name : read (before ++ ((front ++ nul :: back) ++ nul :: after)) (before.length + front.length + 1) = back := by
    have moved : before ++ ((front ++ nul :: back) ++ nul :: after) =
        (before ++ (front ++ [nul])) ++ (back ++ nul :: after) := by simp
    have position : before.length + front.length + 1 = (before ++ (front ++ [nul])).length := by
      simp only [List.length_append, List.length_singleton, Nat.add_assoc]
    rw [moved, position]
    exact read_append fun inside => noNul (by simp [inside])
  rw [parseToken, countSlashes_eq noNul enough, if_neg (not_not.mpr three), rindex_append noNul absent]
  simp only [cut, server, name, if_pos room]

end

/-! ### All tokens -/

def pending : List (List Char) → List Char
  | [] => []
  | [tok] => tok ++ [nul]
  | tok :: more => tok ++ ',' :: pending more

def cursor (position : Nat) : List (List Char) → Option Nat
  | [] => none
  | _ :: _ => some position

def Plain (tok : List Char) : Prop := nul ∉ tok ∧ ',' ∉ tok

theorem pending_eq {tokens : List (List Char)} (nonempty : tokens ≠ []) :
    pending tokens = [','].intercalate tokens ++ [nul] := by
  induction tokens with
  | nil => exact absurd rfl nonempty
  | cons tok more ih =>
    cases more with
    | nil => rw [pending, List.intercalate_singleton]
    | cons next more =>
      rw [pending, ih (List.cons_ne_nil _ _), List.intercalate_cons_cons]
      · simp
      · exact List.cons_ne_nil _ _

theorem nul_intercalate {tokens : List (List Char)} (plain : ∀ tok ∈ tokens, Plain tok) :
    nul ∉ [','].intercalate tokens := by
  induction tokens with
  | nil => exact List.not_mem_nil
  | cons tok more ih =>
    have rest := ih fun other member => plain other (List.mem_cons_of_mem _ member)
    have first := (plain tok List.mem_cons_self).1
    cases more with
    | nil => rwa [List.intercalate_singleton]
    | cons next more =>
      rw [List.intercalate_cons_cons]
      simp only [List.mem_append, List.mem_singleton, not_or]
      exact ⟨⟨first, by decide⟩, rest⟩

theorem strsep_pending (before : List Char) {tok : List Char} {more : List (List Char)}
    (plain : ∀ other ∈ tok :: more, Plain other) :
    strsep ',' (before ++ pending (tok :: more)) (some before.length) =
      (some before.length, cursor (before.length + tok.length + 1) more, before ++ (tok ++ nul :: pending more)) := by
  have noComma := (plain tok List.mem_cons_self).2
  cases more with
  | nil =>
    have missing : index (before ++ (tok ++ nul :: [])) before.length ',' = none :=
      index_none (plain tok List.mem_cons_self).1 noComma
    have last : pending [tok] = tok ++ [nul] := rfl
    rw [strsep, last, missing]
    rfl
  | cons next more =>
    have spelled : before ++ pending (tok :: next :: more) =
        before ++ ((tok ++ ',' :: [','].intercalate (next :: more)) ++ nul :: []) := by
      rw [pending_eq (List.cons_ne_nil _ _), List.intercalate_cons_cons]
      simp
    have noNul := nul_intercalate plain
    rw [List.intercalate_cons_cons, List.append_assoc, List.singleton_append] at noNul
    rw [strsep, spelled, index_append noNul noComma]
    dsimp only
    rw [List.append_assoc, List.cons_append, set_append, pending_eq (List.cons_ne_nil next more)]
    rfl

/-- The tokens after the first one, whose address is shown in messages. -/
def checkTokens (shown name : List Char) : List (List Char) → Except Exit Unit
  | [] => .ok ()
  | tok :: more =>
      if tok.count '/' ≠ 3 then .error (invalidSpec shown)
      else if (splitLast '/' tok).2 ≠ name then .error (differentNames shown)
      else checkTokens shown name more

theorem slash_mem {tok : List Char} (three : tok.count '/' = 3) : '/' ∈ tok := by
  apply List.count_pos_iff.mp
  omega

theorem set_taken {taken : List (List Char)} {server : List Char} {count : Nat} :
    (taken.map some ++ List.replicate (count + 1) none).set taken.length (some server) =
      (taken ++ [server]).map some ++ List.replicate count none := by
  rw [List.set_append_right _ _ (by rw [List.length_map]), List.length_map, Nat.sub_self, List.replicate_succ,
    List.set_cons_zero]
  simp

theorem parseLoop_checks {shown name : List Char} (clean : nul ∉ shown) {tokens : List (List Char)}
    (plain : ∀ tok ∈ tokens, Plain tok) {servers : Nat} (taken : List (List Char)) (some_ : taken ≠ [])
    (tail : List Char) {rounds : Nat} (enough : tokens.length < rounds) :
    parseLoop rounds ((shown ++ nul :: tail) ++ pending tokens) (cursor (shown ++ nul :: tail).length tokens)
        taken.length ⟨servers, taken.map some ++ List.replicate tokens.length none, name⟩ =
      some ((checkTokens shown name tokens).map fun _ =>
        ⟨servers, (taken ++ tokens.map fun tok => (splitLast '/' tok).1).map some, name⟩) := by
  induction tokens generalizing taken tail rounds with
  | nil =>
    obtain ⟨rounds, rfl⟩ := Nat.exists_eq_succ_of_ne_zero (Nat.ne_of_gt enough)
    simp [parseLoop, cursor, strsep, checkTokens, Except.map]
  | cons tok more ih =>
    obtain ⟨rounds, rfl⟩ := Nat.exists_eq_succ_of_ne_zero (Nat.ne_of_gt (Nat.lt_of_le_of_lt (Nat.zero_le _) enough))
    have noNul := (plain tok List.mem_cons_self).1
    have shows : ∀ rest, read ((shown ++ nul :: tail) ++ rest) 0 = shown := by
      intro rest
      rw [List.append_assoc, List.cons_append]
      exact read_zero clean
    rw [parseLoop, cursor, strsep_pending _ plain, checkTokens]
    dsimp only
    by_cases three : tok.count '/' = 3
    · obtain ⟨front, back, rfl, absent⟩ := exists_last (slash_mem three)
      have room : taken.length < (taken.map some ++ List.replicate (more.length + 1) none).length := by
        simp only [List.length_append, List.length_map, List.length_replicate]
        omega
      have later : taken.length ≠ 0 := fun none_ => some_ (List.length_eq_zero_iff.mp none_)
      rw [List.length_cons, parseToken_valid _ _ noNul absent three room, splitLast_append absent, if_neg (not_not.mpr three)]
      simp only [if_neg later, set_taken]
      by_cases same : back = name
      · subst same
        -- The token and its terminator join what is in front of the next token.
        have joined : (shown ++ nul :: tail) ++ ((front ++ nul :: back) ++ nul :: pending more) =
            (shown ++ nul :: (tail ++ ((front ++ nul :: back) ++ [nul]))) ++ pending more := by simp
        have position : (shown ++ nul :: tail).length + (front ++ '/' :: back).length + 1 =
            (shown ++ nul :: (tail ++ ((front ++ nul :: back) ++ [nul]))).length := by
          simp only [List.length_append, List.length_cons, List.length_nil]
          omega
        have rest := ih (fun other member => plain other (List.mem_cons_of_mem _ member)) (taken ++ [front])
          (List.append_ne_nil_of_right_ne_nil _ (List.cons_ne_nil _ _)) (tail ++ ((front ++ nul :: back) ++ [nul]))
          (Nat.lt_of_succ_lt_succ enough)
        have grown : (taken ++ [front]).length = taken.length + 1 := List.length_append
        simp only [ne_eq, not_true_eq_false, if_false]
        rw [joined, position, ← grown, rest]
        simp [splitLast_append absent]
      · simp only [ne_eq, same, not_false_eq_true, if_true, shows]
        rfl
    · rw [parseToken_invalid _ _ noNul three, if_pos three, shows]
      rfl

/-! ### The whole argument -/

theorem mem_intercalate {tokens : List (List Char)} {tok : List Char} (member : tok ∈ tokens) {character : Char}
    (inside : character ∈ tok) : character ∈ [','].intercalate tokens := by
  induction tokens with
  | nil => cases member
  | cons first more ih =>
    cases more with
    | nil =>
      rw [List.intercalate_singleton, ← List.mem_singleton.mp member]
      exact inside
    | cons next more =>
      rw [List.intercalate_cons_cons]
      rcases List.mem_cons.mp member with rfl | later
      · exact List.mem_append_left _ (List.mem_append_left _ inside)
      · exact List.mem_append_right _ (ih later)

theorem comma_splitOn (fsSpec : List Char) : ∀ tok ∈ fsSpec.splitOn ',', ',' ∉ tok := by
  induction fsSpec with
  | nil => simp
  | cons character rest ih =>
    rw [List.splitOn_cons_eq_if_modifyHead]
    split
    · simpa using ih
    · rename_i other
      obtain ⟨first, more, same⟩ := List.exists_cons_of_ne_nil (List.splitOn_ne_nil ',' rest)
      rw [same] at ih ⊢
      have apart : ',' ≠ character := fun equal => other (beq_iff_eq.mpr equal.symm)
      simpa [apart] using ih

theorem plain_splitOn {fsSpec : List Char} (text : nul ∉ fsSpec) : ∀ tok ∈ fsSpec.splitOn ',', Plain tok := by
  intro tok member
  refine ⟨fun inside => text ?_, comma_splitOn fsSpec tok member⟩
  have joined : [','].intercalate (fsSpec.splitOn ',') = fsSpec := List.intercalate_splitOn ','
  exact joined ▸ mem_intercalate member inside

theorem count_intercalate {tokens : List (List Char)} (apart : ∀ tok ∈ tokens, ',' ∉ tok) (nonempty : tokens ≠ []) :
    ([','].intercalate tokens).count ',' + 1 = tokens.length := by
  induction tokens with
  | nil => exact absurd rfl nonempty
  | cons tok more ih =>
    have first := List.count_eq_zero.mpr (apart tok List.mem_cons_self)
    cases more with
    | nil => rw [List.intercalate_singleton, first, List.length_singleton]
    | cons next more =>
      have rest := ih (fun other member => apart other (List.mem_cons_of_mem _ member)) (List.cons_ne_nil _ _)
      rw [List.intercalate_cons_cons, List.count_append, List.count_append, first, List.length_cons, ← rest]
      simp [Nat.add_comm]

/-- The loop takes the tokens one by one: the first one alone decides what is shown and what the name is. -/
theorem parseFsSpec_eq {fsSpec first : List Char} {rest : List (List Char)} (text : nul ∉ fsSpec)
    (tokens : fsSpec.splitOn ',' = first :: rest) :
    parseFsSpec fsSpec = some (
      if first.count '/' ≠ 3 then .error (invalidSpec first)
      else (checkTokens (splitLast '/' first).1 (splitLast '/' first).2 rest).map fun _ =>
        ⟨rest.length + 1, ((first :: rest).map fun tok => (splitLast '/' tok).1).map some, (splitLast '/' first).2⟩) := by
  have plain := plain_splitOn text
  have count := count_intercalate (comma_splitOn fsSpec) (List.splitOn_ne_nil _ _)
  have buffer := pending_eq (List.splitOn_ne_nil ',' fsSpec)
  rw [List.intercalate_splitOn, tokens] at count buffer
  rw [tokens] at plain
  have noNul := (plain first List.mem_cons_self).1
  have separated : strsep ',' (pending (first :: rest)) (some 0) =
      (some 0, cursor (first.length + 1) rest, first ++ nul :: pending rest) := by
    have general := strsep_pending [] plain
    rwa [List.nil_append, List.nil_append, List.length_nil, Nat.zero_add] at general
  rw [parseFsSpec, count, ← buffer, parseLoop, separated, List.length_cons]
  dsimp only
  by_cases three : first.count '/' = 3
  · obtain ⟨front, back, rfl, absent⟩ := exists_last (slash_mem three)
    let start : PvfsMntent := ⟨rest.length + 1, List.replicate (rest.length + 1) none, []⟩
    have room : 0 < start.pvfsConfigServers.length := by simp [start]
    have token := parseToken_valid [] (pending rest) noNul absent three room
    have joined : (front ++ nul :: back) ++ nul :: pending rest = (front ++ nul :: (back ++ [nul])) ++ pending rest := by simp
    have position : (front ++ '/' :: back).length + 1 = (front ++ nul :: (back ++ [nul])).length := by
      simp only [List.length_append, List.length_cons, List.length_nil]
      omega
    rw [List.nil_append, List.nil_append, List.length_nil] at token
    rw [token, List.map_cons, splitLast_append absent, if_neg (not_not.mpr three)]
    simp only [if_true]
    rw [joined, position]
    exact parseLoop_checks (fun inside => noNul (by simp [inside]))
      (fun other member => plain other (List.mem_cons_of_mem _ member)) [front] (List.cons_ne_nil _ _) (back ++ [nul])
      (Nat.lt_succ_self rest.length)
  · have token := parseToken_invalid [] (pending rest) noNul three 0
      ⟨rest.length + 1, List.replicate (rest.length + 1) none, []⟩
    rw [List.nil_append, List.length_nil, read_zero noNul] at token
    rw [token, if_pos three]

/-- How the addresses of some servers and the name of their file system are written. -/
structure Spells (servers : List (List Char)) (name fsSpec : List Char) : Prop where
  some_ : servers ≠ []
  addresses : ∀ server ∈ servers, server.count '/' = 2 ∧ ',' ∉ server
  slash : '/' ∉ name
  comma : ',' ∉ name
  spelled : fsSpec = [','].intercalate (servers.map (· ++ '/' :: name))

/-- What is printed about tokens of which one is wrong: the first wrong one decides about the text, but only the first of
all is shown, and that without its file system if it was right. -/
inductive Complaint : List (List Char) → Exit → Prop where
  | first {first : List Char} {rest : List (List Char)} : first.count '/' ≠ 3 → Complaint (first :: rest) (invalidSpec first)
  | slashes {first bad : List Char} {good more : List (List Char)} : first.count '/' = 3 →
      (∀ tok ∈ good, tok.count '/' = 3 ∧ (splitLast '/' tok).2 = (splitLast '/' first).2) → bad.count '/' ≠ 3 →
      Complaint (first :: (good ++ bad :: more)) (invalidSpec (splitLast '/' first).1)
  | name {first bad : List Char} {good more : List (List Char)} : first.count '/' = 3 →
      (∀ tok ∈ good, tok.count '/' = 3 ∧ (splitLast '/' tok).2 = (splitLast '/' first).2) → bad.count '/' = 3 →
      (splitLast '/' bad).2 ≠ (splitLast '/' first).2 →
      Complaint (first :: (good ++ bad :: more)) (differentNames (splitLast '/' first).1)

theorem checkTokens_ok {shown name : List Char} {tokens : List (List Char)}
    (right : ∀ tok ∈ tokens, tok.count '/' = 3 ∧ (splitLast '/' tok).2 = name) :
    checkTokens shown name tokens = .ok () := by
  induction tokens with
  | nil => rfl
  | cons tok more ih =>
    obtain ⟨three, same⟩ := right tok List.mem_cons_self
    rw [checkTokens, if_neg (not_not.mpr three), if_neg (not_not.mpr same)]
    exact ih fun other member => right other (List.mem_cons_of_mem _ member)

theorem checkTokens_cases (shown name : List Char) (tokens : List (List Char)) :
    (∀ tok ∈ tokens, tok.count '/' = 3 ∧ (splitLast '/' tok).2 = name) ∨
      ∃ good bad more, tokens = good ++ bad :: more ∧
        (∀ tok ∈ good, tok.count '/' = 3 ∧ (splitLast '/' tok).2 = name) ∧
        (bad.count '/' ≠ 3 ∧ checkTokens shown name tokens = .error (invalidSpec shown) ∨
          bad.count '/' = 3 ∧ (splitLast '/' bad).2 ≠ name ∧
            checkTokens shown name tokens = .error (differentNames shown)) := by
  induction tokens with
  | nil => exact Or.inl nofun
  | cons tok rest ih =>
    by_cases three : tok.count '/' = 3
    · by_cases same : (splitLast '/' tok).2 = name
      · rw [checkTokens, if_neg (not_not.mpr three), if_neg (not_not.mpr same)]
        rcases ih with right | ⟨good, bad, more, rfl, before, wrong⟩
        · exact Or.inl (List.forall_mem_cons.mpr ⟨⟨three, same⟩, right⟩)
        · exact Or.inr ⟨tok :: good, bad, more, rfl, List.forall_mem_cons.mpr ⟨⟨three, same⟩, before⟩, wrong⟩
      · refine Or.inr ⟨[], tok, rest, rfl, nofun, Or.inr ⟨three, same, ?_⟩⟩
        rw [checkTokens, if_neg (not_not.mpr three), if_pos same]
    · refine Or.inr ⟨[], tok, rest, rfl, nofun, Or.inl ⟨three, ?_⟩⟩
      rw [checkTokens, if_pos three]

theorem splitLast_three {tok : List Char} (three : tok.count '/' = 3) :
    tok = (splitLast '/' tok).1 ++ '/' :: (splitLast '/' tok).2 ∧ (splitLast '/' tok).1.count '/' = 2 ∧
      '/' ∉ (splitLast '/' tok).2 := by
  obtain ⟨front, back, rfl, absent⟩ := exists_last (slash_mem three)
  rw [List.count_append, List.count_cons_self, List.count_eq_zero.mpr absent] at three
  rw [splitLast_append absent]
  exact ⟨rfl, Nat.succ.inj three, absent⟩

theorem parseFsSpec_spells {servers : List (List Char)} {name fsSpec : List Char} (text : nul ∉ fsSpec)
    (spells : Spells servers name fsSpec) :
    parseFsSpec fsSpec = some (.ok ⟨servers.length, servers.map some, name⟩) := by
  have token : ∀ server ∈ servers, (server ++ '/' :: name).count '/' = 3 ∧
      splitLast '/' (server ++ '/' :: name) = (server, name) := by
    intro server member
    refine ⟨?_, splitLast_append spells.slash⟩
    rw [List.count_append, List.count_cons_self, List.count_eq_zero.mpr spells.slash, (spells.addresses server member).1]
  have tokens : fsSpec.splitOn ',' = servers.map (· ++ '/' :: name) := by
    rw [spells.spelled]
    apply List.splitOn_intercalate
    · rw [List.forall_mem_map]
      intro server member
      simp only [List.mem_append, List.mem_cons, not_or]
      exact ⟨(spells.addresses server member).2, by decide, spells.comma⟩
    · exact fun none_ => spells.some_ (List.map_eq_nil_iff.mp none_)
  obtain ⟨server, others, rfl⟩ := List.exists_cons_of_ne_nil spells.some_
  obtain ⟨three, parts⟩ := token server List.mem_cons_self
  have later : ∀ tok ∈ others.map (· ++ '/' :: name), tok.count '/' = 3 ∧ (splitLast '/' tok).2 = name := by
    rw [List.forall_mem_map]
    intro other member
    obtain ⟨three, parts⟩ := token other (List.mem_cons_of_mem _ member)
    exact ⟨three, by rw [parts]⟩
  have addresses : ((server ++ '/' :: name) :: others.map (· ++ '/' :: name)).map (fun tok => (splitLast '/' tok).1) =
      server :: others := by
    simp [splitLast_append spells.slash, Function.comp_def]
  rw [List.map_cons] at tokens
  rw [parseFsSpec_eq text tokens, if_neg (not_not.mpr three), parts, checkTokens_ok later, addresses, List.length_map]
  rfl

theorem spells_of_right {fsSpec first name : List Char} {rest : List (List Char)}
    (commas : ∀ tok ∈ first :: rest, ',' ∉ tok) (joined : [','].intercalate (first :: rest) = fsSpec)
    (right : ∀ tok ∈ first :: rest, tok.count '/' = 3 ∧ (splitLast '/' tok).2 = name) :
    Spells ((first :: rest).map fun tok => (splitLast '/' tok).1) name fsSpec where
  some_ := List.cons_ne_nil _ _
  addresses := by
    rw [List.forall_mem_map]
    intro tok member
    obtain ⟨whole, two, -⟩ := splitLast_three (right tok member).1
    refine ⟨two, fun inside => commas tok member ?_⟩
    rw [whole]
    exact List.mem_append_left _ inside
  slash := by
    obtain ⟨three, same⟩ := right first List.mem_cons_self
    rw [← same]
    exact (splitLast_three three).2.2
  comma inside := by
    obtain ⟨three, same⟩ := right first List.mem_cons_self
    apply commas first List.mem_cons_self
    rw [(splitLast_three three).1, same]
    exact List.mem_append_right _ (List.mem_cons_of_mem _ inside)
  spelled := by
    have whole : ∀ tok ∈ first :: rest, ((· ++ '/' :: name) ∘ fun tok => (splitLast '/' tok).1) tok = id tok := by
      intro tok member
      obtain ⟨three, same⟩ := right tok member
      rw [Function.comp_apply, ← same]
      exact (splitLast_three three).1.symm
    rw [← joined, List.map_map, List.map_congr_left whole, List.map_id]

/-- Every argument is read to its end. It is accepted if it spells some servers and one name, and then these are what is
found; otherwise the process exits with a text about it. No write misses its array. -/
theorem fs_spec_parsed {fsSpec : List Char} (text : nul ∉ fsSpec) :
    (∀ servers name, Spells servers name fsSpec →
        parseFsSpec fsSpec = some (.ok ⟨servers.length, servers.map some, name⟩)) ∧
      ((∃ servers name, Spells servers name fsSpec) ∨
        ∃ exit, parseFsSpec fsSpec = some (.error exit) ∧ Complaint (fsSpec.splitOn ',') exit) := by
  constructor
  · intro servers name spells
    exact parseFsSpec_spells text spells
  · obtain ⟨first, rest, tokens⟩ := List.exists_cons_of_ne_nil (List.splitOn_ne_nil ',' fsSpec)
    have commas := comma_splitOn fsSpec
    have joined : [','].intercalate (fsSpec.splitOn ',') = fsSpec := List.intercalate_splitOn ','
    rw [parseFsSpec_eq text tokens]
    rw [tokens] at commas joined ⊢
    by_cases three : first.count '/' = 3
    · rw [if_neg (not_not.mpr three)]
      rcases checkTokens_cases (splitLast '/' first).1 (splitLast '/' first).2 rest with
        right | ⟨good, bad, more, rfl, before, ⟨wrong, failed⟩ | ⟨right, other, failed⟩⟩
      · exact Or.inl ⟨_, _, spells_of_right commas joined (List.forall_mem_cons.mpr ⟨⟨three, rfl⟩, right⟩)⟩
      · rw [failed]
        exact Or.inr ⟨_, rfl, .slashes three before wrong⟩
      · rw [failed]
        exact Or.inr ⟨_, rfl, .name three before right other⟩
    · rw [if_pos three]
      exact Or.inr ⟨_, rfl, .first three⟩

/-- Two servers of one file system, as on the command line. -/
theorem fs_spec_parsed_two_servers :
    parseFsSpec "tcp://a:1/fs,tcp://b:2/fs".toList =
      some (.ok ⟨2, ["tcp://a:1".toList, "tcp://b:2".toList].map some, "fs".toList⟩) :=
  (fs_spec_parsed (by decide)).1 ["tcp://a:1".toList, "tcp://b:2".toList] "fs".toList
    ⟨by decide, by decide, by decide, by decide, by decide⟩

-- The second address is wrong, and the first one is shown.
example : parseFsSpec "tcp://a:1/fs,tcp://b:2".toList = some (.error (invalidSpec "tcp://a:1".toList)) := by decide

end SkyeFS.Connection
