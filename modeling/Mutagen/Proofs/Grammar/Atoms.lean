import Mutagen.Proofs.Grammar.Operand

set_option autoImplicit false

namespace Mutagen.Grammar

open Mutagen.Parser Mutagen.Node

-- An expression that every parser reads which is no tighter than the expression itself.
structure Readable (node : Node) : Prop where
  starts : Starts node.precedence (tokens node)
  reads : ∀ m level, level.rank ≤ node.precedence.rank → level.rank ≤ Precedence.primary.rank →
    Operand m level (levels node ≤ m) (tokens node) node

variable {level : Precedence} {kinds rest : List Token.Kind} {fits : Prop} {node : Node} {inner : Nested} {m : Nat}
  {closing : Mark}

theorem test_le_primary : Precedence.test.rank ≤ Precedence.primary.rank := by decide

theorem starts_test (h : Readable node) : Starts .test (tokens node) := starts_mono h.starts (test_rank node)

theorem reads_test (h : Readable node) (m : Nat) (stops : Stops .test rest) :
    Reads (nested m).test (levels node + 1 ≤ m) (tokens node ++ rest) node rest := by
  cases m with
  | zero => exact refuse_fails rfl (by omega)
  | succ m =>
      have reads := (h.reads m .test (test_rank node) test_le_primary).closed stops
      exact reads_iff reads (by omega)

-- No closing mark goes on with an expression, and none begins one.
def closings : List Mark := [.rightParen, .rightBracket, .rightBrace, .colon]

theorem closing_plain (closes : closing ∈ closings) :
    continues? (.mark closing) = none ∧ opening? (.mark closing) = none := by
  simp only [closings, List.mem_cons, List.not_mem_nil, or_false] at closes
  rcases closes with rfl | rfl | rfl | rfl <;> exact ⟨rfl, rfl⟩

theorem ends_item_stops (closes : closing ∈ closings) (ends : EndsItem closing rest) : Stops .test rest := by
  rcases ends with comma | close
  · intro p same
    rw [comma] at same
    cases same
    decide
  · exact stops_none (close ▸ (closing_plain closes).1)

theorem ends_item_other {kind : Token.Kind} (ends : EndsItem closing rest) (comma : Token.Kind.mark .comma ≠ kind)
    (close : Token.Kind.mark closing ≠ kind) : firstOf rest ≠ kind := by
  rcases ends with same | same
  · exact same ▸ comma
  · exact same ▸ close

theorem starts_other {kind : Token.Kind} (h : Starts level kinds) (plain : opening? kind = none) (rest : List Token.Kind) :
    firstOf (kinds ++ rest) ≠ kind := by
  refine begins_other (starts_append h rest) fun p opens => ?_
  rw [plain] at opens
  cases opens

theorem starts_no_closing (h : Starts level kinds) (closes : closing ∈ closings) (rest : List Token.Kind) :
    firstOf (kinds ++ rest) ≠ .mark closing := starts_other h (closing_plain closes).2 rest

theorem reads_element (construct : Construct) (h : Readable node) (m : Nat) (closes : closing ∈ closings)
    (ends : EndsItem closing rest) :
    Reads (element (nested m) construct) (levels node + 1 ≤ m) (tokens node ++ rest) node rest := by
  refine reads_first (reads_test h m (ends_item_stops closes ends)) ?_
  refine reads_forbid (ends_item_other ends ?_ ?_) (reads_pure node rest)
  all_goals exact fun same => by cases same

theorem element_items (construct : Construct) {elements : List Node} (front : List Node) (all : ∀ x ∈ elements, Readable x) (m : Nat)
    (closes : closing ∈ closings) :
    ReadsItems (· = .mark closing) closing (append (element (nested m) construct)) tokens
      (levels · + 1 ≤ m) snoc elements front := by
  refine reads_append fun x member kinds ends => ⟨?_, reads_element construct (all x member) m closes ends⟩
  exact decide_eq_false (starts_no_closing (all x member).starts closes kinds)

theorem no_comma (closes : closing ∈ closings) : closing ≠ .comma := by
  rintro rfl
  exact absurd closes (by decide)

theorem comma_tokens_cons (node : Node) (others : List Node) :
    commaTokens (tokensAll .test (node :: others)) =
      tokens node ++ others.flatMap (fun x => .mark .comma :: tokens x) := by
  have same : tokensAt .test = tokens := funext tokens_at_test
  rw [tokens_all_eq, same, List.map_cons, commaTokens, joined_cons, List.flatMap_map]

theorem reads_elements (construct : Construct) {elements : List Node} (all : ∀ x ∈ elements, Readable x) (m : Nat)
    (closes : closing ∈ closings) (rest : List Token.Kind) :
    Reads (Grammar.elements (nested m) closing construct) (∀ x ∈ elements, levels x + 1 ≤ m)
      (commaTokens (tokensAll .test elements) ++ .mark closing :: rest) elements (.mark closing :: rest) := by
  cases elements with
  | nil => exact reads_iff (reads_up_to_none [] rest) (by simp)
  | cons x others =>
      have items := element_items construct [] all m closes
      have reads := reads_up_to (no_comma closes) x others [] items rest
      rw [foldl_snoc, List.nil_append] at reads
      rw [comma_tokens_cons, List.append_assoc]
      exact reads

theorem reads_list {elements : List Node} (all : ∀ x ∈ elements, Readable x) (m : Nat) (rest : List Token.Kind) :
    Reads (atom (nested m)) (levels (.list elements .load) ≤ m) (tokens (.list elements .load) ++ rest)
      (.list elements .load) rest := by
  have shape : tokens (.list elements .load) ++ rest =
      .mark .leftBracket :: (commaTokens (tokensAll .test elements) ++ .mark .rightBracket :: rest) := by
    rw [show tokens (.list elements .load) =
      .mark .leftBracket :: commaTokens (tokensAll .test elements) ++ [.mark .rightBracket] from rfl]
    simp
  rw [shape]
  refine reads_iff (reads_kind (reads_skip (reads_first (reads_elements _ all m (by decide) rest) ?_))) ?_
  · exact reads_expect (reads_pure _ rest)
  · rw [levels_le]
    simp [edges]

def tupleTail (others : List Node) : List Token.Kind :=
  if others.isEmpty then [.mark .comma] else others.flatMap fun x => .mark .comma :: tokens x

theorem element_tokens_cons (node : Node) (others : List Node) :
    elementTokens (tokensAll .test (node :: others)) = tokens node ++ tupleTail others := by
  rw [elementTokens, comma_tokens_cons, tokens_all_eq, List.length_map]
  cases others with
  | nil =>
      rw [List.flatMap_nil, List.append_nil]
      rfl
  | cons other others =>
      rw [if_neg (by simp), List.append_nil]
      rfl

theorem tuple_tail_first (others : List Node) (rest : List Token.Kind) : firstOf (tupleTail others ++ rest) = .mark .comma := by
  cases others <;> rfl

theorem reads_tuple_tail {stop : Token.Kind → Bool} {p : Parser Node} {fit : Node → Prop} {others : List Node} (first : Node)
    (closes : closing ∈ closings) (stops : stop (.mark closing) = true)
    (items : ReadsItems stop closing (append p) tokens fit snoc others [first]) (rest : List Token.Kind) :
    Reads (behindCommas stop (append p) [first]) (∀ x ∈ others, fit x) (tupleTail others ++ .mark closing :: rest)
      (first :: others) (.mark closing :: rest) := by
  cases others with
  | nil => exact reads_iff (reads_trailing_comma [first] stops) (by simp)
  | cons other others =>
      have reads := reads_behind_commas (no_comma closes) _ _ items rest
      rw [foldl_snoc] at reads
      exact reads

theorem test_items {others : List Node} (front : List Node) (all : ∀ x ∈ others, Readable x) (m : Nat) (closes : closing ∈ closings) :
    ReadsItems (· = .mark closing) closing (append (nested m).test) tokens (levels · + 1 ≤ m) snoc others front := by
  refine reads_append fun x member kinds ends => ⟨?_, reads_test (all x member) m (ends_item_stops closes ends)⟩
  exact decide_eq_false (starts_no_closing (all x member).starts closes kinds)

theorem reads_tuple {elements : List Node} (all : ∀ x ∈ elements, Readable x) (m : Nat) (rest : List Token.Kind) :
    Reads (atom (nested m)) (levels (.tuple elements .load) ≤ m) (tokens (.tuple elements .load) ++ rest)
      (.tuple elements .load) rest := by
  have shape : tokens (.tuple elements .load) ++ rest =
      .mark .leftParen :: (elementTokens (tokensAll .test elements) ++ .mark .rightParen :: rest) := by
    rw [show tokens (.tuple elements .load) = enclosed (elementTokens (tokensAll .test elements)) from rfl, enclosed]
    simp
  rw [shape]
  refine reads_kind (reads_skip ?_)
  have same : levels (.tuple elements .load) ≤ m ↔ ∀ x ∈ elements, levels x + 1 ≤ m := by
    rw [levels_le]
    simp [edges]
  cases elements with
  | nil => exact reads_iff (reads_accept (reads_pure _ rest)) (by simp [same])
  | cons first others =>
      have readable := all first (by simp)
      have items := test_items [first] (fun x member => all x (List.mem_cons_of_mem _ member)) m
        (show Mark.rightParen ∈ closings by decide)
      have tail := reads_tuple_tail first (by decide) (decide_eq_true rfl) items rest
      rw [element_tokens_cons, List.append_assoc]
      refine reads_decline (starts_no_closing readable.starts (by decide) _) ?_
      have ends : EndsItem .rightParen (tupleTail others ++ .mark .rightParen :: rest) := .inl (tuple_tail_first others _)
      refine reads_iff (reads_bind (reads_element _ readable m (by decide) ends) (reads_kind
        (reads_pos (tuple_tail_first others _) (reads_first tail (reads_expect (reads_pure _ rest)))))) ?_
      rw [same, List.forall_mem_cons]

theorem reads_parens (h : Readable node) (m : Nat) (rest : List Token.Kind) :
    Reads (atom (nested m)) (levels node + 1 ≤ m) (enclosed (tokens node) ++ rest) node rest := by
  have shape : enclosed (tokens node) ++ rest = .mark .leftParen :: (tokens node ++ .mark .rightParen :: rest) := by
    simp [enclosed]
  rw [shape]
  refine reads_kind (reads_skip (reads_decline (starts_no_closing h.starts (by decide) _) ?_))
  have ends : EndsItem .rightParen (.mark .rightParen :: rest) := .inr rfl
  exact reads_first (reads_element _ h m (by decide) ends) (reads_kind (reads_neg (by simp [firstOf]) (reads_expect (reads_pure node rest))))

theorem reads_name_atom (id : String) (m : Nat) (rest : List Token.Kind) :
    Reads (atom (nested m)) (levels (.name id .load) ≤ m) (tokens (.name id .load) ++ rest) (.name id .load) rest := by
  refine reads_iff (reads_kind (reads_skip (reads_pure _ rest))) ?_
  rw [levels_le]
  simp [edges]

theorem reads_constant (value : Constant) (m : Nat) (stops : Stops .atom rest) :
    Reads (atom (nested m)) (levels (.constant value) ≤ m) (tokens (.constant value) ++ rest) (.constant value) rest := by
  have always : True ↔ levels (.constant value) ≤ m := by
    rw [levels_le]
    simp [edges]
  cases value with
  | bool value => cases value <;> exact reads_iff (reads_kind (reads_skip (reads_pure _ rest))) always
  | str text =>
      have unlinked : ∀ first more, rest = first :: more → stringText first (firstOf more) = none := by
        rintro first more rfl
        cases first <;> first | rfl | exact absurd (stops .atom rfl) (by decide)
      exact reads_iff (reads_kind (reads_skip (reads_first (reads_chain_stop text unlinked) (reads_pure _ rest)))) always
  | _ => exact reads_iff (reads_kind (reads_skip (reads_pure _ rest))) always

theorem reads_set {first : Node} {others : List Node} (all : ∀ x ∈ first :: others, Readable x) (m : Nat)
    (rest : List Token.Kind) :
    Reads (atom (nested m)) (levels (.set (first :: others)) ≤ m) (tokens (.set (first :: others)) ++ rest)
      (.set (first :: others)) rest := by
  have readable := all first (by simp)
  have same : levels (.set (first :: others)) ≤ m ↔ levels first + 1 ≤ m ∧ ∀ x ∈ others, levels x + 1 ≤ m := by
    rw [levels_le]
    simp [edges]
  have shape : tokens (.set (first :: others)) ++ rest = .mark .leftBrace :: (tokens first ++
      (others.flatMap (fun x => .mark .comma :: tokens x) ++ .mark .rightBrace :: rest)) := by
    rw [show tokens (.set (first :: others)) =
      .mark .leftBrace :: commaTokens (tokensAll .test (first :: others)) ++ [.mark .rightBrace] from rfl, comma_tokens_cons]
    simp
  rw [shape]
  refine reads_kind (reads_skip (reads_decline (starts_other readable.starts rfl _)
    (reads_forbid (starts_other readable.starts rfl _) ?_)))
  cases others with
  | nil =>
      have stops : Stops .test (.mark .rightBrace :: rest) := stops_none rfl
      refine reads_iff (reads_first (reads_test readable m stops) (reads_kind (reads_neg (by simp [firstOf])
        (reads_forbid (by simp [firstOf]) (reads_decline (by simp [firstOf]) (reads_expect (reads_pure _ rest))))))) ?_
      rw [same]
      simp
  | cons second others =>
      have stops : ∀ more : List Token.Kind, Stops .test (.mark .comma :: more) := fun more p found => by cases found; decide
      have tail := reads_elements .setComprehensions (fun x member => all x (List.mem_cons_of_mem _ member)) m
        (show Mark.rightBrace ∈ closings by decide) rest
      rw [comma_tokens_cons, List.append_assoc] at tail
      rw [List.flatMap_cons, List.cons_append, List.cons_append, List.append_assoc]
      refine reads_iff (reads_bind (reads_test readable m (stops _)) (reads_kind (reads_neg (by simp [firstOf])
        (reads_forbid (by simp [firstOf]) (reads_accept (reads_first tail (reads_expect (reads_pure _ rest)))))))) ?_
      rw [same]

def entryTokens (entry : Node × Node) : List Token.Kind := tokens entry.1 ++ .mark .colon :: tokens entry.2

theorem stops_colon (level : Precedence) (more : List Token.Kind) : Stops level (.mark .colon :: more) := stops_none rfl

theorem entry_items {others : List (Node × Node)} (front : List (Node × Node))
    (all : ∀ entry ∈ others, Readable entry.1 ∧ Readable entry.2) (m : Nat) :
    ReadsItems (· = .mark .rightBrace) .rightBrace (dictEntry (nested m)) entryTokens
      (fun entry => levels entry.1 + 1 ≤ m ∧ levels entry.2 + 1 ≤ m) snoc others front := by
  intro before entry back same kinds ends
  obtain ⟨key, value⟩ := all entry (by simp [same])
  rw [entryTokens, List.append_assoc, List.cons_append]
  refine ⟨decide_eq_false (starts_no_closing key.starts (by decide) _), ?_⟩
  have stops := ends_item_stops (show Mark.rightBrace ∈ closings by decide) ends
  exact reads_forbid (starts_other key.starts rfl _) (reads_bind (reads_test key m (stops_colon _ _))
    (reads_expect (reads_return (reads_test value m stops) _)))

theorem reads_dict_entries {entries : List (Node × Node)} (all : ∀ entry ∈ entries, Readable entry.1 ∧ Readable entry.2)
    (m : Nat) (rest : List Token.Kind) :
    Reads (atom (nested m)) (∀ entry ∈ entries, levels entry.1 + 1 ≤ m ∧ levels entry.2 + 1 ≤ m)
      (.mark .leftBrace :: (commaTokens (entries.map entryTokens) ++ .mark .rightBrace :: rest))
      (.dict (entries.map (·.1)) (entries.map (·.2))) rest := by
  refine reads_kind (reads_skip ?_)
  cases entries with
  | nil => exact reads_iff (reads_accept (reads_pure _ rest)) (by simp)
  | cons entry others =>
      obtain ⟨key, value⟩ := all entry (by simp)
      have items := entry_items [entry] (fun other member => all other (List.mem_cons_of_mem _ member)) m
      have tail := reads_behind_commas (by decide) _ _ items rest
      rw [foldl_snoc, List.singleton_append] at tail
      have ends : EndsItem .rightBrace
          (others.flatMap (fun x => .mark .comma :: entryTokens x) ++ .mark .rightBrace :: rest) := by
        cases others with
        | nil => exact .inr rfl
        | cons other others => exact .inl rfl
      rw [List.map_cons, commaTokens, joined_cons, List.flatMap_map, entryTokens, List.append_assoc, List.append_assoc,
        List.cons_append]
      refine reads_decline (starts_other key.starts rfl _) (reads_forbid (starts_other key.starts rfl _) ?_)
      refine reads_iff (reads_bind (reads_test key m (stops_colon _ _)) (reads_kind (reads_pos rfl (reads_skip
        (reads_bind (reads_element _ value m (by decide) ends) (reads_first tail (reads_expect (reads_pure _ rest)))))))) ?_
      rw [List.forall_mem_cons, and_assoc]

theorem entry_tokens (entries : List (Node × Node)) :
    List.zipWith (fun key value => key ++ .mark .colon :: value) (tokensAll .test (entries.map (·.1)))
      (tokensAll .test (entries.map (·.2))) = entries.map entryTokens := by
  induction entries with
  | nil => rfl
  | cons entry entries ih =>
      rw [List.map_cons, List.map_cons, List.map_cons, ← ih, entryTokens, ← tokens_at_test entry.1, ← tokens_at_test entry.2]
      rfl

theorem reads_dict {keys values : List Node} (same : keys.length = values.length) (all : ∀ x ∈ keys ++ values, Readable x)
    (m : Nat) (rest : List Token.Kind) :
    Reads (atom (nested m)) (levels (.dict keys values) ≤ m) (tokens (.dict keys values) ++ rest)
      (.dict keys values) rest := by
  obtain ⟨entries, rfl, rfl⟩ : ∃ entries : List (Node × Node), keys = entries.map (·.1) ∧ values = entries.map (·.2) :=
    ⟨keys.zip values, (List.map_fst_zip same.le).symm, (List.map_snd_zip same.ge).symm⟩
  have shape : tokens (.dict (entries.map (·.1)) (entries.map (·.2))) ++ rest =
      .mark .leftBrace :: (commaTokens (entries.map entryTokens) ++ .mark .rightBrace :: rest) := by
    rw [← entry_tokens, ← List.cons_append, List.append_cons]
    rfl
  have readable : ∀ entry ∈ entries, Readable entry.1 ∧ Readable entry.2 := fun entry member =>
    ⟨all _ (List.mem_append_left _ (List.mem_map_of_mem member)), all _ (List.mem_append_right _ (List.mem_map_of_mem member))⟩
  rw [shape]
  refine reads_iff (reads_dict_entries readable m rest) ?_
  rw [levels_le]
  simp only [edges, List.forall_mem_map, List.forall_mem_append, ← forall_and]

end Mutagen.Grammar
