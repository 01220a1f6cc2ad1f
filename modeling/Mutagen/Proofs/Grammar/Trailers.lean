import Mutagen.Proofs.Grammar.Atoms

set_option autoImplicit false

namespace Mutagen.Grammar

open Mutagen.Parser Mutagen.Node

variable {kinds rest : List Token.Kind} {node : Node} {m : Nat} {closing : Mark}

theorem begins_expression {level : Precedence} {kind : Token.Kind} (h : Begins level kind) : startsExpression kind = true := by
  obtain ⟨p, opens, _⟩ := h
  unfold opening? at opens
  split at opens <;> first | rfl | cases opens

theorem reads_optional (part : Option Node) (all : ∀ value ∈ part, Readable value) (m : Nat) (stops : Stops .test rest)
    (other : startsExpression (firstOf rest) = false) :
    Reads (optionalTest (nested m)) (∀ value ∈ part.toList, levels value + 1 ≤ m) (tokensOption [] part ++ rest) part rest := by
  cases part with
  | none =>
      refine reads_iff (reads_kind (reads_neg ?_ (reads_pure none rest))) (by simp)
      rw [tokensOption, List.nil_append, other]
      exact Bool.false_ne_true
  | some value =>
      have readable := all value rfl
      rw [show tokensOption [] (some value) = tokens value from tokens_at_test value]
      have begins := begins_expression (starts_append readable.starts rest)
      exact reads_iff (reads_kind (reads_pos begins (reads_return (reads_test readable m stops) some))) (by simp)

-- An element of an index.
structure Indexable (node : Node) : Prop where
  goes : ∀ rest, firstOf (tokens node ++ rest) ≠ .mark .rightBracket
  reads : ∀ m {rest : List Token.Kind}, EndsItem .rightBracket rest →
    Reads (sliceItem (nested m)) (levels node + (item node).2 ≤ m) (tokens node ++ rest) node rest

theorem ends_index_stops (ends : EndsItem .rightBracket rest) : Stops .test rest := ends_item_stops (by decide) ends

theorem ends_index_no_colon (ends : EndsItem .rightBracket rest) : firstOf rest ≠ .mark .colon :=
  ends_item_other ends (by simp) (by simp)

theorem ends_index_no_expression (ends : EndsItem .rightBracket rest) : startsExpression (firstOf rest) = false := by
  rcases ends with same | same <;> rw [same] <;> rfl

theorem indexable_value (h : Readable node) (whole : node.isSlice = false) : Indexable node := by
  refine ⟨starts_other h.starts rfl, fun m {rest} ends => ?_⟩
  have weight : (item node).2 = 1 := by simp [item, whole]
  rw [weight]
  exact reads_kind (reads_neg (starts_other h.starts rfl _) (reads_first (reads_test h m (ends_index_stops ends))
    (reads_kind (reads_neg (ends_index_no_colon ends) (reads_pure node rest)))))

theorem reads_slice_from (lower upper step : Option Node) (all : ∀ value ∈ upper.toList ++ step.toList, Readable value)
    (m : Nat) (ends : EndsItem .rightBracket rest) :
    Reads (sliceFrom (nested m) lower) (∀ value ∈ upper.toList ++ step.toList, levels value + 1 ≤ m)
      (.mark .colon :: (tokensOption [] upper ++ (tokensOption [.mark .colon] step ++ rest))) (.slice lower upper step) rest := by
  have uppers : ∀ value ∈ upper, Readable value := fun value member => all value (by simp_all)
  cases step with
  | none =>
      have reads := reads_optional upper uppers m (ends_index_stops ends) (ends_index_no_expression ends)
      refine reads_iff (reads_skip (reads_first reads (reads_decline (ends_index_no_colon ends) (reads_pure _ rest)))) ?_
      simp
  | some step =>
      have last := reads_optional (some step) (fun value member => all value (by simp_all)) m (ends_index_stops ends)
        (ends_index_no_expression ends)
      have reads := reads_optional upper uppers m (stops_colon .test (tokens step ++ rest)) rfl
      rw [show tokensOption [] (some step) = tokens step from tokens_at_test step] at last
      rw [show tokensOption [.mark .colon] (some step) = .mark .colon :: tokens step from
        congrArg (Token.Kind.mark .colon :: ·) (tokens_at_test step)]
      refine reads_iff (reads_skip (reads_bind reads (reads_accept (reads_return last _)))) ?_
      rw [List.forall_mem_append]

theorem indexable_slice (lower upper step : Option Node)
    (all : ∀ value ∈ lower.toList ++ upper.toList ++ step.toList, Readable value) : Indexable (.slice lower upper step) := by
  have shape : ∀ rest, tokens (.slice lower upper step) ++ rest = tokensOption [] lower ++
      .mark .colon :: (tokensOption [] upper ++ (tokensOption [.mark .colon] step ++ rest)) := by
    intro rest
    rw [show tokens (.slice lower upper step) =
      tokensOption [] lower ++ .mark .colon :: tokensOption [] upper ++ tokensOption [.mark .colon] step from rfl]
    simp
  have weight : ∀ m, levels (.slice lower upper step) + (item (.slice lower upper step)).2 ≤ m ↔
      ∀ value ∈ lower.toList ++ (upper.toList ++ step.toList), levels value + 1 ≤ m := by
    intro m
    rw [show (item (.slice lower upper step)).2 = 0 from rfl, Nat.add_zero, levels_le, ← List.append_assoc]
    simp only [edges, List.forall_mem_map]
  have others : ∀ value ∈ upper.toList ++ step.toList, Readable value := fun value member => all value (by simp_all)
  cases lower with
  | none =>
      refine ⟨fun rest => by rw [shape]; simp [tokensOption, firstOf], fun m {rest} ends => ?_⟩
      rw [shape]
      refine reads_iff (reads_kind (reads_pos rfl (reads_slice_from none upper step others m ends))) ?_
      rw [weight]
      rfl
  | some lower =>
      have readable := all lower (by simp)
      have first : tokensOption [] (some lower) = tokens lower := tokens_at_test lower
      refine ⟨fun rest => by rw [shape, first]; exact starts_other readable.starts rfl _, fun m {rest} ends => ?_⟩
      rw [shape, first]
      refine reads_iff (reads_kind (reads_neg (starts_other readable.starts rfl _) (reads_bind
        (reads_test readable m (stops_colon _ _)) (reads_kind (reads_pos rfl
          (reads_slice_from (some lower) upper step others m ends)))))) ?_
      rw [weight]
      simp

-- An index: a slice or an expression, or several of them as a tuple.
theorem reads_single_index (h : Indexable node) (m : Nat) (rest : List Token.Kind) :
    Reads (sliceList (nested m)) (levels node + (item node).2 ≤ m) (tokens node ++ .mark .rightBracket :: rest) node
      (.mark .rightBracket :: rest) :=
  reads_first (h.reads m (.inr rfl)) (reads_kind (reads_neg (by simp [firstOf]) (reads_pure node _)))

theorem reads_tuple_index {first : Node} {others : List Node} (all : ∀ x ∈ first :: others, Indexable x) (m : Nat)
    (rest : List Token.Kind) :
    Reads (sliceList (nested m)) (∀ x ∈ first :: others, levels x + (item x).2 ≤ m)
      (elementTokens (tokensAll .test (first :: others)) ++ .mark .rightBracket :: rest) (.tuple (first :: others) .load)
      (.mark .rightBracket :: rest) := by
  have items : ReadsItems (· = .mark .rightBracket) .rightBracket (append (sliceItem (nested m))) tokens
      (fun x => levels x + (item x).2 ≤ m) snoc others [first] := by
    refine reads_append fun x member kinds ends => ?_
    have part := all x (List.mem_cons_of_mem _ member)
    exact ⟨decide_eq_false (part.goes kinds), part.reads m ends⟩
  have tail := reads_tuple_tail first (by decide) (decide_eq_true rfl) items rest
  have ends : EndsItem .rightBracket (tupleTail others ++ .mark .rightBracket :: rest) := .inl (tuple_tail_first others _)
  rw [element_tokens_cons, List.append_assoc]
  refine reads_iff (reads_bind ((all first (by simp)).reads m ends) (reads_kind (reads_pos (tuple_tail_first others _)
    (reads_return tail _)))) ?_
  rw [List.forall_mem_cons]

abbrev Argument := Option String × Node

def argumentTokens : Argument → List Token.Kind
  | (none, value) => tokens value
  | (some id, value) => .name id :: .mark .equal :: tokens value

def gatherArgument (arguments : Arguments) : Argument → Arguments
  | (none, value) => { arguments with positional := arguments.positional ++ [value] }
  | (some id, value) => { arguments with keywords := arguments.keywords ++ [(id, value)] }

def positional? : Argument → Option Node
  | (none, value) => some value
  | (some _, _) => none

def keyword? : Argument → Option (String × Node)
  | (none, _) => none
  | (some id, value) => some (id, value)

theorem gather_arguments (items : List Argument) (state : Arguments) :
    items.foldl gatherArgument state =
      ⟨state.positional ++ items.filterMap positional?, state.keywords ++ items.filterMap keyword?⟩ := by
  induction items generalizing state with
  | nil => simp
  | cons item items ih =>
      obtain ⟨_ | id, value⟩ := item <;> rw [List.foldl_cons, ih] <;> simp [gatherArgument, positional?, keyword?] <;> rfl

theorem reads_name_alone (id : String) (m : Nat) (more : List Token.Kind) :
    Reads (parserAt .test (nested m)) True (.name id :: .mark .equal :: more) (.name id .load) (.mark .equal :: more) := by
  have atom : Operand m .atom (levels (.name id .load) ≤ m) [.name id] (.name id .load) :=
    operand_closed (by decide) fun _ => reads_name_atom id m _
  have starts : Starts .atom [Token.Kind.name id] := ⟨_, [], rfl, .atom, rfl, Nat.le_refl _⟩
  have loose := (operand_climb atom starts (show Precedence.test.rank ≤ _ by decide)).closed
    (stops_none (show continues? (firstOf (.mark .equal :: more)) = none from rfl))
  refine reads_iff loose ?_
  rw [levels_le]
  simp [edges]

-- No expression goes on behind a name with an equal sign.
theorem not_keyword (h : Readable node) (stops : Stops .test rest) (other : firstOf rest ≠ .mark .equal) (id : String)
    (first : firstOf (tokens node ++ rest) = .name id) : firstOf (tokens node ++ rest).tail ≠ .mark .equal := by
  intro second
  obtain ⟨more, same⟩ : ∃ more, tokens node ++ rest = .name id :: .mark .equal :: more := by
    generalize tokens node ++ rest = kinds at first second
    match kinds, first, second with
    | _ :: _ :: more, rfl, rfl => exact ⟨more, rfl⟩
  have reads := (h.reads (levels node) .test (test_rank node) test_le_primary).closed stops
  rw [same] at reads
  have agree := (reads_agree reads (reads_name_alone id (levels node) more) (Nat.le_refl _) trivial).2
  exact other (by rw [agree]; rfl)

theorem reads_argument (arguments : Arguments) (x : Argument) (readable : Readable x.2)
    (fresh : ∀ id, x.1 = some id → id ∉ arguments.keywords.map (·.1)) (early : x.1 = none → arguments.keywords = [])
    (m : Nat) (ends : EndsItem .rightParen rest) :
    Reads (argument (nested m) arguments) (levels x.2 + 1 ≤ m) (argumentTokens x ++ rest) (gatherArgument arguments x) rest := by
  have stops := ends_item_stops (show Mark.rightParen ∈ closings by decide) ends
  obtain ⟨_ | id, value⟩ := x
  · have other : firstOf rest ≠ .mark .equal := ends_item_other ends (by simp) (by simp)
    have noFor : firstOf rest ≠ .keyword .kwFor := ends_item_other ends (by simp) (by simp)
    refine reads_forbid (starts_other readable.starts rfl _) (reads_forbid (starts_other readable.starts rfl _) ?_)
    have plain : Reads (positionalArgument (nested m) arguments) (levels value + 1 ≤ m) (tokens value ++ rest)
        (gatherArgument arguments (none, value)) rest :=
      reads_span fun place => reads_require (by simp [early]) (reads_first (reads_test readable m stops)
        (reads_forbid noFor (reads_pure _ rest)))
    refine reads_kind (reads_second ?_)
    split
    · rename_i id first second
      exact absurd second (not_keyword readable stops other id first)
    · exact plain
  · refine reads_forbid (by simp [argumentTokens, firstOf]) (reads_forbid (by simp [argumentTokens, firstOf]) ?_)
    exact reads_kind (reads_second (reads_span fun place => reads_require (by simpa using fresh id rfl)
      (reads_skip (reads_skip (reads_return (reads_test readable m stops) _)))))

-- Items without the mark of the later ones stand in front, and no item takes a name twice.
structure Arranged {α : Type} (early : α → Prop) (name? : α → Option String) (items : List α) : Prop where
  ordered : items.Pairwise fun a b => early b → early a
  distinct : (items.filterMap name?).Nodup

theorem arranged_front {α : Type} {early : α → Prop} {name? : α → Option String} {front back : List α} {x : α}
    (h : Arranged early name? (front ++ x :: back)) :
    (early x → ∀ y ∈ front, early y) ∧ ∀ id, name? x = some id → id ∉ front.filterMap name? := by
  obtain ⟨ordered, distinct⟩ := h
  refine ⟨fun is y member => (List.pairwise_append.mp ordered).2.2 y member x (by simp) is, fun id named member => ?_⟩
  rw [List.filterMap_append, List.filterMap_cons, named] at distinct
  exact (List.nodup_append.mp distinct).2.2 id member id (by simp) rfl

theorem keyword_names (items : List Argument) : (items.filterMap keyword?).map (·.1) = items.filterMap (·.1) := by
  rw [List.map_filterMap]
  refine congrArg (List.filterMap · items) (funext fun item => ?_)
  obtain ⟨_ | id, value⟩ := item <;> rfl

theorem argument_items {items : List Argument} (arranged : Arranged (·.1 = none) (·.1) items)
    (all : ∀ x ∈ items, Readable x.2) (m : Nat) :
    ReadsItems (· = .mark .rightParen) .rightParen (argument (nested m)) argumentTokens (levels ·.2 + 1 ≤ m)
      gatherArgument items {} := by
  intro front x back same kinds ends
  have readable := all x (by simp [same])
  subst same
  obtain ⟨early, fresh⟩ := arranged_front arranged
  have front_state := gather_arguments front {}
  simp only [List.nil_append] at front_state
  rw [front_state]
  refine ⟨?_, reads_argument _ x readable ?_ ?_ m ends⟩
  · obtain ⟨_ | id, value⟩ := x
    · exact decide_eq_false (starts_no_closing readable.starts (by decide) kinds)
    · rfl
  · rw [keyword_names]
    exact fresh
  · intro none
    have all_early := early none
    rw [List.filterMap_eq_nil_iff]
    rintro ⟨_ | id, value⟩ member
    · rfl
    · exact absurd (all_early _ member) (by simp)

theorem reads_arguments {items : List Argument} (arranged : Arranged (·.1 = none) (·.1) items)
    (all : ∀ x ∈ items, Readable x.2) (m : Nat) (rest : List Token.Kind) :
    Reads (upTo .rightParen (argument (nested m)) {}) (∀ x ∈ items, levels x.2 + 1 ≤ m)
      (commaTokens (items.map argumentTokens) ++ .mark .rightParen :: rest)
      ⟨items.filterMap positional?, items.filterMap keyword?⟩ (.mark .rightParen :: rest) := by
  cases items with
  | nil => exact reads_iff (reads_up_to_none (Arguments.mk [] []) rest) (by simp)
  | cons x others =>
      have reads := reads_up_to (show Mark.rightParen ≠ .comma by decide) x others _ (argument_items arranged all m) rest
      rw [gather_arguments] at reads
      rw [List.map_cons, commaTokens, joined_cons, List.flatMap_map, List.append_assoc]
      exact reads

def callItems (args : List Node) (keywords : List (String × Node)) : List Argument :=
  args.map (none, ·) ++ keywords.map fun keyword => (some keyword.1, keyword.2)

theorem call_items_tokens (args : List Node) (keywords : List (String × Node)) :
    (callItems args keywords).map argumentTokens = tokensAll .test args ++ tokensKeywords keywords := by
  have keyword_tokens : tokensKeywords keywords = keywords.map fun keyword => argumentTokens (some keyword.1, keyword.2) := by
    induction keywords with
    | nil => rfl
    | cons keyword keywords ih =>
        rw [List.map_cons, ← ih, argumentTokens, ← tokens_at_test keyword.2]
        rfl
  rw [callItems, List.map_append, List.map_map, List.map_map, keyword_tokens, tokens_all_eq, funext tokens_at_test]
  rfl

theorem call_items_parts (args : List Node) (keywords : List (String × Node)) :
    (callItems args keywords).filterMap positional? = args ∧ (callItems args keywords).filterMap keyword? = keywords := by
  constructor <;> simp [callItems, List.filterMap_map, Function.comp_def, positional?, keyword?]

theorem call_items_arranged (args : List Node) {keywords : List (String × Node)} (distinct : (keywords.map (·.1)).Nodup) :
    Arranged (·.1 = none) (·.1) (callItems args keywords) := by
  constructor
  · rw [callItems, List.pairwise_append]
    refine ⟨?_, ?_, ?_⟩
    · exact List.pairwise_map.mpr (List.pairwise_of_forall fun _ _ _ => rfl)
    · exact List.pairwise_map.mpr (List.pairwise_of_forall fun _ _ never => by cases never)
    · intro a member b _ _
      obtain ⟨value, _, rfl⟩ := List.mem_map.mp member
      rfl
  · rw [← keyword_names, (call_items_parts args keywords).2]
    exact distinct

abbrev Parameter := String × Option Node

def parameterTokens : Parameter → List Token.Kind
  | (id, none) => [.name id]
  | (id, some value) => .name id :: .mark .equal :: tokens value

def gatherParameter (params : Params) (x : Parameter) : Params :=
  ⟨params.names ++ [x.1], params.defaults ++ x.2.toList⟩

theorem gather_parameters (items : List Parameter) (state : Params) :
    items.foldl gatherParameter state =
      ⟨state.names ++ items.map (·.1), state.defaults ++ items.filterMap (·.2)⟩ := by
  induction items generalizing state with
  | nil => simp
  | cons item items ih =>
      obtain ⟨id, _ | value⟩ := item <;> rw [List.foldl_cons, ih] <;> simp [gatherParameter]

def listClosings : List Mark := [.rightParen, .colon]

theorem reads_annotations {f : Unit → Parser Params} {fits : Prop} {params : Params} (other : firstOf kinds ≠ .mark .colon ∨ closing = .colon)
    (h : Reads (f ()) fits kinds params rest) : Reads (forbidAnnotations closing >>= f) fits kinds params rest := by
  rw [forbidAnnotations]
  split
  · rename_i round
    refine reads_forbid ?_ h
    rcases other with other | colon
    · exact other
    · rw [round] at colon
      cases colon
  · exact reads_then (reads_pure () kinds) h

theorem reads_parameter (params : Params) (x : Parameter) (readable : ∀ value ∈ x.2, Readable value)
    (fresh : x.1 ∉ params.names) (early : x.2 = none → params.defaults = []) (m : Nat) (closes : closing ∈ listClosings)
    (ends : EndsItem closing rest) :
    Reads (parameter (nested m) closing params) (∀ value ∈ x.2, levels value + 1 ≤ m) (parameterTokens x ++ rest)
      (gatherParameter params x) rest := by
  have inside : closing ∈ closings := by
    revert closes
    cases closing <;> decide
  have stops := ends_item_stops inside ends
  have noColon : firstOf rest ≠ .mark .colon ∨ closing = .colon := by
    by_cases colon : closing = .colon
    · exact .inr colon
    · exact .inl (ends_item_other ends (by simp) (by simpa using colon))
  have noEqual : firstOf rest ≠ .mark .equal := by
    refine ends_item_other ends (by simp) ?_
    rintro ⟨⟩
    exact absurd closes (by decide)
  obtain ⟨id, _ | value⟩ := x
  · rw [show gatherParameter params (id, none) = ⟨params.names ++ [id], params.defaults⟩ by simp [gatherParameter]]
    refine reads_iff (reads_forbid (by simp [parameterTokens, firstOf]) (reads_forbid (by simp [parameterTokens, firstOf])
      (reads_span fun place => reads_name (reads_require (by simpa using fresh) (reads_annotations noColon
        (reads_decline noEqual (reads_require (by simp [early]) (reads_pure _ rest)))))))) (by simp)
  · have default := readable value rfl
    refine reads_iff (reads_forbid (by simp [parameterTokens, firstOf]) (reads_forbid (by simp [parameterTokens, firstOf])
      (reads_span fun place => reads_name (reads_require (by simpa using fresh) (reads_annotations (.inl ?_)
        (reads_accept (reads_return (reads_test default m stops) _))))))) (by simp)
    simp [firstOf]

theorem parameter_items {items : List Parameter} (arranged : Arranged (·.2 = none) (some ·.1) items)
    (all : ∀ x ∈ items, ∀ value ∈ x.2, Readable value) (m : Nat) (closes : closing ∈ listClosings) :
    ReadsItems (· = .mark closing) closing (parameter (nested m) closing) parameterTokens
      (fun x => ∀ value ∈ x.2, levels value + 1 ≤ m) gatherParameter items {} := by
  intro front x back same kinds ends
  have readable := all x (by simp [same])
  subst same
  obtain ⟨early, fresh⟩ := arranged_front arranged
  have front_state := gather_parameters front {}
  simp only [List.nil_append] at front_state
  rw [front_state]
  refine ⟨?_, reads_parameter _ x readable ?_ ?_ m closes ends⟩
  · obtain ⟨id, _ | value⟩ := x <;> rfl
  · rw [← List.filterMap_eq_map]
    exact fresh x.1 rfl
  · intro none
    rw [List.filterMap_eq_nil_iff]
    exact early none

theorem reads_parameters {items : List Parameter} (arranged : Arranged (·.2 = none) (some ·.1) items)
    (all : ∀ x ∈ items, ∀ value ∈ x.2, Readable value) (m : Nat) (closes : closing ∈ listClosings) (rest : List Token.Kind) :
    Reads (parameters (nested m) closing) (∀ x ∈ items, ∀ value ∈ x.2, levels value + 1 ≤ m)
      (commaTokens (items.map parameterTokens) ++ .mark closing :: rest)
      ⟨items.map (·.1), items.filterMap (·.2)⟩ (.mark closing :: rest) := by
  have noComma : closing ≠ .comma := by
    rintro rfl
    exact absurd closes (by decide)
  cases items with
  | nil => exact reads_iff (reads_up_to_none (Params.mk [] []) rest) (by simp)
  | cons x others =>
      have reads := reads_up_to noComma x others _ (parameter_items arranged all m closes) rest
      rw [gather_parameters] at reads
      rw [List.map_cons, commaTokens, joined_cons, List.flatMap_map, List.append_assoc]
      exact reads

def paramItems (params : List String) (defaults : List Node) : List Parameter :=
  let required := params.length - defaults.length
  (params.take required).map (·, none) ++ ((params.drop required).zip defaults).map fun item => (item.1, some item.2)

theorem param_items_tokens (params : List String) (defaults : List Node) :
    commaTokens ((paramItems params defaults).map parameterTokens) = paramTokens params (tokensAll .test defaults) := by
  rw [tokens_all_eq, funext tokens_at_test, paramTokens, paramItems, List.length_map, List.map_append, List.map_map,
    List.map_map, List.map_zip_eq_zipWith, List.zipWith_map_right]
  rfl

section

variable {params : List String} {defaults : List Node} (fit : defaults.length ≤ params.length)

include fit

theorem param_items_length : (params.drop (params.length - defaults.length)).length = defaults.length := by
  rw [List.length_drop]
  omega

theorem param_items_names : (paramItems params defaults).map (·.1) = params := by
  have length := param_items_length fit
  rw [paramItems, List.map_append, List.map_map, List.map_map]
  show List.map id _ ++ List.map Prod.fst _ = params
  rw [List.map_id, List.map_fst_zip length.le, List.take_append_drop]

theorem param_items_defaults : (paramItems params defaults).filterMap (·.2) = defaults := by
  have length := param_items_length fit
  have front : ∀ ids : List String, (ids.map fun id => ((id, none) : Parameter)).filterMap (·.2) = [] := by
    intro ids
    rw [List.filterMap_eq_nil_iff]
    intro item member
    obtain ⟨id, _, rfl⟩ := List.mem_map.mp member
    rfl
  rw [paramItems, List.filterMap_append, front, List.nil_append, List.filterMap_map]
  show List.filterMap (some ∘ Prod.snd) _ = defaults
  rw [List.filterMap_eq_map, List.map_snd_zip length.ge]

theorem param_items_arranged (distinct : params.Nodup) :
    Arranged (·.2 = none) (some ·.1) (paramItems params defaults) := by
  constructor
  · rw [paramItems, List.pairwise_append]
    refine ⟨?_, ?_, ?_⟩
    · exact List.pairwise_map.mpr (List.pairwise_of_forall fun _ _ _ => rfl)
    · exact List.pairwise_map.mpr (List.pairwise_of_forall fun _ _ never => by cases never)
    · intro a member b _ _
      obtain ⟨value, _, rfl⟩ := List.mem_map.mp member
      rfl
  · show (List.filterMap (some ∘ Prod.fst) _).Nodup
    rw [List.filterMap_eq_map]
    have names := param_items_names fit
    exact names.symm ▸ distinct

theorem reads_params (distinct : params.Nodup) (all : ∀ x ∈ defaults, Readable x) (m : Nat) (closes : closing ∈ listClosings)
    (rest : List Token.Kind) :
    Reads (parameters (nested m) closing) (∀ x ∈ defaults, levels x + 1 ≤ m)
      (paramTokens params (tokensAll .test defaults) ++ .mark closing :: rest) ⟨params, defaults⟩ (.mark closing :: rest) := by
  have parts : ∀ P : Node → Prop, (∀ x ∈ paramItems params defaults, ∀ value ∈ x.2, P value) ↔ ∀ value ∈ defaults, P value := by
    intro P
    have same := param_items_defaults fit
    constructor
    · intro h value member
      rw [← same] at member
      obtain ⟨x, inside, holds⟩ := List.mem_filterMap.mp member
      exact h x inside value holds
    · intro h x inside value holds
      refine h value ?_
      rw [← same]
      exact List.mem_filterMap.mpr ⟨x, inside, holds⟩
  have reads := reads_parameters (param_items_arranged fit distinct) ((parts Readable).mpr all) m closes rest
  rw [param_items_tokens, param_items_names fit, param_items_defaults fit] at reads
  exact reads_iff reads (parts fun value => levels value + 1 ≤ m)

end

end Mutagen.Grammar
