import Mutagen.Proofs.Arena.Builds

set_option autoImplicit false

namespace Mutagen.Builder

open Token (Kind)
open Mutagen.Parser (firstKind kind secondKind span skip accept expect expectMark expectKeyword forbid require failWith Step
  linkedBy)
open Mutagen.Arena (Grown Extends grown_refl grown_extend grown_append text_stands)

variable {all : List String} {α β : Type}

structure GivesNested (all : List String) (inner : Grammar.Nested) (inner' : Nested) : Prop where
  test : Gives all inner.test inner'.test
  negation : Gives all inner.negation inner'.negation
  factor : Gives all inner.factor inner'.factor

variable {inner : Grammar.Nested} {inner' : Nested}

theorem gives_list_of {item : Parser Node} {item' : Builder NodeId} (h : Gives all item item') :
    Gives all (Grammar.listOf item) (listOf item') := by
  intro tokens a
  apply builds_next h (grown_refl a)
  intro first first' b rest _ grown
  apply builds_look
  apply builds_ite
  · intro _
    apply builds_bind (builds_behind_commas (fun _ _ _ _ grown => builds_append h grown) grown)
    intro nodes ids c rest _ grown
    exact builds_alloc grown rfl
  · exact fun _ => builds_pure grown

theorem gives_optional_test (h : GivesNested all inner inner') :
    GivesOptional all (Grammar.optionalTest inner) (optionalTest inner') := by
  intro tokens a
  apply builds_look
  apply builds_ite
  · intro _
    apply builds_next h.test (grown_refl a)
    intro value value' b rest _ grown
    exact builds_pure grown
  · exact fun _ => builds_pure (grown_refl a)

structure SameParams (base : Arena) (params : Grammar.Params) (params' : Params) (a : Arena) : Prop where
  names : StandFor a.symbols.name? params'.names params.names
  defaults : Grown base a params'.defaults params.defaults

theorem interns_inverse {tokens : List Token} {a : Arena} (interns : Interns all a tokens) : a.symbols.Inverse := by
  obtain ⟨before, same, _⟩ := interns
  exact same ▸ SymbolTable.inverse_of_names before

theorem stand_contains {table : SymbolTable} {symbols : List Symbol} {names : List String} {symbol : Symbol} {name : String}
    (inverse : table.Inverse) (stand : StandFor table.name? symbols names) (here : table.name? symbol = some name) :
    symbols.contains symbol = names.contains name := by
  induction stand with
  | nil => rfl
  | @cons other text _ _ first _ ih =>
      have same : symbol = other ↔ name = text := SymbolTable.inverse_agree inverse here first
      rw [List.contains_cons, List.contains_cons, ih]
      congr 1
      exact Bool.eq_iff_iff.mpr (by simpa using same)

theorem silent_annotations (tokens : List Token) (closing : Mark) : Silent tokens (Grammar.forbidAnnotations closing) :=
  silent_ite (fun _ => silent_forbid _) fun _ => silent_pure ()

theorem gives_parameter (h : GivesNested all inner inner') (closing : Mark) {tokens : List Token} {base a : Arena}
    {params : Grammar.Params} {params' : Params} (same : SameParams base params params' a) :
    Builds all tokens (Grammar.parameter inner closing params) a (parameter inner' closing params') (SameParams base) := by
  apply builds_forbid
  intro rest
  apply builds_forbid
  intro rest
  apply builds_look
  apply builds_name
  intro id name b grows stands
  have known := Arena.stand_mono same.names grows.names
  have longer : StandFor b.symbols.name? (params'.names ++ [name]) (params.names ++ [id]) :=
    List.rel_append known (.cons stands .nil)
  apply builds_text
  apply builds_interned
  intro interns
  rw [text_stands stands, stand_contains (interns_inverse interns) known stands]
  apply builds_require
  intro _
  apply builds_then (silent_annotations _ closing)
  intro _ rest _
  apply builds_accept rfl
  intro given rest
  apply builds_ite
  · intro _
    apply builds_next h.test (grown_extend same.defaults grows)
    intro value value' c rest further grown
    exact builds_pure ⟨Arena.stand_mono longer further.names, grown⟩
  · intro _
    have none : params'.defaults.isEmpty = params.defaults.isEmpty := by
      rw [Bool.eq_iff_iff, List.isEmpty_iff_length_eq_zero, List.isEmpty_iff_length_eq_zero,
        Arena.grown_length same.defaults]
    rw [none]
    apply builds_require
    intro _
    exact builds_pure ⟨longer, grown_extend same.defaults grows⟩

theorem gives_parameters (h : GivesNested all inner inner') (closing : Mark) (tokens : List Token) (a : Arena) :
    Builds all tokens (Grammar.parameters inner closing) a (parameters inner' closing) (SameParams a) :=
  builds_up_to (fun _ _ _ _ same => gives_parameter h closing same) ⟨.nil, grown_refl a⟩

structure SameArguments (base : Arena) (ids : List NodeId) (nodes : List Node) (arguments : Grammar.Arguments)
    (arguments' : Arguments) (a : Arena) : Prop where
  names : StandFor a.symbols.name? (arguments'.keywords.map (·.1)) (arguments.keywords.map (·.1))
  length : arguments'.positional.length = arguments.positional.length
  values : Grown base a (ids ++ (arguments'.positional ++ arguments'.keywords.map (·.2)))
    (nodes ++ (arguments.positional ++ arguments.keywords.map (·.2)))

theorem builds_run_eq {p p' : Parser α} {build : Builder β} {tokens : List Token} {a : Arena} {R : α → β → Arena → Prop}
    (same : p.run tokens = p'.run tokens) (h : Builds all tokens p' a build R) : Builds all tokens p a build R := by
  rwa [Builds, same]

-- A keyword is compared with those in front of it once it is taken.
theorem keyword_argument_run {tokens : List Token} {id : String} (first : firstKind tokens = .name id)
    (arguments : Grammar.Arguments) :
    (Grammar.keywordArgument inner id arguments).run tokens =
      (do
        let place ← span
        let id ← Parser.expectName
        require (!(arguments.keywords.map (·.1)).contains id) (.repeatedKeyword id) place
        skip
        return { arguments with keywords := arguments.keywords ++ [(id, ← inner.test)] } :
        Parser Grammar.Arguments).run tokens := by
  cases tokens with
  | nil => cases first
  | cons token rest =>
      have taken {f : String → Parser Grammar.Arguments} :
          (Parser.expectName >>= f).run (token :: rest) = (f id).run rest := by
        rw [Parser.run_bind, name_run first]
      refine Eq.trans ?_ (Eq.symm taken)
      unfold Grammar.keywordArgument
      cases fresh : !(arguments.keywords.map (·.1)).contains id <;> rfl

theorem gives_keyword_argument (h : GivesNested all inner inner') {tokens : List Token} {base a : Arena} {id : String}
    {ids : List NodeId} {nodes : List Node} {arguments : Grammar.Arguments} {arguments' : Arguments}
    (first : firstKind tokens = .name id) (second : firstKind tokens.tail = .mark .equal)
    (same : SameArguments base ids nodes arguments arguments' a) :
    Builds all tokens (Grammar.keywordArgument inner id arguments) a (keywordArgument inner' arguments')
      (SameArguments base ids nodes) := by
  apply builds_run_eq (keyword_argument_run first arguments)
  apply builds_look
  apply builds_name
  intro id arg b grows stands
  have known := Arena.stand_mono same.names grows.names
  apply builds_text
  apply builds_interned
  intro interns
  have fresh : arguments'.keywords.any (·.1 == arg) = (arguments.keywords.map (·.1)).contains id := by
    rw [← stand_contains (interns_inverse interns) known stands, List.contains_eq_any_beq, List.any_map]
    congr 1
    funext keyword
    exact BEq.comm
  rw [text_stands stands, fresh]
  apply builds_require
  intro _
  apply builds_skip (second ▸ rfl)
  intro rest
  apply builds_next h.test (grown_extend same.values grows)
  intro value value' c rest further grown
  refine builds_pure ⟨?_, same.length, ?_⟩
  · simp only [List.map_append, List.map_cons, List.map_nil]
    exact List.rel_append (Arena.stand_mono known further.names) (.cons (further.names _ _ stands) .nil)
  · simpa only [List.map_append, List.map_cons, List.map_nil, List.append_assoc] using grown

theorem gives_positional_argument (h : GivesNested all inner inner') {tokens : List Token} {base a : Arena}
    {ids : List NodeId} {nodes : List Node} {arguments : Grammar.Arguments} {arguments' : Arguments}
    (same : SameArguments base ids nodes arguments arguments' a) :
    Builds all tokens (Grammar.positionalArgument inner arguments) a (positionalArgument inner' arguments')
      (SameArguments base ids nodes) := by
  apply builds_look
  have none : arguments'.keywords.isEmpty = arguments.keywords.isEmpty := by
    have length := same.names.length_eq
    rw [List.length_map, List.length_map] at length
    rw [Bool.eq_iff_iff, List.isEmpty_iff_length_eq_zero, List.isEmpty_iff_length_eq_zero, length]
  rw [none]
  apply builds_require
  intro empty
  obtain empty' := List.isEmpty_iff.mp (none.trans empty)
  obtain empty := List.isEmpty_iff.mp empty
  have values := same.values
  rw [empty, empty', List.map_nil, List.map_nil, List.append_nil, List.append_nil] at values
  apply builds_next h.test values
  intro value value' b rest further grown
  apply builds_forbid
  intro rest
  refine builds_pure ⟨Arena.stand_mono same.names further.names, by simp [same.length], ?_⟩
  simpa [empty, empty'] using grown

theorem gives_argument (h : GivesNested all inner inner') {tokens : List Token} {base a : Arena}
    {ids : List NodeId} {nodes : List Node} {arguments : Grammar.Arguments} {arguments' : Arguments}
    (same : SameArguments base ids nodes arguments arguments' a) :
    Builds all tokens (Grammar.argument inner arguments) a (argument inner' arguments') (SameArguments base ids nodes) := by
  apply builds_forbid
  intro rest
  apply builds_forbid
  intro rest
  apply builds_kind
  intro first found
  apply builds_second
  intro second behind
  cases first with
  | name id =>
      cases second with
      | mark m =>
          cases m with
          | equal => exact gives_keyword_argument h found behind same
          | _ => exact gives_positional_argument h same
      | _ => exact gives_positional_argument h same
  | _ => exact gives_positional_argument h same

theorem grown_option {a b : Arena} {id : Option NodeId} {node : Option Node} (grown : Grown a b id.toList node.toList) :
    id.isSome = node.isSome := by
  have length := Arena.grown_length grown
  cases id <;> cases node <;> first | rfl | cases length

theorem gives_slice_from (h : GivesNested all inner inner') {tokens : List Token} {base a : Arena} {lower : Option Node}
    {lower' : Option NodeId} (plain : (firstKind tokens).name? = none) (grown : Grown base a lower'.toList lower.toList) :
    Builds all tokens (Grammar.sliceFrom inner lower) a (sliceFrom inner' lower') fun node id b =>
      Grown base b [id] [node] := by
  apply builds_skip plain
  intro rest
  apply builds_bind (gives_optional_test h _ _)
  intro upper upper' b rest _ more
  have bounds := grown_append grown more
  apply builds_accept rfl
  intro stepped rest
  apply builds_ite
  · intro _
    apply builds_bind (gives_optional_test h _ _)
    intro step step' c rest _ last
    exact builds_alloc (grown_append bounds last) ⟨grown_option grown, grown_option more⟩
  · intro _
    exact builds_alloc (by simpa [Cell.children, Node.children] using bounds) ⟨grown_option grown, grown_option more⟩

theorem gives_slice_item (h : GivesNested all inner inner') : Gives all (Grammar.sliceItem inner) (sliceItem inner') := by
  intro tokens a
  apply builds_kind
  intro first found
  apply builds_ite
  · rintro rfl
    exact gives_slice_from h (found ▸ rfl) (grown_refl a)
  · intro _
    apply builds_next h.test (grown_refl a)
    intro lower lower' b rest _ grown
    apply builds_kind
    intro first found
    apply builds_ite
    · rintro rfl
      exact gives_slice_from h (found ▸ rfl) grown
    · exact fun _ => builds_pure grown

theorem gives_slice_list (h : GivesNested all inner inner') : Gives all (Grammar.sliceList inner) (sliceList inner') := by
  intro tokens a
  apply builds_next (gives_slice_item h) (grown_refl a)
  intro first first' b rest _ grown
  apply builds_look
  apply builds_ite
  · intro _
    apply builds_bind (builds_behind_commas (fun _ _ _ _ grown => builds_append (gives_slice_item h) grown) grown)
    intro nodes ids c rest _ grown
    exact builds_alloc grown rfl
  · exact fun _ => builds_pure grown

theorem gives_element (h : GivesNested all inner inner') (comprehension : Construct) :
    Gives all (Grammar.element inner comprehension) (element inner' comprehension) := by
  intro tokens a
  apply builds_next h.test (grown_refl a)
  intro value value' b rest _ grown
  apply builds_forbid
  intro rest
  exact builds_pure grown

theorem gives_elements (h : GivesNested all inner inner') (closing : Mark) (comprehension : Construct) :
    GivesAll all (Grammar.elements inner closing comprehension) (elements inner' closing comprehension) :=
  fun _ a => builds_up_to (fun _ _ _ _ grown => builds_append (gives_element h comprehension) grown) (grown_refl a)

theorem gives_parenthesized (h : GivesNested all inner inner') :
    Gives all (Grammar.parenthesized inner) (parenthesized inner') := by
  intro tokens a
  apply builds_accept rfl
  intro empty rest
  apply builds_ite
  · exact fun _ => builds_alloc (grown_refl a) rfl
  · intro _
    apply builds_next (gives_element h _) (grown_refl a)
    intro first first' b rest _ grown
    apply builds_look
    apply builds_ite
    · intro _
      apply builds_bind (builds_behind_commas (fun _ _ _ _ grown => builds_append h.test grown) grown)
      intro nodes ids c rest _ grown
      apply builds_mark
      intro rest
      exact builds_alloc grown rfl
    · intro _
      apply builds_mark
      intro rest
      exact builds_pure grown

def SameEntries (base : Arena) (entries : List (Node × Node)) (entries' : List (NodeId × NodeId)) (a : Arena) : Prop :=
  Grown base a (entries'.map (·.1) ++ entries'.map (·.2)) (entries.map (·.1) ++ entries.map (·.2))

theorem entries_length {base a : Arena} {entries : List (Node × Node)} {entries' : List (NodeId × NodeId)}
    (same : SameEntries base entries entries' a) : entries'.length = entries.length := by
  have length := Arena.grown_length same
  simp only [List.length_append, List.length_map] at length
  omega

theorem gives_dict_entry (h : GivesNested all inner inner') {tokens : List Token} {base a : Arena}
    {entries : List (Node × Node)} {entries' : List (NodeId × NodeId)} (same : SameEntries base entries entries' a) :
    Builds all tokens (Grammar.dictEntry inner entries) a (dictEntry inner' entries') (SameEntries base) := by
  apply builds_forbid
  intro rest
  apply builds_next h.test same
  intro key key' b rest _ grown
  apply builds_mark
  intro rest
  apply builds_next h.test grown
  intro value value' c rest _ grown
  have length := entries_length same
  simp only [List.append_assoc] at grown
  have moved := Arena.grown_swap (by simpa using length) (by simpa using length) rfl grown
  exact builds_pure (by simpa [SameEntries] using moved)

theorem gives_dict_from (h : GivesNested all inner inner') {tokens : List Token} {base a : Arena} {key : Node}
    {key' : NodeId} (plain : (firstKind tokens).name? = none) (grown : Grown base a [key'] [key]) :
    Builds all tokens (Grammar.dictFrom inner key) a (dictFrom inner' key') fun node id b => Grown base b [id] [node] := by
  apply builds_skip plain
  intro rest
  apply builds_next (gives_element h _) grown
  intro value value' b rest _ grown
  have one : SameEntries base [(key, value)] [(key', value')] b := grown
  apply builds_bind (builds_behind_commas (fun _ _ _ _ same => gives_dict_entry h same) one)
  intro entries entries' c rest _ same
  apply builds_mark
  intro rest
  exact builds_alloc same (by simpa [Cell.Like] using entries_length same)

theorem gives_set_from (h : GivesNested all inner inner') {tokens : List Token} {base a : Arena} {first : Node}
    {first' : NodeId} (grown : Grown base a [first'] [first]) :
    Builds all tokens (Grammar.setFrom inner first) a (setFrom inner' first') fun node id b => Grown base b [id] [node] := by
  apply builds_forbid
  intro rest
  apply builds_accept rfl
  intro further rest
  apply builds_ite
  · intro _
    apply builds_bind (gives_elements h _ _ _ _)
    intro others others' b rest _ more
    apply builds_mark
    intro rest
    exact builds_alloc (grown_append grown more) trivial
  · intro _
    apply builds_mark
    intro rest
    exact builds_alloc grown trivial

theorem gives_braced (h : GivesNested all inner inner') : Gives all (Grammar.braced inner) (braced inner') := by
  intro tokens a
  apply builds_accept rfl
  intro empty rest
  apply builds_ite
  · exact fun _ => builds_alloc (grown_refl a) rfl
  · intro _
    apply builds_forbid
    intro rest
    apply builds_next h.test (grown_refl a)
    intro first first' b rest _ grown
    apply builds_kind
    intro mark found
    apply builds_ite
    · rintro rfl
      exact gives_dict_from h (found ▸ rfl) grown
    · exact fun _ => gives_set_from h grown

theorem text_plain (first second : Kind) (text : String) (linked : Grammar.stringText first second = some text) :
    first.name? = none := by
  cases first <;> first | rfl | cases linked

theorem gives_atom (h : GivesNested all inner inner') : Gives all (Grammar.atom inner) (atom inner') := by
  intro tokens a
  apply builds_kind
  intro first found
  cases first with
  | name id =>
      apply builds_take_name found
      intro symbol b rest grows stands
      exact builds_alloc (grown_extend (grown_refl a) grows) ⟨stands, rfl⟩
  | int | float => exact builds_skip (found ▸ rfl) fun rest => builds_alloc (grown_refl a) rfl
  | str text =>
      apply builds_skip (found ▸ rfl)
      intro rest
      apply builds_then (silent_chain text_plain (fun _ _ _ => silent_pure _) text)
      intro whole rest _
      exact builds_alloc (grown_refl a) rfl
  | keyword word =>
      cases word with
      | kwNone | kwTrue | kwFalse => exact builds_skip (found ▸ rfl) fun rest => builds_alloc (grown_refl a) rfl
      | _ => exact builds_fail _
  | mark m =>
      cases m with
      | leftParen =>
          apply builds_skip (found ▸ rfl)
          intro rest
          exact gives_parenthesized h _ _
      | leftBracket =>
          apply builds_skip (found ▸ rfl)
          intro rest
          apply builds_bind (gives_elements h _ _ _ _)
          intro nodes ids b rest _ grown
          apply builds_mark
          intro rest
          exact builds_alloc grown rfl
      | leftBrace =>
          apply builds_skip (found ▸ rfl)
          intro rest
          exact gives_braced h _ _
      | _ => exact builds_fail _
  | _ => exact builds_fail _

theorem gives_trailer (h : GivesNested all inner inner') {tokens : List Token} {base a : Arena} {value : Node}
    {value' : NodeId} (grown : Grown base a [value'] [value]) (next : Grammar.Trailer) :
    Builds all tokens (Grammar.trailer inner value next) a (trailer inner' value' next) fun node id b =>
      Grown base b [id] [node] := by
  cases next with
  | call =>
      have none : SameArguments base [value'] [value] {} {} a := ⟨.nil, rfl, grown⟩
      apply builds_bind (builds_up_to (fun _ _ _ _ same => gives_argument h same) none)
      intro arguments arguments' b rest _ same
      apply builds_mark
      intro rest
      exact builds_alloc same.values ⟨same.length, same.names⟩
  | attr =>
      apply builds_name
      intro id symbol b grows stands
      exact builds_alloc (grown_extend grown grows) ⟨stands, rfl⟩
  | index =>
      apply builds_next (gives_slice_list h) grown
      intro index index' b rest _ grown
      apply builds_mark
      intro rest
      exact builds_alloc grown rfl

theorem trailer_plain {first second : Kind} {next : Grammar.Trailer} (linked : Grammar.trailer? first second = some next) :
    first.name? = none := by
  cases first <;> first | rfl | cases linked

theorem gives_primary (h : GivesNested all inner inner') : Gives all (Grammar.primary inner) (primary inner') := by
  intro tokens a
  apply builds_next (gives_atom h) (grown_refl a)
  intro value value' b rest _ grown
  refine builds_chain (fun _ _ _ linked => trailer_plain linked) (fun tokens _ next value value' b _ grown => ?_) grown
  apply builds_bind (gives_trailer h grown next)
  intro node id c rest _ grown
  exact builds_pure grown

theorem gives_power (h : GivesNested all inner inner') : Gives all (Grammar.power inner) (power inner') := by
  intro tokens a
  apply builds_next (gives_primary h) (grown_refl a)
  intro left left' b rest _ grown
  apply builds_accept rfl
  intro raised rest
  apply builds_ite
  · intro _
    apply builds_next h.factor grown
    intro right right' c rest _ grown
    exact builds_alloc grown rfl
  · exact fun _ => builds_pure grown

theorem gives_factor (h : GivesNested all inner inner') : Gives all (Grammar.factor inner) (factor inner') := by
  intro tokens a
  apply builds_kind
  intro first found
  cases sign : Grammar.sign? first with
  | none => exact gives_power h _ _
  | some op =>
      have plain : first.name? = none := by
        cases first <;> first | rfl | cases sign
      apply builds_skip (found ▸ plain)
      intro rest
      apply builds_next h.factor (grown_refl a)
      intro operand operand' b rest _ grown
      exact builds_alloc grown rfl

def Plain (op? : Kind → Option ArithmeticOp) : Prop := ∀ first op, op? first = some op → first.name? = none

theorem plain_of_names {op? : Kind → Option ArithmeticOp} (none : ∀ id, op? (.name id) = .none) : Plain op? := by
  intro first op found
  cases first with
  | name id =>
      rw [none] at found
      cases found
  | _ => rfl

theorem gives_left_grouped {op? : Kind → Option ArithmeticOp} {operand : Parser Node} {operand' : Builder NodeId}
    (plain : Plain op?) (h : Gives all operand operand') :
    Gives all (Grammar.leftGrouped op? operand) (leftGrouped op? operand') := by
  intro tokens a
  apply builds_next h (grown_refl a)
  intro left left' b rest _ grown
  refine builds_chain (fun first _ op => plain first op) (fun tokens _ op left left' b _ grown => ?_) grown
  apply builds_next h grown
  intro right right' c rest _ grown
  exact builds_alloc_then (.binOp left op right) grown rfl fun _ _ grown => builds_pure grown

theorem gives_bit_or (h : GivesNested all inner inner') : Gives all (Grammar.bitOr inner) (bitOr inner') := by
  apply gives_left_grouped (plain_of_names fun _ => rfl)
  apply gives_left_grouped (plain_of_names fun _ => rfl)
  apply gives_left_grouped (plain_of_names fun _ => rfl)
  apply gives_left_grouped (plain_of_names fun _ => rfl)
  apply gives_left_grouped (plain_of_names fun _ => rfl)
  apply gives_left_grouped (plain_of_names fun _ => rfl)
  exact gives_factor h

theorem silent_finish {tokens : List Token} {first : Kind} {op : ComparisonOp}
    (linked : Grammar.comparisonOp? first (firstKind tokens) = some op) : Silent tokens (Grammar.finishComparison op) := by
  cases op with
  | notIn | isNot =>
      apply silent_skip
      unfold Grammar.comparisonOp? at linked
      split at linked <;> simp_all [Kind.name?]
  | _ => exact silent_pure ()

theorem comparison_plain {first second : Kind} {op : ComparisonOp} (linked : Grammar.comparisonOp? first second = some op) :
    first.name? = none := by
  cases first <;> first | rfl | cases linked

structure SamePairs (base : Arena) (left : Node) (left' : NodeId) (pairs : List (ComparisonOp × Node))
    (pairs' : List (ComparisonOp × NodeId)) (a : Arena) : Prop where
  ops : pairs'.map (·.1) = pairs.map (·.1)
  operands : Grown base a (left' :: pairs'.map (·.2)) (left :: pairs.map (·.2))

theorem gives_comparison (h : GivesNested all inner inner') : Gives all (Grammar.comparison inner) (comparison inner') := by
  intro tokens a
  apply builds_next (gives_bit_or h) (grown_refl a)
  intro left left' b rest _ grown
  have start : SamePairs a left left' [] [] b := ⟨rfl, grown⟩
  refine builds_bind (builds_chain (fun _ _ _ linked => comparison_plain linked)
    (fun tokens first op pairs pairs' b linked same => ?_) start) fun pairs pairs' c rest _ same => ?_
  · apply builds_then (silent_finish linked)
    intro _ rest _
    apply builds_next (gives_bit_or h) same.operands
    intro right right' c rest _ grown
    exact builds_pure ⟨by simp [same.ops], by simpa using grown⟩
  · have none : pairs'.isEmpty = pairs.isEmpty := by
      have length := congrArg List.length same.ops
      rw [List.length_map, List.length_map] at length
      rw [Bool.eq_iff_iff, List.isEmpty_iff_length_eq_zero, List.isEmpty_iff_length_eq_zero, length]
    rw [none]
    apply builds_ite
    · intro empty
      obtain empty' := List.isEmpty_iff.mp (none.trans empty)
      obtain empty := List.isEmpty_iff.mp empty
      have operands := same.operands
      rw [empty, empty'] at operands
      exact builds_pure operands
    · exact fun _ => builds_alloc same.operands same.ops

theorem gives_negation (h : GivesNested all inner inner') : Gives all (Grammar.negation inner) (negation inner') := by
  intro tokens a
  apply builds_kind
  intro first found
  apply builds_ite
  · rintro rfl
    apply builds_skip (found ▸ rfl)
    intro rest
    apply builds_next h.negation (grown_refl a)
    intro operand operand' b rest _ grown
    exact builds_alloc grown rfl
  · exact fun _ => gives_comparison h _ _

theorem gives_logical {op : LogicalOp} {word : Keyword} {operand : Parser Node} {operand' : Builder NodeId}
    (h : Gives all operand operand') : Gives all (Grammar.logical op word operand) (logical op word operand') := by
  intro tokens a
  apply builds_next h (grown_refl a)
  intro first first' b rest _ grown
  apply builds_look
  apply builds_ite
  · intro _
    refine builds_bind (builds_chain (fun _ _ _ linked => linked_plain rfl linked) (fun tokens _ _ nodes ids b _ grown => ?_)
      grown) fun nodes ids c rest _ grown => builds_alloc grown rfl
    apply builds_bind (builds_append h grown)
    intro nodes ids c rest _ grown
    exact builds_pure grown
  · exact fun _ => builds_pure grown

theorem gives_or_test (h : GivesNested all inner inner') : Gives all (Grammar.orTest inner) (orTest inner') :=
  gives_logical (gives_logical (gives_negation h))

theorem gives_lambda (h : GivesNested all inner inner') {tokens : List Token} {a : Arena}
    (plain : (firstKind tokens).name? = none) :
    Builds all tokens (Grammar.lambda inner) a (lambda inner') fun node id b => Grown a b [id] [node] := by
  apply builds_skip plain
  intro rest
  apply builds_bind (gives_parameters h _ _ _)
  intro params params' b rest _ same
  apply builds_mark
  intro rest
  apply builds_next h.test same.defaults
  intro body body' c rest further grown
  exact builds_alloc grown (Arena.stand_mono same.names further.names)

theorem gives_conditional (h : GivesNested all inner inner') : Gives all (Grammar.conditional inner) (conditional inner') := by
  intro tokens a
  apply builds_kind
  intro first found
  apply builds_ite
  · rintro rfl
    exact gives_lambda h (found ▸ rfl)
  · intro _
    apply builds_next (gives_or_test h) (grown_refl a)
    intro body body' b rest _ grown
    apply builds_accept rfl
    intro chosen rest
    apply builds_ite
    · intro _
      apply builds_next (gives_or_test h) grown
      intro test test' c rest _ grown
      apply builds_expect rfl
      intro rest
      apply builds_next h.test grown
      intro orelse orelse' d rest _ grown
      -- The test is stored behind the body, and read in front of it.
      have moved : Grown a d [test', body', orelse'] [test, body, orelse] :=
        @Arena.grown_swap a d [] [body'] [test'] [orelse'] [] [body] [test] [orelse] rfl rfl rfl grown
      exact builds_alloc moved trivial
    · exact fun _ => builds_pure grown

theorem gives_nested (levels : Nat) : GivesNested all (Grammar.nested levels) (nested levels) := by
  induction levels with
  | zero => exact ⟨fun _ _ => builds_fail _, fun _ _ => builds_fail _, fun _ _ => builds_fail _⟩
  | succ levels ih => exact ⟨gives_conditional ih, gives_negation ih, gives_factor ih⟩

end Mutagen.Builder
