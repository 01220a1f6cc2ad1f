import Mutagen.Proofs.Grammar.Leaves
import Mutagen.Proofs.Grammar.Shape

set_option autoImplicit false

namespace Mutagen.Grammar

open Mutagen.Parser Node
open Token (leavesOf leaves_string join_leaves)

variable {S : Type} {pass : Pass S} {read : List Leaf} {opened : S} {inner : Nested} {opening : Mark}

structure AccountsNested (pass : Pass S) (inner : Nested) : Prop where
  test : Accounts pass inner.test IsValue leaves
  negation : Accounts pass inner.negation IsValue leaves
  factor : Accounts pass inner.factor IsValue leaves

theorem skips_bare {kind : Token.Kind} (bare : IsBare kind) : pass.Skips opened kind opened := skips_plain bare.1 bare.2

theorem told_append {P : Node → Prop} {item : Parser Node} (h : Accounts pass item P leaves) {items : List Node}
    (start : pass.sound → AllOf P items) :
    Triple (pass.At (read ++ allLeaves items) opened) (append item items) (pass.Told (AllOf P) allLeaves read opened) := by
  apply told_bind (h _ _)
  intro last stands
  exact told_pure (fun known => all_of_snoc (start known) (stands known)) fun _ => by simp

theorem told_items {P : Node → Prop} {stop : Token.Kind → Bool} {item : Parser Node} (h : Accounts pass item P leaves) {first : Node}
    (start : pass.sound → P first) :
    Triple (pass.At (read ++ leaves first) opened) (behindCommas stop (append item) [first])
      (pass.Told (AllOf P) allLeaves read opened) := by
  have loop : Triple (pass.At (read ++ allLeaves [first]) opened) (behindCommas stop (append item) [first])
      (pass.Told (AllOf P) allLeaves read opened) :=
    told_behind_commas (fun known => all_of_single (start known)) fun _ => told_append h
  simpa using loop

theorem accounts_list_of {item : Parser Node} (h : Accounts pass item IsValue leaves) :
    Accounts pass (listOf item) IsValue leaves := by
  intro read opened
  apply told_bind (h _ _)
  intro first stands
  apply triple_look
  intro next
  apply triple_ite
  · intro _
    apply told_bind (told_items h stands)
    intro items all
    exact told_pure (fun known => tuple_stands (all known)) fun _ => rfl
  · intro _
    exact told_pure stands fun _ => rfl

theorem accounts_optional {p : Parser Node} (h : Accounts pass p IsValue leaves) :
    Accounts pass (do if startsExpression (← kind) then return some (← p) else return none)
      (fun value => AllOf IsValue value.toList) leavesOption := by
  intro read opened
  apply triple_look
  intro first
  apply triple_ite
  · intro _
    apply told_bind (h _ _)
    intro value stands
    exact told_pure (fun known => all_of_single (stands known)) fun _ => rfl
  · intro _
    exact told_pure (fun _ => all_of_nil) fun _ => (List.append_nil _).symm

theorem told_parameter (h : AccountsNested pass inner) (closing : Mark) {params : Params} (fits : pass.sound → Fits params) :
    Triple (pass.At (read ++ params.leaves) opened) (parameter inner closing params) (pass.Told Fits Params.leaves read opened) := by
  apply triple_bind (triple_forbid _ _)
  intro _
  apply triple_bind (triple_forbid _ _)
  intro _
  apply triple_look
  intro place
  apply told_bind (told_name _ _)
  intro id identifier
  apply triple_bind triple_require
  intro _
  apply triple_given
  intro free
  have fresh : id ∉ params.names := by simpa using free
  have annotations {T : List Token → Prop} : Triple T (forbidAnnotations closing) fun _ => T :=
    triple_ite (fun _ => triple_forbid _ _) fun _ => triple_pure fun _ holds => holds
  apply triple_bind annotations
  intro _
  apply at_if_accept (skips_plain rfl rfl)
  · apply told_bind (h.test _ _)
    intro value stands
    apply told_pure
    · exact fun known => fits_default (fits known) (identifier known) fresh (stands known)
    · intro known
      rw [params_leaves_default (fits known).shaped.fit]
      simp
  · apply triple_bind triple_require
    intro _
    apply triple_given
    intro required
    apply told_pure
    · exact fun known => ⟨fits_name (fits known) (identifier known) fresh, (fits known).defaults⟩
    · intro _
      rw [params_leaves_name required, List.append_assoc]

theorem accounts_parameters (h : AccountsNested pass inner) (closing : Mark) :
    Accounts pass (parameters inner closing) Fits Params.leaves := by
  intro read opened
  have loop : Triple (pass.At (read ++ Params.leaves {}) opened) (parameters inner closing) (pass.Told Fits Params.leaves read opened) :=
    told_up_to (fun _ => fits_none) fun _ => told_parameter h closing
  simpa [Params.leaves, paramLeaves, interleave, leavesAll] using loop

theorem told_argument (h : AccountsNested pass inner) {arguments : Arguments} (passes : pass.sound → Passes arguments) :
    Triple (pass.At (read ++ arguments.leaves) opened) (argument inner arguments)
      (pass.Told Passes Arguments.leaves read opened) := by
  apply triple_bind (triple_forbid _ _)
  intro _
  apply triple_bind (triple_forbid _ _)
  intro _
  apply at_kind
  intro first sound
  apply triple_second_kind
  intro second
  split
  · rename_i id
    apply triple_look
    intro place
    apply triple_bind triple_require
    intro _
    apply triple_given
    intro free
    have fresh : id ∉ arguments.keywords.map (·.1) := by simpa using free
    -- The name is taken first, and then the equal sign that was seen behind it.
    have name : Triple (fun tokens => firstKind tokens.tail = .mark .equal ∧ firstKind tokens = .name id ∧
        pass.At (read ++ arguments.leaves) opened tokens) skip fun _ tokens => firstKind tokens = .mark .equal ∧
          pass.At (read ++ arguments.leaves ++ [.name id]) opened tokens := by
      apply triple_skip
      rintro token rest ⟨equal, named, here⟩
      exact ⟨equal, (at_leaf rfl rfl rfl).holds (token :: rest) ⟨named, here⟩ () rest rfl⟩
    apply triple_bind name
    intro _
    apply triple_bind (at_skip (skips_plain rfl rfl))
    intro _
    apply told_bind (h.test _ _)
    intro value stands
    exact told_pure (fun known => passes_keyword (passes known) (sound known) fresh (stands known)) fun _ => by
      simp [Arguments.leaves]
  · apply triple_forget
    apply triple_forget
    apply triple_look
    intro place
    apply triple_bind triple_require
    intro _
    apply triple_given
    intro positional
    have none : arguments.keywords = [] := List.isEmpty_iff.mp positional
    apply told_bind (h.test _ _)
    intro value stands
    apply triple_bind (triple_forbid _ _)
    intro _
    apply told_pure
    · exact fun known => { passes known with positional := all_of_snoc (passes known).positional (stands known) }
    · exact fun _ => by simp [Arguments.leaves, none, leavesKeywords]

theorem accounts_arguments (h : AccountsNested pass inner) :
    Accounts pass (upTo .rightParen (argument inner) {}) Passes Arguments.leaves := by
  intro read opened
  have loop : Triple (pass.At (read ++ Arguments.leaves {}) opened) (upTo .rightParen (argument inner) {})
      (pass.Told Passes Arguments.leaves read opened) :=
    told_up_to (fun _ => passes_none) fun _ => told_argument h
  simpa [Arguments.leaves, leavesKeywords] using loop

-- Within the brackets of an index or of a dictionary a colon changes nothing.
theorem told_slice_from (h : AccountsNested pass inner) (opens : opening.isOpening = true) {lower : Option Node}
    (first : pass.sound → AllOf IsValue lower.toList) :
    Triple (fun tokens => firstKind tokens = .mark .colon ∧
        pass.At (read ++ leavesOption lower) (pass.scan.push opening opened) tokens)
      (sliceFrom inner lower) (pass.Told IsItem leaves read (pass.scan.push opening opened)) := by
  apply triple_bind (at_skip (skips_colon opens))
  intro _
  apply told_bind (accounts_optional h.test _ _)
  intro upper second
  apply at_if_accept (skips_colon opens)
  · apply told_bind (accounts_optional h.test _ _)
    intro step third
    exact told_pure (fun known => slice_item (first known) (second known) (third known)) fun _ => by simp [leaves]
  · exact told_pure (fun known => slice_item (first known) (second known) all_of_nil) fun _ => by simp [leaves, leavesOption]

theorem told_slice_item (h : AccountsNested pass inner) (opens : opening.isOpening = true) :
    Triple (pass.At read (pass.scan.push opening opened)) (sliceItem inner)
      (pass.Told IsItem leaves read (pass.scan.push opening opened)) := by
  apply triple_if_kind
  · apply triple_under (told_slice_from h opens fun _ => all_of_nil)
    rintro tokens ⟨colon, here⟩
    exact ⟨colon, by rwa [leavesOption, List.append_nil]⟩
  · apply told_bind (h.test _ _)
    intro lower stands
    have single : pass.sound → AllOf IsValue (some lower).toList := fun known => all_of_single (stands known)
    apply triple_if_kind
    · exact told_slice_from h opens single
    · exact told_pure (fun known => item_of_value (stands known)) fun _ => rfl

theorem told_slice_list (h : AccountsNested pass inner) (opens : opening.isOpening = true) :
    Triple (pass.At read (pass.scan.push opening opened)) (sliceList inner)
      (pass.Told IsIndex leaves read (pass.scan.push opening opened)) := by
  apply told_bind (told_slice_item h opens)
  intro first stands
  apply triple_look
  intro next
  apply triple_ite
  · intro _
    have one : pass.sound → AllOf IsItem [first] := fun known => all_of_single (stands known)
    have loop : Triple (pass.At (read ++ allLeaves [first]) (pass.scan.push opening opened))
        (behindCommas (· = .mark .rightBracket) (append (sliceItem inner)) [first])
        (pass.Told (AllOf IsItem) allLeaves read (pass.scan.push opening opened)) := by
      apply told_behind_commas one
      intro items all
      apply told_bind (told_slice_item h opens)
      intro last stands
      exact told_pure (fun known => all_of_snoc (all known) (stands known)) fun _ => by simp
    rw [all_leaves_cons, all_leaves_nil, List.append_nil] at loop
    apply told_bind loop
    intro items all
    exact told_pure (fun known => items_index (all known)) fun _ => rfl
  · intro _
    exact told_pure (fun known => index_of_item (stands known)) fun _ => rfl

theorem accounts_element (h : AccountsNested pass inner) (comprehension : Construct) :
    Accounts pass (element inner comprehension) IsValue leaves := by
  intro read opened
  apply told_bind (h.test _ _)
  intro value stands
  apply triple_bind (triple_forbid _ _)
  intro _
  exact told_pure stands fun _ => rfl

theorem accounts_elements (h : AccountsNested pass inner) (closing : Mark) (comprehension : Construct) :
    Accounts pass (elements inner closing comprehension) (AllOf IsValue) allLeaves := by
  intro read opened
  have loop : Triple (pass.At (read ++ allLeaves []) opened) (elements inner closing comprehension)
      (pass.Told (AllOf IsValue) allLeaves read opened) :=
    told_up_to (fun _ => all_of_nil) fun _ => told_append (accounts_element h comprehension)
  rwa [all_leaves_nil, List.append_nil] at loop

-- A closing bracket takes its partner off those that are open.
theorem told_close {α : Type} {P : α → Prop} {L : α → List Leaf} {more : List Leaf} {closing : Mark} {a : α}
    (fits : opening.partner? = some closing) (holds : pass.sound → P a) (same : pass.sound → more = read ++ L a) :
    Triple (pass.At more (pass.scan.push opening opened)) (expectMark closing >>= fun _ => pure a) (pass.Told P L read opened) := by
  apply triple_bind (at_expect (skips_close fits) _)
  intro _
  exact told_pure holds same

theorem told_parenthesized (h : AccountsNested pass inner) :
    Triple (pass.At read (pass.scan.push .leftParen opened)) (parenthesized inner) (pass.Told IsValue leaves read opened) := by
  apply at_if_accept (skips_close rfl)
  · exact told_pure (fun _ => tuple_stands all_of_nil) fun _ => (List.append_nil _).symm
  · apply told_bind (accounts_element h _ _ _)
    intro first stands
    apply triple_look
    intro next
    apply triple_ite
    · intro _
      apply told_bind (told_items h.test stands)
      intro items all
      exact told_close rfl (fun known => tuple_stands (all known)) fun _ => rfl
    · intro _
      exact told_close rfl stands fun _ => rfl

theorem told_entry (h : AccountsNested pass inner) {entries : List (Node × Node)} (start : pass.sound → AllOf IsEntry entries) :
    Triple (pass.At (read ++ entryLeaves entries) (pass.scan.push .leftBrace opened)) (dictEntry inner entries)
      (pass.Told (AllOf IsEntry) entryLeaves read (pass.scan.push .leftBrace opened)) := by
  apply triple_bind (triple_forbid _ _)
  intro _
  apply told_bind (h.test _ _)
  intro key stands
  apply triple_bind (at_expect (skips_colon rfl) _)
  intro _
  apply told_bind (h.test _ _)
  intro value stands'
  exact told_pure (fun known => all_of_snoc (start known) ⟨stands known, stands' known⟩) fun _ => by simp [entry_leaves_snoc]

theorem told_dict_from (h : AccountsNested pass inner) {key : Node} (stands : pass.sound → IsValue key) :
    Triple (fun tokens => firstKind tokens = .mark .colon ∧ pass.At (read ++ leaves key) (pass.scan.push .leftBrace opened) tokens)
      (dictFrom inner key) (pass.Told IsValue leaves read opened) := by
  apply triple_bind (at_skip (skips_colon rfl))
  intro _
  apply told_bind (accounts_element h _ _ _)
  intro value stands'
  have one : pass.sound → AllOf IsEntry [(key, value)] := fun known => all_of_single ⟨stands known, stands' known⟩
  have loop : Triple (pass.At (read ++ entryLeaves [(key, value)]) (pass.scan.push .leftBrace opened))
      (behindCommas (· = .mark .rightBrace) (dictEntry inner) [(key, value)])
      (pass.Told (AllOf IsEntry) entryLeaves read (pass.scan.push .leftBrace opened)) :=
    told_behind_commas one fun _ => told_entry h
  rw [entry_leaves_single, ← List.append_assoc] at loop
  apply told_bind loop
  intro entries all
  exact told_close rfl (fun known => entries_stand (all known)) fun _ => rfl

theorem told_set_from (h : AccountsNested pass inner) {first : Node} (stands : pass.sound → IsValue first) :
    Triple (pass.At (read ++ leaves first) (pass.scan.push .leftBrace opened)) (setFrom inner first)
      (pass.Told IsValue leaves read opened) := by
  apply triple_bind (triple_forbid _ _)
  intro _
  apply at_if_accept (skips_plain rfl rfl)
  · apply told_bind (accounts_elements h _ _ _ _)
    intro others all
    exact told_close rfl (fun known => set_stands (stands known) (all known)) fun _ => by
      simp [leaves, leavesAll, allLeaves]
  · exact told_close rfl (fun known => set_stands (stands known) all_of_nil) fun _ => by simp [leaves, leavesAll]

theorem told_braced (h : AccountsNested pass inner) :
    Triple (pass.At read (pass.scan.push .leftBrace opened)) (braced inner) (pass.Told IsValue leaves read opened) := by
  apply at_if_accept (skips_close rfl)
  · exact told_pure (fun _ => dict_stands) fun _ => (List.append_nil _).symm
  · apply triple_bind (triple_forbid _ _)
    intro _
    apply told_bind (h.test _ _)
    intro first stands
    apply triple_if_kind
    · exact told_dict_from h stands
    · exact told_set_from h stands

-- A string waits for those that follow it.
structure Pending (pass : Pass S) (read : List Leaf) (opened : S) (text : String) (tokens : List Token) : Prop
    extends pass.Within opened tokens where
  ahead : pass.sound → read ++ leavesOf (.str text :: tokens.map (·.kind)) = leavesOf pass.kinds

theorem pending_last {text : String} {tokens : List Token} (pending : Pending pass read opened text tokens)
    (last : ∀ next, firstKind tokens ≠ .str next) : pass.At (read ++ [.constant (.str text)]) opened tokens := by
  have alone : ∀ next more, tokens.map (·.kind) ≠ .str next :: more := by
    intro next more same
    cases tokens with
    | nil => cases same
    | cons token rest => exact last next (List.cons.inj same).1
  refine ⟨pending.toWithin, fun known => ?_⟩
  rw [← pending.ahead known, leaves_string alone, List.append_assoc]
  rfl

theorem told_strings (text : String) :
    Triple (Pending pass read opened text) (chain stringText (fun text next => pure (.again (text ++ next))) text)
      fun whole => pass.At (read ++ [.constant (.str whole)]) opened := by
  apply triple_chain (I := Pending pass read opened)
  · intro text pending
    exact pending_last pending fun next => Token.Kind.noConfusion
  · intro text token rest unlinked pending
    apply pending_last pending
    intro next same
    have string : token.kind = .str next := same
    rw [string] at unlinked
    cases unlinked
  · intro text token next
    apply triple_pure
    rintro rest ⟨linked, pending⟩
    have string : token.kind = .str next := by
      cases kind : token.kind with
      | str last =>
          rw [kind] at linked
          cases linked
          rfl
      | _ =>
          rw [kind] at linked
          cases linked
    have plain : token.kind.isPlain = true := by rw [string]; rfl
    refine ⟨within_behind pending.toWithin (pass.scan.plain _ _ plain), fun known => ?_⟩
    rw [← pending.ahead known, List.map_cons, string, join_leaves]

theorem told_leaf {first : Token.Kind} {leaf : Leaf} {node : Node} (plain : first.isPlain = true) (single : first.isStr = false)
    (spells : first.leaf? = some leaf) (same : [leaf] = leaves node) (stands : pass.sound → IsValue node) :
    Triple (fun tokens => firstKind tokens = first ∧ pass.At read opened tokens) (skip >>= fun _ => pure node)
      (pass.Told IsValue leaves read opened) := by
  apply triple_bind (at_leaf plain single spells)
  intro _
  exact told_pure stands fun _ => by rw [same]

theorem accounts_atom (h : AccountsNested pass inner) : Accounts pass (atom inner) IsValue leaves := by
  intro read opened
  apply at_kind
  intro first sound
  split
  · exact told_leaf rfl rfl rfl rfl fun known => name_stands (sound known)
  · exact told_leaf rfl rfl rfl rfl fun known => constant_value (sound known)
  · exact told_leaf rfl rfl rfl rfl fun known => constant_value (sound known)
  · rename_i text
    have taken : Triple (fun tokens => firstKind tokens = .str text ∧ pass.At read opened tokens) skip fun _ =>
        Pending pass read opened text := by
      apply triple_skip
      rintro token rest ⟨same, here⟩
      have string : token.kind = .str text := same
      have plain : token.kind.isPlain = true := by rw [string]; rfl
      refine ⟨within_behind here.toWithin (pass.scan.plain _ _ plain), fun known => ?_⟩
      rw [← here.ahead known, List.map_cons, string]
    apply triple_bind taken
    intro _
    apply triple_bind (told_strings text)
    intro whole
    exact told_pure (fun _ => constant_value trivial) fun _ => rfl
  · exact told_leaf rfl rfl rfl rfl fun _ => constant_value trivial
  · exact told_leaf rfl rfl rfl rfl fun _ => constant_value trivial
  · exact told_leaf rfl rfl rfl rfl fun _ => constant_value trivial
  · apply triple_bind (at_skip (skips_open rfl))
    intro _
    exact told_parenthesized h
  · apply triple_bind (at_skip (skips_open rfl))
    intro _
    apply told_bind (accounts_elements h _ _ _ _)
    intro items all
    exact told_close rfl (fun known => list_stands (all known)) fun _ => rfl
  · apply triple_bind (at_skip (skips_open rfl))
    intro _
    exact told_braced h
  · exact triple_fail _

theorem told_trailer (h : AccountsNested pass inner) {value : Node} (stands : pass.sound → IsValue value) {next : Trailer}
    {first : Token.Kind} (linked : ∃ second, trailer? first second = some next) :
    ∃ middle, pass.Skips opened first middle ∧
      Triple (pass.At (read ++ leaves value) middle) (trailer inner value next) (pass.Told IsValue leaves read opened) := by
  obtain ⟨second, linked⟩ := linked
  unfold trailer? at linked
  split at linked
  · cases linked
    refine ⟨_, skips_open rfl, ?_⟩
    apply told_bind (accounts_arguments h _ _)
    intro arguments passes
    exact told_close rfl (fun known => call_stands (stands known) (passes known)) fun _ => by
      simp [leaves, Arguments.leaves, allLeaves]
  · cases linked
    refine ⟨_, skips_plain rfl rfl, ?_⟩
    apply told_bind (told_name _ _)
    intro id identifier
    exact told_pure (fun known => attr_stands (stands known) (identifier known)) fun _ => by simp [leaves]
  · cases linked
    refine ⟨_, skips_open rfl, ?_⟩
    apply told_bind (told_slice_list h rfl)
    intro index stands'
    exact told_close rfl (fun known => subscript_stands (stands known) (stands' known)) fun _ => by simp [leaves]
  · cases linked

theorem accounts_primary (h : AccountsNested pass inner) : Accounts pass (primary inner) IsValue leaves := by
  intro read opened
  apply told_bind (accounts_atom h _ _)
  intro value stands
  apply told_chain stands
  intro value first next linked stands
  obtain ⟨middle, skips, trailer⟩ := told_trailer h stands linked
  exact ⟨middle, skips, triple_forget (turns_map trailer)⟩

theorem accounts_power (h : AccountsNested pass inner) : Accounts pass (power inner) IsValue leaves := by
  intro read opened
  apply told_bind (accounts_primary h _ _)
  intro left stands
  apply at_if_accept (skips_plain rfl rfl)
  · apply told_bind (h.factor _ _)
    intro right stands'
    exact told_pure (fun known => binary_stands (stands known) (stands' known)) fun _ => by simp [leaves]
  · exact told_pure stands fun _ => rfl

theorem accounts_factor (h : AccountsNested pass inner) : Accounts pass (factor inner) IsValue leaves := by
  intro read opened
  apply triple_kind
  intro first
  split
  · rename_i op signed
    apply triple_bind (at_skip (skips_bare (sign_bare signed)))
    intro _
    apply told_bind (h.factor _ _)
    intro operand stands
    exact told_pure (fun known => unary_stands (stands known)) fun _ => rfl
  · exact triple_forget (accounts_power h _ _)

theorem accounts_left_grouped (level : Precedence) {operand : Parser Node} (h : Accounts pass operand IsValue leaves) :
    Accounts pass (leftGrouped (opAt? level) operand) IsValue leaves := by
  intro read opened
  apply told_bind (h _ _)
  intro first stands
  apply told_chain stands
  rintro left first op ⟨second, linked⟩ stands
  refine ⟨_, skips_bare (op_bare linked), triple_forget ?_⟩
  apply told_bind (h _ _)
  intro right stands'
  exact turns_pure (fun known => binary_stands (stands known) (stands' known)) fun _ => by simp [leaves]

theorem accounts_bit_or (h : AccountsNested pass inner) : Accounts pass (bitOr inner) IsValue leaves := by
  have term : Accounts pass (term inner) IsValue leaves := accounts_left_grouped .term (accounts_factor h)
  have arith : Accounts pass (arith inner) IsValue leaves := accounts_left_grouped .arith term
  have shift : Accounts pass (shift inner) IsValue leaves := accounts_left_grouped .shift arith
  have bitAnd : Accounts pass (bitAnd inner) IsValue leaves := accounts_left_grouped .bitAnd shift
  have bitXor : Accounts pass (bitXor inner) IsValue leaves := accounts_left_grouped .bitXor bitAnd
  exact accounts_left_grouped .bitOr bitXor

theorem at_finish {first : Token.Kind} {op : ComparisonOp} :
    Triple (fun rest => comparisonOp? first (firstKind rest) = some op ∧ pass.At read opened rest) (finishComparison op)
      fun _ => pass.At read opened := by
  have second (two : op = .notIn ∨ op = .isNot) :
      Triple (fun rest => comparisonOp? first (firstKind rest) = some op ∧ pass.At read opened rest) skip
        fun _ => pass.At read opened := by
    apply triple_skip
    rintro token rest ⟨linked, here⟩
    exact at_behind here (skips_bare ((comparison_bare linked).2 two))
  cases op with
  | notIn => exact second (.inl rfl)
  | isNot => exact second (.inr rfl)
  | _ => exact triple_pure fun _ both => both.2

theorem told_pairs (h : AccountsNested pass inner) :
    Triple (pass.At read opened) (chain comparisonOp? (fun pairs op => do
      finishComparison op
      return .again (pairs ++ [(op, ← bitOr inner)])) [])
      (pass.Told (AllOf fun pair => IsValue pair.2) pairLeaves read opened) := by
  have none : pass.At read opened = pass.At (read ++ pairLeaves []) opened := by
    rw [pairLeaves, List.map_nil, all_leaves_nil, List.append_nil]
  rw [none]
  apply told_chain fun _ => all_of_nil
  rintro pairs first op ⟨second, linked⟩ all
  refine ⟨_, skips_bare (comparison_bare linked).1, ?_⟩
  apply triple_bind at_finish
  intro _
  apply told_bind (accounts_bit_or h _ _)
  intro right stands
  exact turns_pure (fun known => all_of_snoc (all known) (stands known)) fun _ => by simp [pairLeaves]

theorem accounts_comparison (h : AccountsNested pass inner) : Accounts pass (comparison inner) IsValue leaves := by
  intro read opened
  apply told_bind (accounts_bit_or h _ _)
  intro left stands
  apply told_bind (told_pairs h)
  intro pairs all
  apply triple_ite
  · intro none
    obtain rfl : pairs = [] := List.isEmpty_iff.mp none
    exact told_pure stands fun _ => List.append_nil _
  · intro some
    have some : pairs ≠ [] := by simpa using some
    exact told_pure (fun known => comparison_stands (stands known) (all known) some) fun _ => List.append_assoc _ _ _

theorem accounts_negation (h : AccountsNested pass inner) : Accounts pass (negation inner) IsValue leaves := by
  intro read opened
  apply triple_if_kind
  · apply triple_bind (at_skip (skips_plain rfl rfl))
    intro _
    apply told_bind (h.negation _ _)
    intro operand stands
    exact told_pure (fun known => unary_stands (stands known)) fun _ => rfl
  · exact accounts_comparison h _ _

theorem told_operands {word : Keyword} (bare : IsBare (.keyword word)) {operand : Parser Node}
    (h : Accounts pass operand IsValue leaves) {first : Node} (stands : pass.sound → IsValue first) :
    Triple (fun tokens => firstKind tokens = .keyword word ∧ pass.At (read ++ leaves first) opened tokens)
      (chain (linkedBy (.keyword word)) (fun values _ => do return .again (← append operand values)) [first])
      (pass.Told AreOperands allLeaves read opened) := by
  have next (values : List Node) (all : pass.sound → 1 ≤ values.length ∧ AllOf IsValue values) :
      Triple (pass.At (read ++ allLeaves values) opened) (append operand values) (pass.Told AreOperands allLeaves read opened) := by
    apply told_bind (h _ _)
    intro value stands
    exact told_pure (fun known => operands_snoc (all known).1 (all known).2 (stands known)) fun _ => by simp
  have start := turns_map (next [first] fun known => ⟨Nat.le_refl 1, all_of_single (stands known)⟩)
  rw [all_leaves_cons, all_leaves_nil, List.append_nil] at start
  have one : leaves first = allLeaves [first] := by rw [all_leaves_cons, all_leaves_nil, List.append_nil]
  rw [one] at start ⊢
  have visible : Token.Kind.keyword word ≠ .eof := nofun
  apply told_linked_once visible (skips_bare bare) start
  intro values operands
  exact turns_map (next values fun known => ⟨Nat.le_of_succ_le (operands known).1, (operands known).2⟩)

theorem accounts_logical {op : LogicalOp} {word : Keyword} (bare : IsBare (.keyword word)) {operand : Parser Node}
    (h : Accounts pass operand IsValue leaves) : Accounts pass (logical op word operand) IsValue leaves := by
  intro read opened
  apply told_bind (h _ _)
  intro first stands
  apply triple_if_kind
  · apply told_bind (told_operands bare h stands)
    intro values operands
    exact told_pure (fun known => logical_stands (operands known)) fun _ => rfl
  · exact told_pure stands fun _ => rfl

theorem accounts_or_test (h : AccountsNested pass inner) : Accounts pass (orTest inner) IsValue leaves :=
  accounts_logical ⟨rfl, rfl⟩ (accounts_logical ⟨rfl, rfl⟩ (accounts_negation h))

theorem told_lambda (h : AccountsNested pass inner) :
    Triple (fun tokens => firstKind tokens = .keyword .kwLambda ∧ pass.At read opened tokens) (lambda inner)
      (pass.Told IsValue leaves read opened) := by
  apply triple_bind (at_skip ⟨rfl, pass.scan.binds opened⟩)
  intro _
  apply told_bind (accounts_parameters h _ _ _)
  intro params fits
  apply triple_bind (at_expect ⟨rfl, pass.scan.bound opened⟩ _)
  intro _
  apply told_bind (h.test _ _)
  intro body stands
  exact told_pure (fun known => lambda_stands (fits known) (stands known)) fun _ => List.append_assoc _ _ _

theorem accounts_conditional (h : AccountsNested pass inner) : Accounts pass (conditional inner) IsValue leaves := by
  intro read opened
  apply triple_if_kind (told_lambda h)
  apply told_bind (accounts_or_test h _ _)
  intro body stands
  apply at_if_accept (skips_plain rfl rfl)
  · apply told_bind (accounts_or_test h _ _)
    intro test stands'
    apply triple_bind (at_expect (skips_plain rfl rfl) _)
    intro _
    apply told_bind (h.test _ _)
    intro orelse stands''
    exact told_pure (fun known => conditional_stands (stands' known) (stands known) (stands'' known)) fun _ => by simp [leaves]
  · exact told_pure stands fun _ => rfl

theorem nested_accounts (pass : Pass S) (levels : Nat) : AccountsNested pass (nested levels) := by
  induction levels with
  | zero => exact ⟨fun _ _ => triple_fail _, fun _ _ => triple_fail _, fun _ _ => triple_fail _⟩
  | succ levels ih => exact ⟨accounts_conditional ih, accounts_negation ih, accounts_factor ih⟩

theorem accounts_expression_list (h : AccountsNested pass inner) : Accounts pass (expressionList inner) IsValue leaves :=
  accounts_list_of h.test

theorem triple_or_refuse {α : Type} {T : List Token → Prop} {target : Option α} {cause : ParseError.Cause} {place : Span} :
    Triple T (orRefuse target cause place) fun found tokens => target = some found ∧ T tokens := by
  cases target with
  | some found => exact triple_pure fun _ holds => ⟨rfl, holds⟩
  | none => exact triple_fail _

theorem told_assigned (h : AccountsNested pass inner) {first : Node} (stands : pass.sound → IsValue first) :
    Triple (fun tokens => firstKind tokens = .mark .equal ∧ pass.At (read ++ leaves first) opened tokens) (assigned inner first)
      (pass.Told Assigns assignedLeaves read opened) := by
  have turn (targets : List Node) (value : Node) (kept : pass.sound → AllOf IsValue targets ∧ IsValue value) :
      Triple (pass.At (read ++ assignedLeaves (targets, value)) opened)
        (do return .again (targets ++ [value], ← expressionList inner)) (Turns pass Assigns assignedLeaves read opened) := by
    apply told_bind (accounts_expression_list h _ _)
    intro next stands'
    apply turns_pure
    · exact fun known => ⟨by simp, all_of_snoc (kept known).1 (kept known).2, stands' known⟩
    · exact fun _ => by simp [assignedLeaves]
  have visible : Token.Kind.mark .equal ≠ .eof := nofun
  have one : leaves first = assignedLeaves ([], first) := rfl
  rw [one, assigned]
  apply told_linked_once visible (skips_plain rfl rfl) (turn [] first fun known => ⟨all_of_nil, stands known⟩)
  rintro ⟨targets, value⟩ assigns
  exact turn targets value fun known => ⟨(assigns known).targets, (assigns known).value⟩

theorem accounts_expression_statement (h : AccountsNested pass inner) : Accounts pass (expressionStatement inner) IsSmall leaves := by
  intro read opened
  apply triple_look
  intro place
  apply told_bind (accounts_expression_list h _ _)
  intro first stands
  apply triple_kind
  intro next
  split
  · apply triple_bind triple_or_refuse
    intro target
    apply triple_given
    intro bound
    apply triple_bind (at_skip (skips_plain rfl rfl))
    intro _
    apply told_bind (accounts_expression_list h _ _)
    intro value stands'
    exact told_pure (fun known => augmented_stands (stands known) bound (stands' known)) fun _ => by
      simp [leaves, single_leaves bound]
  · apply told_bind (told_assigned h stands)
    rintro ⟨lists, value⟩ assigns
    apply triple_bind triple_or_refuse
    intro targets
    apply triple_given
    intro bound
    have same : allLeaves targets = allLeaves lists := targets_leaves (fun node _ => target_leaves node) bound
    exact told_pure (fun known => assign_stands (assigns known) bound) fun _ => by rw [assignedLeaves, ← same]; rfl
  · exact triple_forget (told_pure (fun known => expression_stands (stands known)) fun _ => rfl)

theorem accounts_assert (h : AccountsNested pass inner) : Accounts pass (assertStatement inner) IsSmall leaves := by
  intro read opened
  apply told_bind (h.test _ _)
  intro test stands
  apply at_if_accept (skips_plain rfl rfl)
  · apply told_bind (h.test _ _)
    intro message stands'
    exact told_pure (fun known => assert_stands (stands known) (all_of_single (stands' known))) fun _ => by
      simp [leaves, leavesOption]
  · exact told_pure (fun known => assert_stands (stands known) all_of_nil) fun _ => by simp [leaves, leavesOption]

theorem told_word {first : Token.Kind} {node : Node} (bare : IsBare first) (none : leaves node = []) (small : IsSmall node) :
    Triple (fun tokens => firstKind tokens = first ∧ pass.At read opened tokens) (skip >>= fun _ => pure node)
      (pass.Told IsSmall leaves read opened) := by
  apply triple_bind (at_skip (skips_bare bare))
  intro _
  exact told_pure (fun _ => small) fun _ => by rw [none, List.append_nil]

theorem accounts_small_statement (h : AccountsNested pass inner) : Accounts pass (smallStatement inner) IsSmall leaves := by
  intro read opened
  apply triple_kind
  intro first
  split
  · exact told_word ⟨rfl, rfl⟩ rfl ⟨word_stands trivial rfl rfl, rfl⟩
  · exact told_word ⟨rfl, rfl⟩ rfl ⟨word_stands trivial rfl rfl, rfl⟩
  · exact told_word ⟨rfl, rfl⟩ rfl ⟨word_stands trivial rfl rfl, rfl⟩
  · apply triple_bind (at_skip (skips_plain rfl rfl))
    intro _
    apply told_bind (accounts_optional (accounts_expression_list h) _ _)
    intro value all
    exact told_pure (fun known => return_stands (all known)) fun _ => rfl
  · apply triple_bind (at_skip (skips_plain rfl rfl))
    intro _
    apply told_bind (accounts_optional h.test _ _)
    intro exception all
    exact told_pure (fun known => raise_stands (all known)) fun _ => rfl
  · apply triple_bind (at_skip (skips_plain rfl rfl))
    intro _
    exact accounts_assert h _ _
  · exact triple_forget (accounts_expression_statement h _ _)

def headingLeaves (build : List Node → List Node → Node) : List Leaf := leaves (build [] [])

-- What a heading makes of the blocks that follow it. Only a choice has a second one.
structure Builds (word : Compound) (opens : Prop) (build : List Node → List Node → Node) : Prop where
  fine : ∀ body orelse, Body opens body → AllOf (Fine opens) orelse → Fine opens (build body orelse)
  leaves : ∀ body orelse, word = .choice ∨ orelse = [] →
    leaves (build body orelse) = headingLeaves build ++ (allLeaves body ++ allLeaves orelse)

theorem accounts_heading (h : AccountsNested pass inner) (word : Compound) :
    Accounts pass (heading word inner) (Builds word pass.opens) headingLeaves := by
  intro read opened
  cases word with
  | choice =>
      apply told_bind (h.test _ _)
      intro test stands
      refine told_pure (fun known => ⟨fun body orelse => if_fine (stands known), fun body orelse _ => ?_⟩) fun _ => ?_
      · simp [headingLeaves, leaves, allLeaves, leavesAll]
      · simp [headingLeaves, leaves, leavesAll]
  | loop =>
      apply told_bind (h.test _ _)
      intro test stands
      refine told_pure (fun known => ⟨fun body orelse block _ => while_fine (stands known) block, ?_⟩) fun _ => ?_
      · rintro body orelse (one | rfl)
        · cases one
        · simp [headingLeaves, leaves, allLeaves, leavesAll]
      · simp [headingLeaves, leaves, leavesAll]
  | each =>
      apply triple_look
      intro place
      apply told_bind (accounts_list_of (accounts_bit_or h) _ _)
      intro items stands
      apply triple_bind triple_or_refuse
      intro target
      apply triple_given
      intro bound
      apply triple_bind (at_expect (skips_plain rfl rfl) _)
      intro _
      apply told_bind (accounts_expression_list h _ _)
      intro iterable stands'
      refine told_pure (fun known => ⟨fun body orelse block _ => ?_, ?_⟩) fun _ => ?_
      · exact for_fine (target_stands items (stands known) target bound) (stands' known) block
      · rintro body orelse (one | rfl)
        · cases one
        · simp [headingLeaves, leaves, allLeaves, leavesAll]
      · simp [headingLeaves, leaves, leavesAll, target_leaves items target bound]
  | function =>
      apply told_bind (told_name _ _)
      intro id identifier
      apply triple_bind (at_expect (skips_open rfl) _)
      intro _
      apply told_bind (accounts_parameters h _ _ _)
      intro params fits
      refine told_close rfl (fun known => ⟨fun body orelse block _ => ?_, ?_⟩) fun _ => ?_
      · exact function_fine (identifier known) (fits known) block
      · rintro body orelse (one | rfl)
        · cases one
        · simp [headingLeaves, leaves, allLeaves, leavesAll]
      · simp [headingLeaves, leaves, leavesAll, Params.leaves]

end Mutagen.Grammar
