import Mutagen.Grammar.Program
import Mutagen.Proofs.Grammar.Compound

set_option autoImplicit false

namespace Mutagen.Parser

open Token (Kind)
open Grammar

abbrev ParserRelation : Type 1 := (α : Type) → Parser α → Parser α → Prop

variable {α β σ : Type} {Alike : Span → Span → Prop} {R : ParserRelation} {inner : Nested} {blocks : Blocks}

structure Congruence (Alike : Span → Span → Prop) (R : ParserRelation) : Prop where
  related_pure {α : Type} (a : α) : R α (pure a) (pure a)
  related_bind {α β : Type} {p q : Parser α} {f g : α → Parser β} (front : R α p q) (behind : ∀ a, R β (f a) (g a)) :
    R β (p >>= f) (q >>= g)
  first : R Kind kind kind
  second : R Kind secondKind secondKind
  related_span {β : Type} {f g : Span → Parser β} (behind : ∀ place place', Alike place place' → R β (f place) (g place')) :
    R β (span >>= f) (span >>= g)
  related_fail_at {α : Type} {place place' : Span} (cause : ParseError.Cause) (alike : Alike place place') :
    R α (failAt cause place) (failAt cause place')
  related_refuse {α : Type} (cause : ParseError.Cause) : R α (refuse cause) (refuse cause)
  related_expected {α : Type} (what : Expected) : R α (expected what) (expected what)
  related_skip : R Unit skip skip
  related_chain {σ γ : Type} {link : Kind → Kind → Option γ} {body body' : σ → γ → Parser (Step σ)}
    (next : ∀ state g, R (Step σ) (body state g) (body' state g)) (state : σ) :
    R σ (chain link body state) (chain link body' state)
  related_until {α : Type} {stop : Kind → Bool} {item item' : Parser (List α)} (strict : item.Strict)
    (strict' : item'.Strict) (next : R (List α) item item') :
    R (List α) (untilKind stop item strict) (untilKind stop item' strict')

abbrev Related (R : ParserRelation) (p : Parser α) : Prop := R α p p

structure RelatedNested (R : ParserRelation) (inner : Nested) : Prop where
  test : Related R inner.test
  negation : Related R inner.negation
  factor : Related R inner.factor

structure RelatedBlocks (R : ParserRelation) (blocks : Blocks) : Prop where
  suite : Related R blocks.suite
  clause : Related R blocks.clause

namespace Congruence

variable (c : Congruence Alike R)
include c

theorem related_kind {f g : Kind → Parser β} (behind : ∀ first, R β (f first) (g first)) : R β (kind >>= f) (kind >>= g) :=
  c.related_bind c.first behind

theorem related_second {f g : Kind → Parser β} (behind : ∀ second, R β (f second) (g second)) :
    R β (secondKind >>= f) (secondKind >>= g) :=
  c.related_bind c.second behind

omit c in
theorem related_ite {condition : Prop} [Decidable condition] {p q p' q' : Parser α} (hp : R α p p') (hq : R α q q') :
    R α (if condition then p else q) (if condition then p' else q') := by
  split
  · exact hp
  · exact hq

theorem related_taken (a : α) : Related R (skip >>= fun _ => pure a) := c.related_bind c.related_skip fun _ => c.related_pure a

theorem related_accept (wanted : Kind) : Related R (accept wanted) := by
  apply c.related_kind
  intro first
  apply related_ite
  · exact c.related_taken true
  · exact c.related_pure false

theorem related_expect (wanted : Kind) (what : Expected) : Related R (expect wanted what) := by
  apply c.related_kind
  intro first
  exact related_ite c.related_skip (c.related_expected what)

theorem related_mark (mark : Mark) : Related R (expectMark mark) := c.related_expect _ _

theorem related_name : Related R expectName := by
  apply c.related_kind
  intro first
  split
  · exact c.related_taken _
  · exact c.related_expected .name

theorem related_forbid (unwanted : Kind) (construct : Construct) : Related R (forbid unwanted construct) := by
  apply c.related_kind
  intro first
  exact related_ite (c.related_refuse _) (c.related_pure ())

theorem related_require {place place' : Span} (condition : Bool) (cause : ParseError.Cause) (alike : Alike place place') :
    R Unit (require condition cause place) (require condition cause place') :=
  related_ite (c.related_pure ()) (c.related_fail_at cause alike)

theorem related_behind_commas {stop : Kind → Bool} {item : σ → Parser σ} (next : ∀ state, Related R (item state))
    (state : σ) : Related R (behindCommas stop item state) := by
  apply c.related_chain
  intro state _
  apply c.related_kind
  intro first
  apply related_ite
  · exact c.related_pure _
  · exact c.related_bind (next state) fun after => c.related_pure _

theorem related_up_to {closing : Mark} {item : σ → Parser σ} (next : ∀ state, Related R (item state)) (state : σ) :
    Related R (upTo closing item state) := by
  apply c.related_kind
  intro first
  apply related_ite
  · exact c.related_pure state
  · exact c.related_bind (next state) fun after => c.related_behind_commas next after

theorem related_append {item : Parser α} (h : Related R item) (items : List α) : Related R (append item items) :=
  c.related_bind h fun _ => c.related_pure _

theorem related_list_of {item : Parser Node} (h : Related R item) : Related R (listOf item) := by
  apply c.related_bind h
  intro first
  apply c.related_kind
  intro next
  apply related_ite
  · exact c.related_bind (c.related_behind_commas (c.related_append h) _) fun all => c.related_pure _
  · exact c.related_pure first

theorem related_optional {item : Parser Node} (h : Related R item) :
    Related R (kind >>= fun first =>
      if startsExpression first then item >>= fun value => pure (some value) else pure none) := by
  apply c.related_kind
  intro first
  exact related_ite (c.related_bind h fun value => c.related_pure _) (c.related_pure _)

theorem related_parameter (h : RelatedNested R inner) (closing : Mark) (params : Params) :
    Related R (parameter inner closing params) := by
  apply c.related_bind (c.related_forbid _ _)
  intro _
  apply c.related_bind (c.related_forbid _ _)
  intro _
  apply c.related_span
  intro place place' alike
  apply c.related_bind c.related_name
  intro id
  apply c.related_bind (c.related_require _ _ alike)
  intro _
  apply c.related_bind (related_ite (c.related_forbid _ _) (c.related_pure ()))
  intro _
  apply c.related_bind (c.related_accept _)
  intro more
  apply related_ite
  · exact c.related_bind h.test fun value => c.related_pure _
  · exact c.related_bind (c.related_require _ _ alike) fun _ => c.related_pure _

theorem related_parameters (h : RelatedNested R inner) (closing : Mark) : Related R (parameters inner closing) :=
  c.related_up_to (c.related_parameter h closing) {}

theorem related_argument (h : RelatedNested R inner) (arguments : Arguments) : Related R (argument inner arguments) := by
  apply c.related_bind (c.related_forbid _ _)
  intro _
  apply c.related_bind (c.related_forbid _ _)
  intro _
  apply c.related_kind
  intro first
  apply c.related_second
  intro second
  split
  · apply c.related_span
    intro place place' alike
    apply c.related_bind (c.related_require _ _ alike)
    intro _
    apply c.related_bind c.related_skip
    intro _
    apply c.related_bind c.related_skip
    intro _
    exact c.related_bind h.test fun value => c.related_pure _
  · apply c.related_span
    intro place place' alike
    apply c.related_bind (c.related_require _ _ alike)
    intro _
    apply c.related_bind h.test
    intro value
    exact c.related_bind (c.related_forbid _ _) fun _ => c.related_pure _

theorem related_slice_from (h : RelatedNested R inner) (lower : Option Node) : Related R (sliceFrom inner lower) := by
  apply c.related_bind c.related_skip
  intro _
  apply c.related_bind (c.related_optional h.test)
  intro upper
  apply c.related_bind (c.related_accept _)
  intro more
  apply related_ite
  · exact c.related_bind (c.related_optional h.test) fun step => c.related_pure _
  · exact c.related_pure _

theorem related_slice_item (h : RelatedNested R inner) : Related R (sliceItem inner) := by
  apply c.related_kind
  intro first
  apply related_ite
  · exact c.related_slice_from h none
  · apply c.related_bind h.test
    intro lower
    apply c.related_kind
    intro next
    exact related_ite (c.related_slice_from h _) (c.related_pure lower)

theorem related_slice_list (h : RelatedNested R inner) : Related R (sliceList inner) := by
  apply c.related_bind (c.related_slice_item h)
  intro first
  apply c.related_kind
  intro next
  apply related_ite
  · exact c.related_bind (c.related_behind_commas (c.related_append (c.related_slice_item h)) _) fun all => c.related_pure _
  · exact c.related_pure first

theorem related_element (h : RelatedNested R inner) (comprehension : Construct) : Related R (element inner comprehension) := by
  apply c.related_bind h.test
  intro value
  exact c.related_bind (c.related_forbid _ _) fun _ => c.related_pure value

theorem related_elements (h : RelatedNested R inner) (closing : Mark) (comprehension : Construct) :
    Related R (elements inner closing comprehension) :=
  c.related_up_to (c.related_append (c.related_element h comprehension)) []

theorem related_parenthesized (h : RelatedNested R inner) : Related R (parenthesized inner) := by
  apply c.related_bind (c.related_accept _)
  intro empty
  apply related_ite
  · exact c.related_pure _
  · apply c.related_bind (c.related_element h _)
    intro first
    apply c.related_kind
    intro next
    apply related_ite
    · apply c.related_bind (c.related_behind_commas (c.related_append h.test) _)
      intro all
      exact c.related_bind (c.related_mark _) fun _ => c.related_pure _
    · exact c.related_bind (c.related_mark _) fun _ => c.related_pure first

theorem related_dict_from (h : RelatedNested R inner) (key : Node) : Related R (dictFrom inner key) := by
  have entry (entries : List (Node × Node)) : Related R (dictEntry inner entries) := by
    apply c.related_bind (c.related_forbid _ _)
    intro _
    apply c.related_bind h.test
    intro key
    apply c.related_bind (c.related_mark _)
    intro _
    exact c.related_bind h.test fun value => c.related_pure _
  apply c.related_bind c.related_skip
  intro _
  apply c.related_bind (c.related_element h _)
  intro value
  apply c.related_bind (c.related_behind_commas entry _)
  intro entries
  exact c.related_bind (c.related_mark _) fun _ => c.related_pure _

theorem related_set_from (h : RelatedNested R inner) (first : Node) : Related R (setFrom inner first) := by
  apply c.related_bind (c.related_forbid _ _)
  intro _
  apply c.related_bind (c.related_accept _)
  intro more
  apply related_ite
  · apply c.related_bind (c.related_elements h _ _)
    intro others
    exact c.related_bind (c.related_mark _) fun _ => c.related_pure _
  · exact c.related_bind (c.related_mark _) fun _ => c.related_pure _

theorem related_braced (h : RelatedNested R inner) : Related R (braced inner) := by
  apply c.related_bind (c.related_accept _)
  intro empty
  apply related_ite
  · exact c.related_pure _
  · apply c.related_bind (c.related_forbid _ _)
    intro _
    apply c.related_bind h.test
    intro first
    apply c.related_kind
    intro next
    exact related_ite (c.related_dict_from h first) (c.related_set_from h first)

theorem related_atom (h : RelatedNested R inner) : Related R (atom inner) := by
  apply c.related_kind
  intro first
  split
  · exact c.related_taken _
  · exact c.related_taken _
  · exact c.related_taken _
  · apply c.related_bind c.related_skip
    intro _
    exact c.related_bind (c.related_chain (fun text next => c.related_pure _) _) fun text => c.related_pure _
  · exact c.related_taken _
  · exact c.related_taken _
  · exact c.related_taken _
  · exact c.related_bind c.related_skip fun _ => c.related_parenthesized h
  · apply c.related_bind c.related_skip
    intro _
    apply c.related_bind (c.related_elements h _ _)
    intro all
    exact c.related_bind (c.related_mark _) fun _ => c.related_pure _
  · exact c.related_bind c.related_skip fun _ => c.related_braced h
  · exact c.related_expected .expression

theorem related_trailer (h : RelatedNested R inner) (value : Node) (next : Trailer) : Related R (trailer inner value next) := by
  cases next with
  | call =>
      apply c.related_bind (c.related_up_to (c.related_argument h) _)
      intro arguments
      exact c.related_bind (c.related_mark _) fun _ => c.related_pure _
  | attr => exact c.related_bind c.related_name fun id => c.related_pure _
  | index =>
      apply c.related_bind (c.related_slice_list h)
      intro index
      exact c.related_bind (c.related_mark _) fun _ => c.related_pure _

theorem related_primary (h : RelatedNested R inner) : Related R (primary inner) := by
  apply c.related_bind (c.related_atom h)
  intro first
  apply c.related_chain
  intro value next
  exact c.related_bind (c.related_trailer h value next) fun after => c.related_pure _

theorem related_power (h : RelatedNested R inner) : Related R (power inner) := by
  apply c.related_bind (c.related_primary h)
  intro left
  apply c.related_bind (c.related_accept _)
  intro raised
  apply related_ite
  · exact c.related_bind h.factor fun right => c.related_pure _
  · exact c.related_pure left

theorem related_factor (h : RelatedNested R inner) : Related R (factor inner) := by
  apply c.related_kind
  intro first
  split
  · apply c.related_bind c.related_skip
    intro _
    exact c.related_bind h.factor fun operand => c.related_pure _
  · exact c.related_power h

theorem related_left_grouped {op? : Token.Kind → Option ArithmeticOp} {operand : Parser Node} (h : Related R operand) :
    Related R (leftGrouped op? operand) := by
  apply c.related_bind h
  intro first
  apply c.related_chain
  intro left op
  exact c.related_bind h fun right => c.related_pure _

theorem related_bit_or (h : RelatedNested R inner) : Related R (bitOr inner) :=
  c.related_left_grouped <| c.related_left_grouped <| c.related_left_grouped <| c.related_left_grouped <|
    c.related_left_grouped <| c.related_left_grouped (c.related_factor h)

theorem related_comparison (h : RelatedNested R inner) : Related R (comparison inner) := by
  have finish (op : ComparisonOp) : Related R (finishComparison op) := by
    unfold finishComparison
    split
    · exact c.related_skip
    · exact c.related_skip
    · exact c.related_pure ()
  apply c.related_bind (c.related_bit_or h)
  intro left
  apply c.related_bind
  · apply c.related_chain
    intro pairs op
    apply c.related_bind (finish op)
    intro _
    exact c.related_bind (c.related_bit_or h) fun right => c.related_pure _
  · intro pairs
    exact related_ite (c.related_pure left) (c.related_pure _)

theorem related_negation (h : RelatedNested R inner) : Related R (negation inner) := by
  apply c.related_kind
  intro first
  apply related_ite
  · apply c.related_bind c.related_skip
    intro _
    exact c.related_bind h.negation fun operand => c.related_pure _
  · exact c.related_comparison h

theorem related_logical {op : LogicalOp} {word : Keyword} {operand : Parser Node} (h : Related R operand) :
    Related R (logical op word operand) := by
  apply c.related_bind h
  intro first
  apply c.related_kind
  intro next
  apply related_ite
  · apply c.related_bind
    · apply c.related_chain
      intro values _
      exact c.related_bind (c.related_append h values) fun more => c.related_pure _
    · exact fun values => c.related_pure _
  · exact c.related_pure first

theorem related_or_test (h : RelatedNested R inner) : Related R (orTest inner) :=
  c.related_logical (c.related_logical (c.related_negation h))

theorem related_lambda (h : RelatedNested R inner) : Related R (lambda inner) := by
  apply c.related_bind c.related_skip
  intro _
  apply c.related_bind (c.related_parameters h _)
  intro params
  apply c.related_bind (c.related_mark _)
  intro _
  exact c.related_bind h.test fun body => c.related_pure _

theorem related_conditional (h : RelatedNested R inner) : Related R (conditional inner) := by
  apply c.related_kind
  intro first
  apply related_ite
  · exact c.related_lambda h
  · apply c.related_bind (c.related_or_test h)
    intro body
    apply c.related_bind (c.related_accept _)
    intro more
    apply related_ite
    · apply c.related_bind (c.related_or_test h)
      intro test
      apply c.related_bind (c.related_expect _ _)
      intro _
      exact c.related_bind h.test fun orelse => c.related_pure _
    · exact c.related_pure body

theorem related_nested (levels : Nat) : RelatedNested R (nested levels) := by
  induction levels with
  | zero => exact ⟨c.related_refuse _, c.related_refuse _, c.related_refuse _⟩
  | succ levels ih => exact ⟨c.related_conditional ih, c.related_negation ih, c.related_factor ih⟩

theorem related_or_refuse {place place' : Span} (target : Option α) (cause : ParseError.Cause)
    (alike : Alike place place') : R α (orRefuse target cause place) (orRefuse target cause place') := by
  cases target with
  | some found => exact c.related_pure found
  | none => exact c.related_fail_at cause alike

theorem related_expression_statement (h : RelatedNested R inner) : Related R (expressionStatement inner) := by
  have list : Related R (expressionList inner) := c.related_list_of h.test
  apply c.related_span
  intro place place' alike
  apply c.related_bind list
  intro first
  apply c.related_kind
  intro next
  split
  · apply c.related_bind (c.related_or_refuse _ _ alike)
    intro target
    apply c.related_bind c.related_skip
    intro _
    exact c.related_bind list fun value => c.related_pure _
  · apply c.related_bind (c.related_chain (fun lists _ => c.related_bind list fun value => c.related_pure _) _)
    intro lists
    exact c.related_bind (c.related_or_refuse _ _ alike) fun targets => c.related_pure _
  · exact c.related_pure _

theorem related_assert (h : RelatedNested R inner) : Related R (assertStatement inner) := by
  apply c.related_bind h.test
  intro test
  apply c.related_bind (c.related_accept _)
  intro more
  apply related_ite
  · exact c.related_bind h.test fun message => c.related_pure _
  · exact c.related_pure _

theorem related_small_statement (h : RelatedNested R inner) : Related R (smallStatement inner) := by
  apply c.related_kind
  intro first
  split
  · exact c.related_taken _
  · exact c.related_taken _
  · exact c.related_taken _
  · apply c.related_bind c.related_skip
    intro _
    exact c.related_bind (c.related_optional (c.related_list_of h.test)) fun value => c.related_pure _
  · apply c.related_bind c.related_skip
    intro _
    exact c.related_bind (c.related_optional h.test) fun exception => c.related_pure _
  · exact c.related_bind c.related_skip fun _ => c.related_assert h
  · exact c.related_expression_statement h

theorem related_simple_statements (h : RelatedNested R inner) : Related R (simpleStatements inner) := by
  have small := c.related_small_statement h
  apply c.related_bind small
  intro first
  apply c.related_bind
  · apply c.related_chain
    intro statements _
    apply c.related_kind
    intro next
    apply related_ite
    · exact c.related_pure _
    · exact c.related_bind (c.related_append small statements) fun more => c.related_pure _
  · intro all
    exact c.related_bind (c.related_expect _ _) fun _ => c.related_pure all

theorem related_else_branch (h : RelatedBlocks R blocks) : Related R (elseBranch blocks) := by
  apply c.related_kind
  intro first
  split
  · exact c.related_bind h.clause fun clause => c.related_pure _
  · apply c.related_bind c.related_skip
    intro _
    exact c.related_bind (c.related_mark _) fun _ => h.suite
  · exact c.related_pure _

theorem related_heading (h : RelatedNested R inner) (word : Compound) : Related R (heading word inner) := by
  cases word with
  | choice => exact c.related_bind h.test fun test => c.related_pure _
  | loop => exact c.related_bind h.test fun test => c.related_pure _
  | each =>
      apply c.related_span
      intro place place' alike
      apply c.related_bind (c.related_list_of (c.related_bit_or h))
      intro items
      apply c.related_bind (c.related_or_refuse _ _ alike)
      intro target
      apply c.related_bind (c.related_expect _ _)
      intro _
      exact c.related_bind (c.related_list_of h.test) fun iterable => c.related_pure _
  | function =>
      apply c.related_bind c.related_name
      intro id
      apply c.related_bind (c.related_mark _)
      intro _
      apply c.related_bind (c.related_parameters h _)
      intro params
      exact c.related_bind (c.related_mark _) fun _ => c.related_pure _

theorem related_continuation (h : RelatedBlocks R blocks) (word : Compound) : Related R (continuation word blocks) := by
  cases word with
  | choice => exact c.related_else_branch h
  | loop | each => exact c.related_bind (c.related_forbid _ _) fun _ => c.related_pure _
  | function => exact c.related_pure _

theorem related_compound (h : RelatedNested R inner) (h' : RelatedBlocks R blocks) (word : Compound) :
    Related R (compoundStatement word inner blocks) := by
  apply c.related_bind c.related_skip
  intro _
  apply c.related_bind (c.related_heading h word)
  intro build
  apply c.related_bind (c.related_mark _)
  intro _
  apply c.related_bind h'.suite
  intro body
  exact c.related_bind (c.related_continuation h' word) fun orelse => c.related_pure _

theorem related_statement (h : RelatedNested R inner) (h' : RelatedBlocks R blocks) : Related R (statement inner blocks) := by
  have one (word : Compound) := c.related_compound h h' word
  rw [statement, if_eq, while_eq, for_eq, function_eq]
  apply c.related_kind
  intro first
  split
  · exact c.related_bind (one .function) fun node => c.related_pure _
  · exact c.related_bind (one .choice) fun node => c.related_pure _
  · exact c.related_bind (one .loop) fun node => c.related_pure _
  · exact c.related_bind (one .each) fun node => c.related_pure _
  · exact c.related_refuse _
  · exact c.related_simple_statements h

theorem related_block (h : RelatedNested R inner) (h' : RelatedBlocks R blocks) (strict : inner.test.Strict) :
    Related R (block inner blocks strict) := by
  have statement : Related R (blockStatement inner blocks) := by
    apply c.related_kind
    intro first
    exact related_ite (c.related_expected .dedent) (c.related_statement h h')
  apply c.related_bind (c.related_accept _)
  intro lines
  apply related_ite
  · apply c.related_bind (c.related_expect _ _)
    intro _
    apply c.related_bind (c.related_until (strict_block_statement blocks strict) (strict_block_statement blocks strict) statement)
    intro body
    exact c.related_bind c.related_skip fun _ => c.related_pure body
  · exact c.related_simple_statements h

theorem related_blocks (levels : Nat) : RelatedBlocks R (blocksFor levels) := by
  induction levels with
  | zero => exact ⟨c.related_refuse _, c.related_refuse _⟩
  | succ levels ih =>
      have inner := c.related_nested levels
      have clause := c.related_compound inner ih .choice
      rw [← if_eq] at clause
      exact ⟨c.related_block inner ih (strict_test levels), clause⟩

theorem related_top_statement : Related R topStatement := by
  apply c.related_kind
  intro first
  apply related_ite
  · exact c.related_taken []
  · apply c.related_span
    intro place place' alike
    apply c.related_bind (c.related_statement (c.related_nested maxDepth) (c.related_blocks maxDepth))
    intro statements
    exact c.related_bind (c.related_require _ _ alike) fun _ => c.related_pure statements

theorem related_program : Related R program :=
  c.related_until strict_top_statement strict_top_statement c.related_top_statement

end Congruence

end Mutagen.Parser
