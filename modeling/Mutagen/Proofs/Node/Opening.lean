import Mutagen.Proofs.Node.Printing

set_option autoImplicit false

namespace Mutagen.Node

-- The expressions that begin with a token, by the tightest of them.
def opening? : Token.Kind → Option Precedence
  | .keyword .kwLambda => some .test
  | .keyword .kwNot => some .not
  | .mark .plus | .mark .minus | .mark .tilde => some .factor
  | .name _ | .int _ | .float _ | .str _ => some .atom
  | .keyword .kwNone | .keyword .kwTrue | .keyword .kwFalse => some .atom
  | .mark .leftParen | .mark .leftBracket | .mark .leftBrace => some .atom
  | _ => none

def Begins (level : Precedence) (kind : Token.Kind) : Prop := ∃ p, opening? kind = some p ∧ level.rank ≤ p.rank

-- A text and its tokens with a first token that may begin an expression of the given precedence.
def Opens (level : Precedence) (text : List Char) (kinds : List Token.Kind) : Prop :=
  ∃ kind tail more, text = kind.spelling ++ tail ∧ kinds = kind :: more ∧ Begins level kind

variable {level level' : Precedence} {text text' : List Char} {kinds kinds' : List Token.Kind}

theorem begins_mono {kind : Token.Kind} (h : Begins level kind) (looser : level'.rank ≤ level.rank) : Begins level' kind := by
  obtain ⟨p, opens, tight⟩ := h
  exact ⟨p, opens, looser.trans tight⟩

theorem opens_mono (h : Opens level text kinds) (looser : level'.rank ≤ level.rank) : Opens level' text kinds := by
  obtain ⟨kind, tail, more, shape, first, begins⟩ := h
  exact ⟨kind, tail, more, shape, first, begins_mono begins looser⟩

theorem opens_append {whole : List Char} {all : List Token.Kind} (h : Opens level text kinds) (split : whole = text ++ text')
    (split' : all = kinds ++ kinds') : Opens level whole all := by
  obtain ⟨kind, tail, more, shape, first, begins⟩ := h
  exact ⟨kind, tail ++ text', more ++ kinds', by simp [split, shape], by simp [split', first], begins⟩

theorem opens_token {kind : Token.Kind} (tail : List Char) (more : List Token.Kind) (h : Begins level kind) :
    Opens level (kind.spelling ++ tail) (kind :: more) := ⟨kind, tail, more, rfl, rfl, h⟩

theorem rank_le_atom (level : Precedence) : level.rank ≤ Precedence.atom.rank := by cases level <;> decide

theorem begins_atom {kind : Token.Kind} (h : opening? kind = some .atom) : Begins level kind :=
  ⟨.atom, h, rank_le_atom level⟩

theorem opens_atom {kind : Token.Kind} (tail : List Char) (more : List Token.Kind) (h : opening? kind = some .atom) :
    Opens level (kind.spelling ++ tail) (kind :: more) := opens_token tail more (begins_atom h)

theorem opens_single {kind : Token.Kind} (same : text = kind.spelling) (h : opening? kind = some .atom) :
    Opens level text [kind] := ⟨kind, [], [], by rw [same, List.append_nil], rfl, begins_atom h⟩

theorem opens_expression {node : Node} (h : Opens node.precedence (spell node) (tokens node)) (level : Precedence) :
    Opens level (expression level node) (tokensAt level node) := by
  rw [expression, tokensAt, protect, guarded]
  split
  · exact @opens_atom _ (.mark .leftParen) _ _ rfl
  · exact opens_mono h (by omega)

theorem rank_next (level : Precedence) : level.rank ≤ level.next.rank := by cases level <;> decide

theorem rank_operand (op : ArithmeticOp) : op.precedence.rank ≤ op.operands.1.rank := by cases op <;> decide

def opened : List Place := [.value, .index, .target, .single]

theorem opens_joined {separator : List Char} {kind : Token.Kind} {first : Node} {others : List Node}
    (h : Opens level (expression level first) (tokensAt level first)) :
    Opens level (List.intercalate separator (spellAll level (first :: others)))
      (joined kind (tokensAll level (first :: others))) := by
  rw [spell_all_eq, tokens_all_eq, List.map_cons, List.map_cons, Lexer.intercalate_cons, joined_cons]
  exact opens_append h rfl rfl

theorem spell_opens (node : Node) (shaped : Everywhere Shaped node) (stands : node.place ∈ opened) :
    Opens node.precedence (spell node) (tokens node) := by
  induction node using node_induction with
  | step node ih =>
  have part : ∀ child ∈ node.children, child.place = .value → ∀ level,
      Opens level (expression level child) (tokensAt level child) := by
    intro child member value level
    refine opens_expression (ih child member (shaped.child child member) ?_) level
    rw [value]
    decide
  have here := shaped.here
  cases node with
  | boolOp op operands =>
      cases operands with
      | nil => exact absurd here.1 (by simp)
      | cons first others =>
          have operand := part first (by simp [children]) (by simpa using here.2 first (by simp)) op.precedence.next
          exact opens_mono (opens_joined operand) (rank_next op.precedence)
  | binOp left op right =>
      have operand := part left (by simp [children]) here.1 op.operands.1
      exact opens_append (opens_mono operand (rank_operand op)) (List.append_assoc _ _ _) rfl
  | unaryOp op operand =>
      cases op with
      | not => exact @opens_token _ (.keyword .kwNot) (' ' :: _) _ ⟨.not, rfl, Nat.le_refl _⟩
      | invert => exact @opens_token _ (.mark .tilde) _ _ ⟨.factor, rfl, Nat.le_refl _⟩
      | uadd => exact @opens_token _ (.mark .plus) _ _ ⟨.factor, rfl, Nat.le_refl _⟩
      | usub => exact @opens_token _ (.mark .minus) _ _ ⟨.factor, rfl, Nat.le_refl _⟩
  | lambda params defaults body =>
      exact opens_append (@opens_token _ (.keyword .kwLambda) [] [] ⟨.test, rfl, Nat.le_refl _⟩)
        (List.append_assoc _ _ _) rfl
  | ifExp test body orelse =>
      have operand := part body (by simp [children]) here.2.1 .or
      have looser : Precedence.test.rank ≤ Precedence.or.rank := by decide
      have split : spell (.ifExp test body orelse) = expression .or body ++ (spaced "if" ++
          (expression .or test ++ (spaced "else" ++ expression .test orelse))) := by
        simp only [← List.append_assoc]
        rfl
      exact opens_append (opens_mono operand looser) split (List.append_assoc _ _ _)
  | dict keys vals => exact @opens_atom _ (.mark .leftBrace) _ _ rfl
  | set elements =>
      cases elements with
      | nil => exact absurd rfl here.1
      | cons first others => exact @opens_atom _ (.mark .leftBrace) _ _ rfl
  | compare left ops comparators =>
      have operand := part left (by simp [children]) here.2.2.1 .bitOr
      have looser : Precedence.comparison.rank ≤ Precedence.bitOr.rank := by decide
      exact opens_append (opens_mono operand looser) rfl rfl
  | call function args keywords => exact opens_append (part function (by simp [children]) here.1 .atom) rfl rfl
  | constant value =>
      cases value with
      | bool value => cases value <;> exact opens_single rfl rfl
      | _ => exact opens_single rfl rfl
  | attr value id ctx =>
      cases number : value.isNumber with
      | true =>
          rw [spell_attr, tokens_attr, number]
          exact @opens_atom _ (.mark .leftParen) _ _ rfl
      | false =>
          have operand := part value (by simp [children]) here.1 .atom
          rw [spell_attr, tokens_attr, number]
          exact opens_append operand rfl rfl
  | subscript value index ctx =>
      rw [spell_subscript, tokens_subscript]
      exact opens_append (part value (by simp [children]) here.1 .atom) (List.append_assoc _ _ _) (List.append_assoc _ _ _)
  | name id ctx => exact opens_single rfl rfl
  | list elements ctx => exact @opens_atom _ (.mark .leftBracket) _ _ rfl
  | tuple elements ctx => exact @opens_atom _ (.mark .leftParen) _ _ rfl
  | slice | program | functionDef | returnStmt | assign | augAssign | forStmt | whileStmt | ifStmt | assertStmt
  | raiseStmt | exprStmt | passStmt | breakStmt | continueStmt => exact absurd stands (by simp [place, opened])

end Mutagen.Node
