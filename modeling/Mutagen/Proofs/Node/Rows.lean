import Mutagen.Proofs.Node.Opening

set_option autoImplicit false

namespace Mutagen.Node

open Lexer (Row Writes blanks)

def isIf : Node → Bool
  | .ifStmt .. => true
  | _ => false

-- The first line of a statement, and its tokens.
def lineText : Node → List Char
  | .functionDef id params defaults _ =>
      "def ".toList ++ id.toList ++ parenthesized (spellParams params (defaults.map (expression .test))) ++ [':']
  | .returnStmt none => "return".toList
  | .returnStmt (some value) => "return ".toList ++ expression .tuple value
  | .assign targets value =>
      (targets.map fun target => expression .tuple target ++ spaced "=").flatten ++ expression .tuple value
  | .augAssign target op value =>
      expression .tuple target ++ spaced (op.symbol ++ "=") ++ expression .tuple value
  | .forStmt target iterable _ =>
      "for ".toList ++ expression .tuple target ++ spaced "in" ++ expression .tuple iterable ++ [':']
  | .whileStmt test _ => "while ".toList ++ expression .test test ++ [':']
  | .ifStmt test _ _ => "if ".toList ++ expression .test test ++ [':']
  | .assertStmt test none => "assert ".toList ++ expression .test test
  | .assertStmt test (some message) =>
      "assert ".toList ++ expression .test test ++ ", ".toList ++ expression .test message
  | .raiseStmt none => "raise".toList
  | .raiseStmt (some exception) => "raise ".toList ++ expression .test exception
  | .exprStmt value => expression .tuple value
  | .passStmt => "pass".toList
  | .breakStmt => "break".toList
  | .continueStmt => "continue".toList
  | _ => []

def header : Node → List Token.Kind
  | .functionDef id params defaults _ =>
      .keyword .kwDef :: (.name id :: enclosed (paramTokens params (tokensAll .test defaults)) ++ [.mark .colon])
  | .returnStmt none => [.keyword .kwReturn]
  | .returnStmt (some value) => .keyword .kwReturn :: tokensAt .tuple value
  | .assign targets value =>
      (targets.map fun target => tokensAt .tuple target ++ [.mark .equal]).flatten ++ tokensAt .tuple value
  | .augAssign target op value => tokensAt .tuple target ++ .augAssign op :: tokensAt .tuple value
  | .forStmt target iterable _ =>
      .keyword .kwFor ::
        (tokensAt .tuple target ++ .keyword .kwIn :: tokensAt .tuple iterable ++ [.mark .colon])
  | .whileStmt test _ => .keyword .kwWhile :: (tokensAt .test test ++ [.mark .colon])
  | .ifStmt test _ _ => .keyword .kwIf :: (tokensAt .test test ++ [.mark .colon])
  | .assertStmt test none => .keyword .kwAssert :: tokensAt .test test
  | .assertStmt test (some message) =>
      .keyword .kwAssert :: (tokensAt .test test ++ .mark .comma :: tokensAt .test message)
  | .raiseStmt none => [.keyword .kwRaise]
  | .raiseStmt (some exception) => .keyword .kwRaise :: tokensAt .test exception
  | .exprStmt value => tokensAt .tuple value
  | .passStmt => [.keyword .kwPass]
  | .breakStmt => [.keyword .kwBreak]
  | .continueStmt => [.keyword .kwContinue]
  | _ => []

-- The lines behind the first one.
def blockLines : Node → List (List Char)
  | .functionDef _ _ _ body | .forStmt _ _ body | .whileStmt _ body => block body (linesAll body)
  | .ifStmt _ body orelse => block body (linesAll body) ++ elseBranch orelse (linesAll orelse)
  | _ => []

theorem lines_eq {node : Node} (h : node.place = .statement) : lines node = lineText node :: blockLines node := by
  have form := statement_form h
  cases node with
  | returnStmt part | assertStmt _ part | raiseStmt part => cases part <;> rfl
  | functionDef | forStmt | ifStmt | whileStmt | assign | augAssign | exprStmt | passStmt | breakStmt | continueStmt =>
      rfl
  | _ => cases form

mutual
-- The rows behind the first one of a statement at depth `depth`.
def deeper (depth : Nat) : Node → List Row
  | .functionDef _ _ _ body | .forStmt _ _ body | .whileStmt _ body => rowsAll (depth + 1) body
  | .ifStmt _ body orelse => rowsAll (depth + 1) body ++ elseRows depth orelse
  | _ => []

def rowsAll (depth : Nat) : List Node → List Row
  | [] => []
  | node :: rest => ⟨depth, header node⟩ :: deeper depth node ++ rowsAll depth rest

def elseRows (depth : Nat) : List Node → List Row
  | [] => []
  | node :: rest =>
      if node.isIf && rest.isEmpty then ⟨depth, .keyword .kwElif :: (header node).tail⟩ :: deeper depth node
      else
        ⟨depth, [.keyword .kwElse, .mark .colon]⟩ :: ⟨depth + 1, header node⟩ :: deeper (depth + 1) node ++
          rowsAll (depth + 1) rest
end

theorem else_rows_cons (depth : Nat) (node : Node) (rest : List Node) (h : (node.isIf && rest.isEmpty) = false) :
    elseRows depth (node :: rest) =
      ⟨depth, [.keyword .kwElse, .mark .colon]⟩ :: rowsAll (depth + 1) (node :: rest) := by
  rw [elseRows, h]
  rfl

def leads : Token.Kind → Bool
  | .keyword .kwElif | .keyword .kwElse | .newline | .indent | .dedent | .eof => false
  | _ => true

def Leads (text : List Char) (kinds : List Token.Kind) : Prop :=
  ∃ kind tail more, text = kind.spelling ++ tail ∧ kinds = kind :: more ∧ leads kind = true

theorem begins_leads {level : Precedence} {kind : Token.Kind} (h : Begins level kind) : leads kind = true := by
  obtain ⟨p, opens, _⟩ := h
  cases kind with
  | keyword word => cases word <;> first | rfl | cases opens
  | newline | indent | dedent | eof => cases opens
  | _ => rfl

variable {text text' : List Char} {kinds kinds' : List Token.Kind} {level : Precedence}

theorem opens_leads {whole : List Char} {all : List Token.Kind} (h : Opens level text kinds) (split : whole = text ++ text')
    (split' : all = kinds ++ kinds') : Leads whole all := by
  obtain ⟨kind, tail, more, shape, first, begins⟩ := opens_append h split split'
  exact ⟨kind, tail, more, shape, first, begins_leads begins⟩

theorem prints_keyword (word : Keyword) (h : Prints false text kinds) :
    Prints false (word.spelling.toList ++ ' ' :: text) (.keyword word :: kinds) := by
  refine ⟨fun spelled follows => ?_, fun _ => ?_⟩
  · rw [List.append_assoc]
    exact operates_kind (.keyword word) trivial _ _ (h.spells spelled follows)
  · cases word <;> exact harmless_cons (by decide)

theorem prints_lone (word : Keyword) : Prints false word.spelling.toList [.keyword word] := by
  have point : (!Text.continuesWord '.' && !Word.isQuote '.') = true := by decide
  cases word <;> exact @prints_token false (.keyword _) _ _ trivial rfl (by decide) fun _ => point

theorem prints_clause (h : Prints false text kinds) : Prints false (text ++ [':']) (kinds ++ [.mark .colon]) := by
  have colon : Prints false [':'] [.mark .colon] :=
    @prints_token false (.mark .colon) ':' [] trivial rfl (by decide) fun _ => by decide
  exact prints_append h colon fun _ => follows_cons (by decide)

theorem operates_augmented (op : ArithmeticOp) : Operates (op.symbol ++ "=").toList [.augAssign op] :=
  operates_kind (.augAssign op) trivial

theorem prints_targets {targets : List Node} (h : Prints false text kinds)
    (printed : ∀ target ∈ targets, Prints false (expression .tuple target) (tokensAt .tuple target)) :
    Prints false ((targets.map fun target => expression .tuple target ++ spaced "=").flatten ++ text)
      ((targets.map fun target => tokensAt .tuple target ++ [.mark .equal]).flatten ++ kinds) := by
  induction targets with
  | nil => exact h
  | cons target targets ih =>
      have others := ih fun other member => printed other (by simp [member])
      have first := @prints_spaced _ _ _ "=" _ _ _ (printed target (by simp)) (operates_kind (.mark .equal) trivial) others
      simpa using first

theorem prints_line (node : Node) (shaped : Everywhere Shaped node) (stands : node.place = .statement) :
    Prints false (lineText node) (header node) ∧ Leads (lineText node) (header node) := by
  have part : ∀ child ∈ node.children, child.place ∈ writable → ∀ level,
      Prints false (expression level child) (tokensAt level child) := fun child member fits level =>
    prints_spell child (shaped.child child member) fits level
  have opens : ∀ child ∈ node.children, child.place ∈ opened → ∀ level,
      Opens level (expression level child) (tokensAt level child) := fun child member fits level =>
    opens_expression (spell_opens child (shaped.child child member) fits) level
  have value : ∀ child ∈ node.children, child.place = .value → ∀ level,
      Prints false (expression level child) (tokensAt level child) := fun child member same level =>
    part child member (writable_value same) level
  have here := shaped.here
  have form := statement_form stands
  cases node with
  | functionDef id params defaults body =>
      have listed : List.Forall₂ (Prints false) (defaults.map (expression .test)) (tokensAll .test defaults) := by
        rw [tokens_all_eq]
        exact forall_map fun child member =>
          value child (by simp [children, member]) (by simpa using here.2.1.values child member) .test
      have parameters := prints_parenthesized (prints_params here.2.1.identifiers listed)
      have signature := prints_append (@prints_name false _ here.1) (prints_any parameters)
        fun _ => follows_cons (by decide)
      refine ⟨?_, .keyword .kwDef, _, _, rfl, rfl, rfl⟩
      exact prints_keyword .kwDef (prints_clause signature)
  | returnStmt child? =>
      cases child? with
      | none => exact ⟨prints_lone .kwReturn, .keyword .kwReturn, [], [], rfl, rfl, rfl⟩
      | some child =>
          refine ⟨?_, .keyword .kwReturn, _, _, rfl, rfl, rfl⟩
          exact prints_keyword .kwReturn (value child (by simp [children]) (by simpa using here child (by simp)) .tuple)
  | raiseStmt child? =>
      cases child? with
      | none => exact ⟨prints_lone .kwRaise, .keyword .kwRaise, [], [], rfl, rfl, rfl⟩
      | some child =>
          refine ⟨?_, .keyword .kwRaise, _, _, rfl, rfl, rfl⟩
          exact prints_keyword .kwRaise (value child (by simp [children]) (by simpa using here child (by simp)) .test)
  | assertStmt test child? =>
      have condition := value test (by simp [children]) here.1 .test
      cases child? with
      | none => exact ⟨prints_keyword .kwAssert condition, .keyword .kwAssert, _, _, rfl, rfl, rfl⟩
      | some child =>
          have message := value child (by simp [children]) (by simpa using here.2 child (by simp)) .test
          have comma : Prints false (", ".toList ++ expression .test child) (.mark .comma :: tokensAt .test child) :=
            ⟨fun spelled follows => operates_kind (.mark .comma) trivial _ _ (message.spells spelled follows),
              fun _ => harmless_cons (by decide)⟩
          have both := prints_append condition comma fun _ => follows_cons (by decide)
          rw [← List.append_assoc] at both
          exact ⟨prints_keyword .kwAssert both, .keyword .kwAssert, _, _, rfl, rfl, rfl⟩
  | assign targets child =>
      have fits : ∀ target ∈ targets, target.place ∈ writable ∧ target.place ∈ opened := by
        have all : ∀ place ∈ targetPlaces, place ∈ writable ∧ place ∈ opened := by decide
        exact fun target member => all _ (here.2.1 target member)
      have listed := prints_targets (value child (by simp [children]) here.2.2 .tuple) fun target member =>
        part target (by simp [children, member]) (fits target member).1 .tuple
      cases targets with
      | nil => exact absurd rfl here.1
      | cons target targets =>
          have first := opens target (by simp [children]) (fits target (by simp)).2 .tuple
          exact ⟨listed, opens_leads first ((List.append_assoc _ _ _).trans (List.append_assoc _ _ _))
            ((List.append_assoc _ _ _).trans (List.append_assoc _ _ _))⟩
  | augAssign target op child =>
      have single : target.place ∈ writable ∧ target.place ∈ opened := by rw [here.1]; decide
      have left := part target (by simp [children]) single.1 .tuple
      have right := value child (by simp [children]) here.2 .tuple
      have first := opens target (by simp [children]) single.2 .tuple
      exact ⟨prints_spaced left (operates_augmented op) right, opens_leads first (List.append_assoc _ _ _) rfl⟩
  | forStmt target iterable body =>
      have fits : target.place ∈ writable := by
        have all : ∀ place ∈ targetPlaces, place ∈ writable := by decide
        exact all _ here.1
      have left := part target (by simp [children]) fits .tuple
      have right := value iterable (by simp [children]) here.2.1 .tuple
      have both := @prints_spaced _ _ _ "in" _ _ _ left (operates_kind (.keyword .kwIn) trivial) right
      exact ⟨prints_keyword .kwFor (prints_clause both), .keyword .kwFor, _, _, rfl, rfl, rfl⟩
  | whileStmt test body =>
      refine ⟨?_, .keyword .kwWhile, _, _, rfl, rfl, rfl⟩
      exact prints_keyword .kwWhile (prints_clause (value test (by simp [children]) here.1 .test))
  | ifStmt test body orelse =>
      refine ⟨?_, .keyword .kwIf, _, _, rfl, rfl, rfl⟩
      exact prints_keyword .kwIf (prints_clause (value test (by simp [children]) here.1 .test))
  | exprStmt child =>
      have fits : child.place ∈ opened := by rw [here]; decide
      exact ⟨value child (by simp [children]) here .tuple,
        opens_leads (opens child (by simp [children]) fits .tuple) (List.append_nil _).symm (List.append_nil _).symm⟩
  | passStmt => exact ⟨prints_lone .kwPass, .keyword .kwPass, [], [], rfl, rfl, rfl⟩
  | breakStmt => exact ⟨prints_lone .kwBreak, .keyword .kwBreak, [], [], rfl, rfl, rfl⟩
  | continueStmt => exact ⟨prints_lone .kwContinue, .keyword .kwContinue, [], [], rfl, rfl, rfl⟩
  | _ => cases form

theorem spells_first {kind : Token.Kind} {more : List Token.Kind} {c : Char} {tail : List Char}
    (spelled : Spells (c :: tail) (kind :: more)) (visible : c ≠ ' ') :
    kind.IsReadable ∧ ∃ text, c :: tail = kind.spelling ++ text ∧ kind.Allows text ∧ Spells text more := by
  generalize whole : c :: tail = chars at spelled
  generalize all : kind :: more = kinds at spelled
  cases spelled with
  | done => cases all
  | blank _ =>
      cases whole
      exact absurd rfl visible
  | token readable ends spelled =>
      cases all
      exact ⟨readable, _, rfl, ends, spelled⟩

theorem writes_line {kind : Token.Kind} {tail : List Char} {more : List Token.Kind} (depth : Nat) (readable : kind.IsReadable)
    (h : Prints false (kind.spelling ++ tail) (kind :: more)) :
    Writes depth (kind.spelling ++ tail) ⟨depth, kind :: more⟩ := by
  have spelled := h.spells .done (fun c head => by cases head)
  rw [List.append_nil, List.append_nil] at spelled
  obtain ⟨c, chars, shape, visible⟩ := spelling_visible readable
  have noBlank : c ≠ ' ' := by
    rintro rfl
    exact visible (by decide)
  rw [shape, List.cons_append] at spelled
  obtain ⟨_, text, split, ends, others⟩ := spells_first spelled noBlank
  refine ⟨Nat.le_refl _, kind, text, more, ?_, rfl, readable, ends, others⟩
  rw [← split, shape, Nat.sub_self]
  rfl

theorem spells_readable {kind : Token.Kind} {more : List Token.Kind} (spelled : Spells text (kind :: more)) : kind.IsReadable := by
  generalize all : kind :: more = kinds at spelled
  induction spelled with
  | done => cases all
  | blank _ ih => exact ih all
  | token readable _ _ _ =>
      cases all
      exact readable

theorem writes_statement (node : Node) (shaped : Everywhere Shaped node) (stands : node.place = .statement)
    (depth : Nat) : Writes depth (lineText node) ⟨depth, header node⟩ := by
  obtain ⟨printed, kind, tail, more, shape, first, _⟩ := prints_line node shaped stands
  have readable : kind.IsReadable := by
    have spelled := printed.spells .done (fun c head => by cases head)
    rw [first] at spelled
    exact spells_readable spelled
  rw [shape, first] at printed ⊢
  exact writes_line depth readable printed

theorem writes_indent {depth : Nat} {line : List Char} {row : Row} (h : Writes (depth + 1) line row) :
    Writes depth (indent line) row := by
  obtain ⟨below, kind, text, kinds, shape, others⟩ := h
  refine ⟨Nat.le_of_succ_le below, kind, text, kinds, ?_, others⟩
  have wider : 4 * (row.depth - depth) = 4 + 4 * (row.depth - (depth + 1)) := by omega
  rw [indent, shape, wider, blanks, blanks, List.replicate_add]
  rfl

theorem writes_indent_all {depth : Nat} {lines : List (List Char)} {rows : List Row}
    (h : List.Forall₂ (Writes (depth + 1)) lines rows) : List.Forall₂ (Writes depth) (lines.map indent) rows := by
  rw [List.forall₂_map_left_iff]
  exact h.imp fun _ _ => writes_indent

theorem writes_elif {test : Node} {body orelse : List Node} (depth : Nat)
    (shaped : Everywhere Shaped (.ifStmt test body orelse)) :
    Writes depth ("el".toList ++ lineText (.ifStmt test body orelse))
      ⟨depth, .keyword .kwElif :: (header (.ifStmt test body orelse)).tail⟩ := by
  have condition := prints_spell test (shaped.child test (by simp [children])) (writable_value shaped.here.1) .test
  exact @writes_line (.keyword .kwElif) _ _ depth trivial (prints_keyword .kwElif (prints_clause condition))

theorem writes_else (depth : Nat) : Writes depth "else:".toList ⟨depth, [.keyword .kwElse, .mark .colon]⟩ := by
  exact @writes_line (.keyword .kwElse) _ _ depth trivial (prints_clause (prints_lone .kwElse))

theorem else_branch_if (test : Node) (body orelse : List Node) :
    elseBranch [.ifStmt test body orelse] (linesAll [.ifStmt test body orelse]) =
      ("el".toList ++ lineText (.ifStmt test body orelse)) :: blockLines (.ifStmt test body orelse) := by
  rw [linesAll, linesAll, List.append_nil]
  rfl

theorem else_branch_block {node : Node} {rest : List Node} (lines : List (List Char))
    (h : (node.isIf && rest.isEmpty) = false) :
    elseBranch (node :: rest) lines = "else:".toList :: lines.map indent := by
  cases rest with
  | cons next rest => cases node <;> cases lines <;> rfl
  | nil =>
      cases node with
      | ifStmt => cases h
      | _ => cases lines <;> rfl

theorem rows_write {body : List Node} (shaped : ∀ s ∈ body, Everywhere Shaped s) (statements : AreStatements body)
    (below : ∀ s ∈ body, ∀ depth, List.Forall₂ (Writes depth) (blockLines s) (deeper depth s)) (depth : Nat) :
    List.Forall₂ (Writes depth) (linesAll body) (rowsAll depth body) := by
  induction body with
  | nil => exact .nil
  | cons child body ih =>
      have statement : child.place = .statement := by simpa using statements child (by simp)
      have others := ih (fun x inside => shaped x (by simp [inside])) (fun x inside => statements x (by simp [inside]))
        fun x inside => below x (by simp [inside])
      have first := writes_statement child (shaped child (by simp)) statement depth
      rw [linesAll, rowsAll, lines_eq statement]
      exact .cons first (List.rel_append (below child (by simp) depth) others)

theorem lines_write (node : Node) (shaped : Everywhere Shaped node) (filled : Everywhere Filled node)
    (stands : node.place = .statement) (depth : Nat) :
    List.Forall₂ (Writes depth) (blockLines node) (deeper depth node) := by
  induction node using node_induction generalizing depth with
  | step node ih =>
  have all : ∀ body, (∀ child ∈ body, child ∈ node.children) → AreStatements body → ∀ depth,
      List.Forall₂ (Writes depth) (linesAll body) (rowsAll depth body) := by
    intro body inside statements
    refine rows_write (fun s member => shaped.child s (inside s member)) statements fun s member => ?_
    exact ih s (inside s member) (shaped.child s (inside s member)) (filled.child s (inside s member))
      (by simpa using statements s member)
  have inner : ∀ body, body ≠ [] → (∀ child ∈ body, child ∈ node.children) → AreStatements body →
      List.Forall₂ (Writes depth) (block body (linesAll body)) (rowsAll (depth + 1) body) := by
    intro body nonempty below fits
    rw [block, if_neg (by simpa using nonempty)]
    exact writes_indent_all (all body below fits (depth + 1))
  have here := shaped.here
  have body_filled := filled.here
  cases node with
  | functionDef id params defaults body => exact inner body body_filled (by simp_all [children]) here.2.2
  | whileStmt test body => exact inner body body_filled (by simp_all [children]) here.2
  | forStmt target iterable body => exact inner body body_filled (by simp_all [children]) here.2.2
  | ifStmt test body orelse =>
      refine List.rel_append (inner body body_filled (by simp_all [children]) here.2.1) ?_
      have otherwise := all orelse (by simp_all [children]) here.2.2
      cases orelse with
      | nil => exact .nil
      | cons child rest =>
          have member : child ∈ children (.ifStmt test body (child :: rest)) := by simp [children]
          by_cases chained : (child.isIf && rest.isEmpty) = true
          · cases child with
            | ifStmt test' body' orelse' =>
                cases rest with
                | cons next rest => cases chained
                | nil =>
                    rw [else_branch_if]
                    have deep := ih _ member (shaped.child _ member) (filled.child _ member) rfl depth
                    exact .cons (writes_elif depth (shaped.child _ member)) deep
            | _ => cases chained
          · rw [else_rows_cons depth child rest (by simpa using chained)]
            rw [else_branch_block _ (by simpa using chained)]
            exact .cons (writes_else depth) (writes_indent_all (otherwise (depth + 1)))
  | _ => exact .nil

end Mutagen.Node
