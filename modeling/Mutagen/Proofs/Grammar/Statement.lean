import Mutagen.Grammar.Program
import Mutagen.Proofs.Grammar.Line
import Mutagen.Proofs.Node.Blocks

set_option autoImplicit false

namespace Mutagen.Grammar

open Mutagen.Parser Mutagen.Node

variable {kinds rest : List Token.Kind} {fits : Prop} {node : Node} {m : Nat} {body : List Node}

-- Nothing goes on with an `if` statement here.
def Apart (kinds : List Token.Kind) : Prop := firstOf kinds ≠ .keyword .kwElif ∧ firstOf kinds ≠ .keyword .kwElse

def statementTokens (node : Node) : List Token.Kind := header node ++ .newline :: behind node

theorem header_leads (shaped : Everywhere Shaped node) (stands : node.place = .statement) (rest : List Token.Kind) :
    leads (firstOf (header node ++ rest)) = true := by
  obtain ⟨_, kind, _, more, _, same, first⟩ := prints_line node shaped stands
  rw [same]
  exact first

theorem leads_other {kind : Token.Kind} (h : leads (firstOf kinds) = true) (never : leads kind = false) : firstOf kinds ≠ kind := by
  rintro rfl
  rw [h] at never
  cases never

theorem leads_apart (h : leads (firstOf kinds) = true) : Apart kinds := ⟨leads_other h rfl, leads_other h rfl⟩

theorem body_tokens_eq (body : List Node) : bodyTokens body = body.flatMap statementTokens := by
  induction body with
  | nil => rfl
  | cons node body ih => rw [bodyTokens, ih, List.flatMap_cons, statementTokens, List.append_assoc, List.cons_append]

-- What the induction over statements carries.
structure ReadsStatement (node : Node) : Prop where
  leads : ∀ rest, leads (firstOf (statementTokens node ++ rest)) = true
  statement : ∀ m rest, Apart rest →
    Reads (statement (nested m) (blocksFor m)) (levels node ≤ m) (statementTokens node ++ rest) [node] rest
  clause : node.isIf = true → ∀ m first rest, Apart rest →
    Reads (ifStatement (nested m) (blocksFor m)) (levels node ≤ m)
      (first :: ((header node).tail ++ .newline :: (behind node ++ rest))) node rest

theorem statements_follow (all : ∀ s ∈ body, ReadsStatement s) :
    ∀ s ∈ body, ∀ kinds, Apart kinds → Apart (statementTokens s ++ kinds) :=
  fun s member kinds _ => leads_apart ((all s member).leads kinds)

theorem reads_block_statements (all : ∀ s ∈ body, ReadsStatement s) (m : Nat) (strict : (blockStatement (nested m) (blocksFor m)).Strict)
    (rest : List Token.Kind) :
    Reads (untilKind (· = .dedent) (blockStatement (nested m) (blocksFor m)) strict) (∀ s ∈ body, levels s ≤ m)
      (bodyTokens body ++ .dedent :: rest) body (.dedent :: rest) := by
  rw [body_tokens_eq]
  refine reads_until strict Apart body (statements_follow all) (fun s member kinds apart => ⟨?_, ?_⟩) _
    ⟨by simp [firstOf], by simp [firstOf]⟩ rfl
  · exact decide_eq_false (leads_other ((all s member).leads kinds) rfl)
  · have inside : firstOf (statementTokens s ++ kinds) ≠ .eof := leads_other ((all s member).leads kinds) rfl
    exact reads_kind (reads_neg inside ((all s member).statement m kinds apart))

theorem reads_suite (all : ∀ s ∈ body, ReadsStatement s) (some : body ≠ []) (m : Nat) (rest : List Token.Kind) :
    Reads (blocksFor m).suite (∀ s ∈ body, levels s + 1 ≤ m)
      (.newline :: .indent :: (bodyTokens body ++ .dedent :: rest)) body rest := by
  cases m with
  | zero =>
      refine refuse_fails rfl fun fits => ?_
      obtain ⟨s, member⟩ := List.exists_mem_of_ne_nil body some
      exact absurd (fits s member) (Nat.not_succ_le_zero _)
  | succ m =>
      have statements := reads_block_statements all m (strict_block_statement (blocksFor m) (strict_test m)) rest
      refine reads_iff (reads_accept (reads_expect (reads_first statements (reads_skip (reads_pure body rest))))) ?_
      simp

theorem reads_clause (h : ReadsStatement node) (chained : node.isIf = true) (m : Nat) (apart : Apart rest) :
    Reads (blocksFor m).clause (levels node + 1 ≤ m)
      (.keyword .kwElif :: ((header node).tail ++ .newline :: (behind node ++ rest))) node rest := by
  cases m with
  | zero => exact refuse_fails rfl (Nat.not_succ_le_zero _)
  | succ m => exact reads_iff (h.clause chained m _ rest apart) (by omega)

theorem reads_else {orelse : List Node} (all : ∀ s ∈ orelse, ReadsStatement s) (m : Nat) (apart : Apart rest) :
    Reads (Grammar.elseBranch (blocksFor m)) (∀ s ∈ orelse, levels s + 1 ≤ m) (elseTokens orelse ++ rest) orelse rest := by
  refine reads_kind ?_
  cases orelse with
  | nil =>
      rw [elseTokens, List.nil_append]
      have nothing : Reads (pure [] : Parser (List Node)) (∀ s ∈ ([] : List Node), levels s + 1 ≤ m) rest [] rest :=
        reads_iff (reads_pure [] rest) (by simp)
      split
      · exact absurd ‹_› apart.1
      · exact absurd ‹_› apart.2
      · exact nothing
  | cons node others =>
      by_cases chained : (node.isIf && others.isEmpty) = true
      · have alone := List.isEmpty_iff.mp (Bool.and_eq_true_iff.mp chained).2
        subst alone
        have shape : elseTokens [node] ++ rest =
            .keyword .kwElif :: ((header node).tail ++ .newline :: (behind node ++ rest)) := by
          rw [elseTokens, if_pos chained]
          simp
        rw [shape]
        have clause := reads_clause (all node (by simp)) (Bool.and_eq_true_iff.mp chained).1 m apart
        exact reads_iff (reads_return clause fun node => [node]) (by simp)
      · have shape : elseTokens (node :: others) ++ rest = .keyword .kwElse :: .mark .colon :: .newline :: .indent ::
            (bodyTokens (node :: others) ++ .dedent :: rest) := by
          rw [else_tokens_cons (by simpa using chained)]
          simp
        rw [shape]
        exact reads_skip (reads_expect (reads_suite all (by simp) m rest))

theorem reads_if {test : Node} {orelse : List Node} (ht : Readable test) (hb : ∀ s ∈ body, ReadsStatement s) (some : body ≠ [])
    (ho : ∀ s ∈ orelse, ReadsStatement s) (m : Nat) (first : Token.Kind) (apart : Apart rest) :
    Reads (ifStatement (nested m) (blocksFor m)) (levels (.ifStmt test body orelse) ≤ m)
      (first :: ((header (.ifStmt test body orelse)).tail ++ .newline :: (behind (.ifStmt test body orelse) ++ rest)))
      (.ifStmt test body orelse) rest := by
  have shape : (header (.ifStmt test body orelse)).tail ++ .newline :: (behind (.ifStmt test body orelse) ++ rest) =
      tokens test ++ .mark .colon :: .newline :: .indent :: (bodyTokens body ++ .dedent :: (elseTokens orelse ++ rest)) := by
    rw [header, behind, tokens_at_test, List.tail_cons]
    simp
  have condition := reads_test ht m (stops_colon .test (.newline :: .indent :: (bodyTokens body ++ .dedent :: (elseTokens orelse ++ rest))))
  have suite := reads_suite hb some m (elseTokens orelse ++ rest)
  rw [shape]
  refine reads_iff (reads_skip (reads_bind condition (reads_expect (reads_bind suite (reads_return (reads_else ho m apart) _))))) ?_
  rw [levels_le, edges, List.forall_mem_map, List.forall_mem_cons, List.forall_mem_append]

theorem reads_while {test : Node} (ht : Readable test) (hb : ∀ s ∈ body, ReadsStatement s) (some : body ≠ []) (m : Nat)
    (apart : Apart rest) :
    Reads (whileStatement (nested m) (blocksFor m)) (levels (.whileStmt test body) ≤ m)
      (statementTokens (.whileStmt test body) ++ rest) (.whileStmt test body) rest := by
  have shape : statementTokens (.whileStmt test body) ++ rest = .keyword .kwWhile :: (tokens test ++
      .mark .colon :: .newline :: .indent :: (bodyTokens body ++ .dedent :: rest)) := by
    rw [statementTokens, header, behind, tokens_at_test]
    simp
  have condition := reads_test ht m (stops_colon .test (.newline :: .indent :: (bodyTokens body ++ .dedent :: rest)))
  have suite := reads_suite hb some m rest
  rw [shape]
  refine reads_iff (reads_skip (reads_bind condition (reads_expect (reads_first suite (reads_forbid apart.2 (reads_pure _ _)))))) ?_
  rw [levels_le, edges, List.forall_mem_map, List.forall_mem_cons]

theorem reads_for {target iterable : Node} (ht : AsTarget target) (hi : Readable iterable) (hb : ∀ s ∈ body, ReadsStatement s)
    (some : body ≠ []) (m : Nat) (apart : Apart rest) :
    Reads (forStatement (nested m) (blocksFor m)) (levels (.forStmt target iterable body) ≤ m)
      (statementTokens (.forStmt target iterable body) ++ rest) (.forStmt target iterable body) rest := by
  have shape : statementTokens (.forStmt target iterable body) ++ rest = .keyword .kwFor :: (tokens target ++
      .keyword .kwIn :: (tokensAt .tuple iterable ++ .mark .colon :: .newline :: .indent :: (bodyTokens body ++ .dedent :: rest))) := by
    rw [statementTokens, header, behind, tokens_at_tuple target]
    simp
  have inStops : ∀ more, Stops .bitOr (.keyword .kwIn :: more) := by
    rintro more p ⟨⟩
    decide
  have items : ∀ more, Reads (listOf (bitOr (nested m))) (levels target ≤ m) (tokens target ++ .keyword .kwIn :: more)
      (asValue target) (.keyword .kwIn :: more) := by
    intro more
    have reads := ((readable_target ht).reads m .bitOr (by rw [ht.atomic]; decide) (by decide)).closed (inStops more)
    rw [ht.tokens, ht.levels] at reads
    exact reads_list_of reads (by simp [firstOf])
  have iterated := reads_expressions hi m (stops_colon .tuple (.newline :: .indent :: (bodyTokens body ++ .dedent :: rest)))
  have suite := reads_suite hb some m rest
  rw [shape]
  refine reads_iff (reads_skip (reads_span fun place => reads_bind (items _) (reads_found ht.bound (reads_expect
    (reads_bind iterated (reads_expect (reads_first suite (reads_forbid apart.2 (reads_pure _ _))))))))) ?_
  rw [levels_le (.forStmt target iterable body), edges, List.forall_mem_cons, List.forall_mem_map, List.forall_mem_cons]
  rfl

theorem reads_function {id : String} {params : List String} {defaults : List Node} (shape : ParamsShaped params defaults)
    (hd : ∀ x ∈ defaults, Readable x) (hb : ∀ s ∈ body, ReadsStatement s) (some : body ≠ []) (m : Nat) :
    Reads (functionDef (nested m) (blocksFor m)) (levels (.functionDef id params defaults body) ≤ m)
      (statementTokens (.functionDef id params defaults body) ++ rest) (.functionDef id params defaults body) rest := by
  have split : statementTokens (.functionDef id params defaults body) ++ rest = .keyword .kwDef :: .name id :: .mark .leftParen ::
      (paramTokens params (tokensAll .test defaults) ++ .mark .rightParen :: .mark .colon :: .newline :: .indent ::
        (bodyTokens body ++ .dedent :: rest)) := by
    rw [statementTokens, header, behind, enclosed]
    simp
  have parameters := reads_params shape.fit shape.distinct hd m (show Mark.rightParen ∈ listClosings by decide)
    (.mark .colon :: .newline :: .indent :: (bodyTokens body ++ .dedent :: rest))
  have suite := reads_suite hb some m rest
  rw [split]
  refine reads_iff (reads_skip (reads_name (reads_expect (reads_bind parameters (reads_expect (reads_expect
    (reads_return suite _))))))) ?_
  rw [levels_le, edges, List.forall_mem_map, List.forall_mem_append]

def compoundWords : List Token.Kind := [.keyword .kwDef, .keyword .kwIf, .keyword .kwWhile, .keyword .kwFor, .indent]

theorem reads_simple {blocks : Blocks} (other : firstOf (kinds ++ .newline :: rest) ∉ compoundWords)
    (h : Reads (smallStatement (nested m)) fits (kinds ++ .newline :: rest) node (.newline :: rest)) :
    Reads (statement (nested m) blocks) fits (kinds ++ .newline :: rest) [node] rest := by
  have line : Reads (simpleStatements (nested m)) fits (kinds ++ .newline :: rest) [node] rest :=
    reads_first h (reads_then (reads_chain_stop [node] (not_linked (by simp [firstOf]))) (reads_expect (reads_pure [node] rest)))
  refine reads_kind ?_
  split
  all_goals first
    | exact line
    | exact absurd (by simp_all [compoundWords]) other

theorem simple_words (shaped : Everywhere Shaped node) (stands : node.place = .statement) (simple : isCompound node = false)
    (rest : List Token.Kind) : firstOf (header node ++ rest) ∉ compoundWords := by
  by_cases expression : isExpression node = true
  · exact starts_plain (header_starts node shaped expression) (by decide) rest
  · have form := statement_form stands
    cases node with
    | returnStmt part | assertStmt _ part | raiseStmt part => cases part <;> simp [header, firstOf, compoundWords]
    | passStmt | breakStmt | continueStmt => simp [header, firstOf, compoundWords]
    | exprStmt | assign | augAssign => exact absurd rfl expression
    | functionDef | forStmt | whileStmt | ifStmt => cases simple
    | _ => cases form

theorem if_compound (h : node.isIf = true) : isCompound node = true := by
  cases node <;> first | rfl | cases h

theorem reads_statement (node : Node) (shaped : Everywhere Shaped node) (filled : Everywhere Filled node)
    (stands : node.place = .statement) : ReadsStatement node := by
  induction node using node_induction with
  | step node ih =>
  have value : ∀ x ∈ node.children, x.place = .value → Readable x := fun x member => readable_value x (shaped.child x member)
  have block : ∀ body, (∀ s ∈ body, s ∈ node.children) → AreStatements body → ∀ s ∈ body, ReadsStatement s :=
    fun body inside statements s member => ih s (inside s member) (shaped.child s (inside s member))
      (filled.child s (inside s member)) (by simpa using statements s member)
  have leads : ∀ rest, leads (firstOf (statementTokens node ++ rest)) = true := by
    intro rest
    rw [statementTokens, List.append_assoc]
    exact header_leads shaped stands _
  by_cases simple : isCompound node = false
  · refine ⟨leads, fun m rest apart => ?_, fun chained => ?_⟩
    · have nothing : behind node = [] := by cases node <;> first | rfl | cases simple
      rw [statementTokens, nothing, List.append_assoc, List.singleton_append]
      exact reads_simple (simple_words shaped stands simple _) (reads_line node shaped stands simple m rest)
    · rw [if_compound chained] at simple
      cases simple
  have here := shaped.here
  have some := filled.here
  cases node with
  | ifStmt test body orelse =>
      have condition := value test (by simp [children]) here.1
      have first := block body (by simp_all [children]) here.2.1
      have second := block orelse (by simp_all [children]) here.2.2
      have whole := fun m kind (rest : List Token.Kind) (apart : Apart rest) =>
        reads_if condition first some second m kind apart
      refine ⟨leads, fun m rest apart => ?_, fun _ => whole⟩
      have shape : statementTokens (.ifStmt test body orelse) ++ rest = .keyword .kwIf ::
          ((header (.ifStmt test body orelse)).tail ++ .newline :: (behind (.ifStmt test body orelse) ++ rest)) := by
        rw [statementTokens, header, List.append_assoc]
        rfl
      rw [shape]
      exact reads_kind (reads_return (whole m _ rest apart) fun node => [node])
  | whileStmt test body =>
      refine ⟨leads, fun m rest apart => ?_, fun chained => by cases chained⟩
      exact reads_kind (reads_return (reads_while (value test (by simp [children]) here.1)
        (block body (by simp_all [children]) here.2) some m apart) fun node => [node])
  | forStmt target iterable body =>
      refine ⟨leads, fun m rest apart => ?_, fun chained => by cases chained⟩
      have bound := target_reads target (shaped.child target (by simp [children])) here.1
      exact reads_kind (reads_return (reads_for bound (value iterable (by simp [children]) here.2.1)
        (block body (by simp_all [children]) here.2.2) some m apart) fun node => [node])
  | functionDef id params defaults body =>
      refine ⟨leads, fun m rest apart => ?_, fun chained => by cases chained⟩
      have values : ∀ x ∈ defaults, Readable x := fun x member => value x (by simp [children, member]) (by simpa using here.2.1.values x member)
      exact reads_kind (reads_return (reads_function here.2.1 values (block body (by simp_all [children]) here.2.2) some m) fun node => [node])
  | _ => exact absurd rfl simple

-- A statement of the program itself keeps to the limits of its text and of its tree.
def Bounded (node : Node) : Prop := levels node ≤ maxDepth ∧ node.depth ≤ maxDepth

theorem reads_top (h : ReadsStatement node) (apart : Apart rest) :
    Reads topStatement (Bounded node) (statementTokens node ++ rest) [node] rest := by
  have other : firstOf (statementTokens node ++ rest) ≠ .newline := leads_other (h.leads rest) rfl
  have one : ∀ place, Reads (require ([node].all (·.depth ≤ maxDepth)) .statementTooDeep place >>= fun _ => pure [node])
      (([node].all (·.depth ≤ maxDepth)) = true ∧ True) rest [node] rest := fun place => reads_limit rfl (reads_pure [node] rest)
  refine reads_iff (reads_kind (reads_neg other (reads_span fun place => reads_bind (h.statement maxDepth rest apart) (one place)))) ?_
  simp [Bounded]

theorem reads_program {body : List Node} (all : ∀ s ∈ body, ReadsStatement s) :
    Reads program (∀ s ∈ body, Bounded s) (bodyTokens body ++ [.eof]) body [.eof] := by
  rw [body_tokens_eq]
  refine reads_until strict_top_statement Apart body (statements_follow all) (fun s member kinds apart => ⟨?_, ?_⟩) _
    ⟨by simp [firstOf], by simp [firstOf]⟩ rfl
  · exact decide_eq_false (leads_other ((all s member).leads kinds) rfl)
  · exact reads_top (all s member) apart

end Mutagen.Grammar
