import Mutagen.Grammar.Statement

set_option autoImplicit false

namespace Mutagen.Parser

variable {α : Type} {p q : Parser α}

theorem run_ext (h : ∀ tokens, p.run tokens = q.run tokens) : p = q := by
  obtain ⟨run, _⟩ := p
  obtain ⟨run', _⟩ := q
  obtain rfl : run = run' := funext h
  rfl

instance : LawfulMonad Parser := by
  apply LawfulMonad.mk' Parser
  · intro α p
    apply run_ext
    intro tokens
    change (p >>= pure).run tokens = _
    rw [run_bind]
    cases p.run tokens <;> rfl
  · intro α β a f
    rfl
  · intro α β γ p f g
    apply run_ext
    intro tokens
    rw [run_bind, run_bind, run_bind]
    cases p.run tokens <;> rfl

end Mutagen.Parser

namespace Mutagen.Grammar

open Mutagen.Parser

-- The compound statements, by the word that they begin with.
inductive Compound where
  | choice
  | loop
  | each
  | function
deriving DecidableEq

def Compound.keyword : Compound → Keyword
  | .choice => .kwIf
  | .loop => .kwWhile
  | .each => .kwFor
  | .function => .kwDef

def heading : Compound → Nested → Parser (List Node → List Node → Node)
  | .choice, inner => do return .ifStmt (← inner.test)
  | .loop, inner => do
      let test ← inner.test
      return fun body _ => .whileStmt test body
  | .each, inner => do
      let place ← span
      let items ← listOf (bitOr inner)
      let target ← orRefuse items.target? .assignmentTarget place
      expectKeyword .kwIn
      let iterable ← expressionList inner
      return fun body _ => .forStmt target iterable body
  | .function, inner => do
      let id ← expectName
      expectMark .leftParen
      let params ← parameters inner .rightParen
      expectMark .rightParen
      return fun body _ => .functionDef id params.names params.defaults body

def continuation : Compound → Blocks → Parser (List Node)
  | .choice, blocks => elseBranch blocks
  | .loop, _ => do
      forbid (.keyword .kwElse) .whileElse
      return []
  | .each, _ => do
      forbid (.keyword .kwElse) .forElse
      return []
  | .function, _ => return []

def compoundStatement (word : Compound) (inner : Nested) (blocks : Blocks) : Parser Node := do
  skip
  let build ← heading word inner
  expectMark .colon
  let body ← blocks.suite
  return build body (← continuation word blocks)

theorem if_eq (inner : Nested) (blocks : Blocks) : ifStatement inner blocks = compoundStatement .choice inner blocks := by
  simp only [ifStatement, compoundStatement, heading, continuation, bind_assoc, pure_bind]

theorem while_eq (inner : Nested) (blocks : Blocks) : whileStatement inner blocks = compoundStatement .loop inner blocks := by
  simp only [whileStatement, compoundStatement, heading, continuation, bind_assoc, pure_bind]

theorem for_eq (inner : Nested) (blocks : Blocks) : forStatement inner blocks = compoundStatement .each inner blocks := by
  simp only [forStatement, compoundStatement, heading, continuation, bind_assoc, pure_bind]

theorem function_eq (inner : Nested) (blocks : Blocks) : functionDef inner blocks = compoundStatement .function inner blocks := by
  simp only [functionDef, compoundStatement, heading, continuation, bind_assoc, pure_bind]

end Mutagen.Grammar
