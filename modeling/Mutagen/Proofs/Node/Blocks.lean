import Mutagen.Proofs.Node.Levels
import Mutagen.Proofs.Node.Rows

set_option autoImplicit false

namespace Mutagen.Node

open Lexer (Row laid Nests)

mutual
def behind : Node → List Token.Kind
  | .functionDef _ _ _ body | .forStmt _ _ body | .whileStmt _ body => .indent :: bodyTokens body ++ [.dedent]
  | .ifStmt _ body orelse => .indent :: bodyTokens body ++ .dedent :: elseTokens orelse
  | _ => []

def bodyTokens : List Node → List Token.Kind
  | [] => []
  | node :: rest => header node ++ .newline :: (behind node ++ bodyTokens rest)

def elseTokens : List Node → List Token.Kind
  | [] => []
  | node :: rest =>
      if node.isIf && rest.isEmpty then .keyword .kwElif :: ((header node).tail ++ .newline :: behind node)
      else
        .keyword .kwElse :: .mark .colon :: .newline :: .indent ::
          (header node ++ .newline :: (behind node ++ bodyTokens rest)) ++ [.dedent]
end

theorem else_tokens_cons {node : Node} {rest : List Node} (h : (node.isIf && rest.isEmpty) = false) :
    elseTokens (node :: rest) =
      .keyword .kwElse :: .mark .colon :: .newline :: .indent :: bodyTokens (node :: rest) ++ [.dedent] := by
  rw [elseTokens, h]
  rfl

-- What follows stands in no deeper block.
def Closes (depth : Nat) (rows : List Row) : Prop := ∀ row, rows.head? = some row → row.depth ≤ depth

variable {depth : Nat} {rows : List Row}

theorem laid_same (depth : Nat) (kinds : List Token.Kind) (rows : List Row) :
    laid depth (⟨depth, kinds⟩ :: rows) = kinds ++ .newline :: laid depth rows := by
  simp [laid]

theorem laid_indent (depth : Nat) (kinds : List Token.Kind) (rows : List Row) :
    laid depth (⟨depth + 1, kinds⟩ :: rows) = .indent :: laid (depth + 1) (⟨depth + 1, kinds⟩ :: rows) := by
  simp [laid]

theorem laid_dedent (closes : Closes depth rows) : laid (depth + 1) rows = .dedent :: laid depth rows := by
  cases rows with
  | nil => rfl
  | cons row rows =>
      have shallow := closes row rfl
      have noDeeper : row.depth ≠ depth + 1 ∧ row.depth ≠ depth + 1 + 1 := by omega
      have one : depth + 1 - row.depth = (depth - row.depth) + 1 := by omega
      simp [laid, noDeeper, one, List.replicate_succ]

theorem closes_cons (kinds : List Token.Kind) (rows : List Row) : Closes depth (⟨depth, kinds⟩ :: rows) := by
  intro row head
  cases head
  exact Nat.le_refl _

theorem closes_append {front : List Row} (kept : ∀ row, front.head? = some row → row.depth ≤ depth)
    (closes : Closes depth rows) : Closes depth (front ++ rows) := by
  cases front with
  | nil => exact closes
  | cons row front => exact kept

theorem rows_all_head (depth : Nat) (body : List Node) : Closes depth (rowsAll depth body) := by
  cases body with
  | nil =>
      intro row head
      cases head
  | cons node rest => exact closes_cons _ _

theorem else_rows_head (depth : Nat) (orelse : List Node) : Closes depth (elseRows depth orelse) := by
  cases orelse with
  | nil =>
      intro row head
      cases head
  | cons node rest =>
      rw [elseRows]
      split
      · exact closes_cons _ _
      · exact closes_cons _ _

theorem laid_rows {body : List Node} {depth : Nat} (closes : Closes depth rows) (below : ∀ s ∈ body, ∀ rows, Closes depth rows →
    laid depth (deeper depth s ++ rows) = behind s ++ laid depth rows) :
    laid depth (rowsAll depth body ++ rows) = bodyTokens body ++ laid depth rows := by
  induction body with
  | nil => rfl
  | cons child body ih =>
      have others := ih fun x inside => below x (by simp [inside])
      have first := below child (by simp) (rowsAll depth body ++ rows) (closes_append (rows_all_head depth body) closes)
      simp only [rowsAll, bodyTokens, List.cons_append, List.append_assoc, laid_same, first, others]

theorem laid_deeper (node : Node) (filled : Everywhere Filled node) (depth : Nat) (rows : List Row)
    (closes : Closes depth rows) : laid depth (deeper depth node ++ rows) = behind node ++ laid depth rows := by
  induction node using node_induction generalizing depth rows with
  | step node ih =>
  have all : ∀ body, (∀ child ∈ body, child ∈ node.children) → ∀ depth rows, Closes depth rows →
      laid depth (rowsAll depth body ++ rows) = bodyTokens body ++ laid depth rows := by
    intro body inside depth rows closes
    exact laid_rows closes fun s member => ih s (inside s member) (filled.child s (inside s member)) depth
  have inner : ∀ body, body ≠ [] → (∀ child ∈ body, child ∈ node.children) → ∀ depth rows, Closes depth rows →
      laid depth (rowsAll (depth + 1) body ++ rows) = .indent :: bodyTokens body ++ .dedent :: laid depth rows := by
    intro body nonempty below depth rows closes
    have deep := all body below (depth + 1) rows fun row head => (closes row head).trans (Nat.le_succ _)
    rw [laid_dedent closes] at deep
    cases body with
    | nil => exact absurd rfl nonempty
    | cons child body =>
        rw [rowsAll, List.cons_append, List.cons_append, laid_indent]
        rw [rowsAll, List.cons_append, List.cons_append] at deep
        rw [deep]
        rfl
  have here := filled.here
  cases node with
  | functionDef _ _ _ body | whileStmt _ body | forStmt _ _ body =>
      have block := inner body here (by simp_all [children]) depth rows closes
      refine block.trans ?_
      simp [behind]
  | ifStmt test body orelse =>
      have block := inner body here (by simp_all [children]) depth (elseRows depth orelse ++ rows)
        (closes_append (else_rows_head depth orelse) closes)
      have branch : laid depth (elseRows depth orelse ++ rows) = elseTokens orelse ++ laid depth rows := by
        cases orelse with
        | nil => rfl
        | cons child rest =>
            have member : child ∈ children (.ifStmt test body (child :: rest)) := by simp [children]
            by_cases chained : (child.isIf && rest.isEmpty) = true
            · have deep := ih child member (filled.child child member) depth rows closes
              simp only [elseRows, elseTokens, if_pos chained, List.cons_append, laid_same, deep, List.append_assoc]
            · have last : (child.isIf && rest.isEmpty) = false := by simpa using chained
              have deep := inner (child :: rest) (List.cons_ne_nil _ _) (by simp_all [children]) depth rows closes
              rw [else_rows_cons depth child rest last, else_tokens_cons last, List.cons_append, laid_same, deep]
              simp
      rw [branch] at block
      have split : deeper depth (.ifStmt test body orelse) ++ rows =
          rowsAll (depth + 1) body ++ (elseRows depth orelse ++ rows) := List.append_assoc _ _ _
      rw [split, block]
      simp [behind]
  | _ => rfl

theorem nests_deepen (h : Nests depth rows) : Nests (depth + 1) rows := by
  cases rows with
  | nil => trivial
  | cons row rows => exact ⟨h.1.trans (Nat.le_succ _), h.2⟩

theorem nests_rows {body : List Node} {depth : Nat} (h : Nests depth rows)
    (below : ∀ s ∈ body, ∀ rows, Nests depth rows → Nests depth (deeper depth s ++ rows)) :
    Nests depth (rowsAll depth body ++ rows) := by
  induction body with
  | nil => exact h
  | cons child body ih =>
      have others := ih fun x inside => below x (by simp [inside])
      have first := below child (by simp) (rowsAll depth body ++ rows) others
      simp only [rowsAll, List.cons_append, List.append_assoc]
      exact ⟨Nat.le_succ _, first⟩

theorem nests_deeper (node : Node) (depth : Nat) (rows : List Row) (h : Nests depth rows) :
    Nests depth (deeper depth node ++ rows) := by
  induction node using node_induction generalizing depth rows with
  | step node ih =>
  have all : ∀ body, (∀ child ∈ body, child ∈ node.children) → ∀ depth rows, Nests depth rows →
      Nests depth (rowsAll depth body ++ rows) :=
    fun body inside depth rows h => nests_rows h fun s member => ih s (inside s member) depth
  have inner : ∀ body, (∀ child ∈ body, child ∈ node.children) → ∀ depth rows, Nests depth rows →
      Nests depth (rowsAll (depth + 1) body ++ rows) := by
    intro body below depth rows h
    have deep := all body below (depth + 1) rows (nests_deepen h)
    cases body with
    | nil => exact h
    | cons child body => exact ⟨Nat.le_refl _, deep.2⟩
  cases node with
  | functionDef _ _ _ body | whileStmt _ body | forStmt _ _ body => exact inner body (by simp_all [children]) depth rows h
  | ifStmt test body orelse =>
      have branch : Nests depth (elseRows depth orelse ++ rows) := by
        cases orelse with
        | nil => exact h
        | cons child rest =>
            have member : child ∈ children (.ifStmt test body (child :: rest)) := by simp [children]
            by_cases chained : (child.isIf && rest.isEmpty) = true
            · simp only [elseRows, if_pos chained, List.cons_append]
              exact ⟨Nat.le_succ _, ih child member depth rows h⟩
            · rw [else_rows_cons depth child rest (by simpa using chained), List.cons_append]
              exact ⟨Nat.le_succ _, inner (child :: rest) (by simp_all [children]) depth rows h⟩
      have block := inner body (by simp_all [children]) depth (elseRows depth orelse ++ rows) branch
      rw [← List.append_assoc] at block
      exact block
  | _ => exact h

end Mutagen.Node
