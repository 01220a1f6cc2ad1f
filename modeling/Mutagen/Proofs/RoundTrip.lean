import Mutagen.Proofs.Grammar.Statement
import Mutagen.Proofs.Node.Brackets
import Mutagen.Proofs.Node.Fill

set_option autoImplicit false

namespace Mutagen

open Lexer (Row Writes laid Nests Fit Balanced)
open Node Grammar

def Node.WithinLimits (root : Node) : Prop := ∀ s ∈ root.children, Bounded s

instance : DecidablePred WithinLimits := fun root =>
  inferInstanceAs (Decidable (∀ s ∈ root.children, levels s ≤ maxDepth ∧ s.depth ≤ maxDepth))

theorem program_nests (body : List Node) : Nests 0 (rowsAll 0 body) := by
  have nests := @nests_rows [] body 0 trivial fun s _ => nests_deeper s 0
  rw [List.append_nil] at nests
  exact nests

theorem program_balanced (body : List Node) : ∀ row ∈ rowsAll 0 body, Balanced row.kinds := by
  have low : ∀ s ∈ body, height s ≤ height (.program body) := by
    intro s member
    have below : 1 + height s ≤ height (.program body) := height_child member
    omega
  exact fun row member => within_balanced (program_rows_within low row member)

theorem program_fit {body : List Node} (low : ∀ s ∈ body, depth s ≤ Lexer.maxBrackets) : Fit (rowsAll 0 body) := by
  simp only [depth_eq] at low
  exact fun row member => within_fits (program_rows_within low row member) (Nat.le_refl _)

section

variable {body : List Node} (formed : WellFormed (.program body))

include formed

theorem statement_shaped : ∀ s ∈ body, Everywhere Shaped s ∧ Everywhere Filled s ∧ s.place = .statement := fun s member =>
  ⟨formed.shaped.child s member, formed.filled.child s member, by simpa using formed.shaped.here s member⟩

theorem program_writes : List.Forall₂ (Writes 0) (linesAll body) (rowsAll 0 body) := by
  have parts := statement_shaped formed
  refine rows_write (fun s member => (parts s member).1) formed.shaped.here (fun s member => ?_) 0
  exact lines_write s (parts s member).1 (parts s member).2.1 (parts s member).2.2

theorem program_laid : laid 0 (rowsAll 0 body) = bodyTokens body ++ [.eof] := by
  have parts := statement_shaped formed
  have laid := @laid_rows [] body 0 (fun _ head => by cases head) fun s member => laid_deeper s (parts s member).2.1 0
  rw [List.append_nil] at laid
  exact laid

theorem program_statements : ∀ s ∈ body, ReadsStatement s := by
  intro s member
  obtain ⟨shaped, filled, statement⟩ := statement_shaped formed s member
  exact reads_statement s shaped filled statement

theorem program_text : render (.program body) = List.intercalate ['\n'] (linesAll body) := by
  have written := program_writes formed
  rw [render, lines, joinLines]
  generalize rowsAll 0 body = rows at written
  cases shape : linesAll body with
  | nil => rfl
  | cons line rest =>
      rw [shape] at written
      cases written with
      | cons first _ =>
          have visible := Lexer.writes_visible first
          rw [List.dropWhile_cons, if_neg (by simpa using visible)]

theorem program_tokens :
    (Fit (rowsAll 0 body) → ∃ tokens, tokenize (String.ofList (render (.program body))) = .ok tokens ∧
      tokens.map (·.kind) = bodyTokens body ++ [.eof]) ∧
    (¬ Fit (rowsAll 0 body) → ∃ e, tokenize (String.ofList (render (.program body))) = .error e ∧
      e.cause = .tooManyBrackets) := by
  rw [program_text formed, ← program_laid formed]
  exact tokenize_rows (program_writes formed) (program_nests body) (program_balanced body)

end

theorem parse_eq {source : String} {tokens : List Token} (h : tokenize source = .ok tokens) :
    Tree.parse source = treeOf tokens := by
  rw [Tree.parse, h]
  rfl

theorem parse_render {root : Node} (formed : WellFormed root) (limits : WithinLimits root) :
    Tree.parse (String.ofList root.render) = .ok ⟨root, .ofNames root.identifiers⟩ := by
  obtain ⟨body, rfl⟩ := root_program formed.program
  have few : maxDepth ≤ Lexer.maxBrackets := by decide
  have fit := program_fit fun s member => ((limits s member).2.trans few)
  obtain ⟨tokens, lexed, kinds⟩ := (program_tokens formed).1 fit
  obtain ⟨left, read, _⟩ := (reads_program (program_statements formed)).reads limits tokens kinds
  rw [parse_eq lexed, treeOf, read]
  rfl

theorem render_beyond_limits {root : Node} (formed : WellFormed root) (beyond : ¬ WithinLimits root) :
    ∃ e, Tree.parse (String.ofList root.render) = .error e ∧ e.cause.isLimit = true := by
  obtain ⟨body, rfl⟩ := root_program formed.program
  by_cases fit : Fit (rowsAll 0 body)
  · obtain ⟨tokens, lexed, kinds⟩ := (program_tokens formed).1 fit
    obtain ⟨e, failed, cause⟩ := (reads_program (program_statements formed)).fails beyond tokens kinds
    refine ⟨e, ?_, cause⟩
    rw [parse_eq lexed, treeOf, failed]
    rfl
  · obtain ⟨e, failed, cause⟩ := (program_tokens formed).2 fit
    refine ⟨e, ?_, by rw [cause]; rfl⟩
    rw [Tree.parse, failed]
    rfl

/-- A well-formed tree is the tree of its own text, or its text breaks a limit of the parser. -/
theorem render_parses_iff (tree : Tree) (formed : WellFormed tree.root) :
    (WithinLimits tree.root → Tree.parse tree.render = .ok ⟨tree.root, .ofNames tree.root.identifiers⟩) ∧
      (¬ WithinLimits tree.root → ∃ e, Tree.parse tree.render = .error e ∧ e.cause.isLimit = true) :=
  ⟨parse_render formed, render_beyond_limits formed⟩

def functionTree : Tree :=
  let loop : Node := .whileStmt
    (.boolOp .and [.unaryOp .not (.compare (.name "x" .load) [.ltE] [.name "y" .load]), .name "z" .load])
    [.augAssign (.name "x" .store) .sub
      (.binOp (.binOp (.name "x" .load) .add (.constant (.int 1))) .mult (.name "y" .load))]
  .ofBody [
    .functionDef "f" ["x", "y"] [.constant (.str "it's")] [loop,
      .returnStmt (some (.unaryOp .usub (.binOp (.name "x" .load) .pow (.constant (.int 2)))))],
    .exprStmt (.call (.name "f" .load) [.constant (.int 1)]
      [("y", .ifExp (.name "z" .load) (.dict [.constant (.str "a")] [.lambda [] [] (.name "z" .load)]) (.list [] .load))])]

theorem render_parses_function :
    WellFormed functionTree.root ∧
    functionTree.root.render = ("def f(x, y=\"it's\"):\n    while not x <= y and z:\n        x -= (x + 1) * y\n" ++
      "    return -x ** 2\nf(1, y=\x7b'a': lambda: z\x7d if z else [])").toList ∧
    Tree.parse functionTree.render = .ok functionTree := by
  have formed : WellFormed functionTree.root := by decide +kernel
  exact ⟨formed, by decide +kernel, (render_parses_iff functionTree formed).1 (by decide +kernel)⟩

theorem fill_formed {root : Node} (h : WellShaped root) : WellFormed (fill root) :=
  ⟨⟨(fill_place root).trans h.program, fill_shaped h.shaped⟩, fill_filled h.shaped⟩

theorem fill_parses {root : Node} (h : WellShaped root) :
    (WithinLimits (fill root) → Tree.parse (String.ofList root.render) = .ok ⟨fill root, .ofNames (fill root).identifiers⟩) ∧
      (¬ WithinLimits (fill root) → ∃ e, Tree.parse (String.ofList root.render) = .error e ∧ e.cause.isLimit = true) := by
  rw [← render_fill]
  exact ⟨parse_render (fill_formed h), render_beyond_limits (fill_formed h)⟩

def signs : Nat → Node
  | 0 => .name "x" .load
  | n + 1 => .unaryOp .usub (signs n)

def signsTree (n : Nat) : Tree := .ofBody [.exprStmt (signs n)]

theorem signs_place (n : Nat) : (signs n).place = .value := by cases n <;> rfl

theorem signs_formed (n : Nat) : WellFormed (signsTree n).root := by
  have name : isIdentifier "x" = true := by decide +kernel
  have all : ∀ n, Everywhere Shaped (signs n) ∧ Everywhere Filled (signs n) := by
    intro n
    induction n with
    | zero => exact ⟨.leaf name rfl, .leaf trivial rfl⟩
    | succ n ih => exact ⟨.only (signs_place n) rfl ih.1, .only trivial rfl ih.2⟩
  have line : Everywhere Shaped (.exprStmt (signs n)) := .only (signs_place n) rfl (all n).1
  have statements : Shaped (signsTree n).root := fun s member => by simp_all [place]
  exact ⟨⟨rfl, .only statements rfl line⟩, .only trivial rfl (.only trivial rfl (all n).2)⟩

theorem signs_levels (n : Nat) : levels (.exprStmt (signs n)) = n + 1 := by
  rw [levels_single rfl]
  congr
  induction n with
  | zero => exact levels_leaf rfl
  | succ n ih =>
      have bare : parens .factor (signs n) = 0 := by cases n <;> rfl
      have single : edges (signs (n + 1)) = [(signs n, parens .factor (signs n) + 1)] := rfl
      rw [levels_single single, ih, bare]

theorem signs_depth (n : Nat) : depth (.exprStmt (signs n)) = n + 2 := by
  have below (n deepest level : Nat) : deepestLevel deepest [(signs n, level)] = max deepest (level + n) := by
    induction n generalizing deepest level with
    | zero => simp [deepestLevel, signs, children]
    | succ n ih =>
        rw [deepestLevel, signs, children, List.map_singleton, List.append_nil, ih]
        omega
  rw [depth, deepestLevel, children, List.map_singleton, List.append_nil, below]
  omega

theorem signs_within {n : Nat} (few : n + 2 ≤ maxDepth) : WithinLimits (signsTree n).root := by
  intro s member
  rw [List.mem_singleton.mp member]
  constructor
  · rw [signs_levels]
    omega
  · rw [signs_depth]
    exact few

theorem signs_parse (n : Nat) (few : n + 2 ≤ maxDepth) :
    Tree.parse (signsTree n).render = .ok (signsTree n) :=
  parse_render (signs_formed n) (signs_within few)

-- A hundred signs are one level more than the parser admits.
theorem render_hundred_signs :
    WellFormed (signsTree 100).root ∧ ∀ tree, Tree.parse (signsTree 100).render ≠ .ok tree := by
  refine ⟨signs_formed 100, fun tree parsed => ?_⟩
  have beyond : ¬ WithinLimits (signsTree 100).root := by
    intro within
    have low : levels (.exprStmt (signs 100)) ≤ maxDepth := (within _ (List.mem_singleton.mpr rfl)).1
    rw [signs_levels] at low
    exact absurd low (by decide)
  obtain ⟨e, failed, _⟩ := render_beyond_limits (signs_formed 100) beyond
  have same : Tree.parse (signsTree 100).render = .error e := failed
  rw [same] at parsed
  cases parsed

end Mutagen
