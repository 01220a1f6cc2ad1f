import Mutagen.Arena.Program
import Mutagen.Proofs.Arena.Reading
import Mutagen.Proofs.Arena.Statement
import Mutagen.Proofs.Grammar.SourceOrder

set_option autoImplicit false

namespace Mutagen

open Token (Kind)
open Mutagen.Parser (firstKind)
open Mutagen.Arena (Grown Extends grown_refl grown_append)

structure Arena.Has (a : Arena) (tree : Tree) : Prop where
  rooted : a.Rooted tree.root
  symbols : a.symbols = tree.symbols
  inverse : a.symbols.Inverse
  known : a.Known

namespace Builder

variable {all : List String} {base a : Arena} {ids : List NodeId} {nodes : List Node}

theorem depths_hold (grown : Grown base a ids nodes) :
    (ids.all fun id => (a.depth? id).any (· ≤ Grammar.maxDepth)) = nodes.all (·.depth ≤ Grammar.maxDepth) := by
  obtain ⟨_, held, _⟩ := grown.held
  have all := Arena.holds_is held
  clear grown held
  induction all with
  | nil => rfl
  | cons is _ ih => simp only [List.all_cons, ih, Arena.depth_is is, Option.any_some]

theorem gives_top_statement : GivesAll all Grammar.topStatement topStatement := by
  intro tokens a
  apply builds_kind
  intro first found
  apply builds_ite
  · rintro rfl
    apply builds_skip (found ▸ rfl)
    intro rest
    exact builds_pure (grown_refl a)
  · intro _
    apply builds_look
    apply builds_bind (gives_statement (gives_nested _) (gives_blocks _) _ _)
    intro nodes ids b rest _ grown
    apply builds_get
    rw [depths_hold grown]
    apply builds_require
    intro _
    exact builds_pure grown

-- The first cell is the program's, and everything else is stored behind it.
theorem rooted_program {body : List NodeId} (grown : Grown .new a body nodes) :
    (a.update a.root (.program body)).Rooted (.program nodes) := by
  obtain ⟨below, held, distinct, fresh⟩ := grown.held
  have root : a.root = 0 := grown.grows.root
  have empty := grown.grows.cells 0 (.program []) rfl
  have apart : 0 ∉ below := fun member => absurd (fresh 0 member) (by decide)
  have kept := Arena.holds_within held (Arena.within_update a 0 (.program body)) fun id member same =>
    apart (List.mem_singleton.mp same ▸ member)
  have whole : (a.update 0 (.program body)).Holds [0] [.program nodes] (0 :: (below ++ [])) :=
    .cons (Arena.cell_update_same empty (.program body)) trivial kept .nil
  rw [List.append_nil] at whole
  refine ⟨0 :: below, ?_, List.nodup_cons.mpr ⟨apart, distinct⟩⟩
  rw [root]
  exact root ▸ whole

theorem known_program {body : List NodeId} (grown : Grown .new a body nodes) :
    (a.update a.root (.program body)).Known := by
  intro id symbol used
  have root : a.root = 0 := grown.grows.root
  by_cases first : id = 0
  · have empty := grown.grows.cells 0 (.program []) rfl
    rw [first, root, Arena.identifier?, Arena.cell_update_same empty] at used
    cases used
  · rw [Arena.identifier?, Arena.cell_update_other (root ▸ first)] at used
    exact grown.grows.known id symbol (Nat.pos_of_ne_zero first) used

theorem rest_names {tokens rest : List Token} (ends : Lexer.Ends tokens) (left : rest <:+ tokens)
    (first : firstKind rest = .eof) : namesOf rest = [] := by
  rcases Grammar.rest_last ends left first with rfl | ⟨last, rfl, eof⟩
  · rfl
  · exact List.filterMap_cons_none (f := fun token : Token => token.kind.name?) (by rw [eof]; rfl)

theorem symbols_of_run {tokens rest : List Token} {body : List Node} (sound : Lexer.AllSound tokens) (ends : Lexer.Ends tokens)
    (run : Grammar.program.run tokens = .ok (body, rest)) : (Tree.ofBody body).symbols = .ofNames (namesOf tokens) := by
  have whole : (Node.program body).leaves = Token.leavesOf (tokens.map (·.kind)) := Grammar.program_leaves sound ends run
  refine congrArg SymbolTable.ofNames ?_
  rw [identifiers_eq, whole, leaves_names, List.filterMap_map]
  rfl

theorem arena_of {tokens : List Token} (sound : Lexer.AllSound tokens) (ends : Lexer.Ends tokens) :
    match Grammar.treeOf tokens with
    | .error e => arenaOf tokens = .error e
    | .ok tree => ∃ a, arenaOf tokens = .ok a ∧ a.Has tree ∧ a.symbols = .ofNames (namesOf tokens) := by
  have loop : GivesAll (namesOf tokens) Grammar.program (untilKind (· = .eof) topStatement strict_top_statement) :=
    builds_until Grammar.strict_top_statement strict_top_statement gives_top_statement
  have builds := loop tokens .new ⟨[], rfl, rfl⟩
  have final : arenaOf tokens = (((untilKind (· = .eof) topStatement strict_top_statement) .new).run tokens).map
      fun result => result.1.2.update result.1.2.root (.program result.1.1) := by
    rw [arenaOf]
    show Except.map _ ((((untilKind _ topStatement _) .new) >>= _).run tokens) = _
    rw [Parser.run_bind]
    cases (untilKind (· = .eof) topStatement strict_top_statement .new).run tokens <;> rfl
  rw [Grammar.treeOf, final]
  cases run : Grammar.program.run tokens with
  | error e =>
      rw [run] at builds
      rw [builds]
      rfl
  | ok result =>
      obtain ⟨nodes, rest⟩ := result
      rw [run] at builds
      obtain ⟨body, b, built, ⟨before, symbols, whole⟩, grown⟩ := builds
      have stopped : firstKind rest = .eof := of_decide_eq_true (Parser.until_stops run)
      rw [rest_names ends (Grammar.program.suffix run) stopped, List.append_nil] at whole
      rw [built]
      have table : b.symbols = .ofNames (namesOf tokens) := symbols.trans (congrArg _ whole)
      have inverse : b.symbols.Inverse := table ▸ SymbolTable.inverse_of_names _
      exact ⟨_, rfl, ⟨rooted_program grown, table.trans (symbols_of_run sound ends run).symm, inverse, known_program grown⟩, table⟩

end Builder

namespace Arena

theorem parse_has (source : String) :
    match Tree.parse source with
    | .error e => Arena.parse source = .error e
    | .ok tree => ∃ tokens a, tokenize source = .ok tokens ∧ Arena.parse source = .ok a ∧ a.Has tree ∧
        a.symbols = .ofNames (Builder.namesOf tokens) := by
  cases read : tokenize source with
  | error e =>
      rw [Tree.parse, Arena.parse, read]
      rfl
  | ok tokens =>
      have arena := Builder.arena_of (tokenize_sound read) (tokenize_ends read)
      have same : Tree.parse source = Grammar.treeOf tokens := by
        rw [Tree.parse, read]
        rfl
      have same' : Arena.parse source = Builder.arenaOf tokens := by
        rw [Arena.parse, read]
        rfl
      rw [same, same']
      cases made : Grammar.treeOf tokens with
      | error e =>
          rw [made] at arena
          exact arena
      | ok tree =>
          rw [made] at arena
          obtain ⟨a, built, has, table⟩ := arena
          exact ⟨tokens, a, rfl, built, has, table⟩

theorem tree_of_parse {source : String} {a : Arena} (h : Arena.parse source = .ok a) :
    ∃ tree tokens, Tree.parse source = .ok tree ∧ tokenize source = .ok tokens ∧ a.Has tree ∧
      a.symbols = .ofNames (Builder.namesOf tokens) := by
  have whole := parse_has source
  cases parsed : Tree.parse source with
  | error e =>
      rw [parsed] at whole
      cases whole.symm.trans h
  | ok tree =>
      rw [parsed] at whole
      obtain ⟨tokens, b, read, built, has, table⟩ := whole
      cases built.symm.trans h
      exact ⟨tree, tokens, rfl, read, has, table⟩

theorem node_of_rooted {a : Arena} {root : Node} (rooted : a.Rooted root) : a.node? a.root = some root :=
  node_eq (rooted_is rooted)

/-- The identifiers and constants of a parsed program, read in source order, are those among its tokens, and its table
has the names, each with the number of its first occurrence. -/
theorem parse_in_order {source : String} {a : Arena} (h : Arena.parse source = .ok a) :
    ∃ tokens root, tokenize source = .ok tokens ∧ a.node? a.root = some root ∧
      root.leaves = Token.leavesOf (tokens.map (·.kind)) ∧
      a.symbols.names.toList = (tokens.filterMap (·.kind.name?)).eraseDups ∧
      ∀ name number, a.symbols.lookup name = some number ↔ (tokens.filterMap (·.kind.name?)).eraseDups[number]? = some name := by
  obtain ⟨tree, tokens, parsed, read, has, table⟩ := tree_of_parse h
  obtain ⟨tokens', read', leaves⟩ := Grammar.source_leaves parsed
  cases read.symm.trans read'
  have names : a.symbols.names.toList = (tokens.filterMap (·.kind.name?)).eraseDups := by
    rw [table]
    exact SymbolTable.of_names_eq _
  refine ⟨tokens, tree.root, read, node_of_rooted has.rooted, leaves, names, fun name number => ?_⟩
  rw [has.inverse, ← names, SymbolTable.name?, Array.getElem?_toList]

-- The test between `if` and `else` is stored behind the body and spelled there too, and two strings count as one.
theorem parse_in_order_conditional : ∃ a root, Arena.parse "x = 'a' 'b' if y else {x: 1}" = .ok a ∧
    a.node? a.root = some root ∧
    root.leaves = [.name "x", .constant (.str "ab"), .name "y", .name "x", .constant (.int 1)] ∧
    a.symbols.names.toList = ["x", "y"] ∧ a.symbols.lookup "y" = some 1 := by
  have parses : (Tree.parse "x = 'a' 'b' if y else {x: 1}").toBool = true := by decide +kernel
  have spells : (tokenize "x = 'a' 'b' if y else {x: 1}").toOption.map (fun tokens =>
      (Token.leavesOf (tokens.map (·.kind)), (tokens.filterMap (·.kind.name?)).eraseDups)) =
      some ([.name "x", .constant (.str "ab"), .name "y", .name "x", .constant (.int 1)], ["x", "y"]) := by decide +kernel
  have whole := parse_has "x = 'a' 'b' if y else {x: 1}"
  cases parsed : Tree.parse "x = 'a' 'b' if y else {x: 1}" with
  | error e =>
      rw [parsed] at parses
      cases parses
  | ok tree =>
      rw [parsed] at whole
      obtain ⟨_, a, _, built, _⟩ := whole
      obtain ⟨tokens, root, read, node, leaves, names, numbers⟩ := parse_in_order built
      rw [read] at spells
      obtain ⟨same, same'⟩ := Prod.mk.inj (Option.some.inj spells)
      refine ⟨a, root, built, node, leaves.trans same, names.trans same', (numbers _ _).mpr ?_⟩
      rw [same']
      rfl

end Arena

end Mutagen
