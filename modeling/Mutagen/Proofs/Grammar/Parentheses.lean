import Mutagen.Proofs.Grammar.Relays

set_option autoImplicit false

namespace Mutagen.Parser

open Token (Kind)

variable {α β σ : Type} {p : Parser α} {tokens rest : List Token}

theorem run_error {f : α → Parser β} {e : ParseError} (failed : p.run tokens = .error e) : (p >>= f).run tokens = .error e := by
  rw [run_bind, failed]

theorem handed_on {p : Parser α} {f : α → Parser α} {result : Except ParseError (α × List Token)} (run : p.run tokens = result)
    (stops : ∀ a rest, result = .ok (a, rest) → (firstKind rest).isStop = true)
    (goes : ∀ a rest, (firstKind rest).isStop = true → (f a).run rest = .ok (a, rest)) : (p >>= f).run tokens = result := by
  rw [run_bind, run]
  cases result with
  | error e => rfl
  | ok pair => exact goes pair.1 pair.2 (stops pair.1 pair.2 rfl)

theorem declined {wanted : Kind} {f : Bool → Parser β} (other : wanted.isStop = false) (stop : (firstKind rest).isStop = true) :
    (accept wanted >>= f).run rest = (f false).run rest := by
  rw [accept_bind, kind_run, if_neg (stop_ne other _ stop)]

theorem commas_next {stop : Kind → Bool} {item : σ → Parser σ} {state : σ} {token : Token} (comma : token.kind = .mark .comma) :
    (behindCommas stop item state).run (token :: tokens) = (if stop (firstKind tokens) then pure state
      else item state >>= behindCommas stop item).run tokens := linked_next comma

-- Two loops over the same items differ only where one of them stops behind a comma and the other does not.
theorem commas_agree {stop stop' : Kind → Bool} {item : σ → Parser σ} (fewer : ∀ kind, stop' kind = true → stop kind = true)
    (state : σ) (ends : ∀ final rest, (behindCommas stop item state).run tokens = .ok (final, rest) → stop' (firstKind rest) = true) :
    (behindCommas stop' item state).run tokens = (behindCommas stop item state).run tokens := by
  induction size : tokens.length using Nat.strongRecOn generalizing tokens state with
  | ind n ih =>
      by_cases comma : firstKind tokens = .mark .comma
      · cases tokens with
        | nil => cases comma
        | cons token more =>
            rw [commas_next comma] at ends
            rw [commas_next comma, commas_next comma]
            by_cases halts : stop (firstKind more) = true
            · rw [if_pos halts] at ends
              rw [if_pos halts, if_pos (ends state more rfl)]
            · rw [if_neg halts] at ends
              rw [if_neg halts, if_neg fun halts' => halts (fewer _ halts'), run_bind, run_bind]
              cases turned : (item state).run more with
              | error e => rfl
              | ok result =>
                  have less := ((item state).suffix turned).length_le
                  rw [List.length_cons] at size
                  refine ih result.2.length (by omega) result.1 (fun final rest run => ends final rest ?_) rfl
                  rw [run_bind, turned]
                  exact run
      · rw [behindCommas, behindCommas, linked_end comma, linked_end comma]

end Mutagen.Parser

namespace Mutagen.Grammar

open Mutagen.Parser
open Token (Kind)

variable {inner : Nested} {tokens rest : List Token} {result : Except ParseError (Node × List Token)}

theorem mark_keyword (m : Mark) (word : Keyword) : Kind.mark m ≠ .keyword word := by
  intro same
  cases same

theorem parenthesized_list (opens : firstKind tokens ≠ .mark .rightParen)
    (closes : ∀ value rest, (listOf inner.test).run tokens = .ok (value, rest) → firstKind rest = .mark .rightParen) :
    (parenthesized inner).run tokens = (listOf inner.test >>= fun value => expectMark .rightParen >>= fun _ => pure value).run tokens := by
  rw [parenthesized, accept_bind, kind_run, if_neg opens, if_neg Bool.false_ne_true, element, bind_assoc, run_bind, listOf,
    bind_assoc, run_bind]
  cases first : inner.test.run tokens with
  | error e => rfl
  | ok pair =>
      obtain ⟨value, middle⟩ := pair
      simp only [listOf, run_bind inner.test, first, kind_run] at closes
      dsimp only
      rw [bind_assoc, forbid, bind_assoc, kind_run]
      by_cases comma : firstKind middle = .mark .comma
      · rw [if_pos comma] at closes
        have fewer (kind : Kind) (stops : decide (kind = .mark .rightParen) = true) : (!startsExpression kind) = true := by
          rw [of_decide_eq_true stops]
          rfl
        have agree := @commas_agree _ middle _ _ (append inner.test) fewer [value] fun final rest run => by
          refine decide_eq_true (closes (.tuple final .load) rest ?_)
          rw [run_bind, run]
          rfl
        rw [comma, if_neg (mark_keyword _ _), pure_bind, pure_bind, kind_run, comma, if_pos rfl, bind_assoc, kind_run, comma, if_pos rfl, bind_assoc,
          run_bind, agree, run_bind]
        rfl
      · rw [if_neg comma] at closes
        rw [closes value middle rfl, if_neg (mark_keyword _ _), pure_bind, pure_bind, bind_assoc, kind_run, if_neg comma, kind_run, if_neg comma]
        rfl

theorem parenthesized_carried {old : List Token} {closing : Token} {value : Node} (opens : firstKind tokens ≠ .mark .rightParen)
    (closes : closing.kind = .mark .rightParen) (carried : Carried True value (closing :: old) ((listOf inner.test).run tokens)) :
    Carried True value old ((parenthesized inner).run tokens) := by
  cases answer : (listOf inner.test).run tokens with
  | error e =>
      rw [answer] at carried
      cases carried with
      | deep allowed cause =>
          have ends (final : Node) (rest : List Token) (run : (listOf inner.test).run tokens = .ok (final, rest)) :
              firstKind rest = .mark .rightParen := by
            cases answer.symm.trans run
          rw [parenthesized_list opens ends, run_error answer]
          exact .deep allowed cause
  | ok pair =>
      rw [answer] at carried
      cases carried with
      | same =>
          have ends (final : Node) (rest : List Token) (run : (listOf inner.test).run tokens = .ok (final, rest)) :
              firstKind rest = .mark .rightParen := by
            cases answer.symm.trans run
            exact closes
          rw [parenthesized_list opens ends, run_bind, answer]
          dsimp only
          rw [expectMark, expect, bind_assoc, kind_run, firstKind, closes, if_pos rfl]
          exact .same

theorem test_alone (run : (atom inner).run tokens = result) (stops : ∀ value rest, result = .ok (value, rest) → (firstKind rest).isStop = true)
    (opens : firstKind tokens = .mark .leftParen) : (conditional inner).run tokens = result := by
  have primary : (primary inner).run tokens = result :=
    handed_on run stops fun value rest stop => chain_stopped (fun first second => stop_cases rfl rfl rfl rfl first) _ value stop
  have power : (power inner).run tokens = result :=
    handed_on primary stops fun value rest stop => declined rfl stop
  have factor : (factor inner).run tokens = result := by
    rw [Grammar.factor, kind_run, opens]
    exact power
  have grouped {op? : Kind → Option ArithmeticOp} {operand : Parser Node} (ends : ∀ first, first.isStop = true → op? first = none)
      (run : operand.run tokens = result) : (leftGrouped op? operand).run tokens = result :=
    handed_on run stops fun value rest stop => chain_stopped (fun first _ => ends first) _ value stop
  have term : (term inner).run tokens = result := grouped (stop_cases rfl rfl rfl rfl) factor
  have arith : (arith inner).run tokens = result := grouped (stop_cases rfl rfl rfl rfl) term
  have shift : (shift inner).run tokens = result := grouped (stop_cases rfl rfl rfl rfl) arith
  have bitAnd : (bitAnd inner).run tokens = result := grouped (stop_cases rfl rfl rfl rfl) shift
  have bitXor : (bitXor inner).run tokens = result := grouped (stop_cases rfl rfl rfl rfl) bitAnd
  have bitOr : (bitOr inner).run tokens = result := grouped (stop_cases rfl rfl rfl rfl) bitXor
  have comparison : (comparison inner).run tokens = result := by
    refine handed_on bitOr stops fun value rest stop => ?_
    rw [run_bind, chain_stopped (fun first _ => stop_cases rfl rfl rfl rfl first) _ [] stop]
    rfl
  have negation : (negation inner).run tokens = result := by
    rw [Grammar.negation, kind_run, opens]
    exact comparison
  have logical {op : LogicalOp} {word : Keyword} {operand : Parser Node} (run : operand.run tokens = result) :
      (logical op word operand).run tokens = result := by
    refine handed_on run stops fun value rest stop => ?_
    rw [kind_run, if_neg (stop_ne rfl _ stop)]
    rfl
  have orTest : (orTest inner).run tokens = result := logical (logical negation)
  rw [conditional, kind_run, opens]
  exact handed_on orTest stops fun value rest stop => declined rfl stop

theorem list_of_expression {value : Node} (run : (expressionStatement inner).run tokens = .ok (.exprStmt value, rest)) :
    (expressionList inner).run tokens = .ok (value, rest) := by
  obtain ⟨place, _, placed, goes⟩ := bind_ok run
  cases placed
  obtain ⟨first, middle, list, goes⟩ := bind_ok goes
  rw [kind_run] at goes
  split at goes
  · obtain ⟨target, _, _, goes⟩ := bind_ok goes
    obtain ⟨_, _, _, goes⟩ := bind_ok goes
    obtain ⟨value, _, _, ends⟩ := bind_ok goes
    cases ends
  · obtain ⟨lists, _, _, goes⟩ := bind_ok goes
    obtain ⟨targets, _, _, ends⟩ := bind_ok goes
    cases ends
  · cases goes
    exact list

theorem expression_of_small {value : Node} (run : (smallStatement inner).run tokens = .ok (.exprStmt value, rest)) :
    (expressionList inner).run tokens = .ok (value, rest) := by
  rw [smallStatement, kind_run] at run
  split at run
  case h_7 => exact list_of_expression run
  case h_1 | h_2 | h_3 =>
    obtain ⟨_, _, _, ends⟩ := bind_ok run
    cases ends
  case h_4 | h_5 =>
    obtain ⟨_, _, _, goes⟩ := bind_ok run
    obtain ⟨part, _, _, ends⟩ := bind_ok goes
    cases ends
  case h_6 =>
    obtain ⟨_, _, _, goes⟩ := bind_ok run
    obtain ⟨test, _, _, goes⟩ := bind_ok goes
    obtain ⟨more, _, _, goes⟩ := bind_ok goes
    cases more with
    | true =>
        obtain ⟨message, _, _, ends⟩ := bind_ok goes
        cases ends
    | false => cases goes

theorem heading_builds {word : Compound} {build : List Node → List Node → Node} {head : Text}
    (spells : Spells (heading word inner) head.kinds build) (body orelse : List Node) (value : Node) :
    build body orelse ≠ .exprStmt value := by
  have run : (heading word inner).run (placed head.kinds ++ placed [.mark .colon]) = .ok (build, placed [.mark .colon]) :=
    spells_run spells (placed_kinds _) rfl
  cases word with
  | choice | loop =>
      obtain ⟨test, _, _, ends⟩ := bind_ok run
      cases ends
      exact nofun
  | each =>
      obtain ⟨place, _, _, goes⟩ := bind_ok run
      obtain ⟨items, _, _, goes⟩ := bind_ok goes
      obtain ⟨target, _, _, goes⟩ := bind_ok goes
      obtain ⟨_, _, _, goes⟩ := bind_ok goes
      obtain ⟨iterable, _, _, ends⟩ := bind_ok goes
      cases ends
      exact nofun
  | function =>
      obtain ⟨id, _, _, goes⟩ := bind_ok run
      obtain ⟨_, _, _, goes⟩ := bind_ok goes
      obtain ⟨params, _, _, goes⟩ := bind_ok goes
      obtain ⟨_, _, _, ends⟩ := bind_ok goes
      cases ends
      exact nofun

-- The tokens that end a statement, or a program.
def enders : List Kind := [.newline, .mark .semicolon, .indent, .dedent, .eof]

theorem line_alone {line : Line} {ts behind : List Kind} (inside : ∀ kind ∈ ts, kind ∉ enders)
    (same : line.spelled ++ .newline :: behind = ts ++ [.newline, .eof]) : line.spelled = ts ∧ ∃ phrase, line = .last phrase := by
  have none : .mark .semicolon ∉ line.spelled := by
    intro member
    have member' : Kind.mark .semicolon ∈ ts ++ [.newline, .eof] := same ▸ List.mem_append_left _ member
    rcases List.mem_append.mp member' with within | within
    · exact inside _ within (by decide)
    · exact absurd within (by decide)
  cases line with
  | ended | more => exact absurd (by simp [Line.spelled]) none
  | last phrase =>
      refine ⟨?_, phrase, rfl⟩
      rcases List.append_eq_append_iff.mp same with ⟨more, longer, left⟩ | ⟨more, longer, left⟩
      · cases more with
        | nil => rw [longer, List.append_nil]
        | cons kind more =>
            obtain ⟨rfl, _⟩ := List.cons.inj left
            exact absurd (by decide) (inside .newline (longer ▸ by simp))
      · cases more with
        | nil => rw [longer, List.append_nil]
        | cons kind more =>
            obtain ⟨_, later⟩ := List.cons.inj left
            cases more with
            | nil => cases later
            | cons => simp at later

theorem expression_alone {ts : List Kind} {tree : Tree} {value : Node} (inside : ∀ kind ∈ ts, kind ∉ enders)
    (bare : tokens.map (·.kind) = ts ++ [.newline, .eof]) (parsed : treeOf tokens = .ok tree)
    (only : tree.root = .program [.exprStmt value]) :
    tree = .ofBody [.exprStmt value] ∧ Spells (smallStatement (nested maxDepth)) ts (.exprStmt value) ∧
      (Node.exprStmt value).depth ≤ maxDepth := by
  obtain ⟨⟨body, rest⟩, run, rfl⟩ := ok_of_map parsed
  obtain rfl : body = [.exprStmt value] := Node.program.inj only
  obtain ⟨layout, lays, bounded, ends⟩ := program_laid run
  have same := lays.spelled.symm.trans bare
  cases layout with
  | done => cases lays.means
  | gap later =>
      cases ts with
      | nil =>
          -- An empty line by itself is an empty program.
          rw [first_kind_map] at ends
          obtain ⟨rfl, _⟩ := layout_unique later .done (y := [.eof]) (.inl ends) (.inl rfl) (List.cons.inj same).2
          cases lays.means
      | cons kind more =>
          obtain ⟨rfl, _⟩ := List.cons.inj same
          exact absurd (by decide) (inside .newline List.mem_cons_self)
  | row line later =>
      obtain ⟨front, back, each, _, split⟩ := lays.means
      rw [Layout.spelled, List.append_assoc] at same
      obtain ⟨rfl, phrase, rfl⟩ := line_alone inside same
      cases each with
      | cons spells none =>
          cases none
          obtain ⟨rfl, _⟩ := List.cons.inj split
          exact ⟨rfl, spells, bounded _ List.mem_cons_self⟩
  | compound word head suite branch later =>
      obtain ⟨_, node, back, ⟨build, inner, orelse, spells, _, _, rfl⟩, _, split⟩ := lays.means
      exact absurd (List.cons.inj split).1.symm (heading_builds spells inner orelse value)

-- Within parentheses the same is read, with a level of nesting less, and then it is handed on up to the line.
theorem parentheses_carried {levels : Nat} {front old : List Token} {opening closing : Token} {value : Node}
    (opens : opening.kind = .mark .leftParen) (closes : closing.kind = .mark .rightParen) (stops : (firstKind old).isStop = true)
    (list : (expressionList (nested (levels + 1))).run (front ++ old) = .ok (value, old)) :
    Carried True value old ((expressionList (nested (levels + 1))).run (opening :: (front ++ closing :: old))) := by
  have begins : Begins (expressionList (nested (levels + 1))) := begins_bind (begins_test _)
  have starts := begins.starts _ _ _ list
  have inside : firstKind (front ++ closing :: old) ≠ .mark .rightParen := by
    cases front with
    | nil => exact absurd starts (by rw [List.nil_append, stop_starts_none _ stops]; exact Bool.false_ne_true)
    | cons token more =>
        intro same
        rw [List.cons_append, firstKind, show token.kind = _ from same] at starts
        cases starts
  have stops' : (firstKind (closing :: old)).isStop = true := by
    rw [firstKind, closes]
    rfl
  have lowered : TransfersNested ⟨old, closing :: old, True, stops, stops'⟩ (nested (levels + 1)) (nested levels) :=
    lowered_transfers trivial levels
  have carried := (transfers_list_of lowered.test).holds front [] value (absurd · Bool.false_ne_true) list
  have parens := parenthesized_carried inside closes carried
  have atom : (atom (nested levels)).run (opening :: (front ++ closing :: old)) =
      (parenthesized (nested levels)).run (front ++ closing :: old) := by
    rw [Grammar.atom, kind_run, firstKind, opens]
    rfl
  generalize (parenthesized (nested levels)).run (front ++ closing :: old) = result at parens atom
  have ends (final : Node) (rest : List Token) (run : result = .ok (final, rest)) : (firstKind rest).isStop = true := by
    rw [run] at parens
    cases parens
    exact stops
  have test : (nested (levels + 1)).test.run (opening :: (front ++ closing :: old)) = result := test_alone atom ends opens
  have handed : (expressionList (nested (levels + 1))).run (opening :: (front ++ closing :: old)) = result := by
    refine handed_on test ends fun final rest stop => ?_
    rw [kind_run, if_neg (stop_ne rfl _ stop)]
    rfl
  rw [handed]
  exact parens

theorem small_carried {levels : Nat} {value : Node} (opens : firstKind tokens = .mark .leftParen)
    (line : firstKind rest = .newline) (carried : Carried True value rest ((expressionList (nested levels)).run tokens)) :
    Carried True (.exprStmt value) rest ((smallStatement (nested levels)).run tokens) := by
  rw [smallStatement, kind_run, opens]
  change Carried True _ rest ((expressionList (nested levels) >>= _).run tokens)
  generalize answer : (expressionList (nested levels)).run tokens = result at carried
  cases carried with
  | same =>
      rw [run_bind, answer]
      dsimp only
      rw [kind_run, line]
      exact .same
  | deep allowed cause =>
      rw [run_error answer]
      exact .deep allowed cause

-- The only line of a program is the program.
theorem tree_of_small {node : Node} (run : (smallStatement (nested maxDepth)).run tokens = .ok (node, rest))
    (bounded : node.depth ≤ maxDepth) (ends : rest.map (·.kind) = [.newline, .eof]) : treeOf tokens = .ok (.ofBody [node]) := by
  obtain ⟨phrase, same, spells⟩ := phrase_of_run run (by rw [first_kind_map, ends]; rfl)
  have means : (Layout.row (.last phrase) .done : Layout (.rows true)).Means maxDepth [node] :=
    ⟨[node], [], .cons spells .nil, rfl, rfl⟩
  have eof : firstOf [Kind.eof] = .eof := rfl
  obtain ⟨left, whole, _⟩ := (program_reads means (List.forall_mem_singleton.mpr bounded) eof).reads trivial tokens (by
    rw [same, ends, Layout.spelled, List.append_assoc]
    rfl)
  rw [treeOf, whole]
  rfl

theorem tree_of_failure {e : ParseError} (opens : firstKind tokens = .mark .leftParen)
    (failed : (smallStatement (nested maxDepth)).run tokens = .error e) : treeOf tokens = .error e := by
  have line : (statement (nested maxDepth) (blocksFor maxDepth)).run tokens = .error e := by
    rw [statement, kind_run, opens]
    exact run_error failed
  have row : topStatement.run tokens = .error e := by
    rw [topStatement, kind_run, opens]
    change (statement (nested maxDepth) (blocksFor maxDepth) >>= _).run tokens = _
    exact run_error line
  have whole : program.run tokens = .error e := by
    change (untilFrom _ _ strict_top_statement []).run tokens = _
    rw [until_run_eq, opens]
    exact run_error row
  rw [treeOf, whole]
  rfl

/-- Parentheses around an expression that makes up a program change nothing, unless they nest too deeply. -/
theorem parentheses_indifferent {ts : List Kind} {tokens tokens' : List Token} {tree : Tree} {value : Node}
    (inside : ∀ kind ∈ ts, kind ∉ [Kind.newline, .mark .semicolon, .indent, .dedent, .eof])
    (bare : tokens.map (·.kind) = ts ++ [.newline, .eof]) (parsed : treeOf tokens = .ok tree)
    (only : tree.root = .program [.exprStmt value])
    (within : tokens'.map (·.kind) = .mark .leftParen :: (ts ++ [.mark .rightParen, .newline, .eof])) :
    treeOf tokens' = .ok tree ∨ ∃ e, treeOf tokens' = .error e ∧ e.cause = .nestedTooDeeply := by
  obtain ⟨rfl, spells, bounded⟩ := expression_alone inside bare parsed only
  obtain ⟨opening, _, rfl, opens, inner⟩ := List.map_eq_cons_iff.mp within
  obtain ⟨front, _, rfl, rfl, behind⟩ := List.map_eq_append_iff.mp inner
  obtain ⟨closing, old, rfl, closes, ends⟩ := List.map_eq_cons_iff.mp behind
  have line : firstKind old = .newline := by
    rw [first_kind_map, ends]
    rfl
  have stops : (firstKind old).isStop = true := by
    rw [line]
    rfl
  have list := expression_of_small (spells_run spells rfl stops)
  have parens : Carried True value old ((expressionList (nested maxDepth)).run (opening :: (front ++ closing :: old))) :=
    @parentheses_carried 99 _ _ _ _ _ opens closes stops list
  have first : firstKind (opening :: (front ++ closing :: old)) = .mark .leftParen := opens
  have carried := small_carried first line parens
  generalize answer : (smallStatement (nested maxDepth)).run (opening :: (front ++ closing :: old)) = result at carried
  cases carried with
  | same => exact .inl (tree_of_small answer bounded ends)
  | deep _ cause => exact .inr ⟨_, tree_of_failure first answer, cause⟩

-- A tuple, which is bare at first.
theorem parentheses_indifferent_tuple : ∃ tree,
    treeOf (placed [.name "a", .mark .comma, .name "b", .newline, .eof]) = .ok tree ∧
    (treeOf (placed [.mark .leftParen, .name "a", .mark .comma, .name "b", .mark .rightParen, .newline, .eof]) = .ok tree ∨
      ∃ e, treeOf (placed [.mark .leftParen, .name "a", .mark .comma, .name "b", .mark .rightParen, .newline, .eof]) = .error e ∧
        e.cause = .nestedTooDeeply) := by
  have inside : ∀ kind ∈ [Kind.name "a", .mark .comma, .name "b"],
      kind ∉ [Kind.newline, .mark .semicolon, .indent, .dedent, .eof] := by decide
  have parsed : treeOf (placed [.name "a", .mark .comma, .name "b", .newline, .eof]) =
      .ok (.ofBody [.exprStmt (.tuple [.name "a" .load, .name "b" .load] .load)]) := by
    with_unfolding_all rfl
  exact ⟨_, parsed, parentheses_indifferent inside (placed_kinds _) parsed rfl (placed_kinds _)⟩

end Mutagen.Grammar
