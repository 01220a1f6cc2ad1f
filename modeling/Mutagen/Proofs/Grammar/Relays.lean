import Mathlib.Logic.Relation
import Mutagen.Proofs.Grammar.Spelled

set_option autoImplicit false

namespace Mutagen.Grammar

open Mutagen.Parser
open Token (Kind)

variable {levels : Nat} {top : Bool} {part : Part} {tokens rest last : List Token} {body back : List Node}

def Clause (word : Compound) (inner : Nested) (head : Text) (suite branch : List Node → Prop) (node : Node) : Prop :=
  ∃ build body orelse, Spells (heading word inner) head.kinds build ∧ suite body ∧ branch orelse ∧ node = build body orelse

-- Only an `if` goes on behind its suite.
def Layout.Means : {part : Part} → Layout part → Nat → List Node → Prop
  | _, .done, _, body => body = []
  | _, .gap rest, levels, body => rest.Means levels body
  | _, .row line rest, levels, body => ∃ front back, line.Means (nested levels) front ∧ rest.Means levels back ∧ body = front ++ back
  | _, .compound word head suite branch rest, levels, body => (word = .choice ∨ branch = .bare) ∧ ∃ node back,
      Clause word (nested levels) head (suite.Means levels) (branch.Means levels) node ∧ rest.Means levels back ∧ body = node :: back
  | _, .onLine line, levels, body => ∃ below, levels = below + 1 ∧ line.Means (nested below) body
  | _, .block rows, levels, body => ∃ below, levels = below + 1 ∧ rows.Means below body
  | _, .bare, _, body => body = []
  | _, .elif head suite branch, levels, body => ∃ below node, levels = below + 1 ∧
      Clause .choice (nested below) head (suite.Means below) (branch.Means below) node ∧ body = [node]
  | _, .otherwise suite, levels, body => suite.Means levels body

theorem lines_mean {phrases : List Phrase} {later : Layout (.rows top)} {front : List Node}
    (each : List.Forall₂ (fun phrase => Spells (smallStatement (nested levels)) phrase.kinds) phrases front)
    (means : later.Means levels back) : (Layout.lines phrases later).Means levels (front ++ back) := by
  induction each with
  | nil => exact means
  | cons spells _ ih => exact ⟨[_], _, .cons spells .nil, ih, rfl⟩

theorem clause_under {word : Compound} {inner : Nested} {head : Text} {suite suite' branch branch' : List Node → Prop} {node : Node}
    (clause : Clause word inner head suite branch node) (bodies : ∀ body, suite body → suite' body)
    (branches : ∀ orelse, branch orelse → branch' orelse) : Clause word inner head suite' branch' node := by
  obtain ⟨build, body, orelse, spells, inside, behind, rfl⟩ := clause
  exact ⟨build, body, orelse, spells, bodies body inside, branches orelse behind, rfl⟩

theorem relays_means {a b : Layout part} (relaid : Relays a b) (means : a.Means levels body) : b.Means levels body := by
  induction relaid generalizing levels body with
  | suite line =>
      obtain ⟨below, rfl, each⟩ := means
      refine ⟨below, rfl, ?_⟩
      rw [← List.append_nil body]
      exact lines_mean each rfl
  | statements line rest =>
      obtain ⟨front, back, each, later, rfl⟩ := means
      exact lines_mean each later
  | clause head suite branch =>
      obtain ⟨below, node, rfl, clause, rfl⟩ := means
      exact ⟨below, rfl, .inl rfl, node, [], clause, rfl, rfl⟩
  | gap _ ih => exact ih means
  | row line _ ih =>
      obtain ⟨front, back, each, later, rfl⟩ := means
      exact ⟨front, back, each, ih later, rfl⟩
  | body word head branch rest _ ih =>
      obtain ⟨continued, node, back, clause, later, rfl⟩ := means
      exact ⟨continued, node, back, clause_under clause (fun _ => ih) fun _ => id, later, rfl⟩
  | branch word head suite rest relaid ih =>
      obtain ⟨rfl | rfl, node, back, clause, later, rfl⟩ := means
      · exact ⟨.inl rfl, node, back, clause_under clause (fun _ => id) fun _ => ih, later, rfl⟩
      · cases relaid
  | rest word head suite branch _ ih =>
      obtain ⟨continued, node, back, clause, later, rfl⟩ := means
      exact ⟨continued, node, back, clause, ih later, rfl⟩
  | block _ ih =>
      obtain ⟨below, rfl, inside⟩ := means
      exact ⟨below, rfl, ih inside⟩
  | elifBody head branch _ ih =>
      obtain ⟨below, node, rfl, clause, rfl⟩ := means
      exact ⟨below, node, rfl, clause_under clause (fun _ => ih) fun _ => id, rfl⟩
  | elifBranch head suite _ ih =>
      obtain ⟨below, node, rfl, clause, rfl⟩ := means
      exact ⟨below, node, rfl, clause_under clause (fun _ => id) fun _ => ih, rfl⟩
  | otherwise _ ih => exact ih means

theorem relaid_means {a b : Layout part} (relaid : Relation.ReflTransGen Relays a b) (means : a.Means levels body) :
    b.Means levels body := by
  induction relaid with
  | refl => exact means
  | tail _ step ih => exact relays_means step ih

-- What has been parsed has a layout.
structure Lays (layout : Layout part) (levels : Nat) (tokens rest : List Token) (body : List Node) : Prop where
  spelled : tokens.map (·.kind) = layout.spelled ++ rest.map (·.kind)
  means : layout.Means levels body

structure LaidBlocks (levels : Nat) : Prop where
  suite : ∀ {tokens rest : List Token} {body : List Node}, (blocksFor levels).suite.run tokens = .ok (body, rest) →
    ∃ layout : Layout .suite, Lays layout levels tokens rest body
  clause : ∀ {tokens rest : List Token} {node : Node}, firstKind tokens = .keyword .kwElif →
    (blocksFor levels).clause.run tokens = .ok (node, rest) → ∃ layout : Layout .branch, Lays layout levels tokens rest [node]

theorem branch_of_run (h : LaidBlocks levels) (run : (elseBranch (blocksFor levels)).run tokens = .ok (body, rest)) :
    ∃ layout : Layout .branch, Lays layout levels tokens rest body := by
  rw [elseBranch, kind_run] at run
  split at run
  case h_1 _ first =>
    obtain ⟨node, left, clause, run⟩ := bind_ok run
    cases run
    exact h.clause first clause
  case h_2 _ first =>
    obtain ⟨word, left, rfl, run⟩ := skip_then run
    obtain ⟨mark, middle, rfl, kind, run⟩ := expect_then run
    obtain ⟨suite, lays⟩ := h.suite run
    refine ⟨.otherwise suite, ?_, lays.means⟩
    rw [List.map_cons, List.map_cons, show word.kind = _ from first, kind, lays.spelled]
    rfl
  case h_3 =>
    cases run
    exact ⟨.bare, rfl, rfl⟩

theorem continuation_of_run {word : Compound} (h : LaidBlocks levels)
    (run : (continuation word (blocksFor levels)).run tokens = .ok (body, rest)) :
    ∃ layout : Layout .branch, Lays layout levels tokens rest body ∧ (word = .choice ∨ layout = .bare) := by
  cases word with
  | choice =>
      obtain ⟨layout, lays⟩ := branch_of_run h run
      exact ⟨layout, lays, .inl rfl⟩
  | loop | each =>
      obtain ⟨_, left, forbidden, run⟩ := bind_ok run
      cases forbid_ok forbidden
      cases run
      exact ⟨.bare, ⟨rfl, rfl⟩, .inr rfl⟩
  | function =>
      cases run
      exact ⟨.bare, ⟨rfl, rfl⟩, .inr rfl⟩

theorem compound_of_run {word : Compound} {node : Node} (h : LaidBlocks levels)
    (run : (compoundStatement word (nested levels) (blocksFor levels)).run tokens = .ok (node, rest)) :
    ∃ (head : Text) (suite : Layout .suite) (branch : Layout .branch), tokens.tail.map (·.kind) =
      head.kinds ++ .mark .colon :: (suite.spelled ++ (branch.spelled ++ rest.map (·.kind))) ∧
      (word = .choice ∨ branch = .bare) ∧ Clause word (nested levels) head (suite.Means levels) (branch.Means levels) node := by
  obtain ⟨token, left, rfl, goes⟩ := skip_then run
  obtain ⟨build, middle, headed, goes⟩ := bind_ok goes
  obtain ⟨mark, behind, rfl, kind, suites⟩ := expect_then goes
  obtain ⟨body, after, inside, suites⟩ := bind_ok suites
  obtain ⟨orelse, final, continued, ends⟩ := bind_ok suites
  cases ends
  obtain ⟨head, same, spells⟩ := text_of_run (textual_heading word levels) headed (by rw [firstKind, kind]; rfl)
  obtain ⟨suite, lays⟩ := h.suite inside
  obtain ⟨branch, lays', bare⟩ := continuation_of_run h continued
  refine ⟨head, suite, branch, ?_, bare, build, body, orelse, spells, lays.means, lays'.means, rfl⟩
  rw [List.tail_cons, same, List.map_cons, kind, lays.spelled, lays'.spelled]

theorem row_of_compound (word : Compound) {items : List Node} {later : Layout (.rows top)} (h : LaidBlocks levels)
    (first : firstKind tokens = .keyword word.keyword)
    (run : (do return [← compoundStatement word (nested levels) (blocksFor levels)] : Parser (List Node)).run tokens = .ok (items, rest))
    (lays : Lays later levels rest last back) : ∃ layout : Layout (.rows top), Lays layout levels tokens last (items ++ back) := by
  obtain ⟨node, left, compound, run⟩ := bind_ok run
  cases run
  obtain ⟨head, suite, branch, same, bare, clause⟩ := compound_of_run h compound
  refine ⟨.compound word head suite branch later, ?_, bare, node, back, clause, lays.means, rfl⟩
  cases tokens with
  | nil => cases first
  | cons token tail =>
      rw [List.tail_cons] at same
      rw [List.map_cons, show token.kind = _ from first, same, lays.spelled]
      simp only [Layout.spelled, List.cons_append, List.append_assoc]

theorem row_of_run {items : List Node} {later : Layout (.rows top)} (h : LaidBlocks levels)
    (run : (statement (nested levels) (blocksFor levels)).run tokens = .ok (items, rest))
    (lays : Lays later levels rest last back) : ∃ layout : Layout (.rows top), Lays layout levels tokens last (items ++ back) := by
  rw [statement, kind_run, if_eq, while_eq, for_eq, function_eq] at run
  split at run
  case h_1 _ first => exact row_of_compound .function h first run lays
  case h_2 _ first => exact row_of_compound .choice h first run lays
  case h_3 _ first => exact row_of_compound .loop h first run lays
  case h_4 _ first => exact row_of_compound .each h first run lays
  case h_5 => cases run
  case h_6 =>
    obtain ⟨line, same, means⟩ := line_of_run run
    refine ⟨.row line later, ?_, items, back, means, lays.means, rfl⟩
    rw [same, lays.spelled, Layout.spelled, List.append_assoc]
    rfl

def LaysRow (top : Bool) (levels : Nat) (fit : Node → Prop) (item : Parser (List Node)) : Prop :=
  ∀ {tokens rest : List Token} {items : List Node}, item.run tokens = .ok (items, rest) → (∀ node ∈ items, fit node) ∧
    ∀ {last : List Token} {back : List Node} {later : Layout (.rows top)}, Lays later levels rest last back →
      ∃ layout : Layout (.rows top), Lays layout levels tokens last (items ++ back)

theorem rows_of_run {stop : Kind → Bool} {item : Parser (List Node)} {strict : item.Strict} {fit : Node → Prop}
    {collected all : List Node} (row : LaysRow top levels fit item)
    (run : untilRun stop item strict collected tokens = .ok (all, rest)) :
    ∃ (layout : Layout (.rows top)) (body : List Node), Lays layout levels tokens rest body ∧ (∀ node ∈ body, fit node) ∧
      all = collected ++ body ∧ stop (firstKind rest) = true := by
  fun_induction untilRun stop item strict collected tokens with
  | case1 collected tokens stops =>
      cases run
      exact ⟨.done, [], ⟨rfl, rfl⟩, List.forall_mem_nil _, (List.append_nil _).symm, stops⟩
  | case2 => cases run
  | case3 collected tokens _ items left first ih =>
      obtain ⟨later, body, lays, fits, rfl, stops⟩ := ih run
      obtain ⟨fit, extend⟩ := row first
      obtain ⟨layout, lays'⟩ := extend lays
      exact ⟨layout, items ++ body, lays', List.forall_mem_append.mpr ⟨fit, fits⟩, List.append_assoc _ _ _, stops⟩

theorem block_of_run (h : LaidBlocks levels)
    (run : (block (nested levels) (blocksFor levels) (strict_test levels)).run tokens = .ok (body, rest)) :
    ∃ layout : Layout .suite, Lays layout (levels + 1) tokens rest body := by
  unfold block at run
  rw [accept_bind, kind_run] at run
  by_cases newline : firstKind tokens = .newline
  · rw [if_pos newline] at run
    obtain ⟨line, left, rfl, run⟩ := skip_then run
    obtain ⟨indent, middle, rfl, kind, run⟩ := expect_then run
    obtain ⟨inside, behind, rows, run⟩ := bind_ok run
    obtain ⟨dedent, final, rfl, run⟩ := skip_then run
    cases run
    have row : LaysRow false levels (fun _ => True) (blockStatement (nested levels) (blocksFor levels)) := by
      intro tokens rest items run
      rw [blockStatement, kind_run] at run
      split at run
      · cases run
      · exact ⟨fun _ _ => trivial, row_of_run h run⟩
    obtain ⟨layout, body, lays, _, rfl, stops⟩ := rows_of_run row rows
    refine ⟨.block layout, ?_, levels, rfl, lays.means⟩
    rw [List.map_cons, List.map_cons, show line.kind = _ from newline, kind, lays.spelled, List.map_cons,
      show dedent.kind = _ from of_decide_eq_true stops, Layout.spelled]
    simp only [List.cons_append, List.append_assoc, List.nil_append]
  · rw [if_neg newline] at run
    obtain ⟨line, same, means⟩ := line_of_run run
    exact ⟨.onLine line, by rw [same, Layout.spelled, List.append_assoc]; rfl, levels, rfl, means⟩

theorem blocks_laid (levels : Nat) : LaidBlocks levels := by
  induction levels with
  | zero => exact ⟨nofun, nofun⟩
  | succ levels ih =>
      refine ⟨fun run => block_of_run ih run, fun {tokens rest node} first run => ?_⟩
      have run : (ifStatement (nested levels) (blocksFor levels)).run tokens = .ok (node, rest) := run
      rw [if_eq] at run
      obtain ⟨head, suite, branch, same, _, clause⟩ := compound_of_run ih run
      refine ⟨.elif head suite branch, ?_, levels, node, rfl, clause, rfl⟩
      cases tokens with
      | nil => cases first
      | cons token tail =>
          rw [List.tail_cons] at same
          rw [List.map_cons, show token.kind = _ from first, same]
          simp only [Layout.spelled, List.cons_append, List.append_assoc]

structure TakesRows (top : Bool) (levels : Nat) (stop : Kind → Bool) (item : Parser (List Node)) (fit : Node → Prop) : Prop where
  row : ∀ {kinds rest : List Kind} {items : List Node}, firstOf kinds ≠ .newline → firstOf kinds ≠ .eof →
    (∀ node ∈ items, fit node) → Reads (statement (nested levels) (blocksFor levels)) True kinds items rest →
      Reads item True kinds items rest
  gap : top = true → ∀ rest, Reads item True (.newline :: rest) [] rest
  stops : ∀ {first : Kind}, stop first = true → first = .eof ∨ first = .dedent

-- What reads a part of a layout.
def ReadsPart : Part → Nat → List Kind → List Node → List Kind → Prop
  | .rows top, levels, kinds, body, rest => ∀ stop item (strict : item.Strict) fit, TakesRows top levels stop item fit →
      stop (firstOf rest) = true → (∀ node ∈ body, fit node) → ∀ collected,
        Reads (untilFrom stop item strict collected) True kinds (collected ++ body) rest
  | .suite, levels, kinds, body, rest => Reads (blocksFor levels).suite True kinds body rest
  | .branch, levels, kinds, body, rest => Reads (elseBranch (blocksFor levels)) True kinds body rest

theorem continuation_reads {word : Compound} {kinds behind : List Kind} (bare : word = .choice ∨ (body = [] ∧ kinds = behind))
    (apart : Part.branch.EndsAt behind) (branch : ReadsPart .branch levels kinds body behind) :
    Reads (continuation word (blocksFor levels)) True kinds body behind := by
  cases word with
  | choice => exact branch
  | loop | each =>
      obtain ⟨rfl, rfl⟩ := bare.resolve_left nofun
      exact reads_forbid apart.2 (reads_pure [] kinds)
  | function =>
      obtain ⟨rfl, rfl⟩ := bare.resolve_left nofun
      exact reads_pure [] kinds

theorem compound_reads {word : Compound} (first : Kind) {head : Text} {suite branch : List Node → Prop} {node : Node}
    {suiteKinds branchKinds behind : List Kind} (clause : Clause word (nested levels) head suite branch node)
    (bodies : ∀ body, suite body → Reads (blocksFor levels).suite True (suiteKinds ++ (branchKinds ++ behind)) body (branchKinds ++ behind))
    (branches : ∀ orelse, branch orelse → Reads (continuation word (blocksFor levels)) True (branchKinds ++ behind) orelse behind) :
    Reads (compoundStatement word (nested levels) (blocksFor levels)) True
      (first :: (head.kinds ++ .mark .colon :: (suiteKinds ++ (branchKinds ++ behind)))) node behind := by
  obtain ⟨build, body, orelse, spells, inside, continued, rfl⟩ := clause
  have headed := spells.reads (.mark .colon) (suiteKinds ++ (branchKinds ++ behind)) rfl
  exact reads_skip (reads_then headed (reads_expect (reads_then (bodies body inside) (reads_return (branches orelse continued) _))))

theorem statement_reads {word : Compound} {node : Node} {kinds behind : List Kind}
    (reads : Reads (compoundStatement word (nested levels) (blocksFor levels)) True (.keyword word.keyword :: kinds) node behind) :
    Reads (statement (nested levels) (blocksFor levels)) True (.keyword word.keyword :: kinds) [node] behind := by
  rw [statement, if_eq, while_eq, for_eq, function_eq]
  apply reads_kind
  cases word <;> exact reads_return reads fun node => [node]

theorem line_statement_reads {line : Line} {front : List Node} (each : line.Means (nested levels) front) (rest : List Kind) :
    Reads (statement (nested levels) (blocksFor levels)) True (line.spelled ++ .newline :: rest) front rest := by
  have small := line_small line (.newline :: rest)
  apply reads_kind
  split
  case h_5 _ first => exact absurd first (line_other rfl)
  case h_6 => exact line_reads each rest
  all_goals
    rename_i first
    rw [first] at small
    exact absurd small (by decide)

theorem block_takes : TakesRows false levels (· = .dedent) (blockStatement (nested levels) (blocksFor levels)) fun _ => True := by
  constructor
  · exact fun _ other _ reads => reads_kind (reads_neg other reads)
  · exact (absurd · Bool.false_ne_true)
  · exact fun halts => .inr (of_decide_eq_true halts)

theorem row_reads {kinds middle rest : List Kind} {items : List Node} (goes : firstOf kinds ≠ .eof ∧ firstOf kinds ≠ .dedent)
    (first : ∀ {stop item fit}, TakesRows top levels stop item fit → (∀ node ∈ items, fit node) → Reads item True kinds items middle)
    (others : ReadsPart (.rows top) levels middle back rest) : ReadsPart (.rows top) levels kinds (items ++ back) rest := by
  intro stop item strict fit takes stops fits collected
  have continues : stop (firstOf kinds) = false := by
    cases halts : stop (firstOf kinds) with
    | false => rfl
    | true =>
        rcases takes.stops halts with eof | dedent
        · exact absurd eof goes.1
        · exact absurd dedent goes.2
  obtain ⟨fit, fits⟩ := List.forall_mem_append.mp fits
  rw [← List.append_assoc]
  exact reads_iff (reads_until_step strict continues (first takes fit) (others stop item strict _ takes stops fits _)) (and_self_iff)

theorem reads_part (layout : Layout part) (means : layout.Means levels body) (rest : List Kind) (ends : part.EndsAt rest) :
    ReadsPart part levels (layout.spelled ++ rest) body rest := by
  induction layout generalizing levels body rest with
  | done =>
      obtain rfl : body = [] := means
      intro stop item strict fit _ stops _ collected
      rw [List.append_nil]
      exact reads_until_stop strict collected stops
  | gap later ih =>
      refine row_reads ?_ (fun takes _ => takes.gap rfl _) (ih means rest ends)
      exact (show Kind.newline ≠ .eof ∧ Kind.newline ≠ .dedent by decide)
  | row line later ih =>
      obtain ⟨front, back, each, means, rfl⟩ := means
      rw [Layout.spelled, List.append_assoc]
      exact row_reads ⟨line_other rfl, line_other rfl⟩
        (fun takes fits => takes.row (line_other rfl) (line_other rfl) fits (line_statement_reads each _)) (ih means rest ends)
  | compound word head suite branch later ihSuite ihBranch ihLater =>
      obtain ⟨bare, node, back, clause, means, rfl⟩ := means
      rw [Layout.spelled, List.cons_append, List.append_assoc, List.cons_append, List.append_assoc, List.append_assoc]
      have apart := rows_apart later ends
      have reads := statement_reads (compound_reads (.keyword word.keyword) clause
        (fun _ inside => ihSuite inside _ trivial)
        (fun orelse continued => continuation_reads (by
          refine bare.imp_right ?_
          rintro rfl
          exact ⟨continued, rfl⟩) apart (ihBranch continued _ apart)))
      have goes : Kind.keyword word.keyword ≠ .eof ∧ Kind.keyword word.keyword ≠ .dedent := by cases word <;> decide
      have text : Kind.keyword word.keyword ≠ .newline := by cases word <;> decide
      refine row_reads ?_ (fun takes fits => takes.row ?_ ?_ fits reads) (ihLater means rest ends)
      · exact goes
      · exact text
      · exact goes.1
  | onLine line =>
      obtain ⟨below, rfl, each⟩ := means
      rw [Layout.spelled, List.append_assoc]
      exact reads_decline (line_other rfl) (line_reads each rest)
  | block rows ih =>
      obtain ⟨below, rfl, inside⟩ := means
      have reads := ih inside (.dedent :: rest) (.inr rfl) _ _ (strict_block_statement _ (strict_test below)) _ block_takes rfl
        (fun _ _ => trivial) []
      rw [Layout.spelled, List.cons_append, List.cons_append, List.append_assoc]
      exact reads_accept (reads_expect (reads_then reads (reads_skip (reads_pure _ rest))))
  | bare =>
      obtain rfl : body = [] := means
      apply reads_kind
      split
      case h_1 _ first => exact absurd first ends.1
      case h_2 _ first => exact absurd first ends.2
      case h_3 => exact reads_pure [] rest
  | elif head suite branch ihSuite ihBranch =>
      obtain ⟨below, node, rfl, clause, rfl⟩ := means
      rw [Layout.spelled, List.cons_append, List.append_assoc, List.cons_append, List.append_assoc]
      have reads := compound_reads (.keyword .kwElif) clause (fun _ inside => ihSuite inside _ trivial)
        (fun orelse continued => ihBranch continued rest ends)
      rw [← if_eq] at reads
      exact reads_kind (reads_return reads fun node => [node])
  | otherwise suite ih => exact reads_kind (reads_skip (reads_expect (ih means rest trivial)))

theorem top_row : LaysRow true maxDepth (fun node => node.depth ≤ maxDepth) topStatement := by
  intro tokens rest items run
  rw [topStatement, kind_run] at run
  by_cases newline : firstKind tokens = .newline
  · rw [if_pos newline] at run
    obtain ⟨token, tail, rfl, skipped⟩ := skip_then run
    cases skipped
    refine ⟨List.forall_mem_nil _, fun {_ _ later} lays => ⟨.gap later, ?_, lays.means⟩⟩
    rw [List.map_cons, show token.kind = _ from newline, lays.spelled]
    rfl
  · rw [if_neg newline] at run
    obtain ⟨place, middle, placed, goes⟩ := bind_ok run
    cases placed
    obtain ⟨statements, middle, inside, checked⟩ := bind_ok goes
    obtain ⟨_, left, required, ends⟩ := bind_ok checked
    cases ends
    obtain ⟨bounded, rfl⟩ := require_ok required
    exact ⟨fun node member => of_decide_eq_true (List.all_eq_true.mp bounded node member), row_of_run (blocks_laid maxDepth) inside⟩

theorem program_laid (run : program.run tokens = .ok (body, rest)) : ∃ layout : Layout (.rows true),
    Lays layout maxDepth tokens rest body ∧ (∀ node ∈ body, node.depth ≤ maxDepth) ∧ firstKind rest = .eof := by
  obtain ⟨layout, body', lays, bounded, rfl, stops⟩ := rows_of_run top_row run
  exact ⟨layout, lays, bounded, of_decide_eq_true stops⟩

theorem top_takes : TakesRows true maxDepth (· = .eof) topStatement fun node => node.depth ≤ maxDepth := by
  constructor
  · intro kinds rest items text _ fits reads
    have bounded : (items.all (·.depth ≤ maxDepth)) = true := List.all_eq_true.mpr fun node member => decide_eq_true (fits node member)
    exact reads_kind (reads_neg text (reads_span fun _ => reads_then reads (reads_require bounded (reads_pure items rest))))
  · exact fun _ rest => reads_kind (reads_pos rfl (reads_skip (reads_pure [] rest)))
  · exact fun halts => .inl (of_decide_eq_true halts)

theorem program_reads {layout : Layout (.rows true)} (means : layout.Means maxDepth body)
    (bounded : ∀ node ∈ body, node.depth ≤ maxDepth) {behind : List Kind} (ends : firstOf behind = .eof) :
    Reads program True (layout.spelled ++ behind) body behind :=
  reads_part layout means behind (.inl ends) _ _ strict_top_statement _ top_takes (decide_eq_true ends) bounded []

def Layout.Of (layout : Layout (.rows true)) (behind : List Kind) (tokens : List Token) : Prop :=
  tokens.map (·.kind) = layout.spelled ++ behind ∧ firstOf behind = .eof

/-- However the statements of a program are laid out on lines and in blocks, the tree is the same. -/
theorem layouts_indifferent {tokens : List Token} {tree : Tree} (parsed : treeOf tokens = .ok tree) :
    (∃ layout behind, Layout.Of layout behind tokens) ∧ ∀ layout behind, Layout.Of layout behind tokens →
      ∀ layout', Relation.ReflTransGen Relays layout layout' → ∀ tokens', Layout.Of layout' behind tokens' →
        treeOf tokens' = .ok tree := by
  obtain ⟨⟨body, rest⟩, run, rfl⟩ := ok_of_map parsed
  obtain ⟨layout, lays, bounded, ends⟩ := program_laid run
  rw [first_kind_map] at ends
  refine ⟨⟨layout, _, lays.spelled, ends⟩, ?_⟩
  rintro other behind ⟨same, ends'⟩ layout' relaid tokens' ⟨same', _⟩
  -- There is no other layout of these tokens.
  obtain ⟨rfl, rfl⟩ := layout_unique layout other (.inl ends) (.inl ends') (lays.spelled.symm.trans same)
  obtain ⟨left, run', _⟩ := (program_reads (relaid_means relaid lays.means) bounded ends).reads trivial tokens' same'
  rw [treeOf, run']
  rfl

-- A suite and a clause on one line each, and both of them in blocks.
def wordPhrase (id : String) : Phrase := ⟨⟨[.name id], rfl⟩, List.cons_ne_nil _ _, by simp [firstOf, headwords]⟩

def clauseOnLine : Layout (.rows true) :=
  .compound .choice ⟨[.name "a"], rfl⟩ (.onLine (.more (wordPhrase "b") (.last (wordPhrase "c"))))
    (.elif ⟨[.name "d"], rfl⟩ (.onLine (.last (wordPhrase "e"))) .bare) .done

def clauseInBlocks : Layout (.rows true) :=
  .compound .choice ⟨[.name "a"], rfl⟩ (.block (.row (.last (wordPhrase "b")) (.row (.last (wordPhrase "c")) .done)))
    (.otherwise (.block (.compound .choice ⟨[.name "d"], rfl⟩ (.onLine (.last (wordPhrase "e"))) .bare .done))) .done

theorem layouts_indifferent_clause : ∃ tree,
    treeOf (placed [.keyword .kwIf, .name "a", .mark .colon, .name "b", .mark .semicolon, .name "c", .newline,
      .keyword .kwElif, .name "d", .mark .colon, .name "e", .newline, .eof]) = .ok tree ∧
    treeOf (placed [.keyword .kwIf, .name "a", .mark .colon, .newline, .indent, .name "b", .newline, .name "c", .newline, .dedent,
      .keyword .kwElse, .mark .colon, .newline, .indent, .keyword .kwIf, .name "d", .mark .colon, .name "e", .newline, .dedent,
      .eof]) = .ok tree := by
  have relaid : Relation.ReflTransGen Relays clauseOnLine clauseInBlocks :=
    .tail (.single (.body _ _ _ _ (.suite _))) (.branch _ _ _ _ (.clause _ _ _))
  have parses : (treeOf (placed (clauseOnLine.spelled ++ [.eof]))).toBool = true := by decide +kernel
  cases parsed : treeOf (placed (clauseOnLine.spelled ++ [.eof])) with
  | error e =>
      rw [parsed] at parses
      cases parses
  | ok tree => exact ⟨tree, parsed, (layouts_indifferent parsed).2 clauseOnLine [.eof] ⟨rfl, rfl⟩ clauseInBlocks relaid _ ⟨rfl, rfl⟩⟩

end Mutagen.Grammar
