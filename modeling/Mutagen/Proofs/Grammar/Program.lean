import Mutagen.Grammar.Program
import Mutagen.Proofs.Grammar.Accounts

set_option autoImplicit false

namespace Mutagen.Parser

-- The brackets that are open, the innermost first.
def marks : Scan (List Mark) where
  step := admit?
  start := []
  push := List.cons
  lambda := id
  plain := by
    intro opened kind plain
    cases kind with
    | mark m => cases m <;> first | rfl | cases plain
    | keyword | name | int | float | str | augAssign => rfl
    | reserved | newline | indent | dedent | eof => cases plain
  opens := by
    intro opened opening opens
    exact if_pos opens
  closes := by
    intro opened opening closing fits
    cases opening <;> cases fits <;> rfl
  divides := fun _ _ _ => rfl
  binds := fun _ => rfl
  bound := fun _ => rfl

end Mutagen.Parser

namespace Mutagen.Grammar

open Mutagen.Parser Node
open Token (leavesOf)
open Lexer (AllSound)

variable {α : Type} {kinds : List Token.Kind} {sound opens : Prop} {read : List Leaf} {inner : Nested} {blocks : Blocks}

abbrev passOf (kinds : List Token.Kind) (sound opens : Prop) : Pass (List Mark) := ⟨marks, kinds, sound, opens⟩

-- Statements begin and end where no bracket is open.
abbrev Before (kinds : List Token.Kind) (sound opens : Prop) (read : List Leaf) : List Token → Prop :=
  (passOf kinds sound opens).At read []

abbrev Behind (kinds : List Token.Kind) (sound opens : Prop) (P : α → Prop) (L : α → List Leaf) (read : List Leaf) : α → List Token → Prop :=
  (passOf kinds sound opens).Told P L read []

structure AccountsBlocks (kinds : List Token.Kind) (sound opens : Prop) (blocks : Blocks) : Prop where
  suite : ∀ read, Triple (Before kinds sound opens read) blocks.suite (Behind kinds sound opens (Body opens) allLeaves read)
  clause : ∀ read, Triple (fun tokens => firstKind tokens = .keyword .kwElif ∧ Before kinds sound opens read tokens) blocks.clause
    (Behind kinds sound opens (Fine opens) leaves read)

theorem body_single {statement : Node} (h : Fine opens statement) : Body opens [statement] :=
  ⟨all_of_single h, fun _ => List.cons_ne_nil _ _⟩

theorem body_snoc {body : List Node} {statement : Node} (h : AllOf (Fine opens) body) (last : Fine opens statement) :
    Body opens (body ++ [statement]) :=
  ⟨all_of_snoc h last, fun _ => List.append_ne_nil_of_right_ne_nil _ (List.cons_ne_nil _ _)⟩

theorem told_simple_statements (h : AccountsNested (passOf kinds sound opens) inner) :
    Triple (Before kinds sound opens read) (simpleStatements inner) (Behind kinds sound opens (Body opens) allLeaves read) := by
  apply told_bind (accounts_small_statement h _ _)
  intro first small
  have one : leaves first = allLeaves [first] := by rw [all_leaves_cons, all_leaves_nil, List.append_nil]
  rw [one]
  have loop : Triple (Before kinds sound opens (read ++ allLeaves [first])) (chain (linkedBy (.mark .semicolon)) (fun statements _ => do
      if (← kind) = .newline then return .stop statements
      else return .again (← append (smallStatement inner) statements)) [first])
      (Behind kinds sound opens (Body opens) allLeaves read) := by
    apply told_linked ⟨rfl, rfl⟩ fun known => body_single (small_fine (small known))
    intro statements body
    apply triple_look
    intro next
    apply triple_ite
    · intro _
      exact triple_pure fun _ here => ⟨body, here⟩
    · intro _
      apply turns_map
      apply told_bind (accounts_small_statement h _ _)
      intro last small
      exact told_pure (fun known => body_snoc (body known).1 (small_fine (small known))) fun _ => by simp
  apply told_bind loop
  intro statements body
  apply triple_bind (at_expect ⟨rfl, rfl⟩ _)
  intro _
  exact told_pure body fun _ => rfl

theorem told_else_branch (h : AccountsBlocks kinds sound opens blocks) :
    Triple (Before kinds sound opens read) (elseBranch blocks) (Behind kinds sound opens (AllOf (Fine opens)) allLeaves read) := by
  apply triple_kind
  intro first
  split
  · apply told_bind (h.clause _)
    intro clause fine
    exact told_pure (fun known => all_of_single (fine known)) fun _ => by simp
  · apply triple_bind (at_skip ⟨rfl, rfl⟩)
    intro _
    apply triple_bind (at_expect ⟨rfl, rfl⟩ _)
    intro _
    exact triple_imp (h.suite _) fun body rest told => ⟨fun known => (told.holds known).1, told.here⟩
  · exact triple_forget (told_pure (fun _ => all_of_nil) fun _ => (List.append_nil _).symm)

structure Continues (word : Compound) (opens : Prop) (orelse : List Node) : Prop where
  fine : AllOf (Fine opens) orelse
  alone : word = .choice ∨ orelse = []

theorem told_continuation (h : AccountsBlocks kinds sound opens blocks) (word : Compound) :
    Triple (Before kinds sound opens read) (continuation word blocks)
      (Behind kinds sound opens (Continues word opens) allLeaves read) := by
  have none : sound → Continues word opens [] := fun _ => ⟨all_of_nil, .inr rfl⟩
  cases word with
  | choice => exact triple_imp (told_else_branch h) fun orelse rest told => ⟨fun known => ⟨told.holds known, .inl rfl⟩, told.here⟩
  | loop | each =>
      apply triple_bind (triple_forbid _ _)
      intro _
      exact told_pure none fun _ => (List.append_nil _).symm
  | function => exact told_pure none fun _ => (List.append_nil _).symm

theorem told_compound {first : Keyword} (silent : (Token.Kind.keyword first).leaf? = none)
    (h : AccountsNested (passOf kinds sound opens) inner) (h' : AccountsBlocks kinds sound opens blocks) (word : Compound) :
    Triple (fun tokens => firstKind tokens = .keyword first ∧ Before kinds sound opens read tokens) (compoundStatement word inner blocks)
      (Behind kinds sound opens (Fine opens) leaves read) := by
  apply triple_bind (at_skip ⟨silent, rfl⟩)
  intro _
  apply told_bind (accounts_heading h word _ _)
  intro build builds
  apply triple_bind (at_expect ⟨rfl, rfl⟩ _)
  intro _
  apply told_bind (h'.suite _)
  intro body block
  apply told_bind (told_continuation h' word)
  intro orelse continues
  apply told_pure
  · exact fun known => (builds known).fine body orelse (block known) (continues known).fine
  · intro known
    rw [(builds known).leaves body orelse (continues known).alone, List.append_assoc, List.append_assoc]

theorem told_statement (h : AccountsNested (passOf kinds sound opens) inner) (h' : AccountsBlocks kinds sound opens blocks) :
    Triple (Before kinds sound opens read) (statement inner blocks) (Behind kinds sound opens (Body opens) allLeaves read) := by
  have alone {first : Keyword} (silent : (Token.Kind.keyword first).leaf? = none) (word : Compound) :
      Triple (fun tokens => firstKind tokens = .keyword first ∧ Before kinds sound opens read tokens)
        (do return [← compoundStatement word inner blocks]) (Behind kinds sound opens (Body opens) allLeaves read) := by
    apply told_bind (told_compound silent h h' word)
    intro node fine
    exact told_pure (fun known => body_single (fine known)) fun _ => by simp
  rw [statement, if_eq, while_eq, for_eq, function_eq]
  apply triple_kind
  intro first
  split
  · exact alone rfl .function
  · exact alone rfl .choice
  · exact alone rfl .loop
  · exact alone rfl .each
  · exact triple_fail _
  · exact triple_forget (told_simple_statements h)

theorem opens_behind {token : Token} {rest : List Token} (holds : Lexer.Opens (token :: rest)) (opens : token.kind = .indent) :
    firstKind rest ≠ .dedent := by
  cases rest with
  | nil => exact fun dedent => by cases dedent
  | cons next more => exact (List.isChain_cons_cons.mp holds).1 opens

theorem at_indent (what : Expected) :
    Triple (Before kinds sound opens read) (expect .indent what) fun _ rest =>
      (opens → firstKind rest ≠ .dedent) ∧ Before kinds sound opens read rest := by
  refine triple_if_kind (triple_skip ?_) (triple_fail _)
  rintro token rest ⟨indent, here⟩
  have same : token.kind = .indent := indent
  exact ⟨fun known => opens_behind (here.opens known) same, at_behind here (by rw [same]; exact ⟨rfl, rfl⟩)⟩

-- The statements of a block so far. There is one, unless no block closes as it opens.
def InBlock (kinds : List Token.Kind) (sound opens : Prop) (read : List Leaf) (body : List Node) (tokens : List Token) : Prop :=
  Behind kinds sound opens (AllOf (Fine opens)) allLeaves read body tokens ∧
    (sound → opens → body ≠ [] ∨ firstKind tokens ≠ .dedent)

theorem told_block (h : AccountsNested (passOf kinds sound opens) inner) (h' : AccountsBlocks kinds sound opens blocks)
    (strict : inner.test.Strict) :
    Triple (Before kinds sound opens read) (block inner blocks strict) (Behind kinds sound opens (Body opens) allLeaves read) := by
  have item (read : List Leaf) :
      Triple (Before kinds sound opens read) (blockStatement inner blocks) (Behind kinds sound opens (Body opens) allLeaves read) :=
    triple_if_kind (triple_fail _) (told_statement h h')
  have loop : Triple (InBlock kinds sound opens read []) (untilKind (· = .dedent) (blockStatement inner blocks)
      (strict_block_statement blocks strict)) fun body rest =>
        InBlock kinds sound opens read body rest ∧ decide (firstKind rest = .dedent) = true := by
    apply triple_until
    intro collected
    constructor
    rintro tokens ⟨told, _⟩ items rest run
    obtain ⟨body, here⟩ := (item _).holds tokens told.here items rest run
    refine ⟨⟨fun known => List.forall_mem_append.mpr ⟨told.holds known, (body known).1⟩, ?_⟩, fun known opened => .inl ?_⟩
    · rw [all_leaves_append, ← List.append_assoc]
      exact here
    · exact List.append_ne_nil_of_right_ne_nil _ ((body known).2 opened)
  apply at_if_accept ⟨rfl, rfl⟩
  · apply triple_bind (at_indent _)
    intro _
    have start : ∀ tokens, (opens → firstKind tokens ≠ .dedent) ∧ Before kinds sound opens read tokens →
        InBlock kinds sound opens read [] tokens := by
      rintro tokens ⟨goes, here⟩
      exact ⟨⟨fun _ => all_of_nil, by rwa [all_leaves_nil, List.append_nil]⟩, fun _ known => .inr (goes known)⟩
    apply triple_bind (triple_under loop start)
    intro body
    constructor
    rintro tokens ⟨⟨told, some⟩, closes⟩ final rest run
    have dedent := of_decide_eq_true closes
    have whole : sound → Body opens body := fun known =>
      ⟨told.holds known, fun opened => (some known opened).resolve_right fun goes => goes dedent⟩
    have taken : Triple (fun tokens => firstKind tokens = .dedent ∧ Before kinds sound opens (read ++ allLeaves body) tokens)
        (skip >>= fun _ => pure body) (Behind kinds sound opens (Body opens) allLeaves read) := by
      apply triple_bind (at_skip ⟨rfl, rfl⟩)
      intro _
      exact told_pure whole fun _ => rfl
    exact taken.holds tokens ⟨dedent, told.here⟩ final rest run
  · exact told_simple_statements h

theorem blocks_accounts (levels : Nat) : AccountsBlocks kinds sound opens (blocksFor levels) := by
  induction levels with
  | zero => exact ⟨fun _ => triple_fail _, fun _ => triple_fail _⟩
  | succ levels ih =>
      have nested := nested_accounts (passOf kinds sound opens) levels
      refine ⟨fun _ => told_block nested ih (strict_test levels), fun read => ?_⟩
      change Triple _ (ifStatement _ _) _
      rw [if_eq]
      exact told_compound rfl nested ih .choice

def Top (opens : Prop) (statement : Node) : Prop := Fine opens statement ∧ depth statement ≤ maxDepth

theorem told_top_statement :
    Triple (Before kinds sound opens read) topStatement (Behind kinds sound opens (AllOf (Top opens)) allLeaves read) := by
  apply triple_if_kind
  · apply triple_bind (at_skip ⟨rfl, rfl⟩)
    intro _
    exact told_pure (fun _ => all_of_nil) fun _ => (List.append_nil _).symm
  · apply triple_look
    intro place
    apply told_bind (told_statement (nested_accounts _ _) (blocks_accounts _))
    intro statements body
    apply triple_bind triple_require
    intro _
    apply triple_given
    intro low
    apply told_pure
    · exact fun known statement member => ⟨(body known).1 statement member, of_decide_eq_true (List.all_eq_true.mp low statement member)⟩
    · exact fun _ => rfl

-- What a program's tokens are for, up to those that are left at its end.
structure Accounted (tokens : List Token) (body : List Node) (rest : List Token) : Prop where
  statements : AllSound tokens → AllOf (Top (Lexer.Opens tokens)) body
  leaves : AllSound tokens → allLeaves body ++ leavesOf (rest.map (·.kind)) = leavesOf (tokens.map (·.kind))
  admits : ∃ front, tokens.map (·.kind) = front ++ rest.map (·.kind) ∧ Admits [] front []
  ended : firstKind rest = .eof

theorem program_accounted {tokens rest : List Token} {body : List Node} (run : program.run tokens = .ok (body, rest)) :
    Accounted tokens body rest := by
  have whole : Triple (Before (tokens.map (·.kind)) (AllSound tokens) (Lexer.Opens tokens) ([] ++ allLeaves [])) program fun body rest =>
      Behind (tokens.map (·.kind)) (AllSound tokens) (Lexer.Opens tokens) (AllOf (Top (Lexer.Opens tokens))) allLeaves [] body rest ∧
        decide (firstKind rest = .eof) = true := by
    refine told_start (triple_until fun collected => told_given fun start => ?_) fun _ => all_of_nil
    refine triple_imp told_top_statement fun items rest told => ⟨fun known => ?_, ?_⟩
    · exact List.forall_mem_append.mpr ⟨start known, told.holds known⟩
    · rw [all_leaves_append, ← List.append_assoc]
      exact told.here
  obtain ⟨told, ended⟩ := whole.holds tokens ⟨⟨id, id, [], rfl, rfl⟩, fun _ => rfl⟩ body rest run
  exact ⟨told.holds, told.here.ahead, told.here.taken, of_decide_eq_true ended⟩

theorem program_shaped {body : List Node} (h : AllOf IsStatement body) : WellShaped (.program body) :=
  ⟨rfl, .node (all_places h) (all_shaped h)⟩

theorem parse_runs {source : String} {tree : Tree} (h : Tree.parse source = .ok tree) :
    ∃ tokens body rest, tokenize source = .ok tokens ∧ program.run tokens = .ok (body, rest) ∧ tree = .ofBody body := by
  cases read : tokenize source with
  | error e =>
      rw [Tree.parse, read] at h
      cases h
  | ok tokens =>
      have parsed : treeOf tokens = .ok tree := by
        rw [Tree.parse, read] at h
        exact h
      obtain ⟨⟨body, rest⟩, run, rfl⟩ := ok_of_map parsed
      exact ⟨tokens, body, rest, rfl, run, rfl⟩

theorem parse_shaped {source : String} {tree : Tree} (h : Tree.parse source = .ok tree) :
    WellShaped tree.root := by
  obtain ⟨tokens, body, rest, read, run, rfl⟩ := parse_runs h
  have statements := (program_accounted run).statements (tokenize_sound read)
  exact program_shaped fun statement member => (statements statement member).1.1

theorem parse_shallow {source : String} {tree : Tree} (h : Tree.parse source = .ok tree) :
    ∀ s ∈ tree.root.children, depth s ≤ maxDepth := by
  obtain ⟨tokens, body, rest, read, run, rfl⟩ := parse_runs h
  have statements := (program_accounted run).statements (tokenize_sound read)
  exact fun statement member => (statements statement member).2

end Mutagen.Grammar
