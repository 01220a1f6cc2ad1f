import Mutagen.Proofs.Arena.Expression

set_option autoImplicit false

namespace Mutagen.Builder

open Token (Kind)
open Mutagen.Parser (firstKind kind secondKind span skip accept expect expectMark expectKeyword forbid require failAt failWith
  Step linkedBy)
open Mutagen.Arena (Grown Extends grown_refl grown_extend grown_append)

variable {all : List String} {α β γ δ : Type} {tokens : List Token} {inner : Grammar.Nested} {inner' : Nested}
  {base a : Arena} {ids ids' : List NodeId} {nodes nodes' targets : List Node} {place : Span}

section targets

variable {p : Parser γ} {g : Unit → Builder δ} {S : γ → δ → Arena → Prop}

theorem builds_store (grown : Grown base a (ids ++ ids') (nodes ++ nodes')) (length : ids.length = nodes.length)
    (bound : Node.targets? nodes = some targets)
    (behind : ∀ b, Grown base b (ids ++ ids') (targets ++ nodes') → Builds all tokens p b (g ()) S) :
    Builds all tokens p a (store ids place >>= g) S := by
  intro interns
  have marked := Arena.grown_store grown length
  rw [bound] at marked
  obtain ⟨b, run, grown, symbols⟩ := marked
  have stored : store ids place a = pure ((), b) := by
    rw [store, run]
  have same : (store ids place >>= g) a = g () b := by
    show store ids place a >>= (fun result => g result.1 result.2) = _
    rw [stored, pure_bind]
  rw [same]
  obtain ⟨before, names, whole⟩ := interns
  exact behind b grown ⟨before, symbols.trans names, whole⟩

theorem builds_no_store {f : α → Parser γ} (grown : Grown base a (ids ++ ids') (nodes ++ nodes'))
    (length : ids.length = nodes.length) (bound : Node.targets? nodes = none) :
    Builds all tokens (failAt .assignmentTarget place >>= f) a (store ids place >>= g) S := by
  intro _
  have marked := Arena.grown_store grown length
  rw [bound] at marked
  have stored : store ids place a = failAt .assignmentTarget place := by
    rw [store, marked]
  show ((store ids place a >>= fun result => g result.1 result.2).run tokens) = _
  rw [stored]
  rfl

end targets

theorem gives_expression_list (h : GivesNested all inner inner') :
    Gives all (Grammar.expressionList inner) (expressionList inner') :=
  gives_list_of h.test

theorem gives_optional_list (h : GivesNested all inner inner') :
    GivesOptional all (Grammar.optionalList inner) (optionalList inner') := by
  intro tokens a
  apply builds_look
  apply builds_ite
  · intro _
    apply builds_next (gives_expression_list h) (grown_refl a)
    intro value value' b rest _ grown
    exact builds_pure grown
  · exact fun _ => builds_pure (grown_refl a)

theorem targets_one (node : Node) : Node.targets? [node] = node.target?.map ([·]) := by
  rw [Node.targets?, Node.targets?]
  cases node.target? <;> rfl

theorem single_target {node target : Node} (h : node.singleTarget? = some target) : Node.targets? [node] = some [target] := by
  have bound : node.target? = some target := by
    cases node <;> first | exact h | cases h
  rw [targets_one, bound]
  rfl

theorem single_like {name? : Symbol → Option String} {cell : Cell} {node : Node} (like : cell.Like name? node) :
    isSingleTarget cell = node.singleTarget?.isSome := by
  cases cell <;> cases node <;> first | rfl | exact like.elim

def SameLists (base : Arena) (lists : List Node × Node) (lists' : List NodeId × NodeId) (a : Arena) : Prop :=
  Grown base a (lists'.1 ++ [lists'.2]) (lists.1 ++ [lists.2])

theorem gives_assigned (h : GivesNested all inner inner') {first : Node} {first' : NodeId}
    (grown : Grown base a [first'] [first]) :
    Builds all tokens (Grammar.assigned inner first) a (assigned inner' first') (SameLists base) := by
  have start : SameLists base ([], first) ([], first') a := grown
  refine builds_chain (fun _ _ _ linked => linked_plain rfl linked) (fun tokens _ _ lists lists' b _ same => ?_) start
  apply builds_next (gives_expression_list h) same
  intro value value' c rest _ grown
  exact builds_pure grown

-- The target of an augmented assignment is looked at behind the operator.
theorem augmented_run {op : ArithmeticOp} (first : firstKind tokens = .augAssign op) (target : Option Node)
    (f : Node → Unit → Parser α) :
    (Grammar.orRefuse target .augmentedTarget place >>= fun target => skip >>= f target).run tokens =
      (skip >>= fun _ => Grammar.orRefuse target .augmentedTarget place >>= fun target => f target ()).run tokens := by
  cases tokens with
  | nil => cases first
  | cons token rest => cases target <;> rfl

theorem gives_augmented (h : GivesNested all inner inner') {op : ArithmeticOp} {first : Node} {first' : NodeId}
    (found : firstKind tokens = .augAssign op) (grown : Grown base a [first'] [first]) :
    Builds all tokens
      (do
        let target ← Grammar.orRefuse first.singleTarget? .augmentedTarget place
        skip
        return .augAssign target op (← Grammar.expressionList inner))
      a
      (do
        skip
        if ((← get).cell? first').any isSingleTarget then
          store [first'] place
          alloc (.augAssign first' op (← expressionList inner'))
        else failAt (α := NodeId) .augmentedTarget place)
      fun node id b => Grown base b [id] [node] := by
  apply builds_run_eq (augmented_run found _ _)
  apply builds_skip (found ▸ rfl)
  intro rest
  apply builds_get
  have single : (a.cell? first').any isSingleTarget = first.singleTarget?.isSome := by
    obtain ⟨below, held, _⟩ := grown.held
    cases held with
    | cons cell like _ _ => rw [cell, Option.any_some, single_like like]
  cases target : first.singleTarget? with
  | none =>
      rw [if_neg (by simp [single, target])]
      exact builds_fail _
  | some target =>
      rw [if_pos (by rw [single, ‹first.singleTarget? = _›]; rfl)]
      have alone : Grown base a ([first'] ++ []) ([first] ++ []) := grown
      apply builds_store alone rfl (single_target ‹_›)
      intro b grown
      apply builds_next (gives_expression_list h) grown
      intro value value' c rest _ grown
      exact builds_alloc grown rfl

theorem gives_expression_statement (h : GivesNested all inner inner') :
    Gives all (Grammar.expressionStatement inner) (expressionStatement inner') := by
  intro tokens a
  apply builds_look
  apply builds_next (gives_expression_list h) (grown_refl a)
  intro first first' b rest _ grown
  apply builds_kind
  intro next found
  cases next with
  | augAssign op => exact gives_augmented h found grown
  | mark m =>
      cases m with
      | equal =>
          apply builds_bind (gives_assigned h grown)
          rintro ⟨targets, value⟩ ⟨targets', value'⟩ c rest _ same
          have length : targets'.length = targets.length := by
            simpa using Arena.grown_length same
          dsimp only
          cases bound : Node.targets? targets with
          | none => exact builds_no_store same length bound
          | some marked =>
              apply builds_store same length bound
              intro d grown
              exact builds_alloc grown trivial
      | _ => exact builds_alloc grown trivial
  | _ => exact builds_alloc grown trivial

theorem gives_assert (h : GivesNested all inner inner') :
    Gives all (Grammar.assertStatement inner) (assertStatement inner') := by
  intro tokens a
  apply builds_next h.test (grown_refl a)
  intro test test' b rest _ grown
  apply builds_accept rfl
  intro explained rest
  apply builds_ite
  · intro _
    apply builds_next h.test grown
    intro message message' c rest _ grown
    exact builds_alloc grown trivial
  · exact fun _ => builds_alloc grown trivial

theorem gives_small_statement (h : GivesNested all inner inner') :
    Gives all (Grammar.smallStatement inner) (smallStatement inner') := by
  intro tokens a
  apply builds_kind
  intro first found
  cases first with
  | keyword word =>
      cases word with
      | kwPass | kwBreak | kwContinue =>
          exact builds_skip (found ▸ rfl) fun rest => builds_alloc (grown_refl a) trivial
      | kwReturn =>
          apply builds_skip (found ▸ rfl)
          intro rest
          apply builds_bind (gives_optional_list h _ _)
          intro value value' b rest _ grown
          exact builds_alloc grown trivial
      | kwRaise =>
          apply builds_skip (found ▸ rfl)
          intro rest
          apply builds_bind (gives_optional_test h _ _)
          intro exception exception' b rest _ grown
          exact builds_alloc grown trivial
      | kwAssert =>
          apply builds_skip (found ▸ rfl)
          intro rest
          exact gives_assert h _ _
      | _ => exact gives_expression_statement h _ _
  | _ => exact gives_expression_statement h _ _

theorem gives_simple_statements (h : GivesNested all inner inner') :
    GivesAll all (Grammar.simpleStatements inner) (simpleStatements inner') := by
  intro tokens a
  have small := gives_small_statement h
  apply builds_next small (grown_refl a)
  intro first first' b rest _ grown
  refine builds_bind (builds_chain (I := fun nodes ids b => Grown a b ids nodes) (fun _ _ _ linked => linked_plain rfl linked)
    (fun tokens _ _ nodes ids b _ grown => ?_) grown) fun nodes ids c rest _ grown => ?_
  · apply builds_look
    apply builds_ite
    · exact fun _ => builds_pure grown
    · intro _
      apply builds_bind (builds_append small grown)
      intro nodes ids c rest _ grown
      exact builds_pure grown
  · apply builds_expect rfl
    intro rest
    exact builds_pure grown

structure GivesBlocks (all : List String) (blocks : Grammar.Blocks) (blocks' : Blocks) : Prop where
  suite : GivesAll all blocks.suite blocks'.suite
  clause : ∀ tokens a, (firstKind tokens).name? = none →
    Builds all tokens blocks.clause a blocks'.clause fun node id b => Grown a b [id] [node]

variable {blocks : Grammar.Blocks} {blocks' : Blocks}

theorem builds_one {p : Parser Node} {build : Builder NodeId}
    (h : Builds all tokens p a build fun node id b => Grown a b [id] [node]) :
    Builds all tokens (do return [← p]) a (do return [← build]) fun nodes ids b => Grown a b ids nodes :=
  builds_bind h fun _ _ _ _ _ grown => builds_pure grown

theorem builds_suite (h : GivesBlocks all blocks blocks') {f : List Node → Parser γ} {g : List NodeId → Builder δ}
    {S : γ → δ → Arena → Prop} (grown : Grown base a ids nodes)
    (behind : ∀ body body' b rest, Extends a b → Grown base b (ids ++ body') (nodes ++ body) → Grown a b body' body →
      Builds all rest (f body) b (g body') S) :
    Builds all tokens (blocks.suite >>= f) a (blocks'.suite >>= g) S :=
  builds_bind (h.suite tokens a) fun body body' b rest _ more =>
    behind body body' b rest more.grows (grown_append grown more) more

theorem gives_function_def (h : GivesNested all inner inner') (h' : GivesBlocks all blocks blocks')
    (plain : (firstKind tokens).name? = none) :
    Builds all tokens (Grammar.functionDef inner blocks) a (functionDef inner' blocks') fun node id b =>
      Grown a b [id] [node] := by
  apply builds_skip plain
  intro rest
  apply builds_name
  intro id name b grows stands
  apply builds_mark
  intro rest
  apply builds_bind (gives_parameters h _ _ _)
  intro params params' c rest _ same
  apply builds_mark
  intro rest
  apply builds_mark
  intro rest
  have defaults := grown_append (grown_extend (grown_refl a) grows) same.defaults
  apply builds_suite h' defaults
  intro body body' d rest further grown _
  have known := further.names _ _ (same.defaults.grows.names _ _ stands)
  exact builds_alloc grown ⟨known, Arena.stand_mono same.names further.names, Arena.grown_length same.defaults⟩

theorem gives_else_branch (h' : GivesBlocks all blocks blocks') :
    GivesAll all (Grammar.elseBranch blocks) (elseBranch blocks') := by
  intro tokens a
  apply builds_kind
  intro first found
  cases first with
  | keyword word =>
      cases word with
      | kwElif => exact builds_one (h'.clause _ _ (found ▸ rfl))
      | kwElse =>
          apply builds_skip (found ▸ rfl)
          intro rest
          apply builds_mark
          intro rest
          exact h'.suite _ _
      | _ => exact builds_pure (grown_refl a)
  | _ => exact builds_pure (grown_refl a)

theorem gives_if (h : GivesNested all inner inner') (h' : GivesBlocks all blocks blocks')
    (plain : (firstKind tokens).name? = none) :
    Builds all tokens (Grammar.ifStatement inner blocks) a (ifStatement inner' blocks') fun node id b =>
      Grown a b [id] [node] := by
  apply builds_skip plain
  intro rest
  apply builds_next h.test (grown_refl a)
  intro test test' b rest _ grown
  apply builds_mark
  intro rest
  apply builds_suite h' grown
  intro body body' c rest _ grown more
  apply builds_bind (gives_else_branch h' _ _)
  intro orelse orelse' d rest _ last
  have children := grown_append grown last
  simp only [List.append_assoc] at children
  exact builds_alloc children (Arena.grown_length more)

theorem gives_while (h : GivesNested all inner inner') (h' : GivesBlocks all blocks blocks')
    (plain : (firstKind tokens).name? = none) :
    Builds all tokens (Grammar.whileStatement inner blocks) a (whileStatement inner' blocks') fun node id b =>
      Grown a b [id] [node] := by
  apply builds_skip plain
  intro rest
  apply builds_next h.test (grown_refl a)
  intro test test' b rest _ grown
  apply builds_mark
  intro rest
  apply builds_suite h' grown
  intro body body' c rest _ grown _
  apply builds_forbid
  intro rest
  exact builds_alloc grown trivial

theorem gives_for (h : GivesNested all inner inner') (h' : GivesBlocks all blocks blocks')
    (plain : (firstKind tokens).name? = none) :
    Builds all tokens (Grammar.forStatement inner blocks) a (forStatement inner' blocks') fun node id b =>
      Grown a b [id] [node] := by
  apply builds_skip plain
  intro rest
  apply builds_look
  apply builds_next (gives_list_of (gives_bit_or h)) (grown_refl a)
  intro items items' b rest _ grown
  have alone : Grown a b ([items'] ++ []) ([items] ++ []) := grown
  cases bound : items.target? with
  | none => exact builds_no_store alone rfl (by rw [targets_one, bound]; rfl)
  | some target =>
      apply builds_store alone rfl (by rw [targets_one, bound]; rfl)
      intro c grown
      apply builds_expect rfl
      intro rest
      apply builds_next (gives_expression_list h) grown
      intro iterable iterable' d rest _ grown
      apply builds_mark
      intro rest
      apply builds_suite h' grown
      intro body body' e rest _ grown _
      apply builds_forbid
      intro rest
      exact builds_alloc grown trivial

theorem gives_statement (h : GivesNested all inner inner') (h' : GivesBlocks all blocks blocks') :
    GivesAll all (Grammar.statement inner blocks) (statement inner' blocks') := by
  intro tokens a
  apply builds_kind
  intro first found
  cases first with
  | keyword word =>
      cases word with
      | kwDef => exact builds_one (gives_function_def h h' (found ▸ rfl))
      | kwIf => exact builds_one (gives_if h h' (found ▸ rfl))
      | kwWhile => exact builds_one (gives_while h h' (found ▸ rfl))
      | kwFor => exact builds_one (gives_for h h' (found ▸ rfl))
      | _ => exact gives_simple_statements h _ _
  | indent => exact builds_fail _
  | _ => exact gives_simple_statements h _ _

theorem gives_block (h : GivesNested all inner inner') (h' : GivesBlocks all blocks blocks') (strict : inner.test.Strict)
    (strict' : Strict inner'.test) : GivesAll all (Grammar.block inner blocks strict) (block inner' blocks' strict') := by
  intro tokens a
  apply builds_accept rfl
  intro indented rest
  apply builds_ite
  · intro _
    apply builds_expect rfl
    intro rest
    have item : GivesAll all (Grammar.blockStatement inner blocks) (blockStatement inner' blocks') := by
      intro tokens a
      apply builds_look
      apply builds_ite
      · exact fun _ => builds_fail _
      · exact fun _ => gives_statement h h' _ _
    apply builds_bind (builds_until (Grammar.strict_block_statement blocks strict) (strict_block_statement blocks' strict') item
      rest a)
    intro body body' b rest run grown
    have stopped := Parser.until_stops run
    apply builds_skip (by rw [of_decide_eq_true stopped]; rfl)
    intro rest
    exact builds_pure grown
  · exact fun _ => gives_simple_statements h _ _

theorem gives_blocks (levels : Nat) : GivesBlocks all (Grammar.blocksFor levels) (blocksFor levels) := by
  induction levels with
  | zero => exact ⟨fun _ _ => builds_fail _, fun _ _ _ => builds_fail _⟩
  | succ levels ih =>
      have inner : GivesNested all (Grammar.nested levels) (nested levels) := gives_nested levels
      exact ⟨gives_block inner ih (Grammar.strict_test levels) (strict_test levels), fun _ _ plain => gives_if inner ih plain⟩

end Mutagen.Builder
