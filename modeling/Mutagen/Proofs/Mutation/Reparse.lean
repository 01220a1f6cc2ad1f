import Mutagen.Proofs.Mutation.Outcomes
import Mutagen.Proofs.Mutation.Shape

set_option autoImplicit false

namespace Mutagen

open Node Grammar Mutation

-- A text of the tree: it is read again if the tree keeps to the limits, and breaks a limit otherwise.
def RereadsWithin (tree : Tree) (text : String) : Prop :=
  (WithinLimits (fill tree.root) → ∃ again, Tree.parse text = .ok again) ∧
    (¬ WithinLimits (fill tree.root) → ∃ e, Tree.parse text = .error e ∧ e.cause.isLimit = true)

variable {code : String} {tree : Tree}

theorem shaped_rereads (h : ShapedTree tree) : RereadsWithin tree tree.render :=
  ⟨fun limits => ⟨_, (fill_parses h).1 limits⟩, (fill_parses h).2⟩

theorem adjust_leads (config : Config) (candidates : List Path) :
    Draws (adjustExpression config tree candidates) fun outcome => Leads tree outcome.tree :=
  fun words => Leads.start.step (.adjust config candidates) words

theorem replace_leads (candidates : List Path) :
    Draws (replaceVariable tree candidates) fun outcome => Leads tree outcome.tree :=
  fun words => Leads.start.step (.replace candidates) words

-- The text itself, or the text of a mutated tree.
def Mutant (code : String) (tree : Tree) (report : Report) : Prop :=
  report.result = .ok code ∨ ∃ changed, Leads tree changed ∧ report.result = .ok changed.render

theorem mutate_mutant (parsed : Tree.parse code = .ok tree) (config : Config) :
    Draws (mutate config code) (Mutant code tree) := by
  rw [mutate, parsed]
  refine draws_then fun forVariable => draws_ite ?_ ?_
  · exact draws_bind (replace_leads _) fun outcome leads => draws_pure (.inr ⟨outcome.tree, leads, rfl⟩)
  · exact draws_bind (adjust_leads config _) fun outcome leads => draws_pure (.inr ⟨outcome.tree, leads, rfl⟩)

theorem mutate_expression_mutant (parsed : Tree.parse code = .ok tree) (config : Config) :
    Draws (mutateExpression config code) (Mutant code tree) := by
  rw [mutateExpression, parsed]
  refine draws_bind (adjust_leads config _) fun outcome leads => draws_ite ?_ ?_
  · exact draws_pure (.inl rfl)
  · exact draws_pure (.inr ⟨outcome.tree, leads, rfl⟩)

theorem mutate_variable_mutant (parsed : Tree.parse code = .ok tree) :
    Draws (mutateVariable code) (Mutant code tree) := by
  rw [mutateVariable, parsed]
  refine draws_ite (draws_pure (.inl rfl)) (draws_bind (replace_leads _) fun outcome leads => draws_ite ?_ ?_)
  · exact draws_pure (.inl rfl)
  · exact draws_pure (.inr ⟨outcome.tree, leads, rfl⟩)

/-- Every mutant of a program is the program's own text, or the text of a changed tree that is read again as this tree,
its empty blocks filled, unless it breaks a limit of the parser. -/
theorem mutants_parse_or_limit (parsed : Tree.parse code = .ok tree) (config : Config) (words : Words) :
    ∀ draw ∈ [mutate config code, mutateExpression config code, mutateVariable code],
      ∃ text, (draw words).1.result = .ok text ∧
        (text = code ∨ ∃ changed, Leads tree changed ∧ text = changed.render ∧ RereadsWithin changed text) := by
  have each {draw : Draw Report} (h : Draws draw (Mutant code tree)) : ∃ text, (draw words).1.result = .ok text ∧
      (text = code ∨ ∃ changed, Leads tree changed ∧ text = changed.render ∧ RereadsWithin changed text) := by
    rcases h words with verbatim | ⟨changed, leads, result⟩
    · exact ⟨code, verbatim, .inl rfl⟩
    · have rereads := shaped_rereads (leads_shaped (parse_shaped parsed) leads)
      exact ⟨changed.render, result, .inr ⟨changed, leads, rfl, rereads⟩⟩
  intro draw member
  simp only [List.mem_cons, List.not_mem_nil, or_false] at member
  rcases member with rfl | rfl | rfl
  · exact each (mutate_mutant parsed config)
  · exact each (mutate_expression_mutant parsed config)
  · exact each (mutate_variable_mutant parsed)

theorem mutants_parse_or_limit_sum : Tree.parse sumTree.render = .ok sumTree ∧
    ∃ text, (mutateVariable sumTree.render (.ofList [])).1.result = .ok text ∧
      (text = sumTree.render ∨ ∃ changed, Leads sumTree changed ∧ text = changed.render ∧ RereadsWithin changed text) :=
  ⟨sum_parse, mutants_parse_or_limit sum_parse {} (.ofList []) _ (by simp)⟩

-- A program that takes every level the parser admits: signs in front of a negation. A second negation
-- among the signs needs parentheses, and with them a level more.
def signsBefore (n : Nat) (value : Node) : Node := Nat.repeat (.unaryOp .usub) n value

def negation (value : Node) : Node := .unaryOp .not value

def deepTree : Tree := .ofBody [.exprStmt (signsBefore 97 (negation (.name "x" .load)))]

def deeperTree : Tree := modifyAt deepTree [0, 0, 0] fun _ => negation (signsBefore 95 (negation (.name "x" .load)))

theorem before_formed (n : Nat) : (signsBefore n (negation (.name "x" .load))).place = .value ∧
    Everywhere Shaped (signsBefore n (negation (.name "x" .load))) := by
  have identifier : isIdentifier "x" = true := by decide +kernel
  induction n with
  | zero => exact ⟨rfl, .only rfl rfl (.leaf identifier rfl)⟩
  | succ n ih => exact ⟨rfl, .only ih.1 rfl ih.2⟩

theorem line_formed {value : Node} (place : value.place = .value) (shaped : Everywhere Shaped value) :
    WellFormed (.program [.exprStmt value]) := by
  have filled := expression_filled shaped (inside_value place)
  have statements : Shaped (.program [.exprStmt value]) := List.forall_mem_singleton.mpr (List.mem_singleton.mpr rfl)
  exact ⟨⟨rfl, .only statements rfl (.only place rfl shaped)⟩, .only trivial rfl (.only trivial rfl filled)⟩

theorem deep_parse : Tree.parse deepTree.render = .ok deepTree := by
  refine parse_render (line_formed (before_formed 97).1 (before_formed 97).2) fun s member => ?_
  rw [List.mem_singleton.mp member]
  exact ⟨by decide +kernel, by decide +kernel⟩

theorem deeper_fails (tree : Tree) : Tree.parse deeperTree.render ≠ .ok tree := by
  have shaped : Everywhere Shaped (.unaryOp .usub (negation (signsBefore 95 (negation (.name "x" .load))))) :=
    .only rfl rfl (.only (before_formed 95).1 rfl (before_formed 95).2)
  generalize line : Node.unaryOp .usub (negation (signsBefore 95 (negation (.name "x" .load)))) = value at shaped
  have many : levels (.exprStmt value) = 101 := by
    rw [← line]
    decide +kernel
  have root : deeperTree.root = .program [.exprStmt value] := by
    rw [← line]
    rfl
  have place : value.place = .value := by
    rw [← line]
    rfl
  have beyond : ¬ WithinLimits (.program [.exprStmt value]) := by
    intro within
    have low := (within _ (List.mem_singleton.mpr rfl)).1
    rw [many] at low
    exact absurd low (by decide)
  obtain ⟨e, failed, _⟩ := render_beyond_limits (line_formed place shaped) beyond
  rw [Tree.render, root, failed]
  exact fun equal => by cases equal

theorem adjusted_result (parsed : Tree.parse code = .ok tree) {config : Config} {words : Words} {mutation : Mutation}
    (applied : (adjustExpression config tree tree.root.expressionPaths words).1.mutation = some mutation) :
    (mutateExpression config code words).1.result =
      .ok (adjustExpression config tree tree.root.expressionPaths words).1.tree.render := by
  simp only [mutateExpression, parsed]
  generalize adjustExpression config tree tree.root.expressionPaths = adjust at applied ⊢
  rw [bind_apply, applied]
  rfl

theorem deep_mutant_fails : Tree.parse deepTree.render = .ok deepTree ∧
    (mutateExpression {} deepTree.render (.ofList [43826197, 1073741824])).1.result = .ok deeperTree.render ∧
    ∀ tree, Tree.parse deeperTree.render ≠ .ok tree := by
  have applied :
      (adjustExpression {} deepTree deepTree.root.expressionPaths (.ofList [43826197, 1073741824])).1.mutation =
        some ⟨[0, 0, 0], .unaryOp⟩ := by decide +kernel
  have changed :
      (adjustExpression {} deepTree deepTree.root.expressionPaths (.ofList [43826197, 1073741824])).1.tree.render =
        deeperTree.render := by decide +kernel
  refine ⟨deep_parse, ?_, deeper_fails⟩
  rw [adjusted_result deep_parse applied, changed]

end Mutagen
