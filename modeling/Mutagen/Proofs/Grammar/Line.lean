import Mutagen.Grammar.Statement
import Mutagen.Proofs.Grammar.Expression
import Mutagen.Proofs.Node.Rows
import Mutagen.Proofs.Node.Target

set_option autoImplicit false

namespace Mutagen.Grammar

open Mutagen.Parser Mutagen.Node

variable {kinds rest : List Token.Kind} {fits : Prop} {node value : Node} {m : Nat}

theorem reads_list_of {item : Parser Node} (h : Reads item fits kinds node rest) (alone : firstOf rest ≠ .mark .comma) :
    Reads (listOf item) fits kinds node rest :=
  reads_first h (reads_kind (reads_neg alone (reads_pure node rest)))

theorem reads_expressions (h : Readable node) (m : Nat) (stops : Stops .tuple rest) :
    Reads (expressionList (nested m)) (levels node + 1 ≤ m) (tokensAt .tuple node ++ rest) node rest := by
  rw [tokens_at_tuple]
  exact reads_list_of (reads_test h m (stops_next stops)) (not_continued stops rfl (Nat.le_refl _))

theorem readable_target (h : AsTarget node) : Readable (asValue node) := readable_value _ h.shaped h.place

theorem reads_target (h : AsTarget node) (m : Nat) (stops : Stops .tuple rest) :
    Reads (expressionList (nested m)) (levels node + 1 ≤ m) (tokensAt .tuple node ++ rest) (asValue node) rest := by
  have reads := reads_expressions (readable_target h) m stops
  rw [tokens_at_tuple, h.tokens, h.levels] at reads
  rw [tokens_at_tuple]
  exact reads

theorem starts_target (h : AsTarget node) : Starts .test (tokensAt .tuple node) := by
  rw [tokens_at_tuple, ← h.tokens]
  exact starts_test (readable_target h)

theorem starts_plain {level : Precedence} {words : List Token.Kind} (h : Starts level kinds)
    (plain : ∀ kind ∈ words, opening? kind = none) (rest : List Token.Kind) : firstOf (kinds ++ rest) ∉ words :=
  fun member => starts_other h (plain _ member) rest rfl

theorem reads_found {α β : Type} {f : β → Parser α} {found : β} {a : α} {cause : ParseError.Cause} {place : Span}
    {target : Option β} (same : target = some found) (h : Reads (f found) fits kinds a rest) :
    Reads (orRefuse target cause place >>= f) fits kinds a rest := by
  subst same
  exact reads_then (reads_pure found kinds) h

def smallWords : List Token.Kind :=
  [.keyword .kwPass, .keyword .kwBreak, .keyword .kwContinue, .keyword .kwReturn, .keyword .kwRaise, .keyword .kwAssert]

theorem reads_small_expression (other : firstOf kinds ∉ smallWords) (h : Reads (expressionStatement (nested m)) fits kinds node rest) :
    Reads (smallStatement (nested m)) fits kinds node rest := by
  refine reads_kind ?_
  split
  all_goals first
    | exact h
    | exact absurd (by simp_all [smallWords]) other

theorem reads_assigned {targets : List Node} (all : ∀ target ∈ targets, AsTarget target) (hv : Readable value) (m : Nat)
    (stops : Stops .tuple rest) (last : firstOf rest ≠ .mark .equal) (front : List Node) (first : Node) :
    Reads (chain (linkedBy (.mark .equal)) (fun (targets, value) _ => do
        return .again (targets ++ [value], ← expressionList (nested m))) (front, first))
      ((∀ target ∈ targets, levels target + 1 ≤ m) ∧ levels value + 1 ≤ m)
      (targets.flatMap (fun target => .mark .equal :: tokensAt .tuple target) ++ .mark .equal :: (tokensAt .tuple value ++ rest))
      (front ++ first :: targets.map asValue, value) rest := by
  induction targets generalizing front first with
  | nil =>
      have reads := reads_expressions hv m stops
      refine reads_iff (reads_chain_again (linked_by _ _) (reads_return reads fun value => Step.again (front ++ [first], value))
        (reads_chain_stop _ (not_linked last))) ?_
      simp
  | cons target targets ih =>
      have equals : ∀ more, Stops .tuple (.mark .equal :: more) := fun more => stops_none rfl
      have behind : ∃ more, targets.flatMap (fun target => .mark .equal :: tokensAt .tuple target) ++
          .mark .equal :: (tokensAt .tuple value ++ rest) = .mark .equal :: more := by
        cases targets <;> exact ⟨_, rfl⟩
      obtain ⟨more, shape⟩ := behind
      have others := ih (fun other member => all other (by simp [member])) (front ++ [first]) (asValue target)
      rw [shape, List.append_assoc, List.singleton_append] at others
      have reads := reads_target (all target (by simp)) m (equals more)
      rw [List.flatMap_cons, List.cons_append, List.cons_append, List.append_assoc, shape]
      refine reads_iff (reads_chain_again (linked_by _ _) (reads_return reads fun value => Step.again (front ++ [first], value))
        others) ?_
      rw [List.forall_mem_cons, and_assoc]

theorem assign_tokens (target : Node) (targets : List Node) (value : Node) (rest : List Token.Kind) :
    header (.assign (target :: targets) value) ++ rest = tokensAt .tuple target ++
      (targets.flatMap (fun target => .mark .equal :: tokensAt .tuple target) ++ .mark .equal :: (tokensAt .tuple value ++ rest)) := by
  have same : header (.assign (target :: targets) value) =
    ((target :: targets).map fun target => tokensAt .tuple target ++ [.mark .equal]).flatten ++ tokensAt .tuple value := rfl
  rw [same]
  induction targets generalizing target with
  | nil => simp
  | cons other targets ih =>
      have tail := ih other rfl
      simp only [List.map_cons, List.flatten_cons, List.append_assoc, List.flatMap_cons, List.cons_append, List.nil_append] at tail ⊢
      rw [tail]

theorem reads_assign {target : Node} {targets : List Node} (all : ∀ x ∈ target :: targets, AsTarget x) (hv : Readable value) (m : Nat) :
    Reads (expressionStatement (nested m)) (levels (.assign (target :: targets) value) ≤ m)
      (header (.assign (target :: targets) value) ++ .newline :: rest) (.assign (target :: targets) value) (.newline :: rest) := by
  have others := reads_assigned (fun x member => all x (List.mem_cons_of_mem _ member)) hv m
    (stops_none (show continues? (firstOf (.newline :: rest)) = none from rfl)) (by simp [firstOf]) [] (asValue target)
  have bound : targets? ([] ++ asValue target :: targets.map asValue) = some (target :: targets) :=
    targets_map fun x member => (all x member).bound
  have fits : levels (.assign (target :: targets) value) ≤ m ↔
      levels target + 1 ≤ m ∧ (∀ x ∈ targets, levels x + 1 ≤ m) ∧ levels value + 1 ≤ m := by
    rw [levels_le, edges, List.forall_mem_map, List.forall_mem_append, List.forall_mem_cons, List.forall_mem_singleton, and_assoc]
  obtain ⟨more, shape⟩ : ∃ more, targets.flatMap (fun target => .mark .equal :: tokensAt .tuple target) ++
      .mark .equal :: (tokensAt .tuple value ++ .newline :: rest) = .mark .equal :: more := by
    cases targets <;> exact ⟨_, rfl⟩
  rw [assign_tokens, shape]
  rw [shape] at others
  have first := reads_target (all target (by simp)) m (stops_none (show continues? (firstOf (.mark .equal :: more)) = none from rfl))
  have binds : ∀ place, Reads (orRefuse (targets? ([] ++ asValue target :: targets.map asValue)) .assignmentTarget place >>=
      fun targets => pure (Node.assign targets value)) True (.newline :: rest) (.assign (target :: targets) value) (.newline :: rest) :=
    fun place => reads_found bound (reads_pure _ _)
  exact reads_iff (reads_span fun place => reads_bind first (reads_kind (reads_first others (binds place)))) fits.symm

theorem reads_augmented {target : Node} {op : ArithmeticOp} (ht : AsTarget target) (single : target.place = .single)
    (hv : Readable value) (m : Nat) :
    Reads (expressionStatement (nested m)) (levels (.augAssign target op value) ≤ m)
      (header (.augAssign target op value) ++ .newline :: rest) (.augAssign target op value) (.newline :: rest) := by
  have shape : header (.augAssign target op value) ++ .newline :: rest =
      tokensAt .tuple target ++ .augAssign op :: (tokensAt .tuple value ++ .newline :: rest) := by
    rw [header, List.append_assoc, List.cons_append]
  have stops : ∀ more, Stops .tuple (.augAssign op :: more) := fun more => stops_none rfl
  have first := reads_target ht m (stops (tokensAt .tuple value ++ .newline :: rest))
  have second := reads_expressions hv m (stops_none (show continues? (firstOf (.newline :: rest)) = none from rfl))
  rw [shape]
  refine reads_iff (reads_span fun place => reads_bind first (reads_kind (reads_found (single_target single)
    (reads_skip (reads_return second _))))) ?_
  rw [levels_le]
  simp [edges]

theorem reads_plain (hv : Readable value) (m : Nat) :
    Reads (expressionStatement (nested m)) (levels (.exprStmt value) ≤ m) (header (.exprStmt value) ++ .newline :: rest)
      (.exprStmt value) (.newline :: rest) := by
  have first := reads_expressions hv m (stops_none (show continues? (firstOf (.newline :: rest)) = none from rfl))
  rw [header]
  refine reads_iff (reads_span fun place => reads_first first (reads_kind (reads_pure _ _))) ?_
  rw [levels_le]
  simp [edges]

theorem reads_assert {test : Node} {message : Option Node} (ht : Readable test) (hm : ∀ x ∈ message, Readable x) (m : Nat) :
    Reads (smallStatement (nested m)) (levels (.assertStmt test message) ≤ m) (header (.assertStmt test message) ++ .newline :: rest)
      (.assertStmt test message) (.newline :: rest) := by
  have ends : ∀ more, Stops .test (.newline :: more) := fun more => stops_none rfl
  refine reads_kind ?_
  cases message with
  | none =>
      have first := reads_test ht m (ends rest)
      rw [header, tokens_at_test, List.cons_append]
      refine reads_iff (reads_skip (reads_first first (reads_decline (by simp [firstOf]) (reads_pure _ _)))) ?_
      rw [levels_le]
      simp [edges]
  | some message =>
      have comma : ∀ more, Stops .test (.mark .comma :: more) := by
        rintro more p ⟨⟩
        decide
      have first := reads_test ht m (comma (tokens message ++ .newline :: rest))
      have second := reads_test (hm message rfl) m (ends rest)
      rw [header, tokens_at_test, tokens_at_test, List.cons_append, List.append_assoc, List.cons_append]
      refine reads_iff (reads_skip (reads_bind first (reads_accept (reads_return second _)))) ?_
      rw [levels_le]
      simp [edges]

theorem reads_return_line {part : Option Node} (all : ∀ x ∈ part, Readable x) (m : Nat) :
    Reads (smallStatement (nested m)) (levels (.returnStmt part) ≤ m) (header (.returnStmt part) ++ .newline :: rest)
      (.returnStmt part) (.newline :: rest) := by
  refine reads_kind ?_
  cases part with
  | none =>
      refine reads_iff (reads_skip (reads_first (reads_kind (reads_neg (by simp [firstOf, startsExpression]) (reads_pure none _)))
        (reads_pure _ _))) ?_
      rw [levels_le]
      simp [edges]
  | some value =>
      have readable := all value rfl
      have begins := begins_expression (starts_append (starts_at readable .tuple) (.newline :: rest))
      have inner := reads_expressions readable m (stops_none (show continues? (firstOf (.newline :: rest)) = none from rfl))
      refine reads_iff (reads_skip (reads_first (reads_kind (reads_pos begins (reads_return inner some))) (reads_pure _ _))) ?_
      rw [levels_le]
      simp [edges]

theorem reads_raise {part : Option Node} (all : ∀ x ∈ part, Readable x) (m : Nat) :
    Reads (smallStatement (nested m)) (levels (.raiseStmt part) ≤ m) (header (.raiseStmt part) ++ .newline :: rest)
      (.raiseStmt part) (.newline :: rest) := by
  have ends : Stops .test (.newline :: rest) := stops_none rfl
  have inner := reads_optional part all m ends rfl
  have shape : header (.raiseStmt part) = .keyword .kwRaise :: tokensOption [] part := by cases part <;> rfl
  rw [shape]
  refine reads_iff (reads_kind (reads_skip (reads_return inner _))) ?_
  rw [levels_le, edges, List.forall_mem_map]

def isCompound : Node → Bool
  | .functionDef .. | .forStmt .. | .whileStmt .. | .ifStmt .. => true
  | _ => false

theorem reads_word {statement : Node} (m : Nat) (small : statement = .passStmt ∨ statement = .breakStmt ∨ statement = .continueStmt) :
    Reads (smallStatement (nested m)) (levels statement ≤ m) (header statement ++ .newline :: rest) statement (.newline :: rest) := by
  have always : True ↔ levels statement ≤ m := by
    rw [levels_le]
    rcases small with rfl | rfl | rfl <;> simp [edges]
  rcases small with rfl | rfl | rfl <;> exact reads_iff (reads_kind (reads_skip (reads_pure _ _))) always

def isExpression : Node → Bool
  | .exprStmt _ | .assign .. | .augAssign .. => true
  | _ => false

theorem header_starts (node : Node) (shaped : Everywhere Shaped node) (h : isExpression node = true) : Starts .test (header node) := by
  have target : ∀ x ∈ node.children, x.place ∈ targetPlaces → Starts .test (tokensAt .tuple x) := fun x member bound =>
    starts_target (target_reads x (shaped.child x member) bound)
  have here := shaped.here
  cases node with
  | exprStmt value =>
      have readable := readable_value value (shaped.child value (by simp [children])) here
      rw [header, tokens_at_tuple]
      exact starts_test readable
  | augAssign bound op value =>
      obtain ⟨first, more, same, begins⟩ := target bound (by simp [children]) (by simp [here.1, targetPlaces])
      rw [header, same]
      exact ⟨first, _, rfl, begins⟩
  | assign targets value =>
      cases targets with
      | nil => exact absurd rfl here.1
      | cons bound others =>
          obtain ⟨first, more, same, begins⟩ := target bound (by simp [children]) (here.2.1 bound (by simp))
          have shape := assign_tokens bound others value []
          rw [List.append_nil, same] at shape
          rw [shape]
          exact ⟨first, _, rfl, begins⟩
  | _ => cases h

theorem reads_line (node : Node) (shaped : Everywhere Shaped node) (stands : node.place = .statement)
    (simple : isCompound node = false) (m : Nat) (rest : List Token.Kind) :
    Reads (smallStatement (nested m)) (levels node ≤ m) (header node ++ .newline :: rest) node (.newline :: rest) := by
  have value : ∀ x ∈ node.children, x.place = .value → Readable x := fun x member => readable_value x (shaped.child x member)
  have target : ∀ x ∈ node.children, x.place ∈ targetPlaces → AsTarget x := fun x member => target_reads x (shaped.child x member)
  have other : isExpression node = true → firstOf (header node ++ .newline :: rest) ∉ smallWords := fun h =>
    starts_plain (header_starts node shaped h) (by decide) _
  have here := shaped.here
  have form := statement_form stands
  cases node with
  | passStmt => exact reads_word m (.inl rfl)
  | breakStmt => exact reads_word m (.inr (.inl rfl))
  | continueStmt => exact reads_word m (.inr (.inr rfl))
  | returnStmt part =>
      refine reads_return_line (fun x member => value x ?_ ?_) m
      · simpa [children] using member
      · simpa using here x (by simpa using member)
  | raiseStmt part =>
      refine reads_raise (fun x member => value x ?_ ?_) m
      · simpa [children] using member
      · simpa using here x (by simpa using member)
  | assertStmt test message =>
      refine reads_assert (value test (by simp [children]) here.1) (fun x member => ?_) m
      exact value x (by simp_all [children]) (by simpa using here.2 x (by simpa using member))
  | exprStmt expression =>
      exact reads_small_expression (other rfl) (reads_plain (value expression (by simp [children]) here) m)
  | augAssign bound op result =>
      have single := target bound (by simp [children]) (by simp [here.1, targetPlaces])
      exact reads_small_expression (other rfl) (reads_augmented single here.1 (value result (by simp [children]) here.2) m)
  | assign targets result =>
      cases targets with
      | nil => exact absurd rfl here.1
      | cons first others =>
          have bound : ∀ x ∈ first :: others, AsTarget x := fun x member =>
            target x (List.mem_append_left _ member) (here.2.1 x member)
          exact reads_small_expression (other rfl) (reads_assign bound (value result (by simp [children]) here.2.2) m)
  | functionDef | forStmt | whileStmt | ifStmt => cases simple
  | _ => cases form

end Mutagen.Grammar
