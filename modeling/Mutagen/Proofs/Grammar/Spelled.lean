import Mutagen.Proofs.Grammar.Layout
import Mutagen.Proofs.Grammar.Transfer
import Mutagen.Proofs.Grammar.Unplaced

set_option autoImplicit false

namespace Mutagen.Parser

open Token (Kind)

variable {α β σ : Type} {p : Parser α} {tokens rest : List Token}

theorem bind_ok {f : α → Parser β} {b : β} (run : (p >>= f).run tokens = .ok (b, rest)) :
    ∃ a middle, p.run tokens = .ok (a, middle) ∧ (f a).run middle = .ok (b, rest) := by
  rw [run_bind] at run
  cases first : p.run tokens with
  | error e =>
      rw [first] at run
      cases run
  | ok result =>
      rw [first] at run
      exact ⟨result.1, result.2, rfl, run⟩

theorem kind_run (f : Kind → Parser β) (tokens : List Token) : (kind >>= f).run tokens = (f (firstKind tokens)).run tokens := rfl

theorem skip_then {f : Unit → Parser β} {b : β} (run : (skip >>= f).run tokens = .ok (b, rest)) :
    ∃ token tail, tokens = token :: tail ∧ (f ()).run tail = .ok (b, rest) := by
  cases tokens with
  | nil => cases run
  | cons token tail => exact ⟨token, tail, rfl, run⟩

theorem expect_then {wanted : Kind} {what : Expected} {f : Unit → Parser β} {b : β}
    (run : (expect wanted what >>= f).run tokens = .ok (b, rest)) :
    ∃ token tail, tokens = token :: tail ∧ token.kind = wanted ∧ (f ()).run tail = .ok (b, rest) := by
  rw [expect, bind_assoc, kind_run] at run
  by_cases found : firstKind tokens = wanted
  · rw [if_pos found] at run
    obtain ⟨token, tail, rfl, run⟩ := skip_then run
    exact ⟨token, tail, rfl, found, run⟩
  · rw [if_neg found] at run
    cases run

theorem forbid_ok {unwanted : Kind} {construct : Construct} {u : Unit}
    (run : (forbid unwanted construct).run tokens = .ok (u, rest)) : rest = tokens := by
  rw [forbid, kind_run] at run
  split at run
  · cases run
  · cases run
    rfl

theorem require_ok {condition : Bool} {cause : ParseError.Cause} {place : Span} {u : Unit}
    (run : (require condition cause place).run tokens = .ok (u, rest)) : condition = true ∧ rest = tokens := by
  rw [require] at run
  split at run
  · rename_i holds
    cases run
    exact ⟨holds, rfl⟩
  · cases run

theorem linked_end {wanted : Kind} {body : σ → Unit → Parser (Step σ)} {state : σ} (other : firstKind tokens ≠ wanted) :
    (chain (linkedBy wanted) body state).run tokens = .ok (state, tokens) := by
  cases tokens with
  | nil => exact chainRun.eq_1 ..
  | cons token more => exact chain_unlinked (if_neg other)

-- Behind the mark the loop ends, or it takes one more item and goes on.
theorem linked_next {wanted : Kind} {ends : Kind → Prop} [DecidablePred ends] {item : σ → Parser σ} {state : σ} {token : Token}
    (found : token.kind = wanted) :
    (chain (linkedBy wanted) (fun state _ => do
      if ends (← kind) then return .stop state else return .again (← item state)) state).run (token :: tokens) =
    (if ends (firstKind tokens) then pure state
      else item state >>= chain (linkedBy wanted) fun state _ => do
        if ends (← kind) then return .stop state else return .again (← item state)).run tokens := by
  rw [chain_turn _ _ _ _ _ (show linkedBy wanted token.kind (firstKind tokens) = some () from if_pos found), turn, bind_assoc, kind_run]
  split
  · rfl
  · rw [bind_assoc]
    rfl

end Mutagen.Parser

namespace Mutagen.Grammar

open Mutagen.Parser
open Token (Kind)

variable {α β : Type} {p : Parser α} {inner : Nested} {tokens front old rest : List Token} {a : α}

structure Spells {α : Type} (p : Parser α) (kinds : List Kind) (a : α) : Prop where
  reads : ∀ stop rest, stop.isStop = true → Reads p True (kinds ++ stop :: rest) a (stop :: rest)

def placed (kinds : List Kind) : List Token := kinds.map (⟨·, .empty {}⟩)

theorem placed_kinds (kinds : List Kind) : (placed kinds).map (·.kind) = kinds := by
  rw [placed, List.map_map]
  exact List.map_id _

structure Textual {α : Type} (p : Parser α) : Prop where
  transfers : ∀ change, Transfers change false p p
  unplaced : Unplaced p
  balances : ∀ tokens a rest, p.run tokens = .ok (a, rest) →
    ∃ front, tokens.map (·.kind) = front ++ rest.map (·.kind) ∧ front.foldlM text? [] = some []

-- What is left is an end of the tokens, and so it is told by its kinds.
theorem left_same (run : p.run (front ++ old) = .ok (a, rest)) (same : rest.map (·.kind) = old.map (·.kind)) : rest = old := by
  have length := congrArg List.length same
  rw [List.length_map, List.length_map] at length
  exact (List.suffix_of_suffix_length_le (p.suffix run) (List.suffix_append front old) length.le).eq_of_length length

theorem spells_run {kinds : List Kind} (h : Spells p kinds a) (same : front.map (·.kind) = kinds)
    (stops : (firstKind old).isStop = true) : p.run (front ++ old) = .ok (a, old) := by
  cases old with
  | nil => cases stops
  | cons token more =>
      obtain ⟨left, run, kept⟩ := (h.reads token.kind (more.map (·.kind)) stops).reads trivial (front ++ token :: more)
        (by rw [List.map_append, same, List.map_cons])
      rw [run, left_same run kept]

theorem spells_of_run (h : Textual p) (stops : (firstKind old).isStop = true) (run : p.run (front ++ old) = .ok (a, old)) :
    Spells p (front.map (·.kind)) a := by
  constructor
  intro stop rest stops'
  apply reads_always
  intro tokens same
  obtain ⟨front', new, rfl, alike, behind⟩ := List.map_eq_append_iff.mp same
  -- First the tokens in front get their new places, and then what follows on them is exchanged.
  have placed : p.run (front' ++ old) = .ok (a, old) := by
    have result := h.unplaced.holds (front ++ old) (front' ++ old) (by rw [SameKinds, List.map_append, List.map_append, alike])
    rw [run] at result
    cases again : p.run (front' ++ old) with
    | error e =>
        rw [again] at result
        cases result
    | ok answer =>
        rw [again] at result
        cases result with
        | ok _ kept => rw [left_same again kept]
  have newStops : (firstKind new).isStop = true := by
    rw [first_kind_map, behind]
    exact stops'
  have carried := (h.transfers ⟨old, new, False, stops, newStops⟩).holds front' [] a (absurd · Bool.false_ne_true) placed
  refine ⟨new, ?_, behind⟩
  change Carried False a new (p.run (front' ++ new)) at carried
  generalize p.run (front' ++ new) = answer at carried
  cases carried with
  | same => rfl
  | deep never => exact absurd never not_false

theorem text_of_run (h : Textual p) (run : p.run tokens = .ok (a, rest)) (stops : (firstKind rest).isStop = true) :
    ∃ text : Text, tokens.map (·.kind) = text.kinds ++ rest.map (·.kind) ∧ Spells p text.kinds a := by
  obtain ⟨front, rfl⟩ := p.suffix run
  obtain ⟨kinds, whole, closed⟩ := h.balances (front ++ rest) a rest run
  rw [List.map_append] at whole
  obtain rfl := List.append_cancel_right whole
  exact ⟨⟨_, closed⟩, List.map_append, spells_of_run h stops run⟩

theorem textual_heading (word : Compound) (levels : Nat) : Textual (heading word (nested levels)) := by
  have scanned (kinds : List Kind) :
      Accounts ⟨texts, kinds, False, False⟩ (heading word (nested levels)) (Builds word False) headingLeaves :=
    accounts_heading (nested_accounts _ levels) word
  exact ⟨fun change => transfers_heading (nested_transfers change levels) word,
    matches_congruence.related_heading (matches_congruence.related_nested levels) word,
    fun _ _ _ => accounts_scanned texts scanned⟩

theorem textual_small (levels : Nat) : Textual (smallStatement (nested levels)) :=
  ⟨fun change => transfers_small_statement (nested_transfers change levels),
    matches_congruence.related_small_statement (matches_congruence.related_nested levels),
    fun _ _ _ => accounts_scanned texts fun _ => accounts_small_statement (nested_accounts _ levels)⟩

structure Begins (p : Parser α) : Prop where
  starts : ∀ tokens a rest, p.run tokens = .ok (a, rest) → startsExpression (firstKind tokens) = true

theorem begins_fail (f : List Token → ParseError) : Begins (failWith f : Parser α) := ⟨nofun⟩

theorem begins_bind {f : α → Parser β} (h : Begins p) : Begins (p >>= f) := by
  constructor
  intro tokens b rest run
  obtain ⟨a, middle, first, _⟩ := bind_ok run
  exact h.starts tokens a middle first

theorem begins_kind {f : Kind → Parser β} (h : ∀ first, startsExpression first = true ∨ Begins (f first)) :
    Begins (kind >>= f) := by
  constructor
  intro tokens b rest run
  rcases h (firstKind tokens) with starts | begins
  · exact starts
  · exact begins.starts tokens b rest run

theorem begins_if_kind {wanted : Kind} {q : Parser α} (starts : startsExpression wanted = true) (h : Begins q) :
    Begins (kind >>= fun first => if first = wanted then p else q) := by
  apply begins_kind
  intro first
  by_cases found : first = wanted
  · exact .inl (found ▸ starts)
  · exact .inr (by rwa [if_neg found])

theorem begins_atom (inner : Nested) : Begins (atom inner) := by
  apply begins_kind
  intro first
  split
  all_goals first
    | exact .inl rfl
    | exact .inr (begins_fail _)

theorem begins_factor (inner : Nested) : Begins (factor inner) := by
  apply begins_kind
  intro first
  cases signed : sign? first with
  | some op =>
      left
      unfold sign? at signed
      split at signed <;> first | rfl | cases signed
  | none => exact .inr (begins_bind (begins_bind (begins_atom inner)))

theorem begins_bit_or (inner : Nested) : Begins (bitOr inner) :=
  begins_bind (begins_bind (begins_bind (begins_bind (begins_bind (begins_bind (begins_factor inner))))))

theorem begins_negation (inner : Nested) : Begins (negation inner) :=
  begins_if_kind rfl (begins_bind (begins_bit_or inner))

theorem begins_test (levels : Nat) : Begins (nested levels).test := by
  cases levels with
  | zero => exact begins_fail _
  | succ levels => exact begins_if_kind rfl (begins_bind (begins_bind (begins_bind (begins_negation _))))

theorem begins_expression_statement (levels : Nat) : Begins (expressionStatement (nested levels)) := by
  have list : Begins (expressionList (nested levels)) := begins_bind (begins_test levels)
  exact ⟨fun tokens => (begins_bind list).starts tokens⟩

theorem headword_starts_none {first : Kind} (member : first ∈ headwords) : startsExpression first = false := by
  have all : headwords.all (!startsExpression ·) = true := by decide
  simpa using List.all_eq_true.mp all first member

theorem small_first {levels : Nat} {node : Node} (run : (smallStatement (nested levels)).run tokens = .ok (node, rest)) :
    firstKind tokens ∉ headwords := by
  rw [smallStatement, kind_run] at run
  intro member
  split at run
  case h_7 =>
    have starts := (begins_expression_statement levels).starts tokens node rest run
    rw [headword_starts_none member] at starts
    cases starts
  all_goals
    rename_i first
    rw [first] at member
    exact absurd member (by decide)

theorem phrase_of_run {levels : Nat} {node : Node} (run : (smallStatement (nested levels)).run tokens = .ok (node, rest))
    (stops : (firstKind rest).isStop = true) : ∃ phrase : Phrase, tokens.map (·.kind) = phrase.kinds ++ rest.map (·.kind) ∧
      Spells (smallStatement (nested levels)) phrase.kinds node := by
  obtain ⟨text, same, spells⟩ := text_of_run (textual_small levels) run stops
  have some : text.kinds ≠ [] := by
    intro none
    have less := strict_small_statement (strict_test levels) run
    have length := congrArg List.length same
    rw [none, List.nil_append, List.length_map, List.length_map] at length
    omega
  have small : firstOf text.kinds ∉ headwords := by
    have first := small_first run
    rw [first_kind_map, same] at first
    obtain ⟨kinds, _⟩ := text
    cases kinds with
    | nil => exact absurd rfl some
    | cons kind more => exact first
  exact ⟨⟨text, some, small⟩, same, spells⟩

def Line.Means (line : Line) (inner : Nested) (body : List Node) : Prop :=
  List.Forall₂ (fun phrase => Spells (smallStatement inner) phrase.kinds) line.phrases body

def others (inner : Nested) (statements : List Node) : Parser (List Node) :=
  chain (linkedBy (.mark .semicolon)) (fun statements _ => do
    if (← kind) = .newline then return .stop statements
    else return .again (← append (smallStatement inner) statements)) statements

theorem others_next {statements : List Node} {token : Token} (semicolon : token.kind = .mark .semicolon) :
    (others inner statements).run (token :: tokens) = (if firstKind tokens = .newline then pure statements
      else smallStatement inner >>= fun node => others inner (statements ++ [node])).run tokens := by
  refine (@linked_next _ tokens _ (· = .newline) _ (append (smallStatement inner)) statements token semicolon).trans ?_
  rw [append, bind_assoc]
  rfl

theorem line_of_others {levels : Nat} (front : List Node) {node : Node} {middle last : List Token} {all : List Node}
    (run : (smallStatement (nested levels)).run tokens = .ok (node, middle))
    (goes : (others (nested levels) (front ++ [node])).run middle = .ok (all, last)) (ends : firstKind last = .newline) :
    ∃ line body, Line.Means line (nested levels) body ∧ all = front ++ body ∧
      tokens.map (·.kind) = line.spelled ++ last.map (·.kind) := by
  induction size : middle.length using Nat.strongRecOn generalizing tokens front node middle with
  | ind n ih =>
      by_cases semicolon : firstKind middle = .mark .semicolon
      · cases middle with
        | nil => cases semicolon
        | cons token more =>
            obtain ⟨phrase, same, spells⟩ := phrase_of_run run (by rw [semicolon]; rfl)
            rw [List.map_cons, show token.kind = _ from semicolon] at same
            rw [others_next semicolon] at goes
            by_cases final : firstKind more = .newline
            · rw [if_pos final] at goes
              cases goes
              exact ⟨.ended phrase, [node], .cons spells .nil, rfl, by rw [same, Line.spelled, List.append_assoc]; rfl⟩
            · rw [if_neg final] at goes
              obtain ⟨next, left, run', goes⟩ := bind_ok goes
              have less := strict_small_statement (strict_test levels) run'
              rw [List.length_cons] at size
              obtain ⟨line, body, means, rfl, same'⟩ := ih left.length (by omega) (front ++ [node]) run' goes rfl
              refine ⟨.more phrase line, node :: body, .cons spells means, by rw [List.append_assoc]; rfl, ?_⟩
              rw [same, same', Line.spelled, List.append_assoc]
              rfl
      · rw [others, linked_end semicolon] at goes
        cases goes
        obtain ⟨phrase, same, spells⟩ := phrase_of_run run (by rw [ends]; rfl)
        exact ⟨.last phrase, [node], .cons spells .nil, rfl, same⟩

theorem line_of_run {levels : Nat} {body : List Node}
    (run : (simpleStatements (nested levels)).run tokens = .ok (body, rest)) :
    ∃ line : Line, tokens.map (·.kind) = line.spelled ++ .newline :: rest.map (·.kind) ∧ line.Means (nested levels) body := by
  obtain ⟨node, middle, first, run⟩ := bind_ok run
  obtain ⟨all, last, goes, run⟩ := bind_ok run
  obtain ⟨token, left, rfl, kind, run⟩ := expect_then run
  cases run
  obtain ⟨line, body, means, rfl, same⟩ := line_of_others [] first goes kind
  refine ⟨line, ?_, means⟩
  rw [same, List.map_cons, kind]

theorem behind_stops (line : Line) (rest : List Kind) :
    ∃ stop more, line.behind ++ .newline :: rest = stop :: more ∧ stop.isStop = true := by
  cases line <;> exact ⟨_, _, rfl, rfl⟩

theorem first_reads {line : Line} {body : List Node} (means : line.Means inner body) (rest : List Kind) :
    ∃ node later, body = node :: later ∧
      Reads (smallStatement inner) True (line.spelled ++ .newline :: rest) node (line.behind ++ .newline :: rest) := by
  obtain ⟨stop, more, behind, stops⟩ := behind_stops line rest
  rw [Line.spelled_eq, behind]
  cases line with
  | last | ended | more =>
      cases means with
      | cons spells _ => exact ⟨_, _, rfl, spells.reads stop more stops⟩

theorem others_reads {line : Line} {node : Node} {body statements : List Node} (means : line.Means inner (node :: body))
    (rest : List Kind) :
    Reads (others inner statements) True (line.behind ++ .newline :: rest) (statements ++ body) (.newline :: rest) := by
  induction line generalizing node body statements with
  | last phrase =>
      cases means with
      | cons _ none =>
          cases none
          rw [List.append_nil]
          exact reads_chain_stop _ (not_linked nofun)
  | ended phrase =>
      cases means with
      | cons _ none =>
          cases none
          rw [List.append_nil]
          exact reads_chain_end (linked_by _ _) (reads_kind (reads_pos rfl (reads_pure _ _)))
  | more phrase line ih =>
      cases means with
      | cons _ later =>
          obtain ⟨next, body, rfl, reads⟩ := first_reads later rest
          have goes : Reads (others inner (statements ++ [next])) True (line.behind ++ .newline :: rest)
              (statements ++ [next] ++ body) (.newline :: rest) := ih later
          rw [List.append_assoc] at goes
          have goesOn : firstOf (line.spelled ++ .newline :: rest) ≠ .newline := line_other rfl
          exact reads_iff (reads_chain_again (linked_by _ _)
            (reads_kind (reads_neg goesOn (reads_return (reads_return reads _) _))) goes) (and_self_iff)

theorem line_reads {line : Line} {body : List Node} (means : line.Means inner body) (rest : List Kind) :
    Reads (simpleStatements inner) True (line.spelled ++ .newline :: rest) body rest := by
  obtain ⟨node, later, rfl, reads⟩ := first_reads means rest
  exact reads_then reads (reads_then (others_reads means rest) (reads_expect (reads_pure _ rest)))

end Mutagen.Grammar
