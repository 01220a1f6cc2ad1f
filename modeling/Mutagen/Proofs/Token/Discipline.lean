import Mutagen.Proofs.Token.Layout
import Mutagen.Proofs.Token.Leaves
import Mutagen.Proofs.Token.Moves

set_option autoImplicit false

namespace Mutagen

open Token (Kind)

namespace Token.Kind

def isMargin : Kind → Bool
  | .indent | .dedent => true
  | _ => false

def isLayout : Kind → Bool
  | .newline | .indent | .dedent => true
  | _ => false

end Token.Kind

namespace Lexer

variable {tab : Nat} {s s' : State} {text : List Char} {tokens : List Token}

-- Every step leaves less to be done, so that a run has an end.
theorem goes_bounded {states : List State} (h : (s :: states).IsChain (Goes tab)) : states.length ≤ s.left := by
  induction states generalizing s with
  | nil => exact Nat.zero_le _
  | cons s' states ih =>
      obtain ⟨⟨_, stepped⟩, later⟩ := List.isChain_cons_cons.mp h
      exact Nat.succ_le_of_lt (Nat.lt_of_le_of_lt (ih later) (step_left stepped))

-- Where a line starts, no bracket is open and the line before is ended.
structure Tidy (s : State) : Prop where
  closed : s.lineStart = true → s.brackets = 0
  ended : s.lineStart = true → s.unfinished = false

theorem initial_tidy (text : List Char) : Tidy (.initial text) := ⟨fun _ => rfl, fun _ => rfl⟩

theorem moves_tidy (moved : Moves tab s tokens (some s')) : Tidy s' := by
  cases moved with
  | margin => exact ⟨fun starts => absurd starts Bool.false_ne_true, fun starts => absurd starts Bool.false_ne_true⟩
  | newline _ _ ends => exact ⟨fun _ => newline_closed ends, fun _ => rfl⟩
  | visible inLine =>
      refine ⟨fun starts => ?_, fun starts => ?_⟩
      · cases inLine.symm.trans starts
      · cases inLine.symm.trans starts

-- A measured margin gives rise to the ends and the starts of blocks only.
theorem aligned_layout {rest : List Char} {next : Margin} {kinds : List Kind} {margins margins' : List Margin}
    {place : Span} (aligned : rest = [] ∧ kinds = [] ∧ margins' = margins ∨
      rest ≠ [] ∧ realign margins next = .ok (kinds, margins')) :
    ∀ token ∈ kinds.map fun kind => (⟨kind, place⟩ : Token),
      token.kind.isLayout = true ∧ token.kind.isVisible = false ∧
      ∀ brackets, countBrackets? brackets token.kind = some brackets := by
  intro token member
  obtain ⟨kind, listed, rfl⟩ := List.mem_map.mp member
  have margin : kind = .indent ∨ kind = .dedent := by
    rcases aligned with ⟨_, rfl, _⟩ | ⟨_, realigned⟩
    · cases listed
    · rcases realign_cases realigned with ⟨rfl, _⟩ | ⟨_, _, rfl, _⟩
      · exact .inl (List.mem_singleton.mp listed)
      · exact .inr (List.eq_of_mem_replicate listed)
  rcases margin with rfl | rfl
  · exact ⟨rfl, rfl, fun _ => rfl⟩
  · exact ⟨rfl, rfl, fun _ => rfl⟩

-- With `opened` blocks open in front of them, the tokens close these and all that they open, none too early.
structure Closes (opened : Nat) (kinds : List Kind) : Prop where
  all : kinds.count .dedent = opened + kinds.count .indent
  low : ∀ front, front <+: kinds → front.count .dedent ≤ opened + front.count .indent

section
variable {opened : Nat} {kinds : List Kind}

theorem closes_end : Closes 0 [.eof] where
  all := rfl
  low front inside := by
    rcases List.prefix_cons_iff.mp inside with rfl | ⟨part, rfl, rest⟩
    · exact Nat.le_refl _
    · rw [List.prefix_nil.mp rest]
      exact Nat.le_refl _

theorem closes_cons {kind : Kind} {after : Nat} (h : Closes after kinds)
    (counted : opened + [kind].count .indent = after + [kind].count .dedent) : Closes opened (kind :: kinds) where
  all := by
    rw [List.count_cons, List.count_cons]
    have := h.all
    simp only [List.count_cons, List.count_nil] at counted
    omega
  low front inside := by
    rcases List.prefix_cons_iff.mp inside with rfl | ⟨part, rfl, rest⟩
    · exact Nat.zero_le _
    · rw [List.count_cons, List.count_cons]
      have := h.low part rest
      simp only [List.count_cons, List.count_nil] at counted
      omega

theorem closes_plain {kind : Kind} (h : Closes opened kinds) (plain : kind.isMargin = false) :
    Closes opened (kind :: kinds) := by
  refine closes_cons h ?_
  cases kind with
  | indent | dedent => cases plain
  | _ => rfl

theorem closes_dedents {n : Nat} (h : Closes opened kinds) :
    Closes (n + opened) (List.replicate n .dedent ++ kinds) := by
  induction n with
  | zero => simpa using h
  | succ n ih =>
      rw [List.replicate_succ, List.cons_append]
      refine closes_cons ih ?_
      change n + 1 + opened + 0 = n + opened + 1
      omega

end

theorem visible_plain {kind : Kind} (visible : kind.isVisible = true) : kind.isMargin = false ∧ kind.isLayout = false := by
  cases kind with
  | newline | indent | dedent | eof => cases visible
  | _ => exact ⟨rfl, rfl⟩

theorem run_closes (based : Based s.margins) (h : run tab s = .ok tokens) :
    Closes (s.margins.length - 1) (tokens.map (·.kind)) := by
  refine run_induction (P := fun s tokens => Based s.margins → Closes (s.margins.length - 1) (tokens.map (·.kind))) ?_ ?_
    h based
  · rintro s tokens ⟨⟩ _
    have blocks : Closes (s.margins.length - 1) (List.replicate (s.margins.length - 1) .dedent ++ [.eof]) :=
      closes_dedents closes_end
    rw [closing, List.map_map, Function.comp_def, List.map_id']
    split
    · exact closes_plain blocks rfl
    · exact blocks
  · intro s s' front back moved ih based
    have based' := moves_based based moved
    have later := ih based'
    have opened := based_length based
    have opened' := based_length based'
    rw [List.map_append]
    cases moved with
    | margin _ _ _ aligned =>
        rw [List.map_map, Function.comp_def, List.map_id']
        rcases aligned with ⟨_, rfl, rfl⟩ | ⟨_, realigned⟩
        · exact later
        · rcases realign_cases realigned with ⟨rfl, rfl, _⟩ | ⟨closed, split, rfl, _⟩
          · exact closes_cons later (Nat.sub_add_cancel opened)
          · rw [split, List.length_append, Nat.add_sub_assoc opened']
            exact closes_dedents later
    | newline => exact closes_plain later rfl
    | visible _ _ _ reads => exact closes_plain later (visible_plain (visible_text reads).visible).1

-- What holds of every token, of those in front of it and of those behind it.
def Each (P : List Token → Token → List Token → Prop) (tokens : List Token) : Prop :=
  ∀ front token back, tokens = front ++ token :: back → P front token back

section
variable {P : List Token → Token → List Token → Prop} {first second : List Token}

theorem each_of_all (h : ∀ token ∈ tokens, ∀ front back, P front token back) : Each P tokens := by
  rintro front token back rfl
  exact h token (by simp) front back

theorem each_single {token : Token} (h : P [] token []) : Each P [token] := by
  intro front found back same
  rcases List.append_eq_singleton_iff.mp same.symm with ⟨rfl, last⟩ | ⟨_, none⟩
  · cases last
    exact h
  · cases none

theorem each_append (h : Each (fun front token back => P front token (back ++ second)) first)
    (h' : Each (fun front token back => P (first ++ front) token back) second) : Each P (first ++ second) := by
  intro front token back same
  rcases List.append_eq_append_iff.mp same with ⟨more, rfl, behind⟩ | ⟨part, split, rest⟩
  · exact h' more token back behind
  · cases part with
    | nil =>
        rw [List.append_nil] at split
        have here : P (first ++ []) token back := h' [] token back rest.symm
        rwa [List.append_nil, split] at here
    | cons found part =>
        cases rest
        exact h front token part split

end

def closingBlocks (s : State) (here : Position) : List Token :=
  let kinds : List Kind := (if s.unfinished then [.newline] else []) ++ List.replicate (s.margins.length - 1) .dedent
  kinds.map fun kind => ⟨kind, .empty here⟩

theorem closing_eq (s : State) (here : Position) : closing s here = closingBlocks s here ++ [⟨.eof, .empty here⟩] := by
  rw [closing, List.map_append]
  rfl

theorem closing_layout {here : Position} :
    ∀ token ∈ closingBlocks s here, token.kind.isLayout = true ∧ token.kind.isVisible = false := by
  intro token member
  obtain ⟨kind, listed, rfl⟩ := List.mem_map.mp member
  rcases List.mem_append.mp listed with line | blocks
  · split at line
    · rw [List.mem_singleton.mp line]
      exact ⟨rfl, rfl⟩
    · cases line
  · rw [List.eq_of_mem_replicate blocks]
    exact ⟨rfl, rfl⟩

theorem closing_newline {here : Position} (unfinished : s.unfinished = true) :
    ∃ back, closing s here = ⟨.newline, .empty here⟩ :: back := by
  rw [closing, unfinished]
  exact ⟨_, rfl⟩

-- Every line that is begun is ended.
abbrev Finished (tokens : List Token) : Prop :=
  Each (fun _ token back => token.kind.isVisible = true → ∃ later ∈ back, later.kind = .newline) tokens

theorem finished_invisible (invisible : ∀ token ∈ tokens, token.kind.isVisible = false) {back : List Token}
    (h : Finished back) : Finished (tokens ++ back) := by
  refine each_append (each_of_all fun token member _ _ visible => ?_) h
  rw [invisible token member] at visible
  cases visible

theorem run_finished (h : run tab s = .ok tokens) :
    Finished tokens ∧ (s.unfinished = true → ∃ later ∈ tokens, later.kind = .newline) := by
  refine run_induction (P := fun s tokens => Finished tokens ∧
    (s.unfinished = true → ∃ later ∈ tokens, later.kind = .newline)) ?_ ?_ h
  · rintro s tokens ⟨⟩
    constructor
    · rw [closing_eq]
      exact finished_invisible (fun token member => (closing_layout token member).2) (each_single fun visible => nomatch visible)
    · intro unfinished
      obtain ⟨back, first⟩ := closing_newline unfinished
      rw [first]
      exact ⟨_, .head _, rfl⟩
  · rintro s s' front back moved ⟨finished, ends⟩
    cases moved with
    | margin _ _ _ aligned =>
        refine ⟨finished_invisible (fun token member => (aligned_layout aligned token member).2.1) finished, ?_⟩
        intro unfinished
        obtain ⟨later, member, newline⟩ := ends unfinished
        exact ⟨later, List.mem_append_right _ member, newline⟩
    | newline =>
        exact ⟨finished_invisible (List.forall_mem_singleton.mpr rfl) finished, fun _ => ⟨_, .head _, rfl⟩⟩
    | visible =>
        refine ⟨each_append (each_single fun _ => ends rfl) finished, fun _ => ?_⟩
        obtain ⟨later, member, newline⟩ := ends rfl
        exact ⟨later, .tail _ member, newline⟩

-- Blocks open and close between lines only.
abbrev Placed (tokens : List Token) : Prop :=
  tokens.IsChain fun first second => second.kind.isMargin = true → first.kind.isLayout = true

theorem placed_behind {back : List Token} (layout : ∀ token ∈ tokens, token.kind.isLayout = true) (h : Placed back) :
    Placed (tokens ++ back) := by
  induction tokens with
  | nil => exact h
  | cons first tokens ih =>
      exact List.isChain_cons.mpr ⟨fun _ _ _ => layout first (.head _), ih fun token member => layout token (.tail _ member)⟩

theorem run_placed (tidy : Tidy s) (h : run tab s = .ok tokens) :
    Placed tokens ∧ ∀ first ∈ tokens.head?, first.kind.isMargin = true → s.unfinished = false := by
  revert tidy
  refine run_induction (P := fun s tokens => Tidy s → Placed tokens ∧
    ∀ first ∈ tokens.head?, first.kind.isMargin = true → s.unfinished = false) ?_ ?_ h
  · rintro s tokens ⟨⟩ tidy
    constructor
    · rw [closing_eq]
      exact placed_behind (fun token member => (closing_layout token member).1) (List.isChain_singleton _)
    · intro first member margin
      by_contra unfinished
      obtain ⟨back, starts⟩ := closing_newline (Bool.eq_true_of_not_eq_false unfinished)
      rw [starts] at member
      cases member
      cases margin
  · intro s s' front back moved ih tidy
    obtain ⟨placed, begins⟩ := ih (moves_tidy moved)
    cases moved with
    | margin starts _ _ aligned =>
        exact ⟨placed_behind (fun token member => (aligned_layout aligned token member).1) placed,
          fun _ _ _ => tidy.ended starts⟩
    | newline =>
        refine ⟨placed_behind (List.forall_mem_singleton.mpr rfl) placed, ?_⟩
        rintro first ⟨⟩ margin
        cases margin
    | visible _ _ _ reads =>
        have plain := visible_plain (visible_text reads).visible
        constructor
        · refine List.isChain_cons.mpr ⟨fun second member margin => ?_, placed⟩
          cases begins second member margin
        · rintro first ⟨⟩ margin
          cases plain.1.symm.trans margin

-- Within brackets there are no lines and no blocks. The end of the text is the exception.
abbrev Joined (last : Span) (brackets : Nat) (tokens : List Token) : Prop :=
  Each (fun front token _ => token.kind.isLayout = true →
    bracketsBehind? brackets (front.map (·.kind)) = some 0 ∨ token.span = last) tokens

theorem joined_append {last : Span} {brackets after : Nat} {back : List Token} (h : Joined last brackets tokens)
    (counted : bracketsBehind? brackets (tokens.map (·.kind)) = some after) (h' : Joined last after back) :
    Joined last brackets (tokens ++ back) := by
  refine each_append h fun front token rest same layout => ?_
  have behind : bracketsBehind? brackets ((tokens ++ front).map (·.kind)) = bracketsBehind? after (front.map (·.kind)) := by
    rw [List.map_append, bracketsBehind?, List.foldlM_append]
    change (bracketsBehind? brackets (tokens.map (·.kind))).bind _ = _
    rw [counted]
    rfl
  rw [behind]
  exact h' front token rest same layout

theorem brackets_behind_plain {brackets : Nat}
    (plain : ∀ token ∈ tokens, countBrackets? brackets token.kind = some brackets) :
    bracketsBehind? brackets (tokens.map (·.kind)) = some brackets := by
  induction tokens with
  | nil => rfl
  | cons token tokens ih =>
      rw [List.map_cons, brackets_behind_cons, plain token (.head _)]
      exact ih fun other member => plain other (.tail _ member)

theorem joined_plain {last : Span} (plain : ∀ token ∈ tokens, countBrackets? 0 token.kind = some 0) :
    Joined last 0 tokens := by
  intro front token back same _
  rw [same] at plain
  exact .inl (brackets_behind_plain fun other member => plain other (List.mem_append_left _ member))

theorem run_joined (stands : Stands text s) (tidy : Tidy s) (h : run tab s = .ok tokens) :
    Joined (.empty (Position.behind {} text)) s.brackets tokens := by
  revert stands tidy
  refine run_induction (P := fun s tokens => Stands text s → Tidy s →
    Joined (.empty (Position.behind {} text)) s.brackets tokens) ?_ ?_ h
  · rintro s tokens ⟨⟩ stands tidy
    refine each_of_all fun token member _ _ _ => .inr ?_
    obtain ⟨kind, _, rfl⟩ := List.mem_map.mp member
    rw [stands_end stands]
  · intro s s' front back moved ih stands tidy
    have later := ih (moves_stands stands moved) (moves_tidy moved)
    cases moved with
    | margin starts _ _ aligned =>
        refine joined_append ?_ ?_ later
        · rw [tidy.closed starts]
          exact joined_plain fun token member => (aligned_layout aligned token member).2.2 0
        · exact brackets_behind_plain fun token member => (aligned_layout aligned token member).2.2 s.brackets
    | newline _ _ ends =>
        refine joined_append (each_single fun _ => .inl ?_) rfl later
        exact congrArg some (newline_closed ends)
    | visible _ _ _ reads counted =>
        have plain := visible_plain (visible_text reads).visible
        refine joined_append (each_single fun layout => ?_) ?_ later
        · cases plain.2.symm.trans layout
        · rw [List.map_singleton, brackets_behind_cons, counted]
          rfl

structure Disciplined (text : List Char) (tokens : List Token) : Prop where
  ends : Ends tokens
  balanced : (tokens.map (·.kind)).count .indent = (tokens.map (·.kind)).count .dedent
  nested : ∀ front, front <+: tokens → (front.map (·.kind)).count .dedent ≤ (front.map (·.kind)).count .indent
  placed : Placed tokens
  finished : Finished tokens
  joined : Joined (.empty (Position.behind {} text)) 0 tokens

end Lexer

open Lexer

/-- The lexer comes to an end, and what it has read is laid out like a program. -/
theorem tokenize_disciplined (source : String) :
    (∀ states, (State.initial (dropMark source.toList) :: states).IsChain (Goes tabStop) →
      states.length ≤ 2 * (dropMark source.toList).length + 1) ∧
    ∀ tokens, tokenize source = .ok tokens → Disciplined (dropMark source.toList) tokens := by
  refine ⟨fun states chain => goes_bounded chain, fun tokens h => ?_⟩
  have closes : Closes 0 (tokens.map (·.kind)) := run_closes (initial_based _) h
  have tidy := initial_tidy (dropMark source.toList)
  exact {
    ends := tokenize_ends h
    balanced := by rw [closes.all, Nat.zero_add]
    nested := fun front inside => by
      have low := closes.low _ (inside.map _)
      rwa [Nat.zero_add] at low
    placed := (run_placed tidy h).1
    finished := (run_finished h).1
    joined := run_joined (initial_stands _) tidy h }

-- The bracket is never closed, and still the line and the block end with the text.
theorem open_bracket_disciplined : ∃ tokens, tokenize "if x:\n  f(\n y" = .ok tokens ∧
    tokens.map (·.kind) = [.keyword .kwIf, .name "x", .mark .colon, .newline, .indent, .name "f", .mark .leftParen,
      .name "y", .newline, .dedent, .eof] ∧ Disciplined "if x:\n  f(\n y".toList tokens := by
  have reads : (tokenize "if x:\n  f(\n y").toOption.map (fun tokens => tokens.map (·.kind)) =
      some [.keyword .kwIf, .name "x", .mark .colon, .newline, .indent, .name "f", .mark .leftParen, .name "y", .newline,
        .dedent, .eof] := by decide +kernel
  obtain ⟨tokens, read, kinds⟩ := Option.map_eq_some_iff.mp reads
  have h := ok_of_option read
  exact ⟨tokens, h, kinds, (tokenize_disciplined _).2 tokens h⟩

end Mutagen
