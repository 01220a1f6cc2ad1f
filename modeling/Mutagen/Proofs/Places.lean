import Mutagen.Proofs.Grammar.Blame
import Mutagen.Proofs.Token.Moves

set_option autoImplicit false

namespace Mutagen

-- The line and the column of some place in the text, its end included.
def Boundary (text : List Char) (line column : Nat) : Prop :=
  ∃ before after, text = before ++ after ∧ line = lineBehind before ∧ column = columnBehind before

structure StartsAt (token : Token) (before : List Char) : Prop where
  offset : token.span.start = bytes before
  line : token.span.line = lineBehind before
  column : token.span.column = columnBehind before

def Located (text : List Char) (token : Token) : Prop := ∃ before after, text = before ++ after ∧ StartsAt token before

variable {tab : Nat} {text : List Char} {tokens : List Token}

theorem boundary_of_located {token : Token} (h : Located text token) : Boundary text token.span.line token.span.column := by
  obtain ⟨before, after, split, starts⟩ := h
  exact ⟨before, after, split, starts.line, starts.column⟩

theorem boundary_start (text : List Char) : Boundary text 1 0 := ⟨[], text, rfl, rfl, rfl⟩

namespace Lexer

variable {s : State}

-- Behind what a lexer passes over from where it stands.
def Ahead (s : State) (place : Position) : Prop :=
  ∃ skipped rest, s.text = skipped ++ rest ∧ place = s.position.behind skipped

theorem stands_ahead {place : Position} (h : Stands text s) (ahead : Ahead s place) :
    ∃ before after, text = before ++ after ∧ place = ⟨bytes before, lineBehind before, columnBehind before⟩ := by
  obtain ⟨skipped, rest, split, rfl⟩ := ahead
  obtain ⟨before, whole, here⟩ := stands_behind h split
  exact ⟨before, rest, whole, by rw [here, Position.behind_eq]⟩

theorem ahead_further {skipped rest front back : List Char} (split : s.text = skipped ++ rest)
    (inner : rest = front ++ back) : Ahead s ((s.position.behind skipped).behind front) :=
  ⟨skipped ++ front, back, by rw [split, inner, List.append_assoc], (Position.behind_append ..).symm⟩

theorem moves_ahead {next : Option State} (moved : Moves tab s tokens next) :
    ∀ token ∈ tokens, ∃ first last, token.span = .between first last ∧ Ahead s first := by
  intro token member
  cases moved with
  | margin _ split =>
      obtain ⟨kind, _, rfl⟩ := List.mem_map.mp member
      exact ⟨_, _, rfl, _, _, split, rfl⟩
  | ending =>
      obtain ⟨kind, _, rfl⟩ := List.mem_map.mp member
      exact ⟨_, _, rfl, s.text, [], (List.append_nil _).symm, rfl⟩
  | newline _ split =>
      rw [List.mem_singleton.mp member]
      exact ⟨_, _, rfl, _, _, split, rfl⟩
  | visible _ split =>
      rw [List.mem_singleton.mp member]
      exact ⟨_, _, rfl, _, _, split, rfl⟩

theorem start_line_error {e : ParseError} (h : startLine tab s = .error e) :
    ∃ cause place, e = .atPosition cause place ∧ Ahead s place := by
  obtain ⟨skipped, split⟩ := next_margin_suffix tab {} s.text
  simp only [startLine, Position.up_to_eq split] at h
  split at h
  · cases h
    exact ⟨_, _, rfl, skipped, _, split.symm, rfl⟩
  · cases h

theorem read_next_error {e : ParseError} (h : readNext s = .error e) :
    ∃ cause place, e = .atPosition cause place ∧ Ahead s place := by
  obtain ⟨skipped, split⟩ := skip_blank_suffix (0 < s.brackets) s.text
  simp only [readNext, Position.up_to_eq split] at h
  split at h
  · cases h
  · rename_i c after begins
    split at h
    · cases h
    · split at h
      · -- A reader blames a place within the token.
        rename_i fault _
        cases h
        exact ⟨_, _, rfl, ahead_further split.symm (begins.trans (List.take_append_drop _ _).symm)⟩
      · split at h
        · cases h
          exact ⟨_, _, rfl, skipped, _, split.symm, rfl⟩
        · cases h

theorem step_error {e : ParseError} (h : step tab s = .error e) :
    ∃ cause place, e = .atPosition cause place ∧ Ahead s place := by
  unfold step at h
  split at h
  · exact start_line_error h
  · exact read_next_error h

theorem moves_located {next : Option State} (stands : Stands text s) (moved : Moves tab s tokens next) :
    ∀ token ∈ tokens, Located text token := by
  intro token member
  obtain ⟨first, last, place, ahead⟩ := moves_ahead moved token member
  obtain ⟨before, after, split, rfl⟩ := stands_ahead stands ahead
  exact ⟨before, after, split, by rw [place]; rfl, by rw [place]; rfl, by rw [place]; rfl⟩

theorem run_located (stands : Stands text s) (h : run tab s = .ok tokens) : ∀ token ∈ tokens, Located text token := by
  revert stands
  refine run_induction (P := fun s tokens => Stands text s → ∀ token ∈ tokens, Located text token) ?_ ?_ h
  · exact fun s tokens moved stands => moves_located stands moved
  · intro s s' front back moved ih stands
    exact List.forall_mem_append.mpr ⟨moves_located stands moved, ih (moves_stands stands moved)⟩

theorem run_error {e : ParseError} (stands : Stands text s) (h : run tab s = .error e) : Boundary text e.line e.column := by
  fun_induction run tab s with
  | case1 s fault stopped =>
      cases h
      obtain ⟨cause, place, rfl, ahead⟩ := step_error stopped
      obtain ⟨before, after, split, rfl⟩ := stands_ahead stands ahead
      exact ⟨before, after, split, rfl, rfl⟩
  | case2 => cases h
  | case3 s front s' stepped ih =>
      refine ih (moves_stands stands (step_moves stepped)) ?_
      cases later : run tab s' with
      | error fault =>
          rw [later] at h
          exact congrArg _ (Except.error.inj h)
      | ok back =>
          rw [later] at h
          cases h

end Lexer

open Lexer

theorem tree_error {e : ParseError} (located : ∀ token ∈ tokens, Located text token)
    (h : Grammar.treeOf tokens = .error e) : Boundary text e.line e.column := by
  have standing : Parser.Standing (Boundary text) tokens :=
    Parser.standing_of_each (boundary_start text) fun token member => boundary_of_located (located token member)
  refine Grammar.blames_program.holds tokens standing e ?_
  cases ran : Grammar.program.run tokens with
  | error fault =>
      rw [Grammar.treeOf, ran] at h
      exact congrArg _ (Except.error.inj h)
  | ok result =>
      rw [Grammar.treeOf, ran] at h
      cases h

theorem parse_error {source : String} {e : ParseError} (h : Tree.parse source = .error e) :
    Boundary (dropMark source.toList) e.line e.column := by
  have stands := initial_stands (dropMark source.toList)
  cases read : tokenize source with
  | error fault =>
      rw [Tree.parse, read] at h
      cases h
      exact run_error stands read
  | ok tokens =>
      rw [Tree.parse, read] at h
      exact tree_error (run_located stands read) h

/-- Tokens and errors are reported at the line and the column of a place in the text. -/
theorem places_exact (source : String) :
    (∀ tokens, tokenize source = .ok tokens → ∀ token ∈ tokens, Located (dropMark source.toList) token) ∧
    ∀ e, Tree.parse source = .error e → Boundary (dropMark source.toList) e.line e.column :=
  ⟨fun _ h => run_located (initial_stands _) h, fun _ h => parse_error h⟩

-- A string on two lines behind a continued one, and a block that is closed two lines below its end. The last
-- line breaks off.
def broken : String := "if é:\n  x = \\\n '''é\n'''\n\n# c\ny +"

theorem broken_places : ∃ tokens, tokenize broken = .ok tokens ∧
    tokens.map (fun token => (token.span.start, token.span.line, token.span.column)) =
      [(0, 1, 0), (3, 1, 3), (5, 1, 4), (6, 1, 5), (9, 2, 2), (9, 2, 2), (11, 2, 4), (16, 3, 1), (25, 4, 3), (31, 7, 0),
        (31, 7, 0), (33, 7, 2), (34, 7, 3), (34, 7, 3)] ∧
    (∀ token ∈ tokens, Located (dropMark broken.toList) token) ∧
    Tree.parse broken = .error ⟨.unexpected .expression .newline, 7, 3⟩ ∧ Boundary (dropMark broken.toList) 7 3 := by
  have reads : (tokenize broken).toOption.map (fun tokens =>
      tokens.map fun token => (token.span.start, token.span.line, token.span.column)) =
      some [(0, 1, 0), (3, 1, 3), (5, 1, 4), (6, 1, 5), (9, 2, 2), (9, 2, 2), (11, 2, 4), (16, 3, 1), (25, 4, 3), (31, 7, 0),
        (31, 7, 0), (33, 7, 2), (34, 7, 3), (34, 7, 3)] := by decide +kernel
  have fails : (Tree.parse broken).map (fun _ => ()) = .error ⟨.unexpected .expression .newline, 7, 3⟩ := by
    decide +kernel
  obtain ⟨tokens, read, places⟩ := Option.map_eq_some_iff.mp reads
  have h := ok_of_option read
  obtain ⟨located, boundary⟩ := places_exact broken
  cases parsed : Tree.parse broken with
  | ok tree =>
      rw [parsed] at fails
      cases fails
  | error e =>
      rw [parsed] at fails
      cases fails
      exact ⟨tokens, h, places, located tokens h, rfl, boundary _ parsed⟩

end Mutagen
