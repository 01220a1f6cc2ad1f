import Mutagen.Proofs.Token.Discipline

set_option autoImplicit false

namespace Mutagen.Lexer

open Token (Kind)

-- From `s` the lexer comes to `s'`, and reads the given tokens on the way.
inductive Reaches (tab : Nat) : State → List Token → State → Prop where
  | here {s : State} : Reaches tab s [] s
  | step {s s' s'' : State} {front back : List Token} (stepped : step tab s = .ok (front, some s')) :
      Reaches tab s' back s'' → Reaches tab s (front ++ back) s''

variable {tab : Nat} {s s' : State} {front tokens : List Token}

theorem run_prefix (h : Reaches tab s front s') (ran : run tab s = .ok tokens) :
    ∃ back, run tab s' = .ok back ∧ tokens = front ++ back := by
  induction h generalizing tokens with
  | here => exact ⟨tokens, ran, rfl⟩
  | @step s middle s' front back stepped _ ih =>
      rw [run_eq, stepped] at ran
      obtain ⟨others, later, rfl⟩ := ok_of_map ran
      obtain ⟨last, behind, rfl⟩ := ih later
      exact ⟨last, behind, (List.append_assoc ..).symm⟩

theorem brackets_behind_append {brackets : Nat} {first second : List Kind} :
    bracketsBehind? brackets (first ++ second) = (bracketsBehind? brackets first).bind (bracketsBehind? · second) := by
  rw [bracketsBehind?, List.foldlM_append]
  rfl

theorem moves_counted {next : State} (moved : Moves tab s front (some next)) :
    bracketsBehind? s.brackets (front.map (·.kind)) = some next.brackets := by
  cases moved with
  | margin _ _ _ aligned => exact brackets_behind_plain fun token member => (aligned_layout aligned token member).2.2 s.brackets
  | newline => rfl
  | visible _ _ _ _ counted =>
      rw [List.map_singleton, brackets_behind_cons, counted]
      rfl

theorem reaches_counted (h : Reaches tab s front s') : bracketsBehind? s.brackets (front.map (·.kind)) = some s'.brackets := by
  induction h with
  | here => rfl
  | step stepped _ ih =>
      rw [List.map_append, brackets_behind_append, moves_counted (step_moves stepped)]
      exact ih

theorem run_counted (h : run tab s = .ok tokens) :
    ∃ brackets, bracketsBehind? s.brackets (tokens.map (·.kind)) = some brackets := by
  refine run_induction (P := fun s tokens => ∃ brackets, bracketsBehind? s.brackets (tokens.map (·.kind)) = some brackets)
    ?_ ?_ h
  · rintro s tokens ⟨⟩
    refine ⟨s.brackets, brackets_behind_plain fun token member => ?_⟩
    obtain ⟨kind, listed, rfl⟩ := List.mem_map.mp member
    rcases List.mem_append.mp listed with block | last
    · rcases List.mem_append.mp block with line | blocks
      · split at line
        · rw [List.mem_singleton.mp line]
          rfl
        · cases line
      · rw [List.eq_of_mem_replicate blocks]
        rfl
    · rw [List.mem_singleton.mp last]
      rfl
  · rintro s s' front back moved ⟨brackets, counted⟩
    refine ⟨brackets, ?_⟩
    rw [List.map_append, brackets_behind_append, moves_counted moved]
    exact counted

theorem reaches_stands {text : List Char} (stands : Stands text s) (h : Reaches tab s front s') : Stands text s' := by
  induction h with
  | here => exact stands
  | step stepped _ ih => exact ih (moves_stands stands (step_moves stepped))

-- A token that stands for text, the newline that ends a line among them.
def Occupies (token : Token) : Prop := token.kind.isVisible = true ∨ token.span.start < token.span.stop

theorem empty_occupies_nothing {token : Token} {here : Position} (empty : token.span = .empty here)
    (invisible : token.kind.isVisible = false) : ¬ Occupies token := by
  rintro (visible | some)
  · cases invisible.symm.trans visible
  · rw [empty] at some
    exact Nat.lt_irrefl _ some

theorem closing_occupies_nothing {here : Position} : ∀ token ∈ closing s here, ¬ Occupies token := by
  intro token member
  rw [closing_eq] at member
  rcases List.mem_append.mp member with block | last
  · have invisible := (closing_layout token block).2
    obtain ⟨_, _, rfl⟩ := List.mem_map.mp block
    exact empty_occupies_nothing rfl invisible
  · rw [List.mem_singleton.mp last]
    exact empty_occupies_nothing rfl rfl

-- The step that reads such a token. It begins within a line and ends behind the token.
structure Reads (tab : Nat) (s : State) (token : Token) (next : State) : Prop where
  step : step tab s = .ok ([token], some next)
  behind : token.span.stop = next.position.offset
  inLine : s.lineStart = false
  lineStart : next.lineStart = !token.kind.isVisible

theorem step_reads {next : State} {token : Token} {back : List Token} (occupies : Occupies token)
    (stepped : step tab s = .ok (front ++ token :: back, some next)) : front = [] ∧ back = [] ∧ Reads tab s token next := by
  have moved := step_moves stepped
  generalize read : front ++ token :: back = tokens at moved stepped
  cases moved with
  | margin _ _ _ aligned =>
      have member : token ∈ front ++ token :: back := by simp
      rw [read] at member
      have invisible := (aligned_layout aligned token member).2.1
      obtain ⟨_, _, rfl⟩ := List.mem_map.mp member
      exact absurd occupies (empty_occupies_nothing rfl invisible)
  | newline inLine =>
      obtain ⟨rfl, last⟩ | ⟨_, none⟩ := List.append_eq_singleton_iff.mp read
      · cases last
        exact ⟨rfl, rfl, stepped, rfl, inLine, rfl⟩
      · cases none
  | visible inLine _ _ reads =>
      obtain ⟨rfl, last⟩ | ⟨_, none⟩ := List.append_eq_singleton_iff.mp read
      · cases last
        refine ⟨rfl, rfl, stepped, rfl, inLine, ?_⟩
        rw [(visible_text reads).visible]
        exact inLine
      · cases none

theorem run_token {token : Token} {back : List Token} (occupies : Occupies token)
    (ran : run tab s = .ok (front ++ token :: back)) :
    ∃ before after, Reaches tab s front before ∧ Reads tab before token after := by
  generalize whole : front ++ token :: back = tokens at ran
  fun_induction run tab s generalizing front tokens with
  | case1 => cases ran
  | case2 s closed stepped =>
      cases ran
      cases step_moves stepped
      have member : token ∈ front ++ token :: back := by simp
      rw [whole] at member
      exact absurd occupies (closing_occupies_nothing token member)
  | case3 s first next stepped ih =>
      obtain ⟨others, later, same⟩ := ok_of_map ran
      rw [← same] at whole
      rcases List.append_eq_append_iff.mp whole with ⟨more, rfl, behind⟩ | ⟨more, rfl, behind⟩
      · cases more with
        | nil =>
            rw [List.append_nil] at stepped
            obtain ⟨before, after, reached, reads⟩ := @ih [] others behind later
            have further := Reaches.step stepped reached
            rw [List.append_nil] at further
            exact ⟨before, after, further, reads⟩
        | cons found more =>
            cases behind
            obtain ⟨rfl, rfl, reads⟩ := step_reads occupies stepped
            exact ⟨s, next, .here, reads⟩
      · obtain ⟨before, after, reached, reads⟩ := ih others behind.symm later
        exact ⟨before, after, .step stepped reached, reads⟩

end Mutagen.Lexer
