import Mathlib.Data.List.TakeWhile
import Mutagen.Proofs.Position
import Mutagen.Proofs.Token.Line

set_option autoImplicit false

namespace Mutagen.Lexer

open Token (Kind)

variable {tab : Nat} {s s' : State} {text rest : List Char} {tokens : List Token}

-- What a new margin does to the open blocks: it opens one more, or it closes the inner ones and fits the next.
theorem realign_cases {margins margins' : List Margin} {next : Margin} {kinds : List Kind}
    (h : realign margins next = .ok (kinds, margins')) :
    (kinds = [.indent] ∧ margins' = next :: margins ∧ (margins.headD {}).width < next.width ∧
      (margins.headD {}).plain < next.plain) ∨
    ∃ closed, margins = closed ++ margins' ∧ kinds = List.replicate closed.length .dedent ∧
      (∀ margin ∈ closed, next.width < margin.width) ∧ margins'.headD {} = next := by
  unfold realign at h
  dsimp only at h
  split at h
  · rename_i wider
    split at h
    · cases h
    · rename_i ordered
      cases h
      exact .inl ⟨rfl, rfl, wider, Nat.lt_of_not_le ordered⟩
  · split at h
    · cases h
    · rename_i width
      split at h
      · cases h
      · rename_i plain
        cases h
        have split := (margins.takeWhile_append_dropWhile (p := fun margin => next.width < margin.width)).symm
        refine .inr ⟨_, split, ?_, fun margin inner => by simpa using List.mem_takeWhile_imp inner, ?_⟩
        · have sizes := congrArg List.length split
          rw [List.length_append] at sizes
          rw [sizes, Nat.add_sub_cancel]
        · simp only [bne_iff_ne, ne_eq, Decidable.not_not] at width plain
          exact Margin.mk.injEq .. ▸ ⟨width, plain⟩

def Based (margins : List Margin) : Prop := margins.getLast? = some {}

theorem initial_based (text : List Char) : Based (State.initial text).margins := rfl

theorem based_length {margins : List Margin} (based : Based margins) : 1 ≤ margins.length :=
  List.length_pos_of_mem (List.mem_of_getLast? based)

-- No line is less wide than the program, and so its margin is never closed.
theorem realign_based {margins margins' : List Margin} {next : Margin} {kinds : List Kind} (based : Based margins)
    (h : realign margins next = .ok (kinds, margins')) : Based margins' := by
  rcases realign_cases h with ⟨_, rfl, _⟩ | ⟨closed, rfl, _, wider, _⟩
  · rw [Based, List.getLast?_cons, based]
    rfl
  · cases margins' with
    | nil =>
        rw [Based, List.append_nil] at based
        exact absurd (wider _ (List.mem_of_getLast? based)) (Nat.not_lt_zero _)
    | cons margin margins' =>
        rw [Based, List.getLast?_append_cons] at based
        exact based

inductive Moves (tab : Nat) (s : State) : List Token → Option State → Prop where
  | margin {skipped rest : List Char} {next : Margin} {kinds : List Kind} {margins : List Margin}
      (starts : s.lineStart = true) (text : s.text = skipped ++ rest) (measured : nextMargin tab {} s.text = (next, rest))
      (aligned : rest = [] ∧ kinds = [] ∧ margins = s.margins ∨
        rest ≠ [] ∧ realign s.margins next = .ok (kinds, margins)) :
      Moves tab s (kinds.map fun kind => ⟨kind, .empty (s.position.behind skipped)⟩)
        (some { s with position := s.position.behind skipped, text := rest, margins := margins, lineStart := false })
  | ending (inLine : s.lineStart = false) (blank : skipBlank (0 < s.brackets) s.text = []) :
      Moves tab s (closing s (s.position.behind s.text)) none
  | newline {skipped after : List Char} (inLine : s.lineStart = false) (text : s.text = skipped ++ '\n' :: after)
      (ends : skipBlank (0 < s.brackets) s.text = '\n' :: after) :
      Moves tab s [⟨.newline, .between (s.position.behind skipped) (s.position.behind (skipped ++ ['\n']))⟩]
        (some { s with position := s.position.behind (skipped ++ ['\n']), text := after, lineStart := true,
                       unfinished := false })
  | visible {skipped slice after : List Char} {kind : Kind} {brackets : Nat} (inLine : s.lineStart = false)
      (text : s.text = skipped ++ (slice ++ after)) (begins : skipBlank (0 < s.brackets) s.text = slice ++ after)
      (reads : readVisible (slice ++ after) = .ok (kind, after))
      (counted : countBrackets? s.brackets kind = some brackets) :
      Moves tab s [⟨kind, .between (s.position.behind skipped) (s.position.behind (skipped ++ slice))⟩]
        (some { s with position := s.position.behind (skipped ++ slice), text := after, brackets := brackets,
                       unfinished := true })

theorem moves_based (based : Based s.margins) (moved : Moves tab s tokens (some s')) : Based s'.margins := by
  cases moved with
  | margin _ _ _ aligned =>
      rcases aligned with ⟨_, _, rfl⟩ | ⟨_, realigned⟩
      · exact based
      · exact realign_based based realigned
  | newline | visible => exact based

theorem start_line_moves {next : Option State} (starts : s.lineStart = true)
    (h : startLine tab s = .ok (tokens, next)) : Moves tab s tokens next := by
  obtain ⟨skipped, split⟩ := next_margin_suffix tab {} s.text
  simp only [startLine, Position.up_to_eq split] at h
  split at h
  · cases h
  · rename_i kinds margins aligned
    cases h
    refine .margin starts split.symm rfl ?_
    split at aligned
    · rename_i empty
      cases aligned
      exact .inl ⟨List.isEmpty_iff.mp empty, rfl, rfl⟩
    · rename_i filled
      exact .inr ⟨fun empty => filled (List.isEmpty_iff.mpr empty), aligned⟩

theorem read_next_moves {next : Option State} (inLine : s.lineStart = false) (h : readNext s = .ok (tokens, next)) :
    Moves tab s tokens next := by
  obtain ⟨skipped, split⟩ := skip_blank_suffix (0 < s.brackets) s.text
  simp only [readNext, Position.up_to_eq split] at h
  cases blank : skipBlank (0 < s.brackets) s.text with
  | nil =>
      rw [blank, List.append_nil] at split
      rw [blank] at h
      cases h
      rw [split]
      exact .ending inLine blank
  | cons c after =>
      rw [blank] at split h
      dsimp only at h
      split at h
      · rename_i newline
        subst newline
        cases h
        rw [← Position.behind_snoc]
        exact .newline inLine split.symm blank
      · split at h
        · cases h
        · rename_i kind behind reads
          obtain ⟨slice, token⟩ := (read_visible_is_rest reads).1
          rw [← token] at split blank reads h
          have there : (s.position.behind skipped).upTo (slice ++ behind) behind = s.position.behind (skipped ++ slice) := by
            rw [Position.up_to_eq rfl, Position.behind_append]
          rw [there] at h
          split at h
          · cases h
          · rename_i brackets counted
            cases h
            exact .visible inLine split.symm blank reads counted

theorem step_moves {next : Option State} (h : step tab s = .ok (tokens, next)) : Moves tab s tokens next := by
  by_cases starts : s.lineStart = true
  · rw [step, if_pos starts] at h
    exact start_line_moves starts h
  · rw [step, if_neg starts] at h
    exact read_next_moves (Bool.eq_false_iff.mpr starts) h

theorem run_induction {P : State → List Token → Prop} (last : ∀ s tokens, Moves tab s tokens none → P s tokens)
    (more : ∀ s s' front back, Moves tab s front (some s') → P s' back → P s (front ++ back))
    (h : run tab s = .ok tokens) : P s tokens := by
  fun_induction run tab s generalizing tokens with
  | case1 => cases h
  | case2 s closed stepped =>
      cases h
      exact last s closed (step_moves stepped)
  | case3 s front s' stepped ih =>
      obtain ⟨back, ran, rfl⟩ := ok_of_map h
      exact more s s' front back (step_moves stepped) (ih ran)

def Goes (tab : Nat) (s s' : State) : Prop := ∃ tokens, step tab s = .ok (tokens, some s')

-- Where a state stands in the text.
def Stands (text : List Char) (s : State) : Prop :=
  ∃ before, text = before ++ s.text ∧ s.position = Position.behind {} before

theorem initial_stands (text : List Char) : Stands text (.initial text) := ⟨[], rfl, rfl⟩

theorem stands_behind {skipped : List Char} (h : Stands text s) (split : s.text = skipped ++ rest) :
    ∃ before, text = before ++ rest ∧ s.position.behind skipped = Position.behind {} before := by
  obtain ⟨before, whole, here⟩ := h
  refine ⟨before ++ skipped, ?_, ?_⟩
  · rw [whole, split, List.append_assoc]
  · rw [here, Position.behind_append]

theorem stands_end (h : Stands text s) : s.position.behind s.text = Position.behind {} text := by
  obtain ⟨before, whole, here⟩ := h
  rw [here, ← Position.behind_append, ← whole]

theorem moves_stands (h : Stands text s) (moved : Moves tab s tokens (some s')) : Stands text s' := by
  cases moved with
  | margin _ split => exact stands_behind h split
  | newline _ split => exact stands_behind h (split.trans (List.append_cons ..))
  | visible _ split => exact stands_behind h (split.trans (List.append_assoc ..).symm)

end Mutagen.Lexer
