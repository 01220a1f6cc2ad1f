import Mathlib.Logic.Relation
import Mutagen.Proofs.Token.Moves

set_option autoImplicit false

namespace Mutagen

open Token (Kind)

namespace Lexer

-- A margin measured without tab stops, and a state all of whose margins are.
def Margin.flat (margin : Margin) : Margin := ⟨margin.plain, margin.plain⟩

def State.flat (s : State) : State := { s with margins := s.margins.map Margin.flat }

def Margin.Below (outer inner : Margin) : Prop := outer.width < inner.width ∧ outer.plain < inner.plain

-- The margins from that of the program inwards.
def State.stack (s : State) : List Margin := s.margins.reverse

structure Ordered (margins : List Margin) : Prop where
  based : Based margins
  wider : margins.Pairwise fun inner outer => outer.Below inner

variable {tab : Nat} {s s' : State} {margins margins' : List Margin} {next : Margin} {kinds : List Kind}

theorem below_trans {outer middle inner : Margin} (h : outer.Below middle) (h' : middle.Below inner) : outer.Below inner :=
  ⟨h.1.trans h'.1, h.2.trans h'.2⟩

theorem head_cons (based : Based margins) : ∃ outer, margins = margins.headD {} :: outer := by
  cases margins with
  | nil => cases based
  | cons margin margins => exact ⟨_, rfl⟩

theorem flat_head (margins : List Margin) : (margins.map Margin.flat).headD {} = (margins.headD {}).flat := by
  cases margins with
  | nil => rfl
  | cons margin margins => rfl

theorem ordered_inner {closed : List Margin} (h : Ordered (closed ++ margins)) (based : Based margins) :
    Ordered margins ∧ ∀ margin ∈ closed, (margins.headD {}).Below margin := by
  obtain ⟨_, outer, across⟩ := List.pairwise_append.mp h.wider
  refine ⟨⟨based, outer⟩, fun margin inner => across margin inner _ ?_⟩
  obtain ⟨others, first⟩ := head_cons based
  rw [first]
  exact .head _

theorem realign_ordered (ordered : Ordered margins) (h : realign margins next = .ok (kinds, margins')) :
    Ordered margins' := by
  have based := realign_based ordered.based h
  rcases realign_cases h with ⟨_, rfl, wider, longer⟩ | ⟨closed, rfl, _⟩
  · obtain ⟨outer, first⟩ := head_cons ordered.based
    have top : (margins.headD {}).Below next := ⟨wider, longer⟩
    refine ⟨based, List.pairwise_cons.mpr ⟨fun margin member => ?_, ordered.wider⟩⟩
    have inner := ordered.wider
    rw [first] at member inner
    rcases List.mem_cons.mp member with rfl | below
    · exact top
    · exact below_trans ((List.pairwise_cons.mp inner).1 margin below) top
  · exact (ordered_inner ordered based).1

-- Without tab stops a margin opens and closes the same blocks.
theorem realign_flat (ordered : Ordered margins) (h : realign margins next = .ok (kinds, margins')) :
    realign (margins.map Margin.flat) next.flat = .ok (kinds, margins'.map Margin.flat) := by
  have based := realign_based ordered.based h
  rcases realign_cases h with ⟨rfl, rfl, _, longer⟩ | ⟨closed, rfl, rfl, _, fits⟩
  · unfold realign
    simp only [flat_head, Margin.flat, if_pos longer, if_neg (Nat.not_le_of_lt longer), List.map_cons]
  · have inner := (ordered_inner ordered based).2
    rw [fits] at inner
    have longer : ∀ margin ∈ closed.map Margin.flat, decide (next.flat.width < margin.width) = true := by
      intro margin member
      obtain ⟨original, listed, rfl⟩ := List.mem_map.mp member
      exact decide_eq_true (inner original listed).2
    have kept : ((closed ++ margins').map Margin.flat).dropWhile (fun margin => next.flat.width < margin.width) =
        margins'.map Margin.flat := by
      rw [List.map_append, List.dropWhile_append_of_pos longer]
      cases margins' with
      | nil => rfl
      | cons margin others =>
          cases fits
          exact List.dropWhile_cons_of_neg (by simp)
    have noWider : ¬ ((closed ++ margins').headD {}).flat.width < next.flat.width := by
      cases closed with
      | nil =>
          rw [List.nil_append, fits]
          exact Nat.lt_irrefl _
      | cons margin others => exact Nat.lt_asymm (inner margin (.head _)).2
    simp only [realign, flat_head, if_neg noWider, kept, fits, bne_self_eq_false, Bool.false_eq_true, if_false,
      List.length_map, List.length_append, Nat.add_sub_cancel]

theorem next_margin_flat (tab : Nat) (seen : Margin) (text : List Char) :
    nextMargin 1 seen.flat text = ((nextMargin tab seen text).1.flat, (nextMargin tab seen text).2) := by
  have stop (width : Nat) : (width / 1 + 1) * 1 = width + 1 := by rw [Nat.div_one, Nat.mul_one]
  fun_induction nextMargin tab seen text with
  | case1 => rw [nextMargin]
  | case2 seen rest ih => simpa [nextMargin, Margin.flat] using ih
  | case3 seen rest space ih => simpa [nextMargin, Margin.flat, stop] using ih
  | case4 seen c rest space stops blank ih => rw [nextMargin, if_neg space, if_neg stops, if_pos blank]; exact ih
  | case5 seen rest space stops blank ih => rw [nextMargin, if_neg space, if_neg stops, if_neg blank, if_pos rfl]; exact ih
  | case6 seen c rest space stops blank comment =>
      rw [nextMargin, if_neg space, if_neg stops, if_neg blank, if_neg comment]

theorem start_line_flat {tokens : List Token} {after : Option State} (ordered : Ordered s.margins)
    (h : startLine tab s = .ok (tokens, after)) : startLine 1 s.flat = .ok (tokens, after.map State.flat) := by
  have measured : nextMargin 1 {} s.text = ((nextMargin tab {} s.text).1.flat, (nextMargin tab {} s.text).2) :=
    next_margin_flat tab {} s.text
  unfold startLine at h ⊢
  dsimp only at h
  split at h
  · cases h
  · rename_i kinds margins aligned
    cases h
    have flat : (if (nextMargin tab {} s.text).2.isEmpty then .ok ([], s.margins.map Margin.flat)
        else realign (s.margins.map Margin.flat) (nextMargin tab {} s.text).1.flat) = .ok (kinds, margins.map Margin.flat) := by
      split at aligned
      · rename_i empty
        cases aligned
        rw [if_pos empty]
      · rename_i filled
        rw [if_neg filled]
        exact realign_flat ordered aligned
    simp only [State.flat, measured, flat]
    rfl

-- Within a line the margins do not count.
theorem read_next_flat {tokens : List Token} {after : Option State} (h : readNext s = .ok (tokens, after)) :
    readNext s.flat = .ok (tokens, after.map State.flat) := by
  have closes (here : Position) : closing s.flat here = closing s here := by
    rw [closing, closing, State.flat, List.length_map]
  have same : skipBlank (0 < s.flat.brackets) s.flat.text = skipBlank (0 < s.brackets) s.text := rfl
  simp only [readNext, same] at h ⊢
  split at h
  · rename_i blank
    cases h
    simp only [blank, closes]
    rfl
  · rename_i c rest begins
    simp only [begins] at h ⊢
    by_cases newline : c = '\n'
    · rw [if_pos newline] at h ⊢
      cases h
      rfl
    · rw [if_neg newline] at h ⊢
      split at h
      · cases h
      · split at h
        · cases h
        · rename_i brackets counted
          have counts : countBrackets? s.flat.brackets _ = some brackets := counted
          cases h
          simp only [counts]
          rfl

theorem step_flat {tokens : List Token} {after : Option State} (ordered : Ordered s.margins)
    (h : step tab s = .ok (tokens, after)) : step 1 s.flat = .ok (tokens, after.map State.flat) := by
  unfold step at h ⊢
  by_cases starts : s.lineStart = true
  · rw [if_pos starts] at h
    rw [State.flat, if_pos starts]
    exact start_line_flat ordered h
  · rw [if_neg starts] at h
    rw [State.flat, if_neg starts]
    exact read_next_flat h

theorem step_ordered {tokens : List Token} (ordered : Ordered s.margins) (h : step tab s = .ok (tokens, some s')) :
    Ordered s'.margins := by
  cases step_moves h with
  | margin _ _ _ aligned =>
      rcases aligned with ⟨_, _, rfl⟩ | ⟨_, realigned⟩
      · exact ordered
      · exact realign_ordered ordered realigned
  | newline | visible => exact ordered

theorem initial_ordered (text : List Char) : Ordered (State.initial text).margins :=
  ⟨initial_based text, List.pairwise_singleton _ _⟩

theorem run_flat {tokens : List Token} (ordered : Ordered s.margins) (h : run tab s = .ok tokens) :
    run 1 s.flat = .ok tokens := by
  fun_induction run tab s generalizing tokens with
  | case1 => cases h
  | case2 s last stepped =>
      cases h
      rw [run_eq, step_flat ordered stepped]
      rfl
  | case3 s front s' stepped ih =>
      obtain ⟨back, ran, rfl⟩ := ok_of_map h
      have later := ih (step_ordered ordered stepped) ran
      rw [run_eq, step_flat ordered stepped]
      dsimp only [Option.map]
      rw [later]
      rfl

theorem reaches_ordered (ordered : Ordered s.margins) (h : Relation.ReflTransGen (Goes tab) s s') : Ordered s'.margins := by
  induction h with
  | refl => exact ordered
  | tail _ goes ih =>
      obtain ⟨_, stepped⟩ := goes
      exact step_ordered ih stepped

theorem ordered_stack (ordered : Ordered s.margins) : s.stack.Pairwise Margin.Below :=
  List.pairwise_reverse.mpr ordered.wider

theorem stack_head (ordered : Ordered s.margins) : s.stack.head? = some ⟨0, 0⟩ :=
  (List.head?_reverse ..).trans ordered.based

end Lexer

open Lexer

/-- A text that is accepted has the same tokens with tabs that are one column wide, since the open margins are ordered alike
by both of their measures. -/
theorem tokenize_without_stops (source : String) :
    (∀ tokens, tokenize source = .ok tokens → run 1 (.initial (dropMark source.toList)) = .ok tokens) ∧
    ∀ s, Relation.ReflTransGen (Goes tabStop) (.initial (dropMark source.toList)) s →
      s.stack.head? = some ⟨0, 0⟩ ∧ s.stack.Pairwise Margin.Below := by
  have ordered := initial_ordered (dropMark source.toList)
  refine ⟨fun tokens h => run_flat ordered h, fun s reached => ?_⟩
  have within := reaches_ordered ordered reached
  exact ⟨stack_head within, ordered_stack within⟩

-- Two blocks, opened by a tab and by a tab with blanks behind it, that close together.
def tabbed : String := "\tx\n\t    y\nz"

def firstStack? (source : String) : Option (List Margin) :=
  match step tabStop (.initial (dropMark source.toList)) with
  | .ok (_, some s) => some s.stack
  | _ => none

theorem first_goes {source : String} {stack : List Margin} (h : firstStack? source = some stack) :
    ∃ s, Goes tabStop (.initial (dropMark source.toList)) s ∧ s.stack = stack := by
  unfold firstStack? at h
  split at h
  · rename_i tokens s stepped
    exact ⟨s, ⟨tokens, stepped⟩, Option.some.inj h⟩
  · cases h

theorem tabbed_without_stops : ∃ tokens s, tokenize tabbed = .ok tokens ∧
    tokens.map (·.kind) = [.indent, .name "x", .newline, .indent, .name "y", .newline, .dedent, .dedent, .name "z",
      .newline, .eof] ∧
    run 1 (.initial (dropMark tabbed.toList)) = .ok tokens ∧ Goes tabStop (.initial (dropMark tabbed.toList)) s ∧
    s.stack = [⟨0, 0⟩, ⟨8, 1⟩] ∧ s.stack.Pairwise Margin.Below := by
  have reads : (tokenize tabbed).toOption.map (fun tokens => tokens.map (·.kind)) = some [.indent, .name "x", .newline,
      .indent, .name "y", .newline, .dedent, .dedent, .name "z", .newline, .eof] := by decide +kernel
  obtain ⟨tokens, read, kinds⟩ := Option.map_eq_some_iff.mp reads
  have opened : firstStack? tabbed = some [⟨0, 0⟩, ⟨8, 1⟩] := by decide +kernel
  obtain ⟨s, goes, stack⟩ := first_goes opened
  have h := ok_of_option read
  obtain ⟨same, ordered⟩ := tokenize_without_stops tabbed
  exact ⟨tokens, s, h, kinds, same tokens h, goes, stack, (ordered s (.single goes)).2⟩

end Mutagen
