import Mathlib.Data.List.Chain
import Mutagen.Proofs.Token.Sound

set_option autoImplicit false

namespace Mutagen

open Token (Kind)

namespace Lexer

-- From the start of a line on there is a continued line end, and besides it only blanks and comments.
structure Trails (tab : Nat) (text line : List Char) : Prop where
  start : line = text ∨ '\n' :: line <:+ text
  continued : (nextMargin tab {} line).2.head? = some '\\'
  blank : skipBlank false (nextMargin tab {} line).2 = []

def EndsContinued (tab : Nat) (text : List Char) : Prop := ∃ line, Trails tab text line

-- No block closes where it opens.
def Opens (tokens : List Token) : Prop :=
  tokens.IsChain fun first second => first.kind = .indent → second.kind ≠ .dedent

theorem no_backslash_ends {tab : Nat} {text : List Char} (none : '\\' ∉ text) : ¬ EndsContinued tab text := by
  rintro ⟨line, trails⟩
  have inside : line <:+ text := trails.start.elim (fun same => same ▸ List.suffix_refl text)
    fun below => (List.suffix_cons _ _).trans below
  exact none (inside.subset ((next_margin_suffix tab {} line).subset (List.mem_of_head? trails.continued)))

theorem next_margin_stops {tab : Nat} {seen : Margin} {text rest : List Char} {c : Char}
    (h : (nextMargin tab seen text).2 = c :: rest) : c ∉ [' ', '\t', '\x0c', '\n', '\r', '#'] := by
  fun_induction nextMargin tab seen text with
  | case1 => cases h
  | case2 | case3 | case4 | case5 =>
      rename_i ih
      exact ih h
  | case6 seen first others space stop ends comment =>
      cases h
      simp_all

theorem margin_not_blank {tab : Nat} {text line : List Char} (ends : ¬ EndsContinued tab text)
    (start : line = text ∨ '\n' :: line <:+ text) (some : (nextMargin tab {} line).2 ≠ []) :
    skipBlank false (nextMargin tab {} line).2 ≠ [] := by
  intro blank
  cases behind : (nextMargin tab {} line).2 with
  | nil => exact absurd behind some
  | cons c rest =>
      by_cases backslash : c = '\\'
      · exact ends ⟨line, start, by rw [behind, backslash]; rfl, blank⟩
      · have visible := next_margin_stops behind
        simp only [List.mem_cons, List.not_mem_nil, or_false, not_or] at visible
        rw [behind, skipBlank] at blank
        simp [visible, backslash] at blank

theorem skip_joined {text rest : List Char} : skipBlank true text ≠ '\n' :: rest := by
  fun_induction skipBlank true text with
  | case1 => exact fun same => by cases same
  | case2 | case3 | case4 | case5 | case6 => assumption
  | case7 c others blank comment newline =>
      intro same
      cases same
      simp at newline

theorem newline_closed {text rest : List Char} {brackets : Nat}
    (h : skipBlank (0 < brackets) text = '\n' :: rest) : brackets = 0 := by
  by_contra inside
  rw [decide_eq_true (Nat.pos_of_ne_zero inside)] at h
  exact skip_joined h

-- What every state of the lexer keeps to, on its way through `text`.
structure Lays (text : List Char) (s : State) : Prop where
  inside : s.text <:+ text
  closed : s.lineStart = true → s.brackets = 0
  start : s.lineStart = true → s.text = text ∨ '\n' :: s.text <:+ text

variable {tab : Nat} {text : List Char} {s s' : State} {tokens : List Token}

theorem steps_lays (h : Lays text s) (stepped : Steps tab s tokens (some s')) : Lays text s' := by
  have skipped := (skip_blank_suffix (0 < s.brackets) s.text).trans h.inside
  have inLine {P : Prop} {s' : State} (within : s'.lineStart = false) (starts : s'.lineStart = true) : P := by
    rw [within] at starts
    cases starts
  cases stepped with
  | margin => exact ⟨(next_margin_suffix tab {} s.text).trans h.inside, inLine rfl, inLine rfl⟩
  | newline _ ends =>
      rw [ends] at skipped
      exact ⟨(List.suffix_cons _ _).trans skipped, fun _ => newline_closed ends, fun _ => .inr skipped⟩
  | @visible begun after kind _ _ _ within begins reads =>
      rw [begins] at skipped
      have behind : after <:+ begun := by
        cases begun with
        | nil => cases reads
        | cons c rest => exact (read_visible_is_rest reads).1
      exact ⟨behind.trans skipped, inLine within, inLine within⟩

theorem runs_begin (h : Runs tab s tokens) (inLine : s.lineStart = false)
    (some : skipBlank (0 < s.brackets) s.text ≠ []) : ∀ first ∈ tokens.head?, first.kind ≠ .dedent := by
  cases h with
  | last stepped =>
      cases stepped with
      | ending _ blank => exact absurd blank some
  | more stepped _ =>
      cases stepped with
      | margin starts =>
          rw [inLine] at starts
          cases starts
      | newline =>
          rintro first ⟨⟩ dedent
          cases dedent
      | visible _ _ reads =>
          rintro first ⟨⟩ rfl
          cases (visible_text reads).visible

theorem opens_without {tokens : List Token} (none : ∀ token ∈ tokens, token.kind ≠ .indent) : Opens tokens := by
  induction tokens with
  | nil => exact .nil
  | cons first rest ih =>
      refine List.isChain_cons.mpr ⟨fun _ _ indent => ?_, ih fun token member => none token (.tail _ member)⟩
      exact absurd indent (none first (.head _))

theorem closing_opens (s : State) (here : Position) : Opens (closing s here) := by
  refine opens_without fun token member indent => ?_
  obtain ⟨kind, listed, rfl⟩ := List.mem_map.mp member
  cases indent
  simp only [List.mem_append, List.mem_replicate, List.mem_singleton] at listed
  rcases listed with (line | ⟨_, same⟩) | same
  · split at line <;> simp at line
  · cases same
  · cases same

theorem runs_open (h : Runs tab s tokens) (ends : ¬ EndsContinued tab text) (lays : Lays text s) : Opens tokens := by
  induction h with
  | last stepped =>
      cases stepped with
      | ending => exact closing_opens _ _
  | more stepped later ih =>
      have back := ih (steps_lays lays stepped)
      have other {front : List Token} (none : ∀ token ∈ front, token.kind ≠ .indent) : Opens (front ++ _) :=
        List.isChain_append.mpr ⟨opens_without none, back, fun last member _ _ indent =>
          absurd indent (none last (List.mem_of_mem_getLast? member))⟩
      cases stepped with
      | margin starts block =>
          rcases block with ⟨rfl, some⟩ | ⟨n, rfl⟩
          · have filled := margin_not_blank ends (lays.start starts) some
            rw [lays.closed starts] at later
            refine List.isChain_cons.mpr ⟨fun first member _ => ?_, back⟩
            exact runs_begin later rfl filled first member
          · refine other fun token member indent => ?_
            obtain ⟨kind, listed, rfl⟩ := List.mem_map.mp member
            cases (List.eq_of_mem_replicate listed).symm.trans indent
      | newline => exact other (List.forall_mem_singleton.mpr fun indent => by cases indent)
      | visible _ _ reads =>
          refine other (List.forall_mem_singleton.mpr ?_)
          rintro rfl
          cases (visible_text reads).visible

end Lexer

open Lexer

theorem tokenize_opens {source : String} {tokens : List Token} (h : tokenize source = .ok tokens)
    (ends : ¬ EndsContinued tabStop (dropMark source.toList)) : Opens tokens :=
  runs_open (run_runs h) ends ⟨List.suffix_refl _, fun _ => rfl, fun _ => .inl rfl⟩

end Mutagen
