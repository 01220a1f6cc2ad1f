import Mutagen.Proofs.Token.Moves

set_option autoImplicit false

namespace Mutagen

namespace Token.Kind

def IsSound : Kind → Prop
  | .name id => isIdentifier id = true
  | .int value => value < Number.bound
  | .float value => value.isNaN = false ∧ value.isNegative = false
  | _ => True

structure IsText (kind : Kind) : Prop where
  sound : kind.IsSound
  visible : kind.isVisible = true

end Token.Kind

open Token (Kind)

theorem of_word_text {text : List Char} (word : isWord text = true) :
    (Kind.ofWord (String.ofList text)).IsText := by
  rw [Kind.ofWord]
  split
  · exact ⟨trivial, rfl⟩
  · rename_i keyword
    split
    · exact ⟨trivial, rfl⟩
    · rename_i reserved
      have noKeyword : Keyword.all.any (·.spelling == String.ofList text) = false := by
        rw [List.any_eq_false]
        exact List.find?_eq_none.mp keyword
      have noReserved : reservedWords.contains (String.ofList text) = false := by simpa using reserved
      refine ⟨?_, rfl⟩
      simp only [Kind.IsSound, isIdentifier, String.toList_ofList, word, noKeyword, noReserved, Bool.not_false,
        Bool.and_true]

theorem taken_word {c : Char} {rest : List Char} (starts : Text.startsWord c = true) :
    isWord ((c :: rest).takeWhile Text.continuesWord) = true := by
  have continues : (rest.takeWhile Text.continuesWord).all Text.continuesWord = true := List.all_takeWhile
  rw [List.takeWhile_cons_of_pos (starts_continues starts), isWord, starts, continues]
  rfl

theorem word_text {c : Char} {rest after : List Char} {kind : Kind} (starts : Text.startsWord c = true)
    (h : Word.read (c :: rest) = .ok (kind, after)) : kind.IsText := by
  unfold Word.read at h
  dsimp only at h
  split at h
  · cases h
  · injection h with parts
    injection parts with word
    rw [← word]
    exact of_word_text (taken_word starts)

namespace Binary64

theorem nearest_decimal_le (n : Nat) (e : Int) : nearestDecimal n e ≤ infinite := by
  have nearest_le (n d : Nat) : nearest n d ≤ infinite := Nat.min_le_right _ _
  unfold nearestDecimal
  split
  · exact Nat.zero_le _
  · split
    · exact Nat.le_refl _
    · split
      · exact Nat.zero_le _
      · split
        · exact nearest_le _ _
        · exact nearest_le _ _

theorem of_magnitude_sound {magnitude : Nat} (bounded : magnitude ≤ infinite) :
    (ofMagnitude magnitude).isNaN = false ∧ (ofMagnitude magnitude).isNegative = false := by
  have small : magnitude < 2 ^ 63 := Nat.lt_of_le_of_lt bounded (by decide)
  have bits : (UInt64.ofNat magnitude).toNat = magnitude :=
    UInt64.toNat_ofNat_of_lt' (Nat.lt_trans small (by decide))
  constructor
  · rw [isNaN, Binary64.magnitude, ofMagnitude, bits, Nat.mod_eq_of_lt small]
    exact decide_eq_false (Nat.not_lt_of_le bounded)
  · rw [isNegative, ofMagnitude, bits]
    exact decide_eq_false (Nat.not_le_of_lt small)

end Binary64

theorem decimal_text {text whole : List Char} {fraction : Option (List Char)} {exponent : Option Int}
    {kind : Kind} (h : Number.decimal text whole fraction exponent = .ok kind) : kind.IsText := by
  unfold Number.decimal at h
  split at h
  · injection h with value
    rw [← value]
    exact ⟨Binary64.of_magnitude_sound (Binary64.nearest_decimal_le _ _), rfl⟩
  · split at h
    · cases h
    · split at h
      · cases h
      · rename_i bounded
        injection h with value
        rw [← value]
        exact ⟨Nat.lt_of_not_le bounded, rfl⟩

theorem radix_text {radix : Nat} {text after : List Char} {kind : Kind}
    (h : Number.readRadix radix text = .ok (kind, after)) : kind.IsText := by
  obtain ⟨digits, _, _, _, bounded, rfl⟩ := Number.read_radix_iff.mp h
  exact ⟨bounded, rfl⟩

theorem number_text {text after : List Char} {kind : Kind} (h : Number.read text = .ok (kind, after)) :
    kind.IsText := by
  unfold Number.read at h
  split at h
  · exact radix_text h
  · obtain ⟨whole, _, fraction, _, exponent, _, _, _, _, _, token⟩ := Number.read_decimal_iff.mp h
    exact decimal_text token

theorem mark_text {text after : List Char} {kind : Kind} (h : Mark.read text = .ok (kind, after)) :
    kind.IsText := by
  unfold Mark.read at h
  split at h
  · rename_i entry found
    injection h with parts
    injection parts with value
    have listed := List.mem_of_find?_eq_some found
    have all : ∀ entry ∈ Mark.table, entry.2.IsText := by
      refine fun entry member => ⟨?_, ?_⟩
      · revert entry
        simp [Mark.table, Kind.IsSound]
      · revert entry
        simp [Mark.table, Kind.isVisible]
    rw [← value]
    exact all _ listed
  · cases h

namespace Lexer

theorem visible_text {text after : List Char} {kind : Kind} (h : readVisible text = .ok (kind, after)) :
    kind.IsText := by
  unfold readVisible at h
  split at h
  · exact mark_text h
  · split at h
    · rename_i starts
      exact word_text starts h
    · split at h
      · exact number_text h
      · split at h
        · obtain ⟨⟨value, behind⟩, _, same⟩ := ok_of_map h
          injection same with string
          rw [← string]
          exact ⟨trivial, rfl⟩
        · exact mark_text h

def AllSound (tokens : List Token) : Prop := ∀ token ∈ tokens, token.kind.IsSound

theorem all_sound_at (kinds : List Kind) (span : Span) (h : ∀ kind ∈ kinds, kind.IsSound) :
    AllSound (kinds.map fun kind => ⟨kind, span⟩) := by
  intro token member
  obtain ⟨kind, listed, rfl⟩ := List.mem_map.mp member
  exact h kind listed

-- What a step can do.
inductive Steps (tab : Nat) (s : State) : List Token → Option State → Prop where
  | margin {kinds : List Kind} {margins : List Margin} {here : Position} (starts : s.lineStart = true)
      (block : kinds = [.indent] ∧ (nextMargin tab {} s.text).2 ≠ [] ∨ ∃ n, kinds = List.replicate n .dedent) :
      Steps tab s (kinds.map fun kind => ⟨kind, .empty here⟩)
        (some { s with position := here, text := (nextMargin tab {} s.text).2, margins := margins, lineStart := false })
  | ending {here : Position} (inLine : s.lineStart = false) (blank : skipBlank (0 < s.brackets) s.text = []) :
      Steps tab s (closing s here) none
  | newline {after : List Char} {span : Span} {there : Position} (inLine : s.lineStart = false)
      (ends : skipBlank (0 < s.brackets) s.text = '\n' :: after) :
      Steps tab s [⟨.newline, span⟩]
        (some { s with position := there, text := after, lineStart := true, unfinished := false })
  | visible {text behind : List Char} {kind : Kind} {span : Span} {there : Position} {brackets : Nat}
      (inLine : s.lineStart = false) (begins : skipBlank (0 < s.brackets) s.text = text)
      (reads : readVisible text = .ok (kind, behind)) :
      Steps tab s [⟨kind, span⟩]
        (some { s with position := there, text := behind, brackets := brackets, unfinished := true })

theorem moves_steps {tab : Nat} {s : State} {tokens : List Token} {next : Option State} (moved : Moves tab s tokens next) :
    Steps tab s tokens next := by
  cases moved with
  | @margin skipped rest margin kinds margins starts _ measured aligned =>
      obtain rfl : (nextMargin tab {} s.text).2 = rest := congrArg Prod.snd measured
      refine .margin starts ?_
      rcases aligned with ⟨_, rfl, _⟩ | ⟨some, realigned⟩
      · exact .inr ⟨0, rfl⟩
      · rcases realign_cases realigned with ⟨opens, _⟩ | ⟨closed, _, closes, _⟩
        · exact .inl ⟨opens, some⟩
        · exact .inr ⟨closed.length, closes⟩
  | ending inLine blank => exact .ending inLine blank
  | newline inLine _ ends => exact .newline inLine ends
  | visible inLine _ begins reads => exact .visible inLine begins reads

theorem closing_sound (s : State) (here : Position) : AllSound (closing s here) := by
  refine all_sound_at _ _ fun kind member => ?_
  simp only [List.mem_append, List.mem_replicate, List.mem_singleton] at member
  rcases member with (line | ⟨_, rfl⟩) | rfl
  · split at line
    · rw [List.mem_singleton.mp line]
      trivial
    · cases line
  · trivial
  · trivial

theorem steps_sound {tab : Nat} {s : State} {tokens : List Token} {next : Option State}
    (h : Steps tab s tokens next) : AllSound tokens := by
  cases h with
  | margin _ block =>
      refine all_sound_at _ _ fun kind member => ?_
      rcases block with ⟨rfl, _⟩ | ⟨n, rfl⟩
      · rw [List.mem_singleton.mp member]
        trivial
      · rw [List.eq_of_mem_replicate member]
        trivial
  | ending => exact closing_sound s _
  | newline => exact List.forall_mem_singleton.mpr trivial
  | visible _ _ reads => exact List.forall_mem_singleton.mpr (visible_text reads).sound

inductive Runs (tab : Nat) : State → List Token → Prop where
  | last {s : State} {tokens : List Token} : Steps tab s tokens none → Runs tab s tokens
  | more {s s' : State} {front back : List Token} : Steps tab s front (some s') → Runs tab s' back →
      Runs tab s (front ++ back)

theorem run_runs {tab : Nat} {s : State} {tokens : List Token} (h : run tab s = .ok tokens) : Runs tab s tokens :=
  run_induction (P := Runs tab) (fun _ _ moved => .last (moves_steps moved))
    (fun _ _ _ _ moved later => .more (moves_steps moved) later) h

theorem runs_sound {tab : Nat} {s : State} {tokens : List Token} (h : Runs tab s tokens) : AllSound tokens := by
  induction h with
  | last stepped => exact steps_sound stepped
  | more stepped _ ih => exact List.forall_mem_append.mpr ⟨steps_sound stepped, ih⟩

end Lexer

theorem tokenize_sound {source : String} {tokens : List Token} (h : tokenize source = .ok tokens) :
    Lexer.AllSound tokens :=
  Lexer.runs_sound (Lexer.run_runs h)

end Mutagen
