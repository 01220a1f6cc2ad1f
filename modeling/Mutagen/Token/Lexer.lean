import Mutagen.Token.Number
import Mutagen.Token.Quoted
import Mutagen.Token.Word

set_option autoImplicit false

namespace Mutagen

namespace Lexer

structure Margin where
  width : Nat := 0
  plain : Nat := 0
deriving DecidableEq, Repr

def skipComment (text : List Char) : List Char := text.dropWhile (· != '\n')

theorem skip_comment_suffix (text : List Char) : skipComment text <:+ text :=
  List.dropWhile_suffix _

/-- The margin of the next line that is not blank, and the text behind it. `tab` is the distance
of the tab stops, and `seen` is what was measured in front of `text`. -/
def nextMargin (tab : Nat) (seen : Margin) (text : List Char) : Margin × List Char :=
  match text with
  | [] => (seen, [])
  | c :: rest =>
      if c = ' ' then nextMargin tab ⟨seen.width + 1, seen.plain + 1⟩ rest
      else if c = '\t' then nextMargin tab ⟨(seen.width / tab + 1) * tab, seen.plain + 1⟩ rest
      else if c = '\x0c' || c = '\n' || c = '\r' then nextMargin tab {} rest
      else if c = '#' then nextMargin tab {} (skipComment rest)
      else (seen, c :: rest)
termination_by text.length
decreasing_by
  all_goals simp only [List.length_cons]
  all_goals try omega
  exact Nat.lt_succ_of_le (skip_comment_suffix rest).length_le

/-- The block tokens in front of a line with the margin `next`, and the margins of the blocks then
open. `margins` lists those of the open blocks, innermost first, and the program's own, which is empty. -/
def realign (margins : List Margin) (next : Margin) :
    Except ParseError.Cause (List Token.Kind × List Margin) :=
  let innermost := margins.headD {}
  if innermost.width < next.width then
    if next.plain ≤ innermost.plain then .error .inconsistentTabs
    else .ok ([.indent], next :: margins)
  else
    let kept := margins.dropWhile fun margin => next.width < margin.width
    let outer := kept.headD {}
    if outer.width != next.width then .error .unmatchedUnindent
    else if outer.plain != next.plain then .error .inconsistentTabs
    else .ok (List.replicate (margins.length - kept.length) .dedent, kept)

def skipBlank (joined : Bool) (text : List Char) : List Char :=
  match text with
  | [] => []
  | c :: rest =>
      if c = ' ' || c = '\t' || c = '\x0c' || c = '\r' then skipBlank joined rest
      else if c = '#' then skipBlank joined (skipComment rest)
      else if c = '\n' && joined then skipBlank joined rest
      else if c = '\\' && rest.take 1 = ['\n'] then skipBlank joined (rest.drop 1)
      else if c = '\\' && rest.take 2 = ['\r', '\n'] then skipBlank joined (rest.drop 2)
      else c :: rest
termination_by text.length
decreasing_by
  all_goals simp only [List.length_cons, List.length_drop]
  all_goals try omega
  exact Nat.lt_succ_of_le (skip_comment_suffix rest).length_le

def readVisible (text : List Char) : Except Fault (Token.Kind × List Char) :=
  match text with
  | [] => Mark.read []
  | c :: rest =>
      if Text.startsWord c then Word.read text
      else if c.isDigit || c = '.' && rest.head?.any Char.isDigit then Number.read text
      else if Word.isQuote c then
        (Quoted.read c text).map fun (value, after) => (.str (String.ofList value), after)
      else Mark.read text

def maxBrackets : Nat := 200

def countBrackets? (brackets : Nat) : Token.Kind → Option Nat
  | .mark mark =>
      if mark.isOpening then if maxBrackets ≤ brackets then none else some (brackets + 1)
      else if mark.isClosing then some (brackets - 1)
      else some brackets
  | _ => some brackets

structure State where
  position : Position
  text : List Char
  margins : List Margin
  brackets : Nat
  /-- A line outside brackets begins here, and its margin has not been measured. -/
  lineStart : Bool
  /-- The line holds a visible token and has not been ended. -/
  unfinished : Bool

def closing (s : State) (here : Position) : List Token :=
  let kinds : List Token.Kind :=
    (if s.unfinished then [.newline] else []) ++ List.replicate (s.margins.length - 1) .dedent ++ [.eof]
  kinds.map fun kind => ⟨kind, .empty here⟩

def startLine (tab : Nat) (s : State) : Except ParseError (List Token × Option State) :=
  let (next, rest) := nextMargin tab {} s.text
  let here := s.position.upTo s.text rest
  match if rest.isEmpty then .ok ([], s.margins) else realign s.margins next with
  | .error cause => .error (.atPosition cause here)
  | .ok (kinds, margins) =>
      .ok (kinds.map fun kind => ⟨kind, .empty here⟩,
        some { s with position := here, text := rest, margins := margins, lineStart := false })

def readNext (s : State) : Except ParseError (List Token × Option State) :=
  let rest := skipBlank (0 < s.brackets) s.text
  let here := s.position.upTo s.text rest
  match rest with
  | [] => .ok (closing s here, none)
  | c :: after =>
      if c = '\n' then
        let there := here.step c
        .ok ([⟨.newline, .between here there⟩],
          some { s with position := there, text := after, lineStart := true, unfinished := false })
      else
        match readVisible (c :: after) with
        | .error fault => .error (.atPosition fault.cause (here.upTo (c :: after) fault.rest))
        | .ok (kind, behind) =>
            match countBrackets? s.brackets kind with
            | none => .error (.atPosition .tooManyBrackets here)
            | some brackets =>
                let there := here.upTo (c :: after) behind
                .ok ([⟨kind, .between here there⟩],
                  some { s with position := there, text := behind, brackets := brackets, unfinished := true })

def step (tab : Nat) (s : State) : Except ParseError (List Token × Option State) :=
  if s.lineStart then startLine tab s else readNext s

theorem next_margin_suffix (tab : Nat) (seen : Margin) (text : List Char) :
    (nextMargin tab seen text).2 <:+ text := by
  fun_induction nextMargin tab seen text with
  | case1 => exact List.suffix_refl _
  | case2 | case3 | case4 => rename_i ih; exact ih.trans (List.suffix_cons _ _)
  | case5 => rename_i ih; exact (ih.trans (skip_comment_suffix _)).trans (List.suffix_cons _ _)
  | case6 => exact List.suffix_refl _

theorem skip_blank_suffix (joined : Bool) (text : List Char) :
    skipBlank joined text <:+ text := by
  fun_induction skipBlank joined text with
  | case1 => exact List.suffix_refl _
  | case2 | case4 => rename_i ih; exact ih.trans (List.suffix_cons _ _)
  | case3 => rename_i ih; exact (ih.trans (skip_comment_suffix _)).trans (List.suffix_cons _ _)
  | case5 | case6 => rename_i ih; exact (ih.trans (List.drop_suffix _ _)).trans (List.suffix_cons _ _)
  | case7 => exact List.suffix_refl _

theorem read_visible_is_rest {c : Char} {rest after : List Char} {kind : Token.Kind}
    (h : readVisible (c :: rest) = .ok (kind, after)) : IsRest after (c :: rest) := by
  simp only [readVisible] at h
  split at h
  · rename_i hc
    refine Word.read_is_rest ?_ h
    rcases Bool.or_eq_true_iff.1 hc with hc | hc <;> simp [Text.continuesWord, hc]
  · split at h
    · rename_i hc
      refine Number.read_is_rest ?_ h
      simp only [Bool.or_eq_true, Bool.and_eq_true, decide_eq_true_eq] at hc
      exact hc.imp_right (·.1)
    · split at h
      · obtain ⟨⟨value, behind⟩, hr, he⟩ := ok_of_map h
        simp only [Prod.mk.injEq] at he
        exact Quoted.read_is_rest (he.2 ▸ hr)
      · exact Mark.read_is_rest h

/-- Decreases with every step: a step takes text, or at least leaves a line's start. -/
def State.left (s : State) : Nat := 2 * s.text.length + s.lineStart.toNat

theorem start_line_left {tab : Nat} {s s' : State} {tokens : List Token} (hs : s.lineStart = true)
    (h : startLine tab s = .ok (tokens, some s')) : s'.left < s.left := by
  simp only [startLine] at h
  split at h
  · simp at h
  · simp only [Except.ok.injEq, Prod.mk.injEq, Option.some.injEq] at h
    have hl := (next_margin_suffix tab {} s.text).length_le
    rw [← h.2, State.left, State.left, hs]
    simp only [Bool.toNat_false, Bool.toNat_true]
    omega

theorem read_next_left {s s' : State} {tokens : List Token}
    (h : readNext s = .ok (tokens, some s')) : s'.left < s.left := by
  have hl := (skip_blank_suffix (0 < s.brackets) s.text).length_le
  simp only [readNext] at h
  split at h
  · simp at h
  · rename_i c after hb
    rw [hb, List.length_cons] at hl
    split at h
    · simp only [Except.ok.injEq, Prod.mk.injEq, Option.some.injEq] at h
      rw [← h.2, State.left, State.left]
      simp only [Bool.toNat_true]
      omega
    · split at h
      · simp at h
      · rename_i kind behind hv
        split at h
        · simp at h
        · simp only [Except.ok.injEq, Prod.mk.injEq, Option.some.injEq] at h
          have hlt := (read_visible_is_rest hv).2
          rw [List.length_cons] at hlt
          rw [← h.2, State.left, State.left]
          simp only
          omega

theorem step_left {tab : Nat} {s s' : State} {tokens : List Token}
    (h : step tab s = .ok (tokens, some s')) : s'.left < s.left := by
  unfold step at h
  split at h
  · rename_i hs; exact start_line_left hs h
  · exact read_next_left h

def run (tab : Nat) (s : State) : Except ParseError (List Token) :=
  match _h : step tab s with
  | .error e => .error e
  | .ok (tokens, none) => .ok tokens
  | .ok (tokens, some s') => (run tab s').map (tokens ++ ·)
termination_by s.left
decreasing_by exact step_left (by assumption)

def State.initial (text : List Char) : State := ⟨{}, text, [{}], 0, true, false⟩

def dropMark : List Char → List Char
  | '\ufeff' :: rest => rest
  | text => text

def tabStop : Nat := 8

end Lexer

def tokenize (source : String) : Except ParseError (List Token) :=
  Lexer.run Lexer.tabStop (.initial (Lexer.dropMark source.toList))

end Mutagen
