import Mutagen.Proofs.Token.Cuts
import Mutagen.Proofs.Token.Discipline

set_option autoImplicit false

namespace Mutagen

open Token (Kind)

theorem bytes_pos {text : List Char} (some : text ≠ []) : 0 < bytes text := by
  cases text with
  | nil => exact absurd rfl some
  | cons c text => exact Nat.add_pos_left c.utf8Size_pos _

theorem split_at_bytes {front back front' back' : List Char} (same : front ++ back = front' ++ back')
    (size : bytes front = bytes front') : front = front' ∧ back = back' := by
  have nothing {front middle : List Char} (size : bytes (front ++ middle) = bytes front) : middle = [] := by
    by_contra some
    rw [bytes_append] at size
    have := bytes_pos some
    omega
  rcases List.append_eq_append_iff.mp same with ⟨middle, rfl, rfl⟩ | ⟨middle, rfl, rfl⟩
  · obtain rfl := nothing size.symm
    exact ⟨(List.append_nil _).symm, rfl⟩
  · obtain rfl := nothing size
    exact ⟨List.append_nil _, rfl⟩

-- What may stand between tokens, in front of the text `after`.
inductive Gap (after : List Char) : List Char → Prop where
  | done : Gap after []
  | blank {c : Char} {gap : List Char} (white : c ∈ [' ', '\t', '\x0c', '\r', '\n']) :
      Gap after gap → Gap after (c :: gap)
  | comment {comment gap : List Char} (line : '\n' ∉ comment) (ends : Lexer.EndsLine (gap ++ after)) :
      Gap after gap → Gap after ('#' :: (comment ++ gap))
  | continued {gap : List Char} : Gap after gap → Gap after ('\\' :: '\n' :: gap)
  | continuedReturn {gap : List Char} : Gap after gap → Gap after ('\\' :: '\r' :: '\n' :: gap)

theorem gap_append {front back after : List Char} (h : Gap (back ++ after) front) (h' : Gap after back) :
    Gap after (front ++ back) := by
  induction h with
  | done => exact h'
  | blank white _ ih => exact .blank white ih
  | comment line ends _ ih =>
      rw [List.cons_append, List.append_assoc]
      exact .comment line (by rwa [List.append_assoc]) ih
  | continued _ ih => exact .continued ih
  | continuedReturn _ ih => exact .continuedReturn ih

-- From the offset `start` up to `stop` the text reads `slice`, and from there on `after`.
def Slice (text : List Char) (start stop : Nat) (slice after : List Char) : Prop :=
  ∃ before, text = before ++ (slice ++ after) ∧ start = bytes before ∧ stop = bytes (before ++ slice)

def Gapped (text : List Char) (start stop : Nat) : Prop := ∃ gap after, Slice text start stop gap after ∧ Gap after gap

-- A text that holds one visible token and nothing else.
def Alone (slice : List Char) (kind : Kind) : Prop :=
  ∃ tokens, tokenize (String.ofList slice) = .ok tokens ∧ tokens.map (·.kind) = [kind, .newline, .eof]

-- What the token covers.
def Covers (text : List Char) (token : Token) : Prop :=
  ∃ slice after, Slice text token.span.start token.span.stop slice after ∧
    (token.kind.isVisible = true → Alone slice token.kind)

-- From the offset `start` on, the text is a gap, a token, a gap, a token, and so on.
def Tiles (text : List Char) (start : Nat) : List Token → Prop
  | [] => Gapped text start (bytes text)
  | token :: tokens => Gapped text start token.span.start ∧ Covers text token ∧ Tiles text token.span.stop tokens

structure Lossless (text : List Char) (tokens : List Token) : Prop where
  tiles : Tiles text 0 tokens
  inside : ∀ token ∈ tokens, token.span.start ≤ token.span.stop ∧ token.span.stop ≤ bytes text
  ordered : tokens.IsChain fun first second => first.span.stop ≤ second.span.start

variable {text : List Char} {start middle stop : Nat} {token : Token} {tokens : List Token}

theorem slice_bounds {slice after : List Char} (h : Slice text start stop slice after) :
    start ≤ stop ∧ stop ≤ bytes text := by
  obtain ⟨before, rfl, rfl, rfl⟩ := h
  simp only [bytes_append]
  omega

theorem gapped_trans (h : Gapped text start middle) (h' : Gapped text middle stop) : Gapped text start stop := by
  obtain ⟨front, rest, ⟨before, whole, starts, size⟩, gap⟩ := h
  obtain ⟨back, after, ⟨before', whole', size', stops⟩, gap'⟩ := h'
  have same : (before ++ front) ++ rest = before' ++ (back ++ after) := by rw [List.append_assoc, ← whole, whole']
  obtain ⟨rfl, rfl⟩ := split_at_bytes same (size.symm.trans size')
  refine ⟨front ++ back, after, ⟨before, ?_, starts, ?_⟩, gap_append gap gap'⟩
  · rw [whole, List.append_assoc]
  · rw [stops, List.append_assoc]

theorem tiles_behind (h : Gapped text start stop) (h' : Tiles text stop tokens) : Tiles text start tokens := by
  cases tokens with
  | nil => exact gapped_trans h h'
  | cons token tokens => exact ⟨gapped_trans h h'.1, h'.2⟩

theorem tiles_inside (h : Tiles text start tokens) :
    ∀ token ∈ tokens, token.span.start ≤ token.span.stop ∧ token.span.stop ≤ bytes text := by
  induction tokens generalizing start with
  | nil => exact List.forall_mem_nil _
  | cons token tokens ih =>
      obtain ⟨_, ⟨_, _, covers, _⟩, others⟩ := h
      exact List.forall_mem_cons.mpr ⟨slice_bounds covers, ih others⟩

theorem tiles_ordered (h : Tiles text start tokens) :
    tokens.IsChain fun first second => first.span.stop ≤ second.span.start := by
  induction tokens generalizing start with
  | nil => exact .nil
  | cons token tokens ih =>
      obtain ⟨_, _, others⟩ := h
      refine List.isChain_cons.mpr ⟨fun second head => ?_, ih others⟩
      cases tokens with
      | nil => cases head
      | cons next tokens =>
          cases head
          obtain ⟨_, _, between, _⟩ := others.1
          exact (slice_bounds between).1

namespace Lexer

variable {tab : Nat} {s : State}

def Skips (text after : List Char) : Prop := ∃ gap, text = gap ++ after ∧ Gap after gap

section
variable {rest after : List Char}

theorem skips_refl (text : List Char) : Skips text text := ⟨[], rfl, .done⟩

theorem skips_blank {c : Char} (blank : c ∈ [' ', '\t', '\x0c', '\r', '\n']) (h : Skips rest after) :
    Skips (c :: rest) after := by
  obtain ⟨gap, rfl, between⟩ := h
  exact ⟨c :: gap, rfl, .blank blank between⟩

theorem skips_comment (h : Skips (skipComment rest) after) : Skips ('#' :: rest) after := by
  obtain ⟨gap, split, between⟩ := h
  refine ⟨'#' :: (rest.takeWhile (· != '\n') ++ gap), ?_, .comment ?_ ?_ between⟩
  · rw [List.cons_append, List.append_assoc, ← split, skipComment, List.takeWhile_append_dropWhile]
  · intro member
    have other := List.mem_takeWhile_imp member
    simp at other
  · intro c head
    have ends := List.head?_dropWhile_not (· != '\n') rest
    rw [← split, skipComment] at head
    rw [head] at ends
    simpa using ends

theorem skips_continued (continued : rest.take 1 = ['\n']) (h : Skips (rest.drop 1) after) :
    Skips ('\\' :: rest) after := by
  obtain ⟨gap, split, between⟩ := h
  refine ⟨'\\' :: '\n' :: gap, ?_, .continued between⟩
  rw [← List.take_append_drop 1 rest, continued, split]
  rfl

theorem skips_continued_return (continued : rest.take 2 = ['\r', '\n']) (h : Skips (rest.drop 2) after) :
    Skips ('\\' :: rest) after := by
  obtain ⟨gap, split, between⟩ := h
  refine ⟨'\\' :: '\r' :: '\n' :: gap, ?_, .continuedReturn between⟩
  rw [← List.take_append_drop 2 rest, continued, split]
  rfl

end

theorem next_margin_skips (tab : Nat) (seen : Margin) (text : List Char) : Skips text (nextMargin tab seen text).2 := by
  fun_induction nextMargin tab seen text with
  | case1 => exact skips_refl []
  | case2 seen rest ih => exact skips_blank (by decide) ih
  | case3 seen rest _ ih => exact skips_blank (by decide) ih
  | case4 seen c rest _ _ ends ih =>
      refine skips_blank ?_ ih
      simp only [Bool.or_eq_true, decide_eq_true_eq] at ends
      rcases ends with (rfl | rfl) | rfl <;> decide
  | case5 seen rest _ _ _ ih => exact skips_comment ih
  | case6 => exact skips_refl _

theorem skip_blank_skips (joined : Bool) (text : List Char) : Skips text (skipBlank joined text) := by
  fun_induction skipBlank joined text with
  | case1 => exact skips_refl []
  | case2 c rest blank ih =>
      refine skips_blank ?_ ih
      simp only [Bool.or_eq_true, decide_eq_true_eq] at blank
      rcases blank with ((rfl | rfl) | rfl) | rfl <;> decide
  | case3 rest _ ih => exact skips_comment ih
  | case4 c rest _ _ newline ih =>
      obtain ⟨rfl, _⟩ := by simpa using newline
      exact skips_blank (by decide) ih
  | case5 c rest _ _ _ continued ih =>
      obtain ⟨rfl, ends⟩ := by simpa using continued
      exact skips_continued (by simpa using ends) ih
  | case6 c rest _ _ _ _ continued ih =>
      obtain ⟨rfl, ends⟩ := by simpa using continued
      exact skips_continued_return (by simpa using ends) ih
  | case7 => exact skips_refl _

theorem table_visible : ∀ entry ∈ Mark.table, entry.1.toList.head?.any (separators.contains ·) = false := by decide

theorem mark_visible {c : Char} {rest after : List Char} {kind : Kind} (h : Mark.read (c :: rest) = .ok (kind, after)) :
    c ∉ separators := by
  unfold Mark.read at h
  split at h
  · rename_i spelling _ found
    have fits := List.find?_some found
    rw [List.isPrefixOf_iff_prefix] at fits
    have listed := List.mem_of_find?_eq_some found
    have outside := table_visible _ listed
    cases chars : spelling.toList with
    | nil =>
        have some := Mark.table_spelling_ne listed
        rw [← String.length_toList, chars] at some
        exact absurd some (Nat.lt_irrefl 0)
    | cons d others =>
        rw [chars, List.cons_prefix_cons] at fits
        rw [chars, fits.1] at outside
        simpa using outside
  · cases h

-- No token begins with a character that may stand between tokens.
theorem read_visible_begins {c : Char} {rest after : List Char} {kind : Kind}
    (h : readVisible (c :: rest) = .ok (kind, after)) : c ∉ separators := by
  rw [readVisible] at h
  split at h
  · rename_i starts
    exact starts_word_visible starts
  · split at h
    · rename_i begins
      rcases Bool.or_eq_true_iff.mp begins with digit | point
      · exact digit_visible digit
      · rw [of_decide_eq_true (Bool.and_eq_true_iff.mp point).1]
        decide
    · split at h
      · rename_i quote
        rcases Bool.or_eq_true_iff.mp quote with single | double
        · rw [eq_of_beq single]
          decide
        · rw [eq_of_beq double]
          decide
      · exact mark_visible h

theorem count_first (kind : Kind) : ∃ brackets, countBrackets? 0 kind = some brackets := by
  unfold countBrackets?
  split
  · split
    · exact ⟨1, rfl⟩
    · split
      · exact ⟨0, rfl⟩
      · exact ⟨0, rfl⟩
  · exact ⟨0, rfl⟩

theorem visible_alone {slice after : List Char} {kind : Kind} (h : readVisible (slice ++ after) = .ok (kind, after)) :
    Alone slice kind := by
  have reads := read_visible_cuts h List.nil_prefix
  rw [List.append_nil] at reads
  cases slice with
  | nil => cases reads
  | cons c tail =>
      have visible := read_visible_begins reads
      obtain ⟨brackets, counted⟩ := count_first kind
      obtain ⟨place, begun⟩ := @start_row tabStop (.initial (c :: tail)) 0 ⟨0, []⟩ c tail (Nat.zero_le 1) visible
        ⟨rfl, rfl, rfl, rfl, rfl⟩
      have next := @read_next_visible ⟨place, c :: tail, [{}], 0, false, false⟩ kind c tail [] (skip_blank_visible _ visible)
        visible reads
      rw [counted] at next
      obtain ⟨span, there, taken⟩ := next
      have stepped : step tabStop ⟨place, c :: tail, [{}], 0, false, false⟩ =
          .ok ([⟨kind, span⟩], some ⟨there, [], [{}], brackets, false, true⟩) := taken
      have first := comes_of_step stepped
      obtain ⟨ending, ended, kinds⟩ := @run_end tabStop ⟨there, [], [{}], brackets, false, true⟩ 0 rfl rfl
      obtain ⟨front, frontKinds, ran⟩ := comes_trans begun first
      refine ⟨front ++ ending, ?_, ?_⟩
      · rw [tokenize, String.toList_ofList, drop_mark_visible visible, ran, ended]
        rfl
      · rw [List.map_append, frontKinds, kinds]
        rfl

theorem stands_slice {skipped slice after : List Char} (h : Stands text s) (split : s.text = skipped ++ (slice ++ after)) :
    Slice text (s.position.behind skipped).offset (s.position.behind (skipped ++ slice)).offset slice after := by
  obtain ⟨before, whole, here⟩ := h
  refine ⟨before ++ skipped, ?_, ?_, ?_⟩
  · rw [whole, split, List.append_assoc]
  · rw [here, ← Position.behind_append, Position.behind_eq]
  · rw [here, ← Position.behind_append, Position.behind_eq, List.append_assoc]

theorem stands_gapped {gap after : List Char} (h : Stands text s) (split : s.text = gap ++ after)
    (skips : Skips s.text after) : Gapped text s.position.offset (s.position.behind gap).offset := by
  obtain ⟨gap', whole, between⟩ := skips
  obtain rfl := List.append_cancel_right (split.symm.trans whole)
  have slice : Slice text (s.position.behind []).offset (s.position.behind ([] ++ gap)).offset gap after :=
    stands_slice h split
  exact ⟨gap, after, slice, between⟩

theorem stands_nothing {skipped after : List Char} (h : Stands text s) (split : s.text = skipped ++ after) :
    Slice text (s.position.behind skipped).offset (s.position.behind skipped).offset [] after := by
  have slice := stands_slice h (show s.text = skipped ++ ([] ++ after) from split)
  rwa [List.append_nil] at slice

-- Tokens that cover no text.
theorem tiles_empty {front : List Token} {here : Position} {after : List Char}
    (nothing : Slice text here.offset here.offset [] after)
    (empty : ∀ token ∈ front, token.span = .empty here ∧ token.kind.isVisible = false)
    (h : Tiles text here.offset tokens) : Tiles text here.offset (front ++ tokens) := by
  induction front with
  | nil => exact h
  | cons token front ih =>
      obtain ⟨⟨place, invisible⟩, others⟩ := List.forall_mem_cons.mp empty
      have later := ih others
      refine ⟨?_, ⟨[], after, ?_, fun visible => ?_⟩, ?_⟩
      · rw [place]
        exact ⟨[], after, nothing, .done⟩
      · rw [place]
        exact nothing
      · cases invisible.symm.trans visible
      · rw [place]
        exact later

theorem tiles_token {skipped slice after : List Char} {kind : Kind} (stands : Stands text s)
    (split : s.text = skipped ++ (slice ++ after)) (skips : Skips s.text (slice ++ after))
    (alone : kind.isVisible = true → Alone slice kind)
    (h : Tiles text (s.position.behind (skipped ++ slice)).offset tokens) :
    Tiles text s.position.offset
      (⟨kind, .between (s.position.behind skipped) (s.position.behind (skipped ++ slice))⟩ :: tokens) :=
  ⟨stands_gapped stands split skips, ⟨slice, after, stands_slice stands split, alone⟩, h⟩

theorem closing_empty {here : Position} :
    ∀ token ∈ closing s here, token.span = .empty here ∧ token.kind.isVisible = false := by
  intro token member
  rw [closing_eq] at member
  rcases List.mem_append.mp member with block | last
  · refine ⟨?_, (closing_layout token block).2⟩
    obtain ⟨_, _, rfl⟩ := List.mem_map.mp block
    rfl
  · rw [List.mem_singleton.mp last]
    exact ⟨rfl, rfl⟩

theorem tiles_closing (stands : Stands text s) (skips : Skips s.text []) :
    Tiles text s.position.offset (closing s (s.position.behind s.text)) := by
  have whole : s.text = s.text ++ [] := (List.append_nil _).symm
  have nothing := stands_nothing stands whole
  have last : (s.position.behind s.text).offset = bytes text := by rw [stands_end stands, Position.behind_eq]
  have ends : Tiles text (s.position.behind s.text).offset [] := by
    rw [Tiles, ← last]
    exact ⟨[], [], nothing, .done⟩
  refine tiles_behind (stands_gapped stands whole skips) ?_
  rw [← List.append_nil (closing _ _)]
  exact tiles_empty nothing closing_empty ends

theorem run_tiles (stands : Stands text s) (h : run tab s = .ok tokens) : Tiles text s.position.offset tokens := by
  revert stands
  refine run_induction (P := fun s tokens => Stands text s → Tiles text s.position.offset tokens) ?_ ?_ h
  · intro s tokens moved stands
    cases moved with
    | ending _ blank =>
        have skips := skip_blank_skips (0 < s.brackets) s.text
        rw [blank] at skips
        exact tiles_closing stands skips
  · intro s s' front back moved ih stands
    have later := ih (moves_stands stands moved)
    cases moved with
    | margin _ split measured aligned =>
        have skips := next_margin_skips tab {} s.text
        rw [measured] at skips
        refine tiles_behind (stands_gapped stands split skips) (tiles_empty (stands_nothing stands split) ?_ later)
        intro token member
        obtain ⟨_, invisible, _⟩ := aligned_layout aligned token member
        obtain ⟨kind, _, rfl⟩ := List.mem_map.mp member
        exact ⟨rfl, invisible⟩
    | newline _ split ends =>
        have skips := skip_blank_skips (0 < s.brackets) s.text
        rw [ends] at skips
        exact tiles_token stands split skips (fun visible => nomatch visible) later
    | visible _ split begins reads =>
        have skips := skip_blank_skips (0 < s.brackets) s.text
        rw [begins] at skips
        exact tiles_token stands split skips (fun _ => visible_alone reads) later

end Lexer

open Lexer

/-- The tokens of a text and the gaps between them make up the text, and each visible token can be read by itself. -/
theorem tokenize_lossless {source : String} {tokens : List Token} (h : tokenize source = .ok tokens) :
    Lossless (dropMark source.toList) tokens := by
  have tiles : Tiles _ 0 tokens := run_tiles (initial_stands _) h
  exact ⟨tiles, tiles_inside tiles, tiles_ordered tiles⟩

-- Behind a byte order mark: two comments, a continued line and a string on two lines.
def spread : String := "\ufeff# é\nx = \\\n  '''é\n''' # d\n"

theorem spread_lossless : ∃ tokens, tokenize spread = .ok tokens ∧
    tokens.map (fun token => (token.kind, token.span.start, token.span.stop)) = [(.name "x", 5, 6), (.mark .equal, 7, 8),
      (.str "é\n", 13, 22), (.newline, 26, 27), (.eof, 27, 27)] ∧
    Lossless (dropMark spread.toList) tokens := by
  have reads : (tokenize spread).toOption.map (fun tokens => tokens.map fun token =>
      (token.kind, token.span.start, token.span.stop)) = some [(.name "x", 5, 6), (.mark .equal, 7, 8), (.str "é\n", 13, 22),
        (.newline, 26, 27), (.eof, 27, 27)] := by decide +kernel
  obtain ⟨tokens, read, spans⟩ := Option.map_eq_some_iff.mp reads
  have h := ok_of_option read
  exact ⟨tokens, h, spans, tokenize_lossless h⟩

end Mutagen
