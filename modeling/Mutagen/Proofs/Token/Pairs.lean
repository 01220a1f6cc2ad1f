import Mutagen.Proofs.Token.Discipline

set_option autoImplicit false

namespace Mutagen

open Token (Kind)

namespace Mark

def partner? : Mark → Option Mark
  | .leftParen => some .rightParen
  | .leftBracket => some .rightBracket
  | .leftBrace => some .rightBrace
  | _ => none

theorem opening_apart {mark : Mark} (opens : mark.isOpening = true) : mark.isClosing = false := by
  cases mark with
  | leftParen | leftBracket | leftBrace => rfl
  | _ => cases opens

end Mark

namespace Token.Kind

def isOpening : Kind → Bool
  | .mark m => m.isOpening
  | _ => false

def isClosing : Kind → Bool
  | .mark m => m.isClosing
  | _ => false

end Token.Kind

-- Every bracket is closed by its partner, and between the two there is neither the end of a line nor of a block.
inductive Paired : List Kind → Prop where
  | nil : Paired []
  | other {kind : Kind} {kinds : List Kind} (opens : kind.isOpening = false) (closes : kind.isClosing = false) :
      Paired kinds → Paired (kind :: kinds)
  | pair {opening closing : Mark} {inner rest : List Kind} (fits : opening.partner? = some closing)
      (joined : ∀ kind ∈ inner, kind.isLayout = false) : Paired inner → Paired rest →
      Paired (.mark opening :: (inner ++ .mark closing :: rest))

-- The brackets that are open behind a token, the innermost first. A bracket that does not close this one, a line that
-- ends within brackets and a reserved word are not admitted.
def admit? (opened : List Mark) : Kind → Option (List Mark)
  | .mark m =>
      if m.isOpening then some (m :: opened)
      else if m.isClosing then
        match opened with
        | [] => none
        | innermost :: outer => if innermost.partner? = some m then some outer else none
      else some opened
  | .newline | .indent | .dedent => if opened.isEmpty then some opened else none
  | .reserved _ => none
  | _ => some opened

def Admits (opened : List Mark) (kinds : List Kind) (left : List Mark) : Prop := kinds.foldlM admit? opened = some left

variable {opened left : List Mark} {kind : Kind} {kinds : List Kind}

theorem admit_cases (h : admit? opened kind = some left) :
    (∃ opening, kind = .mark opening ∧ opening.isOpening = true ∧ left = opening :: opened) ∨
    (∃ opening closing, kind = .mark closing ∧ closing.isOpening = false ∧ closing.isClosing = true ∧
      opening.partner? = some closing ∧ opened = opening :: left) ∨
    (kind.isOpening = false ∧ kind.isClosing = false ∧ left = opened ∧ (∀ word, kind ≠ .reserved word) ∧
      (kind.isLayout = true → opened = [])) := by
  cases kind with
  | mark mark =>
      unfold admit? at h
      dsimp only at h
      split at h
      · rename_i opens
        cases h
        exact .inl ⟨mark, rfl, opens, rfl⟩
      · rename_i opens
        split at h
        · rename_i closes
          split at h
          · cases h
          · rename_i innermost outer
            split at h
            · rename_i fits
              cases h
              exact .inr (.inl ⟨innermost, mark, rfl, Bool.eq_false_iff.mpr opens, closes, fits, rfl⟩)
            · cases h
        · rename_i closes
          cases h
          exact .inr (.inr ⟨Bool.eq_false_iff.mpr opens, Bool.eq_false_iff.mpr closes, rfl, nofun, nofun⟩)
  | newline | indent | dedent =>
      rw [admit?] at h
      split at h
      · rename_i none
        cases h
        exact .inr (.inr ⟨rfl, rfl, rfl, nofun, fun _ => List.isEmpty_iff.mp none⟩)
      · cases h
  | reserved word => cases h
  | name | int | float | str | keyword | augAssign | eof =>
      cases h
      exact .inr (.inr ⟨rfl, rfl, rfl, nofun, nofun⟩)

theorem closing_admitted {closing : Mark} (closes : closing.isClosing = true)
    (admitted : admit? opened (.mark closing) = some left) : ∃ opening, opened = opening :: left := by
  rcases admit_cases admitted with ⟨opening, same, opens, _⟩ | ⟨opening, _, _, _, _, _, rfl⟩ | ⟨_, other, _⟩
  · cases same
    cases (Mark.opening_apart opens).symm.trans closes
  · exact ⟨opening, rfl⟩
  · cases other.symm.trans closes

theorem admits_cons (h : Admits opened (kind :: kinds) left) :
    ∃ middle, admit? opened kind = some middle ∧ Admits middle kinds left := by
  rw [Admits, List.foldlM_cons] at h
  exact Option.bind_eq_some_iff.mp h

theorem admits_front {front back : List Kind} (h : Admits opened (front ++ back) left) :
    ∃ middle, Admits opened front middle ∧ Admits middle back left := by
  rw [Admits, List.foldlM_append] at h
  exact Option.bind_eq_some_iff.mp h

theorem admits_snoc {next : List Mark} (h : Admits opened kinds left) (admitted : admit? left kind = some next) :
    Admits opened (kinds ++ [kind]) next := by
  rw [Admits, List.foldlM_append, h]
  change (admit? left kind).bind _ = _
  rw [admitted]
  rfl

-- The rest of the tokens, once the open brackets are closed one by one.
def ClosesAll : List Mark → List Kind → Prop
  | [], kinds => Paired kinds
  | opening :: outer, kinds => ∃ inner closing rest, kinds = inner ++ .mark closing :: rest ∧
      opening.partner? = some closing ∧ (∀ kind ∈ inner, kind.isLayout = false) ∧ Paired inner ∧ ClosesAll outer rest

theorem closes_all_other (opens : kind.isOpening = false) (closes : kind.isClosing = false)
    (layout : kind.isLayout = true → opened = []) (h : ClosesAll opened kinds) : ClosesAll opened (kind :: kinds) := by
  cases opened with
  | nil => exact .other opens closes h
  | cons opening outer =>
      obtain ⟨inner, closing, rest, rfl, fits, joined, paired, more⟩ := h
      have within : kind.isLayout = false := Bool.eq_false_iff.mpr fun ends => List.cons_ne_nil _ _ (layout ends)
      exact ⟨kind :: inner, closing, rest, rfl, fits, List.forall_mem_cons.mpr ⟨within, joined⟩,
        .other opens closes paired, more⟩

theorem closes_all_pair {opening : Mark} (h : ClosesAll (opening :: opened) kinds) :
    ClosesAll opened (.mark opening :: kinds) := by
  obtain ⟨inner, closing, rest, rfl, fits, joined, paired, more⟩ := h
  cases opened with
  | nil => exact .pair fits joined paired more
  | cons outermost outer =>
      obtain ⟨inner', closing', rest', rfl, fits', joined', paired', more'⟩ := more
      refine ⟨.mark opening :: (inner ++ .mark closing :: inner'), closing', rest', ?_, fits', ?_, ?_, more'⟩
      · simp
      · refine List.forall_mem_cons.mpr ⟨rfl, List.forall_mem_append.mpr ⟨joined, ?_⟩⟩
        exact List.forall_mem_cons.mpr ⟨rfl, joined'⟩
      · exact .pair fits joined paired paired'

theorem admits_close (h : Admits opened kinds []) : ClosesAll opened kinds := by
  induction kinds generalizing opened with
  | nil =>
      cases h
      exact .nil
  | cons kind kinds ih =>
      obtain ⟨middle, admitted, more⟩ := admits_cons h
      have later := ih more
      rcases admit_cases admitted with ⟨opening, rfl, _, rfl⟩ | ⟨opening, closing, rfl, _, _, fits, rfl⟩ |
        ⟨opens, closes, rfl, _, layout⟩
      · exact closes_all_pair later
      · exact ⟨[], closing, kinds, rfl, fits, List.forall_mem_nil _, .nil, later⟩
      · exact closes_all_other opens closes layout later

theorem admits_paired (h : Admits [] kinds []) : Paired kinds := admits_close h

theorem admits_supported (h : Admits opened kinds left) : ∀ kind ∈ kinds, ∀ word, kind ≠ .reserved word := by
  induction kinds generalizing opened with
  | nil => exact List.forall_mem_nil _
  | cons kind kinds ih =>
      obtain ⟨middle, admitted, more⟩ := admits_cons h
      refine List.forall_mem_cons.mpr ⟨?_, ih more⟩
      rintro word rfl
      cases admitted

namespace Lexer

theorem admit_counts {brackets : Nat} (admitted : admit? opened kind = some left)
    (counted : countBrackets? opened.length kind = some brackets) : brackets = left.length := by
  rcases admit_cases admitted with ⟨opening, rfl, opens, rfl⟩ | ⟨opening, closing, rfl, opens, closes, _, rfl⟩ |
    ⟨opens, closes, rfl, _⟩
  · rw [countBrackets?, if_pos opens] at counted
    split at counted
    · cases counted
    · cases counted
      rfl
  · rw [countBrackets?, opens, if_neg Bool.false_ne_true, if_pos closes] at counted
    cases counted
    rfl
  · cases kind with
    | mark mark =>
        have plain : mark.isOpening = false ∧ mark.isClosing = false := ⟨opens, closes⟩
        rw [countBrackets?, plain.1, if_neg Bool.false_ne_true, plain.2, if_neg Bool.false_ne_true] at counted
        cases counted
        rfl
    | _ =>
        cases counted
        rfl

theorem count_limited {brackets after : Nat} (limited : brackets ≤ maxBrackets)
    (counted : countBrackets? brackets kind = some after) : after ≤ maxBrackets := by
  unfold countBrackets? at counted
  split at counted
  · split at counted
    · split at counted
      · cases counted
      · rename_i room
        cases counted
        exact Nat.lt_of_not_le room
    · split at counted
      · cases counted
        exact Nat.le_trans (Nat.sub_le _ _) limited
      · cases counted
        exact limited
  · cases counted
    exact limited

theorem brackets_counted {brackets after : Nat} (limited : opened.length ≤ maxBrackets) (h : Admits opened kinds left)
    (same : brackets = opened.length) (counted : bracketsBehind? brackets kinds = some after) :
    after = left.length ∧ after ≤ maxBrackets := by
  induction kinds generalizing opened brackets with
  | nil =>
      cases h
      cases counted
      exact ⟨same, same ▸ limited⟩
  | cons kind kinds ih =>
      obtain ⟨middle, admitted, more⟩ := admits_cons h
      rw [brackets_behind_cons, same] at counted
      obtain ⟨next, first, others⟩ := Option.bind_eq_some_iff.mp counted
      have number := admit_counts admitted first
      exact ih (number ▸ count_limited limited first) more number others

end Lexer

-- Every bracket that was opened and not closed is open.
theorem admits_open (h : Admits opened kinds left) :
    opened.length + kinds.countP (·.isOpening) = left.length + kinds.countP (·.isClosing) := by
  induction kinds generalizing opened with
  | nil =>
      cases h
      rfl
  | cons kind kinds ih =>
      obtain ⟨middle, admitted, more⟩ := admits_cons h
      have later := ih more
      rw [List.countP_cons, List.countP_cons]
      rcases admit_cases admitted with ⟨opening, rfl, opens, rfl⟩ | ⟨opening, closing, rfl, opens, closes, _, rfl⟩ |
        ⟨opens, closes, rfl, _⟩
      · have apart := Mark.opening_apart opens
        simp only [Token.Kind.isOpening, Token.Kind.isClosing, opens, apart, List.length_cons] at later ⊢
        simp only [if_true, Bool.false_eq_true, if_false]
        omega
      · simp only [Token.Kind.isOpening, Token.Kind.isClosing, opens, closes, List.length_cons] at later ⊢
        simp only [if_true, Bool.false_eq_true, if_false]
        omega
      · simp only [opens, closes, Bool.false_eq_true, if_false]
        omega

end Mutagen
