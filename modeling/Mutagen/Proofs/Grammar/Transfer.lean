import Mutagen.Proofs.Grammar.Compound
import Mutagen.Proofs.Grammar.Reads

set_option autoImplicit false

namespace Mutagen

open Token (Kind)

-- What ends an expression, whatever expression that is.
def Token.Kind.isStop : Kind → Bool
  | .newline | .mark .semicolon | .mark .colon | .mark .rightParen => true
  | _ => false

@[elab_as_elim]
theorem stop_cases {P : Kind → Prop} (newline : P .newline) (semicolon : P (.mark .semicolon)) (colon : P (.mark .colon))
    (paren : P (.mark .rightParen)) (kind : Kind) (stops : kind.isStop = true) : P kind := by
  cases kind with
  | newline => exact newline
  | mark m =>
      cases m with
      | semicolon => exact semicolon
      | colon => exact colon
      | rightParen => exact paren
      | _ => cases stops
  | _ => cases stops

theorem stop_ne {wanted : Kind} (other : wanted.isStop = false) (kind : Kind) (stops : kind.isStop = true) :
    kind ≠ wanted := by
  rintro rfl
  cases other.symm.trans stops

namespace Parser

/-- Tokens from a stop on, and those that take their place. -/
structure Change where
  old : List Token
  new : List Token
  lowered : Prop
  oldStops : (firstKind old).isStop = true
  newStops : (firstKind new).isStop = true

inductive Carried {α : Type} (lowered : Prop) (a : α) (rest : List Token) : Except ParseError (α × List Token) → Prop where
  | same : Carried lowered a rest (.ok (a, rest))
  | deep {e : ParseError} (allowed : lowered) (cause : e.cause = .nestedTooDeeply) : Carried lowered a rest (.error e)

variable {α β σ γ : Type} {change : Change} {within : Bool} {p q p' q' : Parser α} {front rest : List Token}

-- `within` asks only for what `p` reads without coming to the stop.
structure Transfers (change : Change) (within : Bool) (p q : Parser α) : Prop where
  holds : ∀ front rest a, (within = true → rest ≠ []) → p.run (front ++ change.old) = .ok (a, rest ++ change.old) →
    Carried change.lowered a (rest ++ change.new) (q.run (front ++ change.new))

theorem transfers_within (h : Transfers change false p q) : Transfers change within p q :=
  ⟨fun front rest a _ run => h.holds front rest a nofun run⟩

theorem transfers_fail (f : List Token → ParseError) : Transfers change within (failWith f) q := by
  constructor
  intro front rest a _ run
  cases run

theorem transfers_pure (a : α) : Transfers change within (pure a) (pure a) := by
  constructor
  intro front rest b _ run
  obtain ⟨rfl, same⟩ := Prod.mk.inj (Except.ok.inj run)
  rw [List.append_cancel_right same]
  exact .same

-- A parser in turn leaves the end of what was left to it.
theorem left_between {middle : List Token} {a : α} (run : p.run middle = .ok (a, rest ++ change.old)) :
    ∃ left, middle = left ++ change.old ∧ rest <:+ left := by
  obtain ⟨more, same⟩ := p.suffix run
  rw [← List.append_assoc] at same
  exact ⟨more ++ rest, same.symm, List.suffix_append _ _⟩

theorem transfers_bind {f g : α → Parser β} (hp : Transfers change within p q)
    (hf : ∀ a, Transfers change within (f a) (g a)) : Transfers change within (p >>= f) (q >>= g) := by
  constructor
  intro front rest b inside run
  rw [run_bind] at run ⊢
  cases first : p.run (front ++ change.old) with
  | error e =>
      rw [first] at run
      cases run
  | ok result =>
      obtain ⟨a, middle⟩ := result
      rw [first] at run
      obtain ⟨left, rfl, behind⟩ := left_between run
      have carried := hp.holds front left a (fun w none => inside w (List.suffix_nil.mp (none ▸ behind))) first
      generalize q.run (front ++ change.new) = answer at carried
      cases carried with
      | same => exact (hf a).holds left rest b inside run
      | deep allowed cause => exact .deep allowed cause

-- What comes first need not go up to the stop, if something is taken behind it.
theorem transfers_then {f g : α → Parser β} (hp : Transfers change true p q) (hf : ∀ a, Transfers change within (f a) (g a))
    (strict : ∀ a, (f a).Strict) : Transfers change within (p >>= f) (q >>= g) := by
  constructor
  intro front rest b inside run
  rw [run_bind] at run ⊢
  cases first : p.run (front ++ change.old) with
  | error e =>
      rw [first] at run
      cases run
  | ok result =>
      obtain ⟨a, middle⟩ := result
      rw [first] at run
      obtain ⟨left, rfl, behind⟩ := left_between run
      have taken := strict a run
      rw [List.length_append, List.length_append] at taken
      have ahead : left ≠ [] := by
        rintro rfl
        rw [List.length_nil] at taken
        omega
      have carried := hp.holds front left a (fun _ => ahead) first
      generalize q.run (front ++ change.new) = answer at carried
      cases carried with
      | same => exact (hf a).holds left rest b inside run
      | deep allowed cause => exact .deep allowed cause

theorem transfers_map {f : α → β} (hp : Transfers change within p q) :
    Transfers change within (p >>= fun a => pure (f a)) (q >>= fun a => pure (f a)) :=
  transfers_bind hp fun a => transfers_pure (f a)

theorem transfers_ite {c : Prop} [Decidable c] (hp : Transfers change within p p') (hq : Transfers change within q q') :
    Transfers change within (if c then p else q) (if c then p' else q') := by
  split
  · exact hp
  · exact hq

theorem transfers_span {f g : Span → Parser β} (h : ∀ place place', Transfers change within (f place) (g place')) :
    Transfers change within (span >>= f) (span >>= g) :=
  ⟨fun front rest b inside run => (h _ _).holds front rest b inside run⟩

-- The first token is looked at: it is the same as before unless it is the stop.
theorem first_same (ahead : front ≠ []) : firstKind (front ++ change.new) = firstKind (front ++ change.old) := by
  cases front with
  | nil => exact absurd rfl ahead
  | cons token more => rfl

theorem transfers_look {f g : Kind → Parser β} (h : ∀ first, Transfers change within (f first) (g first))
    (ahead : ∀ front rest b, (within = true → rest ≠ []) → (kind >>= f).run (front ++ change.old) = .ok (b, rest ++ change.old) →
      front ≠ []) : Transfers change within (kind >>= f) (kind >>= g) := by
  constructor
  intro front rest b inside run
  have same : firstKind (front ++ change.new) = firstKind (front ++ change.old) := first_same (ahead front rest b inside run)
  change Carried _ _ _ ((g (firstKind (front ++ change.new))).run _)
  rw [same]
  exact (h _).holds front rest b inside run

theorem transfers_kind_within {f g : Kind → Parser β} (h : ∀ first, Transfers change true (f first) (g first)) :
    Transfers change true (kind >>= f) (kind >>= g) := by
  apply transfers_look h
  rintro front rest b inside run rfl
  have less := ((kind >>= f).suffix run).length_le
  rw [List.length_append, List.nil_append] at less
  exact inside rfl (List.eq_nil_of_length_eq_zero (by omega))

theorem transfers_strict {f g : Kind → Parser β} (strict : (kind >>= f).Strict)
    (h : ∀ first, Transfers change within (f first) (g first)) : Transfers change within (kind >>= f) (kind >>= g) := by
  apply transfers_look h
  rintro front rest b _ run rfl
  have less := strict run
  rw [List.length_append, List.nil_append] at less
  omega

theorem transfers_kind {f g : Kind → Parser α} (h : ∀ first, Transfers change within (f first) (g first))
    (stops : ∀ first, first.isStop = true → f first = p) (stops' : ∀ first, first.isStop = true → g first = q)
    (last : Transfers change within p q) : Transfers change within (kind >>= f) (kind >>= g) := by
  constructor
  intro front rest b inside run
  change (f (firstKind (front ++ change.old))).run (front ++ change.old) = _ at run
  change Carried _ _ _ ((g (firstKind (front ++ change.new))).run _)
  cases front with
  | nil =>
      change (f (firstKind change.old)).run change.old = _ at run
      change Carried _ _ _ ((g (firstKind change.new)).run change.new)
      rw [stops _ change.oldStops] at run
      rw [stops' _ change.newStops]
      exact last.holds [] rest b inside run
  | cons token more => exact (h token.kind).holds (token :: more) rest b inside run

theorem transfers_if_kind {wanted : Kind} (other : wanted.isStop = false) (hp : Transfers change within p p')
    (hq : Transfers change within q q') : Transfers change within (kind >>= fun first => if first = wanted then p else q)
      (kind >>= fun first => if first = wanted then p' else q') :=
  transfers_kind (fun _ => transfers_ite hp hq) (fun first stop => if_neg (stop_ne other first stop))
    (fun first stop => if_neg (stop_ne other first stop)) hq

-- The second token may be the stop.
theorem transfers_second {f g : Kind → Parser α} (h : ∀ second, Transfers change true (f second) (g second))
    (stops : ∀ second, second.isStop = true → f second = p) (stops' : ∀ second, second.isStop = true → g second = q)
    (last : Transfers change true p q) : Transfers change true (secondKind >>= f) (secondKind >>= g) := by
  constructor
  intro front rest b inside run
  change (f (firstKind (front ++ change.old).tail)).run (front ++ change.old) = _ at run
  change Carried _ _ _ ((g (firstKind (front ++ change.new).tail)).run _)
  cases front with
  | nil =>
      have less := ((f (firstKind ([] ++ change.old).tail)).suffix run).length_le
      rw [List.length_append, List.nil_append] at less
      exact absurd (List.eq_nil_of_length_eq_zero (by omega)) (inside rfl)
  | cons token more =>
      cases more with
      | nil =>
          change (f (firstKind change.old)).run _ = _ at run
          rw [stops _ change.oldStops] at run
          change Carried _ _ _ ((g (firstKind change.new)).run _)
          rw [stops' _ change.newStops]
          exact last.holds [token] rest b inside run
      | cons next more => exact (h next.kind).holds (token :: next :: more) rest b inside run

theorem transfers_skip : Transfers change within skip skip := by
  constructor
  intro front rest a _ run
  cases front with
  | nil =>
      have less := strict_skip run
      rw [List.length_append, List.nil_append] at less
      omega
  | cons token more =>
      have same : more ++ change.old = rest ++ change.old := (Prod.mk.inj (Except.ok.inj run)).2
      rw [← List.append_cancel_right same]
      exact .same

theorem transfers_taken (a : α) : Transfers change within (skip >>= fun _ => pure a) (skip >>= fun _ => pure a) :=
  transfers_map transfers_skip

theorem transfers_accept {wanted : Kind} (other : wanted.isStop = false) :
    Transfers change within (accept wanted) (accept wanted) :=
  transfers_if_kind other (transfers_taken true) (transfers_pure false)

theorem transfers_accept_within (wanted : Kind) : Transfers change true (accept wanted) (accept wanted) :=
  transfers_kind_within fun _ => transfers_ite (transfers_taken true) (transfers_pure false)

theorem strict_expect (wanted : Kind) (what : Expected) : (expect wanted what).Strict :=
  strict_bind_right fun _ => strict_ite strict_skip (strict_fail_with _)

theorem transfers_expect (wanted : Kind) (what : Expected) : Transfers change within (expect wanted what) (expect wanted what) :=
  transfers_strict (strict_expect wanted what) fun _ => transfers_ite transfers_skip (transfers_fail _)

theorem transfers_closed (closing : Mark) (a : α) :
    Transfers change within (expectMark closing >>= fun _ => pure a) (expectMark closing >>= fun _ => pure a) :=
  transfers_map (transfers_expect _ _)

theorem strict_closed (closing : Mark) (a : α) : (expectMark closing >>= fun _ => pure a).Strict :=
  strict_bind_left (strict_expect _ _)

theorem transfers_name : Transfers change within expectName expectName := by
  apply transfers_strict
  · refine strict_bind_right fun first => ?_
    split
    · exact strict_bind_left strict_skip
    · exact strict_fail_with _
  · intro first
    split
    · exact transfers_taken _
    · exact transfers_fail _

theorem transfers_forbid (unwanted : Kind) (construct : Construct) :
    Transfers change true (forbid unwanted construct) (forbid unwanted construct) :=
  transfers_kind_within fun _ => transfers_ite (transfers_fail _) (transfers_pure ())

theorem transfers_require (condition : Bool) (cause : ParseError.Cause) (place place' : Span) :
    Transfers change within (require condition cause place) (require condition cause place') :=
  transfers_ite (transfers_pure ()) (transfers_fail _)

-- Loops. A stop ends them, and as a second token one stop is like another.
theorem chain_unlinked {link : Kind → Kind → Option γ} {body : σ → γ → Parser (Step σ)} {state : σ} {token : Token}
    {more : List Token} (unlinked : link token.kind (firstKind more) = none) :
    (chain link body state).run (token :: more) = .ok (state, token :: more) := by
  change chainRun link body state (token :: more) = _
  rw [chainRun]
  simp only [unlinked]

theorem chain_stopped {link : Kind → Kind → Option γ} (ends : ∀ first second, first.isStop = true → link first second = none)
    (body : σ → γ → Parser (Step σ)) (state : σ) {tokens : List Token} (stops : (firstKind tokens).isStop = true) :
    (chain link body state).run tokens = .ok (state, tokens) := by
  cases tokens with
  | nil => cases stops
  | cons token more => exact chain_unlinked (ends _ _ stops)

theorem transfers_chain {link : Kind → Kind → Option γ} {body body' : σ → γ → Parser (Step σ)}
    (ends : ∀ first second, first.isStop = true → link first second = none)
    (alike : ∀ first second second', second.isStop = true → second'.isStop = true → link first second = link first second')
    (next : ∀ state g, Transfers change within (body state g) (body' state g)) (state : σ) :
    Transfers change within (chain link body state) (chain link body' state) := by
  constructor
  intro front
  induction size : front.length using Nat.strongRecOn generalizing state front with
  | ind n ih =>
      intro rest final inside run
      cases front with
      | nil =>
          rw [List.nil_append, chain_stopped ends body state change.oldStops] at run
          obtain ⟨rfl, same⟩ := Prod.mk.inj (Except.ok.inj run)
          cases List.self_eq_append_left.mp same
          rw [List.nil_append, chain_stopped ends body' state change.newStops]
          exact .same
      | cons token more =>
          rw [List.cons_append] at run ⊢
          have second : link token.kind (firstKind (more ++ change.new)) = link token.kind (firstKind (more ++ change.old)) := by
            cases more with
            | nil => exact alike _ _ _ change.newStops change.oldStops
            | cons => rfl
          cases linked : link token.kind (firstKind (more ++ change.old)) with
          | none =>
              rw [chain_unlinked linked] at run
              rw [chain_unlinked (second.trans linked)]
              obtain ⟨rfl, same⟩ := Prod.mk.inj (Except.ok.inj run)
              rw [← List.cons_append] at same
              rw [← List.append_cancel_right same]
              exact .same
          | some g =>
              rw [chain_turn link body state token _ linked, turn, run_bind] at run
              rw [chain_turn link body' state token _ (second.trans linked), turn, run_bind]
              cases turned : (body state g).run (more ++ change.old) with
              | error e =>
                  rw [turned] at run
                  cases run
              | ok result =>
                  obtain ⟨step, middle⟩ := result
                  rw [turned] at run
                  obtain ⟨left, rfl, behind⟩ := left_between run
                  have carried := (next state g).holds more left step (fun w none => inside w (List.suffix_nil.mp (none ▸ behind))) turned
                  generalize (body' state g).run (more ++ change.new) = answer at carried
                  cases carried with
                  | deep allowed cause => exact .deep allowed cause
                  | same =>
                      have less := ((body state g).suffix turned).length_le
                      rw [List.length_append, List.length_append] at less
                      rw [List.length_cons] at size
                      cases step with
                      | stop last => exact (transfers_pure last).holds left rest final inside run
                      | again after => exact ih left.length (by omega) after left rfl rest final inside run

theorem transfers_linked {wanted : Kind} {body body' : σ → Unit → Parser (Step σ)} (other : wanted.isStop = false)
    (next : ∀ state, Transfers change within (body state ()) (body' state ())) (state : σ) :
    Transfers change within (chain (linkedBy wanted) body state) (chain (linkedBy wanted) body' state) :=
  transfers_chain (fun first _ stop => if_neg (stop_ne other first stop)) (fun _ _ _ _ _ => rfl) (fun state _ => next state) state

theorem transfers_behind_commas {stop : Kind → Bool} {item item' : σ → Parser σ}
    (closes : ∀ first, first.isStop = true → stop first = true)
    (next : ∀ state, Transfers change within (item state) (item' state)) (state : σ) :
    Transfers change within (behindCommas stop item state) (behindCommas stop item' state) := by
  apply transfers_linked rfl
  intro state
  apply transfers_kind
  · exact fun first => transfers_ite (transfers_pure _) (transfers_map (next state))
  · exact fun first stops => if_pos (closes first stops)
  · exact fun first stops => if_pos (closes first stops)
  · exact transfers_pure _

theorem transfers_commas_within {stop : Kind → Bool} {item item' : σ → Parser σ}
    (next : ∀ state, Transfers change true (item state) (item' state)) (state : σ) :
    Transfers change true (behindCommas stop item state) (behindCommas stop item' state) := by
  apply transfers_linked rfl
  intro state
  apply transfers_kind_within
  exact fun first => transfers_ite (transfers_pure _) (transfers_map (next state))

theorem transfers_up_to {closing : Mark} {item item' : σ → Parser σ}
    (next : ∀ state, Transfers change true (item state) (item' state)) (state : σ) :
    Transfers change true (upTo closing item state) (upTo closing item' state) := by
  apply transfers_kind_within
  intro first
  apply transfers_ite
  · exact transfers_pure state
  · exact transfers_bind (next state) fun after => transfers_commas_within next after

theorem transfers_append {item item' : Parser α} (h : Transfers change within item item') (items : List α) :
    Transfers change within (append item items) (append item' items) := transfers_map h

theorem accept_bind (wanted : Kind) (f : Bool → Parser β) :
    (accept wanted >>= f) = kind >>= fun first => if first = wanted then skip >>= fun _ => f true else f false := by
  rw [accept, bind_assoc]
  congr
  funext first
  split
  · rw [bind_assoc]
    rfl
  · rfl

theorem transfers_if_accept {wanted : Kind} {f g : Bool → Parser β} (strict : (f false).Strict)
    (taken : Transfers change within (f true) (g true)) (other : Transfers change within (f false) (g false)) :
    Transfers change within (accept wanted >>= f) (accept wanted >>= g) := by
  rw [accept_bind, accept_bind]
  apply transfers_strict
  · exact strict_bind_right fun _ => strict_ite (strict_bind_left strict_skip) strict
  · exact fun _ => transfers_ite (transfers_bind transfers_skip fun _ => taken) other

theorem transfers_closing (hp : Transfers change true p q) (closing : Mark) (f : α → β) :
    Transfers change within (p >>= fun a => expectMark closing >>= fun _ => pure (f a))
      (q >>= fun a => expectMark closing >>= fun _ => pure (f a)) :=
  transfers_then hp (fun a => transfers_closed closing (f a)) fun a => strict_closed closing (f a)

theorem strict_closing (p : Parser α) (closing : Mark) (f : α → β) :
    (p >>= fun a => expectMark closing >>= fun _ => pure (f a)).Strict :=
  strict_bind_right fun a => strict_closed closing (f a)

end Parser

namespace Grammar

open Mutagen.Parser

variable {change : Change} {within : Bool} {inner inner' : Nested}

structure TransfersNested (change : Change) (inner inner' : Nested) : Prop where
  test : Transfers change false inner.test inner'.test
  negation : Transfers change false inner.negation inner'.negation
  factor : Transfers change false inner.factor inner'.factor
  strict : inner.test.Strict

theorem stop_starts_none (first : Kind) (stops : first.isStop = true) : startsExpression first = false :=
  stop_cases rfl rfl rfl rfl first stops

theorem transfers_list_of {item item' : Parser Node} (h : Transfers change within item item') :
    Transfers change within (listOf item) (listOf item') := by
  apply transfers_bind h
  intro first
  apply transfers_if_kind rfl
  · apply transfers_map
    exact transfers_behind_commas (stop_cases rfl rfl rfl rfl) (transfers_append h) _
  · exact transfers_pure first

theorem transfers_optional {item item' : Parser Node} (h : Transfers change within item item') :
    Transfers change within (do if startsExpression (← kind) then return some (← item) else return none)
      (do if startsExpression (← kind) then return some (← item') else return none) := by
  apply transfers_kind
  · exact fun first => transfers_ite (transfers_map h) (transfers_pure none)
  · exact fun first stops => if_neg (by rw [stop_starts_none first stops]; exact Bool.false_ne_true)
  · exact fun first stops => if_neg (by rw [stop_starts_none first stops]; exact Bool.false_ne_true)
  · exact transfers_pure none

theorem transfers_parameter (h : TransfersNested change inner inner') (closing : Mark) (params : Params) :
    Transfers change true (parameter inner closing params) (parameter inner' closing params) := by
  apply transfers_bind (transfers_forbid _ _)
  intro _
  apply transfers_bind (transfers_forbid _ _)
  intro _
  apply transfers_span
  intro place place'
  apply transfers_bind transfers_name
  intro id
  apply transfers_bind (transfers_require _ _ _ _)
  intro _
  apply transfers_bind (transfers_ite (transfers_forbid _ _) (transfers_pure ()))
  intro _
  apply transfers_bind (transfers_accept_within _)
  intro more
  apply transfers_ite
  · exact transfers_map (transfers_within h.test)
  · exact transfers_bind (transfers_require _ _ _ _) fun _ => transfers_pure _

theorem transfers_parameters (h : TransfersNested change inner inner') (closing : Mark) :
    Transfers change true (parameters inner closing) (parameters inner' closing) :=
  transfers_up_to (transfers_parameter h closing) {}

theorem transfers_keyword (h : TransfersNested change inner inner') (id : String) (arguments : Arguments) :
    Transfers change true (keywordArgument inner id arguments) (keywordArgument inner' id arguments) := by
  apply transfers_span
  intro place place'
  apply transfers_bind (transfers_require _ _ _ _)
  intro _
  apply transfers_bind transfers_skip
  intro _
  apply transfers_bind transfers_skip
  intro _
  exact transfers_map (transfers_within h.test)

theorem transfers_positional (h : TransfersNested change inner inner') (arguments : Arguments) :
    Transfers change true (positionalArgument inner arguments) (positionalArgument inner' arguments) := by
  apply transfers_span
  intro place place'
  apply transfers_bind (transfers_require _ _ _ _)
  intro _
  apply transfers_bind (transfers_within h.test)
  intro value
  exact transfers_bind (transfers_forbid _ _) fun _ => transfers_pure _

theorem transfers_argument (h : TransfersNested change inner inner') (arguments : Arguments) :
    Transfers change true (argument inner arguments) (argument inner' arguments) := by
  apply transfers_bind (transfers_forbid _ _)
  intro _
  apply transfers_bind (transfers_forbid _ _)
  intro _
  apply transfers_kind_within
  intro first
  apply transfers_second
  · intro second
    split
    · exact transfers_keyword h _ arguments
    · exact transfers_positional h arguments
  · intro second stops
    cases first with
    | name => exact stop_cases rfl rfl rfl rfl second stops
    | _ => rfl
  · intro second stops
    cases first with
    | name => exact stop_cases rfl rfl rfl rfl second stops
    | _ => rfl
  · exact transfers_positional h arguments

theorem transfers_slice_from (h : TransfersNested change inner inner') (lower : Option Node) :
    Transfers change true (sliceFrom inner lower) (sliceFrom inner' lower) := by
  have test : Transfers change true inner.test inner'.test := transfers_within h.test
  apply transfers_bind transfers_skip
  intro _
  apply transfers_bind (transfers_optional test)
  intro upper
  apply transfers_bind (transfers_accept_within _)
  intro more
  apply transfers_ite
  · exact transfers_map (transfers_optional test)
  · exact transfers_pure _

theorem transfers_slice_item (h : TransfersNested change inner inner') :
    Transfers change true (sliceItem inner) (sliceItem inner') := by
  apply transfers_kind_within
  intro first
  apply transfers_ite
  · exact transfers_slice_from h none
  · apply transfers_bind (transfers_within h.test)
    intro lower
    apply transfers_kind_within
    exact fun next => transfers_ite (transfers_slice_from h _) (transfers_pure lower)

theorem transfers_slice_list (h : TransfersNested change inner inner') :
    Transfers change true (sliceList inner) (sliceList inner') := by
  apply transfers_bind (transfers_slice_item h)
  intro first
  apply transfers_kind_within
  intro next
  apply transfers_ite
  · exact transfers_map (transfers_commas_within (transfers_append (transfers_slice_item h)) _)
  · exact transfers_pure first

theorem transfers_element (h : TransfersNested change inner inner') (comprehension : Construct) :
    Transfers change true (element inner comprehension) (element inner' comprehension) := by
  apply transfers_bind (transfers_within h.test)
  intro value
  exact transfers_bind (transfers_forbid _ _) fun _ => transfers_pure value

theorem transfers_elements (h : TransfersNested change inner inner') (closing : Mark) (comprehension : Construct) :
    Transfers change true (elements inner closing comprehension) (elements inner' closing comprehension) :=
  transfers_up_to (transfers_append (transfers_element h comprehension)) []

theorem transfers_parenthesized (h : TransfersNested change inner inner') :
    Transfers change within (parenthesized inner) (parenthesized inner') := by
  apply transfers_if_accept
  · exact strict_bind_left (strict_bind_left h.strict)
  · exact transfers_pure _
  · apply transfers_then (transfers_element h _)
    · intro first
      apply transfers_if_kind rfl
      · exact transfers_closing (transfers_commas_within (transfers_append (transfers_within h.test)) _) _ _
      · exact transfers_closed _ first
    · exact fun first => strict_bind_right fun next => strict_ite (strict_closing _ _ _) (strict_closed _ _)

theorem transfers_entry (h : TransfersNested change inner inner') (entries : List (Node × Node)) :
    Transfers change true (dictEntry inner entries) (dictEntry inner' entries) := by
  apply transfers_bind (transfers_forbid _ _)
  intro _
  apply transfers_bind (transfers_within h.test)
  intro key
  apply transfers_bind (transfers_expect _ _)
  intro _
  exact transfers_map (transfers_within h.test)

theorem transfers_dict_from (h : TransfersNested change inner inner') (key : Node) :
    Transfers change within (dictFrom inner key) (dictFrom inner' key) := by
  apply transfers_bind transfers_skip
  intro _
  apply transfers_then (transfers_element h _)
  · exact fun value => transfers_closing (transfers_commas_within (transfers_entry h) _) _ _
  · exact fun value => strict_closing _ _ _

theorem strict_set_from (inner : Nested) (first : Node) : (setFrom inner first).Strict :=
  strict_bind_right fun _ => strict_bind_right fun _ => strict_ite (strict_closing _ _ _) (strict_closed _ _)

theorem transfers_set_from (h : TransfersNested change inner inner') (first : Node) :
    Transfers change within (setFrom inner first) (setFrom inner' first) := by
  apply transfers_then (transfers_forbid _ _)
  · intro _
    apply transfers_bind (transfers_accept rfl)
    intro more
    apply transfers_ite
    · exact transfers_closing (transfers_elements h _ _) _ _
    · exact transfers_closed _ _
  · exact fun _ => strict_bind_right fun _ => strict_ite (strict_closing _ _ _) (strict_closed _ _)

theorem transfers_braced (h : TransfersNested change inner inner') :
    Transfers change within (braced inner) (braced inner') := by
  have either (first : Node) : (kind >>= fun next =>
      if next = .mark .colon then dictFrom inner first else setFrom inner first : Parser Node).Strict :=
    strict_bind_right fun _ => strict_ite (strict_bind_left strict_skip) (strict_set_from inner first)
  apply transfers_if_accept
  · exact strict_bind_right fun _ => strict_bind_left h.strict
  · exact transfers_pure _
  · apply transfers_then (transfers_forbid _ _)
    · intro _
      apply transfers_bind (transfers_within h.test)
      intro first
      exact transfers_strict (either first) fun next => transfers_ite (transfers_dict_from h first) (transfers_set_from h first)
    · exact fun _ => strict_bind_left h.strict

theorem transfers_atom (h : TransfersNested change inner inner') : Transfers change within (atom inner) (atom inner') := by
  apply transfers_strict (strict_atom inner)
  intro first
  split
  · exact transfers_taken _
  · exact transfers_taken _
  · exact transfers_taken _
  · apply transfers_bind transfers_skip
    intro _
    apply transfers_map
    apply transfers_chain
    · exact fun first second => stop_cases rfl rfl rfl rfl first
    · intro first second second' _ _
      cases first <;> rfl
    · exact fun text next => transfers_pure _
  · exact transfers_taken _
  · exact transfers_taken _
  · exact transfers_taken _
  · exact transfers_bind transfers_skip fun _ => transfers_parenthesized h
  · apply transfers_bind transfers_skip
    intro _
    exact transfers_closing (transfers_elements h _ _) _ _
  · exact transfers_bind transfers_skip fun _ => transfers_braced h
  · exact transfers_fail _

theorem transfers_trailer (h : TransfersNested change inner inner') (value : Node) (next : Trailer) :
    Transfers change within (trailer inner value next) (trailer inner' value next) := by
  cases next with
  | call => exact transfers_closing (transfers_up_to (transfers_argument h) _) _ _
  | attr => exact transfers_map transfers_name
  | index => exact transfers_closing (transfers_slice_list h) _ _

theorem transfers_primary (h : TransfersNested change inner inner') :
    Transfers change within (primary inner) (primary inner') := by
  apply transfers_bind (transfers_atom h)
  apply transfers_chain
  · exact fun first second => stop_cases rfl rfl rfl rfl first
  · intro first second second' _ _
    cases first with
    | mark m => cases m <;> rfl
    | _ => rfl
  · exact fun value next => transfers_map (transfers_trailer h value next)

theorem transfers_power (h : TransfersNested change inner inner') : Transfers change within (power inner) (power inner') := by
  apply transfers_bind (transfers_primary h)
  intro left
  apply transfers_bind (transfers_accept rfl)
  intro raised
  apply transfers_ite
  · exact transfers_map (transfers_within h.factor)
  · exact transfers_pure left

theorem transfers_factor (h : TransfersNested change inner inner') :
    Transfers change within (factor inner) (factor inner') := by
  apply transfers_kind
  · intro first
    split
    · exact transfers_bind transfers_skip fun _ => transfers_map (transfers_within h.factor)
    · exact transfers_power h
  · exact stop_cases rfl rfl rfl rfl
  · exact stop_cases rfl rfl rfl rfl
  · exact transfers_power h

theorem transfers_left_grouped {op? : Kind → Option ArithmeticOp} {operand operand' : Parser Node}
    (ends : ∀ first, first.isStop = true → op? first = none) (h : Transfers change within operand operand') :
    Transfers change within (leftGrouped op? operand) (leftGrouped op? operand') := by
  apply transfers_bind h
  apply transfers_chain
  · exact fun first _ => ends first
  · exact fun first second second' _ _ => rfl
  · exact fun left op => transfers_map h

theorem transfers_bit_or (h : TransfersNested change inner inner') :
    Transfers change within (bitOr inner) (bitOr inner') := by
  have term : Transfers change within (term inner) (term inner') :=
    transfers_left_grouped (stop_cases rfl rfl rfl rfl) (transfers_factor h)
  have arith : Transfers change within (arith inner) (arith inner') :=
    transfers_left_grouped (stop_cases rfl rfl rfl rfl) term
  have shift : Transfers change within (shift inner) (shift inner') :=
    transfers_left_grouped (stop_cases rfl rfl rfl rfl) arith
  have bitAnd : Transfers change within (bitAnd inner) (bitAnd inner') :=
    transfers_left_grouped (stop_cases rfl rfl rfl rfl) shift
  have bitXor : Transfers change within (bitXor inner) (bitXor inner') :=
    transfers_left_grouped (stop_cases rfl rfl rfl rfl) bitAnd
  exact transfers_left_grouped (stop_cases rfl rfl rfl rfl) bitXor

theorem comparison_stopped (first second : Kind) (stops : second.isStop = true) :
    comparisonOp? first second = comparisonOp? first .newline := by
  cases first with
  | keyword word => cases word <;> exact stop_cases rfl rfl rfl rfl second stops
  | mark m => cases m <;> rfl
  | _ => rfl

theorem transfers_comparison (h : TransfersNested change inner inner') :
    Transfers change within (comparison inner) (comparison inner') := by
  have finish (op : ComparisonOp) : Transfers change within (finishComparison op) (finishComparison op) := by
    unfold finishComparison
    split
    · exact transfers_skip
    · exact transfers_skip
    · exact transfers_pure ()
  apply transfers_bind (transfers_bit_or h)
  intro left
  apply transfers_bind
  · apply transfers_chain
    · exact fun first second => stop_cases rfl rfl rfl rfl first
    · intro first second second' stops stops'
      rw [comparison_stopped first second stops, comparison_stopped first second' stops']
    · exact fun pairs op => transfers_bind (finish op) fun _ => transfers_map (transfers_bit_or h)
  · exact fun pairs => transfers_ite (transfers_pure left) (transfers_pure _)

theorem transfers_negation (h : TransfersNested change inner inner') :
    Transfers change within (negation inner) (negation inner') := by
  apply transfers_if_kind rfl
  · exact transfers_bind transfers_skip fun _ => transfers_map (transfers_within h.negation)
  · exact transfers_comparison h

theorem transfers_logical {op : LogicalOp} {word : Keyword} {operand operand' : Parser Node}
    (h : Transfers change within operand operand') :
    Transfers change within (logical op word operand) (logical op word operand') := by
  apply transfers_bind h
  intro first
  apply transfers_if_kind rfl
  · apply transfers_map
    exact transfers_linked rfl (fun values => transfers_map (transfers_append h values)) _
  · exact transfers_pure first

theorem transfers_or_test (h : TransfersNested change inner inner') :
    Transfers change within (orTest inner) (orTest inner') :=
  transfers_logical (transfers_logical (transfers_negation h))

theorem transfers_lambda (h : TransfersNested change inner inner') :
    Transfers change within (lambda inner) (lambda inner') := by
  apply transfers_bind transfers_skip
  intro _
  apply transfers_then (transfers_parameters h _)
  · intro params
    apply transfers_bind (transfers_expect _ _)
    intro _
    exact transfers_map (transfers_within h.test)
  · exact fun params => strict_bind_left (strict_expect _ _)

theorem transfers_conditional (h : TransfersNested change inner inner') :
    Transfers change within (conditional inner) (conditional inner') := by
  apply transfers_if_kind rfl
  · exact transfers_lambda h
  · apply transfers_bind (transfers_or_test h)
    intro body
    apply transfers_bind (transfers_accept rfl)
    intro more
    apply transfers_ite
    · apply transfers_bind (transfers_or_test h)
      intro test
      apply transfers_bind (transfers_expect _ _)
      intro _
      exact transfers_map (transfers_within h.test)
    · exact transfers_pure body

theorem nested_transfers (change : Change) (levels : Nat) : TransfersNested change (nested levels) (nested levels) := by
  induction levels with
  | zero => exact ⟨transfers_fail _, transfers_fail _, transfers_fail _, strict_test 0⟩
  | succ levels ih =>
      exact ⟨transfers_conditional ih, transfers_negation ih, transfers_factor ih, strict_test (levels + 1)⟩

-- The innermost expressions may find no level left.
theorem transfers_refuse {α : Type} {p : Parser α} (lowered : change.lowered) :
    Transfers change within p (refuse .nestedTooDeeply) :=
  ⟨fun _ _ _ _ _ => .deep lowered rfl⟩

theorem lowered_transfers (lowered : change.lowered) (levels : Nat) :
    TransfersNested change (nested (levels + 1)) (nested levels) := by
  induction levels with
  | zero => exact ⟨transfers_refuse lowered, transfers_refuse lowered, transfers_refuse lowered, strict_test 1⟩
  | succ levels ih =>
      exact ⟨transfers_conditional ih, transfers_negation ih, transfers_factor ih, strict_test (levels + 2)⟩

theorem transfers_or_refuse {α : Type} (target : Option α) (cause : ParseError.Cause) (place place' : Span) :
    Transfers change within (orRefuse target cause place) (orRefuse target cause place') := by
  cases target with
  | some found => exact transfers_pure found
  | none => exact transfers_fail _

theorem transfers_expression_statement (h : TransfersNested change inner inner') :
    Transfers change within (expressionStatement inner) (expressionStatement inner') := by
  have list : Transfers change within (expressionList inner) (expressionList inner') :=
    transfers_list_of (transfers_within h.test)
  apply transfers_span
  intro place place'
  apply transfers_bind list
  intro first
  apply transfers_kind
  · intro next
    split
    · apply transfers_bind (transfers_or_refuse _ _ _ _)
      intro target
      exact transfers_bind transfers_skip fun _ => transfers_map list
    · apply transfers_bind (transfers_linked rfl (fun lists => transfers_map list) _)
      intro lists
      exact transfers_map (transfers_or_refuse _ _ _ _)
    · exact transfers_pure _
  · exact stop_cases rfl rfl rfl rfl
  · exact stop_cases rfl rfl rfl rfl
  · exact transfers_pure (Node.exprStmt first)

theorem transfers_assert (h : TransfersNested change inner inner') :
    Transfers change within (assertStatement inner) (assertStatement inner') := by
  apply transfers_bind (transfers_within h.test)
  intro test
  apply transfers_bind (transfers_accept rfl)
  intro more
  apply transfers_ite
  · exact transfers_map (transfers_within h.test)
  · exact transfers_pure _

theorem transfers_small_statement (h : TransfersNested change inner inner') :
    Transfers change within (smallStatement inner) (smallStatement inner') := by
  apply transfers_kind
  · intro first
    split
    · exact transfers_taken _
    · exact transfers_taken _
    · exact transfers_taken _
    · apply transfers_bind transfers_skip
      exact fun _ => transfers_map (transfers_optional (transfers_list_of (transfers_within h.test)))
    · apply transfers_bind transfers_skip
      exact fun _ => transfers_map (transfers_optional (transfers_within h.test))
    · exact transfers_bind transfers_skip fun _ => transfers_assert h
    · exact transfers_expression_statement h
  · exact stop_cases rfl rfl rfl rfl
  · exact stop_cases rfl rfl rfl rfl
  · exact transfers_expression_statement h

theorem transfers_heading (h : TransfersNested change inner inner) (word : Compound) :
    Transfers change false (heading word inner) (heading word inner) := by
  cases word with
  | choice => exact transfers_map h.test
  | loop => exact transfers_map h.test
  | each =>
      apply transfers_span
      intro place place'
      apply transfers_bind (transfers_list_of (transfers_bit_or h))
      intro items
      apply transfers_bind (transfers_or_refuse _ _ _ _)
      intro target
      apply transfers_bind (transfers_expect _ _)
      intro _
      exact transfers_map (transfers_list_of h.test)
  | function =>
      apply transfers_bind transfers_name
      intro id
      apply transfers_bind (transfers_expect _ _)
      intro _
      exact transfers_closing (transfers_parameters h _) _ _

end Grammar

end Mutagen
