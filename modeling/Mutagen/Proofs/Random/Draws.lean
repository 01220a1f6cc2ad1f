import Mathlib.Data.List.Forall2
import Mathlib.Data.Option.Basic
import Mutagen.Random.Words

set_option autoImplicit false

namespace Mutagen

def Draws {α : Type} (d : Draw α) (P : α → Prop) : Prop := ∀ words, P (d words).1

def Words.Starts (stream : Words) (words : List UInt32) : Prop :=
  ∀ i word, words[i]? = some word → stream.word (stream.taken + i) = word

def Words.skip (stream : Words) (n : Nat) : Words := { stream with taken := stream.taken + n }

def Gives {α : Type} (d : Draw α) (words : List UInt32) (a : α) : Prop :=
  ∀ stream : Words, stream.Starts words → d stream = (a, stream.skip words.length)

def Exactly {α : Type} (few : Prop) (d : Draw α) (P : α → Prop) : Prop :=
  Draws d P ∧ (few → ∀ a, P a → ∃ words, Gives d words a)

section
variable {α β : Type} {few : Prop} {d : Draw α} {P : α → Prop} {Q : β → Prop}

theorem draws_pure {a : α} (h : P a) : Draws (pure a) P := fun _ => h

theorem draws_bind {f : α → Draw β} (hd : Draws d P) (hf : ∀ a, P a → Draws (f a) Q) : Draws (d >>= f) Q :=
  fun words => hf (d words).1 (hd words) (d words).2

theorem draws_then {f : α → Draw β} (hf : ∀ a, Draws (f a) Q) : Draws (d >>= f) Q :=
  fun words => hf (d words).1 (d words).2

theorem draws_after {words : Words} {f : α → Draw β} (hf : Draws (f (d words).1) Q) : Q ((d >>= f) words).1 :=
  hf (d words).2

theorem draws_ite {c : Prop} [Decidable c] {d' : Draw α} (h : Draws d P) (h' : Draws d' P) :
    Draws (if c then d else d') P := by
  split
  · exact h
  · exact h'

theorem draws_choose (options : List α) : Draws (Draw.choose options) fun chosen =>
    ∀ option, chosen = some option → option ∈ options := by
  rw [Draw.choose]
  refine draws_ite (draws_pure fun option none => by cases none) (draws_then fun i => draws_pure ?_)
  exact fun option found => List.mem_of_getElem? found

theorem bind_apply (d : Draw α) (f : α → Draw β) (words : Words) : (d >>= f) words = f (d words).1 (d words).2 := rfl

theorem starts_append {stream : Words} {words more : List UInt32} (h : stream.Starts (words ++ more)) :
    stream.Starts words ∧ (stream.skip words.length).Starts more := by
  constructor
  · intro i word found
    refine h i word ?_
    rw [List.getElem?_append_left (List.getElem?_eq_some_iff.mp found).1]
    exact found
  · intro i word found
    rw [Words.skip, Nat.add_assoc]
    refine h (words.length + i) word ?_
    rw [List.getElem?_append_right (Nat.le_add_right _ _), Nat.add_sub_cancel_left]
    exact found

theorem gives_pure (a : α) : Gives (pure a) [] a := fun _ _ => rfl

theorem gives_word (word : UInt32) : Gives Draw.word [word] word := by
  intro stream starts
  have first := starts 0 word rfl
  rw [Nat.add_zero] at first
  rw [Draw.word, first]
  rfl

theorem gives_bind {f : α → Draw β} {words more : List UInt32} {a : α} {b : β} (first : Gives d words a)
    (second : Gives (f a) more b) : Gives (d >>= f) (words ++ more) b := by
  intro stream starts
  obtain ⟨front, behind⟩ := starts_append starts
  rw [bind_apply, first stream front, second _ behind, List.length_append, Words.skip, Words.skip, Words.skip, Nat.add_assoc]

theorem gives_map {f : α → β} {words : List UInt32} {a : α} (h : Gives d words a) :
    Gives (do return f (← d)) words (f a) := by
  have whole := gives_bind (f := fun a => pure (f a)) h (gives_pure (f a))
  rw [List.append_nil] at whole
  exact whole

theorem gives_pos {c : Prop} [Decidable c] {d' : Draw α} {words : List UInt32} {a : α} (h : c)
    (gives : Gives d words a) : Gives (if c then d else d') words a := by
  rw [if_pos h]
  exact gives

theorem gives_neg {c : Prop} [Decidable c] {d' : Draw α} {words : List UInt32} {a : α} (h : ¬ c)
    (gives : Gives d' words a) : Gives (if c then d else d') words a := by
  rw [if_neg h]
  exact gives

theorem exactly_pure (a : α) : Exactly few (pure a) (· = a) :=
  ⟨draws_pure rfl, fun _ _ same => ⟨[], same ▸ gives_pure a⟩⟩

theorem exactly_bind {f : α → Draw β} {Q : α → β → Prop} (hd : Exactly few d P)
    (hf : ∀ a, P a → Exactly few (f a) (Q a)) : Exactly few (d >>= f) fun b => ∃ a, P a ∧ Q a b := by
  constructor
  · refine draws_bind hd.1 fun a holds => ?_
    exact fun words => ⟨a, holds, (hf a holds).1 words⟩
  · rintro enough b ⟨a, holds, result⟩
    obtain ⟨words, first⟩ := hd.2 enough a holds
    obtain ⟨more, second⟩ := (hf a holds).2 enough b result
    exact ⟨words ++ more, gives_bind first second⟩

theorem exactly_map (h : Exactly few d P) (f : α → β) :
    Exactly few (do return f (← d)) fun b => ∃ a, P a ∧ b = f a :=
  exactly_bind h fun a _ => exactly_pure (f a)

theorem exactly_congr {P' : α → Prop} (h : Exactly few d P) (same : ∀ a, P a ↔ P' a) : Exactly few d P' :=
  ⟨fun words => (same _).mp (h.1 words), fun enough a holds => h.2 enough a ((same a).mpr holds)⟩

theorem exactly_fewer {fewer : Prop} (h : Exactly few d P) (less : fewer → few) : Exactly fewer d P :=
  ⟨h.1, fun enough => h.2 (less enough)⟩

theorem exactly_of_list (h : Exactly few d P) (enough : few) (a : α) :
    (∃ words : List UInt32, (d (.ofList words)).1 = a) ↔ P a := by
  constructor
  · rintro ⟨words, rfl⟩
    exact h.1 _
  · intro holds
    obtain ⟨words, gives⟩ := h.2 enough a holds
    have starts : (Words.ofList words).Starts words := by
      intro i word found
      rw [Words.ofList, Nat.zero_add]
      exact congrArg (Option.getD · 0) found
    exact ⟨words, congrArg Prod.fst (gives _ starts)⟩

end

-- The integer part of a fraction times `n` is below `n`, and where more bits could carry, so is the
-- next number.
theorem product_bounds {w n : Nat} (word : w < 2 ^ 32) (positive : 0 < n) :
    w * n / 2 ^ 32 < n ∧ (2 ^ 32 - n < w * n % 2 ^ 32 → w * n / 2 ^ 32 + 1 < n) := by
  have whole := Nat.div_add_mod (w * n) (2 ^ 32)
  have below : (w + 1) * n ≤ 2 ^ 32 * n := Nat.mul_le_mul_right n word
  rw [Nat.add_mul, Nat.one_mul] at below
  have part := Nat.mod_lt (w * n) (show 0 < 2 ^ 32 by decide)
  constructor
  · exact Nat.div_lt_of_lt_mul (by omega)
  · intro carries
    omega

theorem draws_index {n : Nat} (positive : 0 < n) : Draws (Draw.index n) (· < n) := by
  refine draws_then fun w => ?_
  obtain ⟨low, lower⟩ := product_bounds w.toNat_lt positive
  by_cases carries : 2 ^ 32 - n < w.toNat * n % 2 ^ 32
  · rw [if_pos carries]
    refine draws_then fun more => draws_pure ?_
    have lower := lower carries
    split <;> omega
  · rw [if_neg carries]
    exact draws_pure low

-- The first word whose product with `n` reaches `i` leaves a fraction below `n`.
theorem index_word {i n : Nat} (few : n ≤ 2 ^ 32) (h : i < n) :
    ∃ w : UInt32, w.toNat * n / 2 ^ 32 = i ∧ w.toNat * n % 2 ^ 32 < n := by
  have whole := Nat.div_add_mod (i * 2 ^ 32 + (n - 1)) n
  have part := Nat.mod_lt (i * 2 ^ 32 + (n - 1)) (show 0 < n by omega)
  have small : (i * 2 ^ 32 + (n - 1)) / n < 2 ^ 32 := by
    rw [Nat.div_lt_iff_lt_mul (by omega)]
    omega
  generalize (i * 2 ^ 32 + (n - 1)) / n = w at whole small
  have product : (UInt32.ofNat w).toNat * n = w * n := by rw [UInt32.toNat_ofNat_of_lt' small]
  rw [Nat.mul_comm] at whole
  refine ⟨UInt32.ofNat w, ?_, ?_⟩
  · rw [product]
    omega
  · rw [product]
    omega

theorem exactly_index {n : Nat} (positive : 0 < n) : Exactly (n ≤ 2 ^ 32) (Draw.index n) (· < n) := by
  refine ⟨draws_index positive, fun few i low => ?_⟩
  obtain ⟨w, product, fraction⟩ := index_word few low
  by_cases carries : 2 ^ 32 - n < w.toNat * n % 2 ^ 32
  · have zero : (0 : UInt32).toNat * n / 2 ^ 32 = 0 := by simp
    have last : Gives (pure (w.toNat * n / 2 ^ 32 +
        if 2 ^ 32 ≤ w.toNat * n % 2 ^ 32 + (0 : UInt32).toNat * n / 2 ^ 32 then 1 else 0)) [] i := by
      rw [if_neg (by omega), product]
      exact gives_pure i
    exact ⟨[w, 0], gives_bind (gives_word w) (gives_pos carries (gives_bind (gives_word 0) last))⟩
  · refine ⟨[w], gives_bind (gives_word w) (gives_neg carries ?_)⟩
    rw [product]
    exact gives_pure i

theorem choose_eq {α : Type} {options : List α} (filled : options ≠ []) :
    Draw.choose options = do return options[← Draw.index options.length]? := by
  have notEmpty : options.isEmpty = false := by simpa using filled
  rw [Draw.choose, notEmpty]
  rfl

theorem draws_chosen {α : Type} {options : List α} (filled : options ≠ []) :
    Draws (Draw.choose options) fun chosen => ∃ option ∈ options, chosen = some option := by
  rw [choose_eq filled]
  refine draws_bind (draws_index (List.length_pos_iff.mpr filled)) fun i low => draws_pure ?_
  exact ⟨options[i], List.getElem_mem low, List.getElem?_eq_getElem low⟩

theorem exactly_choose {α : Type} {options : List α} (filled : options ≠ []) :
    Exactly (options.length ≤ 2 ^ 32) (Draw.choose options) fun chosen =>
      ∃ option ∈ options, chosen = some option := by
  rw [choose_eq filled]
  refine exactly_congr (exactly_map (exactly_index (List.length_pos_iff.mpr filled)) (options[·]?)) fun chosen => ?_
  constructor
  · rintro ⟨i, low, rfl⟩
    exact ⟨options[i], List.getElem_mem low, List.getElem?_eq_getElem low⟩
  · rintro ⟨option, member, rfl⟩
    obtain ⟨i, low, rfl⟩ := List.mem_iff_getElem.mp member
    exact ⟨i, low, (List.getElem?_eq_getElem low).symm⟩

theorem exactly_with_chosen {α β : Type} {few : Prop} {options : List α} {f : Option α → Draw β} {Q : α → β → Prop}
    (filled : options ≠ []) (small : few → options.length ≤ 2 ^ 32)
    (each : ∀ option ∈ options, Exactly few (f (some option)) (Q option)) :
    Exactly few (Draw.choose options >>= f) fun b => ∃ option ∈ options, Q option b := by
  refine exactly_congr (exactly_bind (exactly_fewer (exactly_choose filled) small)
    (Q := fun chosen b => ∃ option, chosen = some option ∧ Q option b) ?_) fun b => ?_
  · rintro chosen ⟨option, member, rfl⟩
    refine exactly_congr (each option member) fun b => ?_
    constructor
    · exact fun result => ⟨option, rfl, result⟩
    · rintro ⟨other, same, result⟩
      cases same
      exact result
  · constructor
    · rintro ⟨chosen, ⟨option, member, rfl⟩, other, same, result⟩
      cases same
      exact ⟨option, member, result⟩
    · rintro ⟨option, member, result⟩
      exact ⟨some option, ⟨option, member, rfl⟩, option, rfl, result⟩

-- An even chance takes 64 bits; the highest one decides.
theorem half_scaled : Binary64.scaled64 Probability.half.value.magnitude = 2 ^ 63 := by decide +kernel

theorem half_uncertain : Probability.half.value.magnitude ≠ Binary64.unit := by decide +kernel

theorem exactly_coin {few : Prop} : Exactly few (Draw.coin .half) fun _ => True := by
  refine ⟨fun _ => trivial, fun _ heads _ => ?_⟩
  rw [Draw.coin, if_neg half_uncertain, half_scaled]
  have gives (high : UInt32) : Gives (do return decide ((← Draw.doubleWord) < 2 ^ 63)) [0, high]
      (decide (high.toNat * 2 ^ 32 + (0 : UInt32).toNat < 2 ^ 63)) :=
    gives_map (f := fun bits : Nat => decide (bits < 2 ^ 63))
      (gives_bind (gives_word 0)
        (gives_map (f := fun high : UInt32 => high.toNat * 2 ^ 32 + (0 : UInt32).toNat) (gives_word high)))
  cases heads with
  | true =>
      have low : (0 : UInt32).toNat * 2 ^ 32 + (0 : UInt32).toNat < 2 ^ 63 := by decide
      have drawn := gives 0
      rw [decide_eq_true low] at drawn
      exact ⟨[0, 0], drawn⟩
  | false =>
      have high : ¬ (0x80000000 : UInt32).toNat * 2 ^ 32 + (0 : UInt32).toNat < 2 ^ 63 := by decide
      have drawn := gives 0x80000000
      rw [decide_eq_false high] at drawn
      exact ⟨[0, 0x80000000], drawn⟩

section
variable {α β γ δ : Type} {R : α → β → Prop} {S : γ → δ → Prop}

def Alongside (d : Draw α) (d' : Draw β) (R : α → β → Prop) : Prop :=
  ∀ words, (d words).2 = (d' words).2 ∧ R (d words).1 (d' words).1

theorem alongside_pure {x : α} {y : β} (h : R x y) : Alongside (pure x) (pure y) R := fun _ => ⟨rfl, h⟩

theorem alongside_bind {d : Draw α} {d' : Draw β} {f : α → Draw γ} {g : β → Draw δ} (h : Alongside d d' R)
    (behind : ∀ x y, R x y → Alongside (f x) (g y) S) : Alongside (d >>= f) (d' >>= g) S := by
  intro words
  obtain ⟨same, related⟩ := h words
  rw [bind_apply, bind_apply, same]
  exact behind _ _ related (d' words).2

theorem alongside_self {d : Draw α} {f : α → Draw γ} {g : α → Draw δ} (behind : ∀ x, Alongside (f x) (g x) S) :
    Alongside (d >>= f) (d >>= g) S :=
  fun words => behind (d words).1 (d words).2

theorem alongside_draws {d : Draw α} {d' : Draw β} {P : α → Prop} (h : Alongside d d' R) (draws : Draws d P) :
    Alongside d d' fun x y => R x y ∧ P x :=
  fun words => ⟨(h words).1, (h words).2, draws words⟩

theorem alongside_eq {d d' : Draw α} (h : Alongside d d' Eq) : d = d' :=
  funext fun words => Prod.ext (h words).2 (h words).1

theorem rel_cases {x : Option α} {y : Option β} (related : Option.Rel R x y) :
    (x = none ∧ y = none) ∨ ∃ u v, x = some u ∧ y = some v ∧ R u v := by
  cases related with
  | none => exact .inl ⟨rfl, rfl⟩
  | some holds => exact .inr ⟨_, _, rfl, rfl, holds⟩

theorem forall_at {xs : List α} {ys : List β} (all : List.Forall₂ R xs ys) (i : Nat) : Option.Rel R xs[i]? ys[i]? := by
  induction all generalizing i with
  | nil => exact .none
  | cons first _ ih =>
      cases i with
      | zero => exact .some first
      | succ i => exact ih i

theorem alongside_choose {xs : List α} {ys : List β} (all : List.Forall₂ R xs ys) :
    Alongside (Draw.choose xs) (Draw.choose ys) (Option.Rel R) := by
  cases all with
  | nil => exact alongside_pure .none
  | cons first others =>
      have all := List.Forall₂.cons first others
      rw [choose_eq (List.cons_ne_nil _ _), choose_eq (List.cons_ne_nil _ _), all.length_eq]
      exact alongside_self fun i => alongside_pure (forall_at all i)

end

end Mutagen
