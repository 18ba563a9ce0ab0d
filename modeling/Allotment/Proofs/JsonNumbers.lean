import Allotment.Json.Number
import Allotment.Proofs.JsonGrammar
import Mathlib.Data.List.Induction
import Mathlib.Order.Basic

/-! Numbers by the grammar and as they are scanned. A number is scanned up to its end whatever follows, as long as this
    cannot be a part of it. It is read as a count where it is the text of one and nowhere else; a count has one text. -/

namespace Allotment.Json

/-! ### Where a number ends -/

/-- A text that does not start with such a character. -/
def Stops (p : Char → Bool) (text : List Char) : Prop := ∀ c ∈ text.head?, p c = false

/-- A text that is no longer a part of a number before it. -/
structure Ends (text : List Char) : Prop where
  digits : Stops Char.isDigit text
  point : Stops (· = '.') text
  exponent : Stops (fun c => c = 'e' || c = 'E') text

section Stops
variable {p : Char → Bool} {text rest : List Char}

theorem Stops.nil : Stops p [] := fun _ hc => nomatch hc

theorem Stops.cons {c : Char} (h : p c = false) : Stops p (c :: text) := by
  rintro c ⟨⟩
  exact h

theorem Stops.append (htext : Stops p text) (hrest : Stops p rest) : Stops p (text ++ rest) := by
  cases text with
  | nil => exact hrest
  | cons c text => exact htext

theorem Stops.takeWhile_eq (h : Stops p text) : text.takeWhile p = [] := by
  cases text with
  | nil => rfl
  | cons c text => exact List.takeWhile_cons_of_neg (Bool.eq_false_iff.mp (h c rfl))

theorem Stops.dropWhile_eq (h : Stops p text) : text.dropWhile p = text := by
  cases text with
  | nil => rfl
  | cons c text => exact List.dropWhile_cons_of_neg (Bool.eq_false_iff.mp (h c rfl))

theorem Ends.append (htext : Ends text) (hrest : Ends rest) : Ends (text ++ rest) :=
  ⟨htext.digits.append hrest.digits, htext.point.append hrest.point, htext.exponent.append hrest.exponent⟩

end Stops

section Parts
variable {text : List Char}

theorem DigitsText.exists_cons (h : DigitsText text) : ∃ c ds, text = c :: ds ∧ c.isDigit = true := by
  obtain ⟨c, ds, rfl⟩ := List.exists_cons_of_ne_nil h.1
  exact ⟨c, ds, rfl, h.2 c List.mem_cons_self⟩

theorem FractionText.stops_digit (h : FractionText text) : Stops Char.isDigit text := by
  cases h with
  | none => exact .nil
  | some => exact .cons rfl

theorem ExponentText.stops (h : ExponentText text) : Stops Char.isDigit text ∧ Stops (· = '.') text := by
  cases h with
  | none => exact ⟨.nil, .nil⟩
  | some he => rcases List.mem_pair.mp he with rfl | rfl <;> exact ⟨.cons rfl, .cons rfl⟩

end Parts

/-! ### Scanning -/

namespace Literal
variable {text rest : List Char}

theorem someDigits?_append (h : DigitsText text) (hrest : Stops Char.isDigit rest) :
    someDigits? (text ++ rest) = some (text.map digit, rest) := by
  rw [someDigits?, digits, List.takeWhile_append_of_pos h.2, List.dropWhile_append_of_pos h.2, hrest.takeWhile_eq,
    hrest.dropWhile_eq, List.append_nil]
  cases htext : text.map digit with
  | nil => exact absurd (List.map_eq_nil_iff.mp htext) h.1
  | cons => rfl

theorem eq_zero_of_digit {c : Char} (hc : c.isDigit = true) (h : digit c = 0) : c = '0' := by
  obtain ⟨hle, -⟩ := Char.isDigit_iff_toNat.mp hc
  exact Char.toNat_inj.mp (Nat.le_antisymm (Nat.le_of_sub_eq_zero h) hle)

theorem whole?_append (h : WholeText text) (hrest : Stops Char.isDigit rest) :
    whole? (text ++ rest) = some (text.map digit, rest) := by
  have hzero : ((text.map digit).head? = some 0 && (text.map digit).length ≠ 1) = false := by
    rw [Bool.and_eq_false_iff, or_iff_not_imp_left]
    intro hhead
    obtain ⟨c, hc, hdigit⟩ : ∃ c, text.head? = some c ∧ digit c = 0 := by simpa using hhead
    rw [h.2 (eq_zero_of_digit (h.1.2 c (List.mem_of_mem_head? hc)) hdigit ▸ hc)]
    rfl
  rw [whole?, someDigits?_append h.1 hrest]
  exact if_neg (Bool.eq_false_iff.mp hzero)

theorem sign_append {s : List Char} (hs : s ∈ [[], ['-']]) (h : DigitsText text) (rest : List Char) :
    sign (s ++ text ++ rest) = (decide (s = ['-']), text ++ rest) := by
  obtain ⟨c, ds, rfl, hc⟩ := h.exists_cons
  rcases List.mem_pair.mp hs with rfl | rfl
  · unfold sign
    split
    · next heq => exact absurd ((List.cons.inj heq).1 ▸ hc) (by decide)
    · rfl
  · rfl

theorem exponentSign_append {s : List Char} (hs : s ∈ [[], ['+'], ['-']]) (h : DigitsText text) (rest : List Char) :
    exponentSign (s ++ text ++ rest) = (decide (s = ['-']), text ++ rest) := by
  obtain ⟨c, ds, rfl, hc⟩ := h.exists_cons
  simp only [List.mem_cons, List.not_mem_nil, or_false] at hs
  rcases hs with rfl | rfl | rfl
  · unfold exponentSign
    split
    · next heq => exact absurd ((List.cons.inj heq).1 ▸ hc) (by decide)
    · next heq => exact absurd ((List.cons.inj heq).1 ▸ hc) (by decide)
    · rfl
  · rfl
  · rfl

/-- A fraction is scanned, and there are digits of it unless it is empty. -/
theorem fraction?_append (h : FractionText text) : ∃ value, (value = none ↔ text = []) ∧
    ∀ rest, Stops Char.isDigit rest → Stops (· = '.') rest → fraction? (text ++ rest) = some (value, rest) := by
  cases h with
  | none =>
    refine ⟨none, by simp, fun rest _ hpoint => ?_⟩
    rw [List.nil_append]
    unfold fraction?
    split
    · exact absurd (hpoint '.' rfl) (by decide)
    · rfl
  | @some ds h =>
    refine ⟨some (ds.map digit), by simp, fun rest hdigits _ => ?_⟩
    rw [List.cons_append, fraction?, someDigits?_append h hdigits]
    rfl

theorem exponent?_append (h : ExponentText text) : ∃ value, (value = none ↔ text = []) ∧
    ∀ rest, Ends rest → exponent? (text ++ rest) = some (value, rest) := by
  cases h with
  | none =>
    refine ⟨none, by simp, fun rest hrest => ?_⟩
    cases rest with
    | nil => rfl
    | cons c rest => exact if_neg (Bool.eq_false_iff.mp (hrest.exponent c rfl))
  | @some e s ds he hs h =>
    refine ⟨some (decide (s = ['-']), ds.map digit), by simp, fun rest hrest => ?_⟩
    have hletter : (e = 'e' || e = 'E') = true := by
      rcases List.mem_pair.mp he with rfl | rfl <;> rfl
    rw [List.cons_append, List.cons_append, exponent?, if_pos hletter, exponentSign_append hs h rest]
    dsimp only
    rw [someDigits?_append h hrest.digits]
    rfl

/-- A number is scanned part by part. There is a fraction where its text is not empty, and so for the exponent. -/
theorem scan?_append {s whole fraction exponent : List Char} (hs : s ∈ [[], ['-']]) (hwhole : WholeText whole)
    (hfraction : FractionText fraction) (hexponent : ExponentText exponent) :
    ∃ f e, (f = none ↔ fraction = []) ∧ (e = none ↔ exponent = []) ∧ ∀ rest, Ends rest →
      scan? (s ++ whole ++ fraction ++ exponent ++ rest) =
        some (⟨decide (s = ['-']), whole.map digit, f, e⟩, rest) := by
  obtain ⟨f, hf, hscanf⟩ := fraction?_append hfraction
  obtain ⟨e, he, hscane⟩ := exponent?_append hexponent
  refine ⟨f, e, hf, he, fun rest hrest => ?_⟩
  have hsign := sign_append hs hwhole.1 (fraction ++ (exponent ++ rest))
  have hafter := hscanf (exponent ++ rest) (hexponent.stops.1.append hrest.digits)
    (hexponent.stops.2.append hrest.point)
  have hdigits := whole?_append hwhole
    (hfraction.stops_digit.append (hexponent.stops.1.append hrest.digits))
  rw [List.append_assoc, List.append_assoc, scan?, hsign]
  dsimp only
  simp only [hdigits, hafter, hscane rest hrest, Option.bind_eq_bind, Option.bind_some]
  rfl

end Literal

/-! ### Counts -/

section Counts
variable {text : List Char} {n : Cells}

/-- A digit is written as its value. -/
theorem toDigits_digit {c : Char} (hc : c.isDigit = true) : Nat.toDigits 10 (digit c) = [c] ∧ digit c < 10 := by
  obtain ⟨hle, hge⟩ := Char.isDigit_iff_toNat.mp hc
  have hlt : digit c < 10 := by
    rw [digit]
    change c.toNat ≤ 57 at hge
    change c.toNat - 48 < 10
    omega
  refine ⟨?_, hlt⟩
  rw [Nat.toDigits_of_lt_base hlt, List.singleton_inj, ← Char.toNat_inj, Nat.toNat_digitChar_of_lt_ten hlt]
  exact Nat.add_sub_cancel' hle

theorem ofDigitChars_concat (init : List Char) (c : Char) :
    Nat.ofDigitChars 10 (init ++ [c]) 0 = 10 * Nat.ofDigitChars 10 init 0 + digit c := by
  rw [Nat.ofDigitChars_append]
  rfl

/-- Before the last digit of several there is a whole number other than 0. -/
theorem WholeText.of_concat {init : List Char} {c : Char} (h : WholeText (init ++ [c])) (hne : init ≠ []) :
    WholeText init ∧ Nat.ofDigitChars 10 init 0 ≠ 0 := by
  obtain ⟨d, ds, rfl⟩ := List.exists_cons_of_ne_nil hne
  have hd := h.1.2 d List.mem_cons_self
  have hzero : d ≠ '0' := by
    rintro rfl
    exact absurd (List.cons.inj (h.2 rfl)).2 (List.append_ne_nil_of_right_ne_nil ds (List.cons_ne_nil c []))
  have hdigits : DigitsText (d :: ds) := ⟨hne, fun c hc => h.1.2 c (List.mem_append_left _ hc)⟩
  refine ⟨⟨hdigits, fun hhead => absurd (Option.some.inj hhead) hzero⟩, ?_⟩
  rw [Nat.ofDigitChars_cons, Nat.ofDigitChars_eq_ofDigitChars_zero, Nat.mul_zero, Nat.zero_add]
  have hdigit := Nat.pos_of_ne_zero (mt (Literal.eq_zero_of_digit hd) hzero)
  exact Nat.ne_of_gt (Nat.add_pos_left (Nat.mul_pos (Nat.pow_pos (by decide)) hdigit) _)

/-- Digits without a leading zero are the decimal digits of their value. -/
theorem toDigits_ofDigitChars (h : WholeText text) : Nat.toDigits 10 (Nat.ofDigitChars 10 text 0) = text := by
  induction text using List.reverseRecOn with
  | nil => exact absurd rfl h.1.1
  | append_singleton init c ih =>
    obtain ⟨hdigit, hlt⟩ := toDigits_digit (h.1.2 c (List.mem_append_right init List.mem_cons_self))
    rw [ofDigitChars_concat]
    rcases eq_or_ne init [] with rfl | hne
    · exact (congrArg _ (Nat.zero_add _)).trans hdigit
    · obtain ⟨hinit, hpos⟩ := h.of_concat hne
      rw [← Nat.toDigits_append_toDigits (by decide) (Nat.pos_of_ne_zero hpos) hlt, ih hinit, hdigit]

theorem wholeText_toDigits (n : Nat) : WholeText (Nat.toDigits 10 n) := by
  refine ⟨⟨Nat.toDigits_ne_nil, fun c hc => Nat.isDigit_of_mem_toDigits (by decide) (by decide) hc⟩, ?_⟩
  induction n using Nat.strongRecOn with
  | ind n ih =>
    rcases Nat.lt_or_ge n 10 with hlt | hge
    · rw [Nat.toDigits_of_lt_base hlt]
      exact fun hhead => congrArg (fun c => [c]) (Option.some.inj hhead)
    -- The first of several digits is the first of a number that is not 0.
    · rw [Nat.toDigits_of_base_le (by decide) hge, List.head?_append_of_ne_nil _ Nat.toDigits_ne_nil]
      intro hhead
      have hzero := congrArg (Nat.ofDigitChars 10 · 0) (ih (n / 10) (by omega) hhead)
      rw [Nat.ofDigitChars_toDigits (by decide) (by decide)] at hzero
      change n / 10 = 0 at hzero
      omega

/-- A count has one text. -/
theorem countText_iff : CountText text n ↔ text = Nat.toDigits 10 n.toNat := by
  constructor
  · rintro ⟨hwhole, hvalue⟩
    rw [← hvalue, toDigits_ofDigitChars hwhole]
  · rintro rfl
    exact ⟨wholeText_toDigits _, Nat.ofDigitChars_toDigits (by decide) (by decide)⟩

theorem ofDigits_map_digit (text : List Char) : ofDigits (text.map digit) = Nat.ofDigitChars 10 text 0 := by
  rw [ofDigits, List.foldl_map, Nat.ofDigitChars]
  simp only [Nat.mul_comm _ 10, digit]

theorem Literal.floating?_ne (literal : Literal) (n : Cells) : literal.floating? ≠ some (.natural n) := by
  intro h
  obtain ⟨x, -, hx⟩ := Option.map_eq_some_iff.mp h
  exact nomatch hx

/-- Only whole numbers without sign, fraction and exponent are read as counts. -/
theorem Literal.number?_eq_natural_iff {literal : Literal} : literal.number? = some (.natural n) ↔
    literal.negative = false ∧ literal.fraction = none ∧ literal.exponent = none ∧
      ofDigits literal.whole = n.toNat := by
  have hmost : n.toNat ≤ Cells.most := n.toNat_le_most
  unfold Literal.number?
  dsimp only
  split
  · next hparts =>
    refine iff_of_false (literal.floating?_ne n) fun ⟨_, hfraction, hexponent, _⟩ => ?_
    rw [hfraction, hexponent] at hparts
    exact absurd hparts (by decide)
  · next hparts =>
    simp only [Bool.or_eq_true, not_or, Option.not_isSome_iff_eq_none] at hparts
    split
    · next hnegative =>
      refine iff_of_false (fun h => ?_) fun h => absurd (hnegative.symm.trans h.1) (by decide)
      split at h
      · exact nomatch h
      · exact literal.floating?_ne n h
    · next hnegative =>
      rw [Bool.not_eq_true] at hnegative
      split
      · next hle =>
        rw [Option.some.injEq, Number.natural.injEq, ← UInt64.toNat_inj,
          UInt64.toNat_ofNat_of_lt' (Nat.lt_succ_of_le hle)]
        exact ⟨fun h => ⟨hnegative, hparts.1, hparts.2, h⟩, fun h => h.2.2.2⟩
      · next hgt => exact iff_of_false (literal.floating?_ne n) fun h => hgt (h.2.2.2 ▸ hmost)

/-- A number that is the text of a count has nothing but digits. -/
theorem CountText.bare {s whole fraction exponent : List Char} (h : CountText (s ++ whole ++ fraction ++ exponent) n)
    (hs : s ∈ [[], ['-']]) (hfraction : FractionText fraction) (hexponent : ExponentText exponent) :
    s = [] ∧ fraction = [] ∧ exponent = [] := by
  have hdigit := h.1.1.2
  refine ⟨?_, ?_, ?_⟩
  · rcases List.mem_pair.mp hs with rfl | rfl
    · rfl
    · exact absurd (hdigit '-' (by simp)) (by decide)
  · cases hfraction with
    | none => rfl
    | some => exact absurd (hdigit '.' (by simp)) (by decide)
  · cases hexponent with
    | none => rfl
    | some he =>
      rcases List.mem_pair.mp he with rfl | rfl
      · exact absurd (hdigit 'e' (by simp)) (by decide)
      · exact absurd (hdigit 'E' (by simp)) (by decide)

/-- A number is scanned up to its end, and read as a count where it is the text of one. -/
theorem NumberText.scan? (h : NumberText text) : ∃ literal : Literal,
    (∀ rest, Ends rest → Literal.scan? (text ++ rest) = some (literal, rest)) ∧
      ∀ n, literal.number? = some (.natural n) ↔ CountText text n := by
  cases h with
  | @mk s whole fraction exponent hs hwhole hfraction hexponent =>
    obtain ⟨f, e, hf, he, hscan⟩ := Literal.scan?_append hs hwhole hfraction hexponent
    refine ⟨_, hscan, fun n => ?_⟩
    rw [Literal.number?_eq_natural_iff]
    dsimp only
    rw [ofDigits_map_digit, hf, he]
    constructor
    · rintro ⟨hsign, rfl, rfl, hvalue⟩
      rcases List.mem_pair.mp hs with rfl | rfl
      · rw [List.nil_append, List.append_nil, List.append_nil]
        exact ⟨hwhole, hvalue⟩
      · exact nomatch hsign
    · intro hcount
      obtain ⟨rfl, rfl, rfl⟩ := hcount.bare hs hfraction hexponent
      rw [List.nil_append, List.append_nil, List.append_nil] at hcount
      exact ⟨rfl, rfl, rfl, hcount.2⟩

end Counts
end Allotment.Json
