import Mathlib.Data.List.TakeDrop
import NodeScript.Decimal.Layout
import NodeScript.Decimal.Reader
import NodeScript.Proofs.Decimal.Exactness
import NodeScript.Proofs.Text.Characters

/-!
# Numerals

The parts of a numeral: digits, a fraction and an exponent. Every layout of a decimal is a numeral,
and a numeral is read as the number that its parts denote.
-/

namespace NodeScript

namespace Decimal

/-- A minus, or nothing. -/
def minus (negative : Bool) : List Char :=
  if negative then ['-'] else []

/-! ## Runs of digits -/

theorem ofDigits_eq (cs : List Char) : ofDigits cs = Nat.ofDigitChars 10 cs 0 :=
  rfl

theorem ofDigits_toDigits (n : Nat) : ofDigits (Nat.toDigits 10 n) = n := by
  rw [ofDigits_eq, Nat.ofDigitChars_ten_toDigits]

theorem ofDigits_zeros_append (k : Nat) (ds : List Char) :
    ofDigits (List.replicate k '0' ++ ds) = ofDigits ds := by
  simp [ofDigits_eq, Nat.ofDigitChars_append]

theorem ofDigits_append_zeros (ds : List Char) (k : Nat) :
    ofDigits (ds ++ List.replicate k '0') = 10 ^ k * ofDigits ds := by
  simp [ofDigits_eq, Nat.ofDigitChars_append]

theorem isDigit_zeros (k : Nat) : ∀ x ∈ List.replicate k '0', x.isDigit := by
  intro x hx
  rw [List.eq_of_mem_replicate hx]
  rfl

theorem isDigit_toDigits {n : Nat} : ∀ x ∈ Nat.toDigits 10 n, x.isDigit := fun _ hx =>
  Nat.isDigit_of_mem_toDigits (by decide) (by decide) hx

/-- The digits of a number do not begin with a sign. -/
theorem toDigits_ne_cons {x : Char} (hx : x.isDigit = false) (n : Nat) (rest : List Char) :
    Nat.toDigits 10 n ≠ x :: rest := fun h => by
  rw [isDigit_toDigits (n := n) x (by simp [h])] at hx
  cases hx

theorem spanDigits_append {ds rest : List Char} (hd : ∀ x ∈ ds, x.isDigit)
    (hr : ∀ x ∈ rest.head?, ¬x.isDigit) : spanDigits (ds ++ rest) = (ds, rest) := by
  rw [spanDigits, List.span_eq_takeWhile_dropWhile]
  induction ds with
  | nil =>
      cases rest with
      | nil => rfl
      | cons x rest =>
          have := hr x rfl
          simp [this]
  | cons x ds ih =>
      obtain ⟨hx, hd⟩ := List.forall_mem_cons.1 hd
      have := ih hd
      simp_all

theorem readNat?_digits {ds : List Char} (hne : ds ≠ []) (hd : ∀ x ∈ ds, x.isDigit) :
    readNat? ds = some (ofDigits ds) := by
  have : ds.all Char.isDigit := List.all_eq_true.2 hd
  simp [readNat?, hne, this]

/-- A sign comes off digits. -/
theorem takeSign_minus (negative : Bool) {x : Char} (hx : x.isDigit) (cs : List Char) :
    takeSign (minus negative ++ x :: cs) = (negative, x :: cs) := by
  cases negative with
  | true => rfl
  | false =>
      have hp : x ≠ '+' := by
        rintro rfl
        cases hx
      have hm : x ≠ '-' := by
        rintro rfl
        cases hx
      show takeSign (x :: cs) = _
      unfold takeSign
      split
      · next h => exact absurd (List.cons.inj h).1 hp
      · next h => exact absurd (List.cons.inj h).1 hm
      · rfl

/-- A number that is written begins with a digit or a minus. -/
theorem head_minus_digits (negative : Bool) {ds : List Char} (hne : ds ≠ [])
    (hd : ∀ x ∈ ds, x.isDigit) (more : List Char) :
    ∃ x rest, minus negative ++ (ds ++ more) = x :: rest ∧ (x.isDigit || x == '-') := by
  obtain ⟨x, ds, rfl⟩ := List.exists_cons_of_ne_nil hne
  cases negative with
  | true => exact ⟨'-', _, rfl, rfl⟩
  | false => exact ⟨x, _, rfl, by simp [hd x (by simp)]⟩

/-- The whole number of a sign and digits. -/
def signed (negative : Bool) (n : Nat) : Int :=
  if negative then -(n : Int) else n

theorem signed_natAbs (i : Int) : signed (decide (i < 0)) i.natAbs = i := by
  by_cases h : i < 0
  · rw [signed, if_pos (decide_eq_true h)]
    omega
  · rw [signed, if_neg (by simpa using h)]
    omega

theorem readInt?_digits (negative : Bool) {ds : List Char} (hne : ds ≠ [])
    (hd : ∀ x ∈ ds, x.isDigit) :
    readInt? (minus negative ++ ds) = some (signed negative (ofDigits ds)) := by
  obtain ⟨x, cs, rfl⟩ := List.exists_cons_of_ne_nil hne
  rw [readInt?, takeSign_minus negative (hd x (by simp))]
  simp [readNat?_digits hne hd, signed]

end Decimal

open Decimal

/-! ## Numerals and what they denote -/

/-- A numeral without a sign. -/
structure Numeral where
  whole : List Char
  /-- The digits after the point, if there is one. -/
  fraction : Option (List Char)
  /-- Whether the exponent has a minus, and its digits. -/
  exponent : Option (Bool × List Char)

namespace Numeral

/-- The exponent as it is written. -/
def exponentText : Option (Bool × List Char) → List Char
  | none => []
  | some (negative, ds) => 'e' :: (minus negative ++ ds)

def text (n : Numeral) : List Char :=
  n.whole ++ match n.fraction with
    | none => exponentText n.exponent
    | some ds => '.' :: (ds ++ exponentText n.exponent)

structure WellFormed (n : Numeral) : Prop where
  whole_ne : n.whole ≠ []
  whole : ∀ x ∈ n.whole, x.isDigit
  fraction : ∀ ds ∈ n.fraction, ∀ x ∈ ds, x.isDigit
  exponent_ne : ∀ e ∈ n.exponent, e.2 ≠ []
  exponent : ∀ e ∈ n.exponent, ∀ x ∈ e.2, x.isDigit

/-- The digits as a whole number. -/
def digits (n : Numeral) : Nat :=
  ofDigits (n.whole ++ n.fraction.getD [])

/-- The power of ten that the digits are multiplied with. -/
def power (n : Numeral) : Int :=
  (match n.exponent with
    | none => 0
    | some (negative, ds) => signed negative (ofDigits ds)) - (n.fraction.getD []).length

/-- The number that the numeral denotes. -/
def number (n : Numeral) (negative : Bool) : Binary64 :=
  .ofDecimal negative n.digits n.power

variable {n : Numeral}

theorem exponentText_head? (e : Option (Bool × List Char)) :
    ∀ x ∈ (exponentText e).head?, ¬x.isDigit := by
  cases e with
  | none => simp [exponentText]
  | some e =>
      obtain ⟨negative, ds⟩ := e
      simp [exponentText]

theorem readExponent?_text (h : n.WellFormed) : readExponent? (exponentText n.exponent) =
    some (n.power + (n.fraction.getD []).length) := by
  rw [power, Int.sub_add_cancel]
  match he : n.exponent with
  | none => rfl
  | some (negative, ds) =>
      rw [exponentText, readExponent?, if_pos (.inl rfl),
        readInt?_digits negative (h.exponent_ne _ he) (h.exponent _ he)]

theorem readUnsigned?_text (h : n.WellFormed) (negative : Bool) :
    readUnsigned? negative n.text = some (n.number negative) := by
  have he := readExponent?_text h
  rw [number, digits]
  match hf : n.fraction with
  | none =>
      rw [hf] at he
      have hs := spanDigits_append h.whole (exponentText_head? n.exponent)
      match hx : n.exponent with
      | none =>
          simp only [hx, exponentText] at he hs
          simp only [readUnsigned?, text, hf, hx, exponentText, hs, he]
          simp [h.whole_ne]
      | some (minus, ds) =>
          simp only [hx, exponentText] at he hs
          simp only [readUnsigned?, text, hf, hx, exponentText, hs]
          simp [h.whole_ne, he]
  | some ds =>
      rw [hf] at he
      have hs : spanDigits (n.whole ++ '.' :: (ds ++ exponentText n.exponent)) = (n.whole, _) :=
        spanDigits_append h.whole (by simp)
      have hs' := spanDigits_append (h.fraction ds hf) (exponentText_head? n.exponent)
      simp only [readUnsigned?, text, hf, hs, hs', he]
      simp [h.whole_ne]

theorem text_eq_cons (h : n.WellFormed) : ∃ x rest, n.text = x :: rest ∧ x.isDigit := by
  obtain ⟨x, ds, hx⟩ := List.exists_cons_of_ne_nil h.whole_ne
  exact ⟨x, _, by rw [text, hx, List.cons_append], h.whole x (by simp [hx])⟩

/-- A numeral with a sign is read as the number that it denotes. -/
theorem read?_text (h : n.WellFormed) (negative : Bool) :
    Binary64.read? (String.ofList (minus negative ++ n.text)) = some (n.number negative) := by
  have hu := readUnsigned?_text h negative
  obtain ⟨x, rest, ht, hx⟩ := text_eq_cons h
  have hl : x.toLower ≠ 'i' ∧ x.toLower ≠ 'n' :=
    forall_digit (P := fun x => x.toLower ≠ 'i' ∧ x.toLower ≠ 'n') (by decide) hx
  have noWord {y : Char} (hy : x.toLower ≠ y) (cs : List Char) : lowercase (x :: rest) ≠ y :: cs :=
    fun h => hy (List.cons.inj h).1
  rw [ht] at hu ⊢
  simp only [Binary64.read?, String.toList_ofList, takeSign_minus negative hx, hu]
  rw [if_neg, if_neg]
  · exact noWord hl.2 _
  · exact not_or.2 ⟨noWord hl.1 _, noWord hl.1 _⟩

end Numeral

/-! ## Layouts -/

namespace Layout

/-- A numeral, not a whole one, that denotes a decimal. -/
structure Shows (n : Numeral) (d : Decimal) : Prop where
  wellFormed : n.WellFormed
  notWhole : n.fraction.isSome ∨ n.exponent.isSome
  number : ∀ negative, n.number negative = .ofDecimal negative d.digits d.exponent

theorem isDigit_append {ds ds' : List Char} (h : ∀ x ∈ ds, x.isDigit) (h' : ∀ x ∈ ds', x.isDigit) :
    ∀ x ∈ ds ++ ds', x.isDigit :=
  List.forall_mem_append.2 ⟨h, h'⟩

/-- Digits and a point among them or at either end. -/
theorem shows_pointed {d : Decimal} (ds ds' : List Char) (hne : ds ≠ [])
    (hd : ∀ x ∈ ds, x.isDigit) (hd' : ∀ x ∈ ds', x.isDigit)
    (hn : ∀ negative, Binary64.ofDecimal negative (ofDigits (ds ++ ds')) (-ds'.length) =
      .ofDecimal negative d.digits d.exponent) : Shows ⟨ds, some ds', none⟩ d where
  wellFormed := ⟨hne, hd, by simpa using hd', by simp, by simp⟩
  notWhole := .inl rfl
  number := fun negative => by
    rw [← hn negative, Numeral.number, Numeral.digits, Numeral.power]
    simp

/-- The characters are the digits of a decimal, and its leading power counts them. -/
structure DigitsOf (ds : List Char) (d : Decimal) : Prop where
  ne_nil : ds ≠ []
  isDigit : ∀ x ∈ ds, x.isDigit
  ofDigits : ofDigits ds = d.digits
  leading : d.leading = d.exponent + ds.length - 1

theorem digitsOf_toDigits (d : Decimal) : DigitsOf (Nat.toDigits 10 d.digits) d :=
  ⟨Nat.toDigits_ne_nil, isDigit_toDigits, ofDigits_toDigits _, rfl⟩

variable {ds : List Char} {d : Decimal}

/-- Zeros between the point and the digits. -/
theorem shows_below (h : DigitsOf ds d) (hl : d.leading < 0) :
    Shows ⟨['0'], some (List.replicate (-d.leading - 1).toNat '0' ++ ds), none⟩ d := by
  refine shows_pointed _ _ (List.cons_ne_nil _ _) (by simp)
    (isDigit_append (isDigit_zeros _) h.isDigit) fun negative => ?_
  have hz : Decimal.ofDigits (['0'] ++ (List.replicate (-d.leading - 1).toNat '0' ++ ds)) =
      d.digits := by
    rw [← List.append_assoc, ← h.ofDigits]
    exact ofDigits_zeros_append ((-d.leading - 1).toNat + 1) ds
  have hleading := h.leading
  rw [hz]
  congr 1
  simp only [List.length_append, List.length_replicate]
  omega

/-- Zeros between the digits and the point. -/
theorem shows_beyond (h : DigitsOf ds d) (hl : ds.length ≤ d.leading.toNat + 1)
    (hn : 0 ≤ d.leading) :
    Shows ⟨ds ++ List.replicate (d.leading.toNat + 1 - ds.length) '0', some ['0'], none⟩ d := by
  refine shows_pointed _ _ (by simp [h.ne_nil]) (isDigit_append h.isDigit (isDigit_zeros _))
    (by simp) fun negative => ?_
  -- the zero after the point is one more of those that the digits are followed by
  have hz : Decimal.ofDigits
      (ds ++ List.replicate (d.leading.toNat + 1 - ds.length) '0' ++ ['0']) =
      10 ^ (d.leading.toNat + 1 - ds.length + 1) * d.digits := by
    rw [← h.ofDigits, ← ofDigits_append_zeros, List.replicate_succ', List.append_assoc]
  have hleading := h.leading
  rw [hz, Binary64.ofDecimal_tens]
  congr 1
  simp only [List.length_singleton]
  omega

/-- The point among the digits. -/
theorem shows_among (h : DigitsOf ds d) (hl : d.leading.toNat + 1 < ds.length)
    (hn : 0 ≤ d.leading) :
    Shows ⟨ds.take (d.leading.toNat + 1), some (ds.drop (d.leading.toNat + 1)), none⟩ d := by
  refine shows_pointed _ _ (by simpa using h.ne_nil)
    (fun x hx => h.isDigit x (List.mem_of_mem_take hx))
    (fun x hx => h.isDigit x (List.mem_of_mem_drop hx)) fun negative => ?_
  have hleading := h.leading
  rw [List.take_append_drop, h.ofDigits]
  congr 1
  simp only [List.length_drop]
  omega

/-- What is laid out positionally is a numeral. -/
theorem exists_positional (h : DigitsOf ds d) :
    ∃ n : Numeral, positional ds d.leading = n.text ∧ Shows n d := by
  unfold positional
  by_cases hn : d.leading < 0
  · rw [if_pos hn]
    exact ⟨_, by simp [Numeral.text, Numeral.exponentText], shows_below h hn⟩
  · rw [if_neg hn]
    by_cases hl : ds.length ≤ d.leading.toNat + 1
    · exact ⟨_, by simp [Numeral.text, Numeral.exponentText, hl],
        shows_beyond h hl (Int.not_lt.1 hn)⟩
    · exact ⟨_, by simp [Numeral.text, Numeral.exponentText, hl],
        shows_among h (Nat.lt_of_not_le hl) (Int.not_lt.1 hn)⟩

/-- The numeral of digits and an exponent, with a point after the first of several digits. -/
def exponentialNumeral (ds : List Char) (leading : Int) : Numeral :=
  ⟨ds.take 1, if ds.length ≤ 1 then none else some (ds.drop 1),
    some (decide (leading < 0), Nat.toDigits 10 leading.natAbs)⟩

theorem text_exponentialNumeral (ds : List Char) (leading : Int) :
    (exponentialNumeral ds leading).text = exponential false ds leading := by
  by_cases hl : ds.length ≤ 1 <;> by_cases hn : leading < 0 <;>
    simp [exponential, exponentialNumeral, Numeral.text, Numeral.exponentText, hl, hn, minus]

theorem wellFormed_exponentialNumeral (h : DigitsOf ds d) :
    (exponentialNumeral ds d.leading).WellFormed where
  whole_ne := by simpa [exponentialNumeral] using h.ne_nil
  whole := fun x hx => h.isDigit x (List.mem_of_mem_take hx)
  fraction := fun ds' hds' => by
    by_cases hl : ds.length ≤ 1
    · simp [exponentialNumeral, hl] at hds'
    · obtain rfl : ds.drop 1 = ds' := by simpa [exponentialNumeral, hl] using hds'
      exact fun x hx => h.isDigit x (List.mem_of_mem_drop hx)
  exponent_ne := by simp [exponentialNumeral, Nat.toDigits_ne_nil]
  exponent := by simpa [exponentialNumeral] using isDigit_toDigits (n := d.leading.natAbs)

/-- What is laid out with an exponent is a numeral. -/
theorem shows_exponential (h : DigitsOf ds d) : Shows (exponentialNumeral ds d.leading) d := by
  refine ⟨wellFormed_exponentialNumeral h, .inr rfl, fun negative => ?_⟩
  have hs : signed (decide (d.leading < 0))
      (Decimal.ofDigits (Nat.toDigits 10 d.leading.natAbs)) = d.leading := by
    rw [ofDigits_toDigits, signed_natAbs]
  have hpos := List.length_pos_iff.2 h.ne_nil
  have hleading := h.leading
  have hdigits : (exponentialNumeral ds d.leading).digits = d.digits := by
    rw [Numeral.digits, ← h.ofDigits]
    by_cases hl : ds.length ≤ 1
    · simp [exponentialNumeral, hl, List.take_of_length_le hl]
    · simp only [exponentialNumeral, hl, if_false, Option.getD_some, List.take_append_drop]
  have hpower : (exponentialNumeral ds d.leading).power = d.exponent := by
    simp only [Numeral.power, exponentialNumeral, hs]
    by_cases hl : ds.length ≤ 1
    · simp only [hl, if_true, Option.getD_none, List.length_nil]
      omega
    · simp only [hl, if_false, Option.getD_some, List.length_drop]
      omega
  rw [Numeral.number, hdigits, hpower]

/-- A decimal in the layout of scripts is a numeral. -/
theorem exists_decimal (d : Decimal) : ∃ n : Numeral, script.decimal d = n.text ∧ Shows n d := by
  unfold decimal
  dsimp only
  split
  · exact exists_positional (digitsOf_toDigits d)
  · exact ⟨_, (text_exponentialNumeral _ _).symm, shows_exponential (digitsOf_toDigits d)⟩

end Layout

/-- What a finite number is written as is a numeral, not a whole one, that denotes the number. -/
theorem Binary64.exists_render (negative : Bool) {m s : Nat} (h : IsCanonical m s) :
    ∃ n : Numeral, n.WellFormed ∧ (n.fraction.isSome ∨ n.exponent.isSome) ∧
      (Binary64.finite negative m s h).render = String.ofList (minus negative ++ n.text) ∧
      n.number negative = .finite negative m s h := by
  by_cases hm : m = 0
  · subst hm
    obtain rfl : s = 0 := h.2.2.resolve_left (by decide)
    exact ⟨⟨['0'], some ['0'], none⟩, ⟨by simp, by simp, by simp, by simp, by simp⟩, .inl rfl,
      rfl, rfl⟩
  · obtain ⟨n, ht, hw, hf, hn⟩ := Layout.exists_decimal (Decimal.shortest .up m s h)
    refine ⟨n, hw, hf, ?_, ?_⟩
    · simp only [Binary64.render, Layout.finite, hm, if_false]
      rw [← ht]
      rfl
    · rw [hn, Decimal.ofDecimal_shortest negative .up h hm]

/-- A finite number reads back from what it is written as. -/
theorem Binary64.read?_render {x : Binary64} (h : x.isFinite) :
    Binary64.read? x.render = some x := by
  match x with
  | .finite negative m s hc =>
      obtain ⟨n, hw, -, hr, hn⟩ := exists_render negative hc
      rw [hr, Numeral.read?_text hw, hn]
  | .nan => cases h
  | .infinite _ => cases h

end NodeScript
