import NodeScript.Node.Cast
import NodeScript.Proofs.Decimal.Numeral
import NodeScript.Proofs.Token.Names

/-!
# Tokens of numbers

What the rows of numbers take has the shape of a number, and every text of that shape is read as
one. So every token that a script is cut into stands for a scalar (`isOk_cast_of_mem`).
-/

namespace NodeScript

namespace Decimal

/-! ## The shape of numbers -/

/-- A minus, a plus or nothing. -/
def IsSign (cs : List Char) : Prop :=
  cs = [] ∨ cs = ['-'] ∨ cs = ['+']

def IsDigits (ds : List Char) : Prop :=
  ∀ x ∈ ds, x.isDigit

/-- An exponent in full: its mark, perhaps a sign, and digits. -/
def IsExponent (cs : List Char) : Prop :=
  ∃ mark sign ds, (mark = 'e' ∨ mark = 'E') ∧ IsSign sign ∧ ds ≠ [] ∧ IsDigits ds ∧
    cs = mark :: (sign ++ ds)

/-- A number without sign, whose point may stand at either end of the digits. -/
inductive IsUnsigned : List Char → Prop
  | whole {ds e : List Char} : ds ≠ [] → IsDigits ds → IsExponent e ∨ e = [] → IsUnsigned (ds ++ e)
  | pointed {ds ds' e : List Char} : ds ≠ [] ∨ ds' ≠ [] → IsDigits ds → IsDigits ds' →
    IsExponent e ∨ e = [] → IsUnsigned (ds ++ '.' :: (ds' ++ e))

/-- A number with a sign or without. -/
def IsNumber (cs : List Char) : Prop :=
  ∃ sign m, cs = sign ++ m ∧ IsSign sign ∧ IsUnsigned m

variable {sign ds cs e : List Char}

/-! ## Every text of the shape is read -/

theorem takeSign_append (h : IsSign sign) (hc : ∀ x ∈ cs.head?, x ≠ '+' ∧ x ≠ '-') :
    ∃ negative, takeSign (sign ++ cs) = (negative, cs) := by
  rcases h with rfl | rfl | rfl
  · refine ⟨false, ?_⟩
    match cs with
    | [] => rfl
    | x :: cs =>
        obtain ⟨hp, hm⟩ := hc x rfl
        rw [List.nil_append, takeSign]
        · rintro rest ⟨⟩
          exact hp rfl
        · rintro rest ⟨⟩
          exact hm rfl
  · exact ⟨true, rfl⟩
  · exact ⟨false, rfl⟩

theorem IsDigits.not_sign (h : IsDigits ds) : ∀ x ∈ ds.head?, x ≠ '+' ∧ x ≠ '-' := by
  intro x hx
  have hd := h x (List.mem_of_mem_head? hx)
  constructor
  · rintro rfl
    cases hd
  · rintro rfl
    cases hd

theorem isSome_readInt? (hs : IsSign sign) (hne : ds ≠ []) (hd : IsDigits ds) :
    (readInt? (sign ++ ds)).isSome := by
  obtain ⟨negative, taken⟩ := takeSign_append hs hd.not_sign
  simp [readInt?, taken, readNat?_digits hne hd]

theorem isSome_readExponent? (h : IsExponent e ∨ e = []) : (readExponent? e).isSome := by
  rcases h with ⟨mark, sign, ds, hm, hs, hne, hd, rfl⟩ | rfl
  · rw [readExponent?, if_pos hm]
    exact isSome_readInt? hs hne hd
  · rfl

theorem exponent_head? (h : IsExponent e ∨ e = []) :
    ∀ x ∈ e.head?, ¬x.isDigit ∧ x ≠ '.' := by
  rcases h with ⟨mark, sign, ds, hm, -, -, -, rfl⟩ | rfl
  · rintro x ⟨⟩
    rcases hm with rfl | rfl
    · decide
    · decide
  · exact fun x hx => by cases hx

theorem isSome_readUnsigned? (negative : Bool) (h : IsUnsigned cs) :
    (readUnsigned? negative cs).isSome := by
  cases h with
  | @whole ds e hne hd he =>
      have hs : spanDigits (ds ++ e) = (ds, e) :=
        spanDigits_append hd fun x hx => (exponent_head? he x hx).1
      have hr := isSome_readExponent? he
      unfold readUnsigned?
      rw [hs]
      match e, he, hr with
      | [], _, hr => simp [hne, hr]
      | x :: e, he, hr =>
          obtain ⟨-, hx⟩ := exponent_head? he x rfl
          simp [hne, hx, hr]
  | @pointed ds ds' e hne hd hd' he =>
      have hs : spanDigits (ds ++ '.' :: (ds' ++ e)) = (ds, '.' :: (ds' ++ e)) :=
        spanDigits_append hd (by simp)
      have hs' : spanDigits (ds' ++ e) = (ds', e) :=
        spanDigits_append hd' fun x hx => (exponent_head? he x hx).1
      have some_digit : (ds.isEmpty && ds'.isEmpty) = false := by
        rcases hne with hne | hne <;> simp [hne]
      unfold readUnsigned?
      simp only [hs, hs', some_digit, Bool.false_eq_true, if_false, Option.isSome_map]
      exact isSome_readExponent? he

theorem IsUnsigned.not_sign (h : IsUnsigned cs) : ∀ x ∈ cs.head?, x ≠ '+' ∧ x ≠ '-' := by
  cases h with
  | @whole ds e hne hd _ =>
      rw [List.head?_append_of_ne_nil _ hne]
      exact hd.not_sign
  | @pointed ds ds' e _ hd _ _ =>
      match ds with
      | [] =>
          rintro x ⟨⟩
          decide
      | x :: ds => exact hd.not_sign

theorem isSome_read? {text : String} (h : IsNumber text.toList) : (Binary64.read? text).isSome := by
  obtain ⟨sign, m, ht, hs, hm⟩ := h
  obtain ⟨negative, taken⟩ := takeSign_append hs hm.not_sign
  unfold Binary64.read?
  rw [ht, taken]
  dsimp only
  split
  · rfl
  · split
    · rfl
    · exact isSome_readUnsigned? negative hm

end Decimal

/-! ## The rows take nothing else -/

namespace Pattern

open Decimal

/-- Whatever the patterns read one after the other has the shape. -/
def ReadsOnly (ps : List Pattern) (Shape : List Char → Prop) : Prop :=
  ∀ c c', c' ∈ endsAll ps c → ∃ m, c.rest = m ++ c'.rest ∧ Shape m

variable {p q : Pattern} {ps : List Pattern} {set : CharSet} {S S' S'' : List Char → Prop}

theorem ReadsOnly.mono (h : ReadsOnly ps S) (hS : ∀ m, S m → S' m) : ReadsOnly ps S' := by
  intro c c' hc
  obtain ⟨m, hr, hm⟩ := h c c' hc
  exact ⟨m, hr, hS m hm⟩

theorem ReadsOnly.cons (h : ReadsOnly [p] S) (h' : ReadsOnly ps S')
    (hS : ∀ m m', S m → S' m' → S'' (m ++ m')) : ReadsOnly (p :: ps) S'' := by
  intro c c' hc
  obtain ⟨c₁, h₁, hc⟩ := mem_endsAll_cons.1 hc
  obtain ⟨m, hr, hm⟩ := h c c₁ (by rwa [endsAll_singleton])
  obtain ⟨m', hr', hm'⟩ := h' c₁ c' hc
  exact ⟨m ++ m', by rw [hr, hr', List.append_assoc], hS m m' hm hm'⟩

theorem ReadsOnly.concat (h : ReadsOnly ps S) : ReadsOnly [.concat ps] S := by
  intro c c' hc
  rw [endsAll_singleton, ends_concat] at hc
  exact h c c' hc

theorem ReadsOnly.alt (h : ReadsOnly [p] S) (h' : ReadsOnly [q] S) : ReadsOnly [.alt p q] S := by
  intro c c' hc
  rw [endsAll_singleton, ends, List.mem_append, ← endsAll_singleton, ← endsAll_singleton] at hc
  exact hc.elim (h c c') (h' c c')

theorem ReadsOnly.optional (h : ReadsOnly [p] S) :
    ReadsOnly [.optional p] fun m => S m ∨ m = [] := by
  intro c c' hc
  rw [endsAll_singleton, mem_ends_optional] at hc
  rcases hc with hc | rfl
  · obtain ⟨m, hr, hm⟩ := h c c' (by rwa [endsAll_singleton])
    exact ⟨m, hr, .inl hm⟩
  · exact ⟨[], rfl, .inr rfl⟩

theorem readsOnly_one : ReadsOnly [.one set] fun m => ∃ x, set.accepts x ∧ m = [x] := by
  intro c c' hc
  match hr : c.rest with
  | [] => simp [endsAll_singleton, ends, hr] at hc
  | x :: rest =>
      obtain ⟨hx, rfl⟩ : set.accepts x ∧ c' = c.skip [x] rest := by
        simpa [endsAll_singleton, ends, hr] using hc
      exact ⟨[x], rfl, x, hx, rfl⟩

theorem readsOnly_anyOf : ReadsOnly [.anyOf set] fun m => ∀ x ∈ m, set.accepts x := by
  intro c c' hc
  rw [endsAll_singleton, anyOf, mem_ends_anyOf] at hc
  obtain ⟨run, rest, hr, hs, rfl⟩ := hc
  exact ⟨run, hr, hs⟩

theorem readsOnly_someOf :
    ReadsOnly [.someOf set] fun m => m ≠ [] ∧ ∀ x ∈ m, set.accepts x := by
  intro c c' hc
  rw [endsAll_singleton, someOf, mem_ends_someOf] at hc
  obtain ⟨run, rest, hr, hne, hs, rfl⟩ := hc
  exact ⟨run, hr, hne, hs⟩

theorem readsOnly_char (x : Char) : ReadsOnly [char x] (· = [x]) :=
  readsOnly_one.mono fun m ⟨y, hy, hm⟩ => by
    obtain rfl : y = x := by simpa [CharSet.accepts] using hy
    exact hm

theorem readsOnly_digits : ReadsOnly [.someOf .asciiDigit] fun m => m ≠ [] ∧ IsDigits m :=
  readsOnly_someOf.mono fun m ⟨hne, hm⟩ =>
    ⟨hne, fun x hx => by rw [← TokenTable.accepts_asciiDigit, hm x hx]⟩

theorem readsOnly_anyDigits : ReadsOnly [.anyOf .asciiDigit] IsDigits :=
  readsOnly_anyOf.mono fun m hm x hx => by rw [← TokenTable.accepts_asciiDigit, hm x hx]

theorem readsOnly_sign : ReadsOnly [.optional (.one .sign)] IsSign := by
  refine readsOnly_one.optional.mono fun m hm => ?_
  rcases hm with ⟨x, hx, rfl⟩ | rfl
  · have hx : x = '-' ∨ x = '+' := by simpa [CharSet.sign, CharSet.accepts] using hx
    rcases hx with rfl | rfl
    · exact .inr (.inl rfl)
    · exact .inr (.inr rfl)
  · exact .inl rfl

theorem readsOnly_exponent : ReadsOnly [exponent] IsExponent := by
  have signed : ReadsOnly [.optional (.one .sign), .someOf .asciiDigit]
      fun m => ∃ sign ds, IsSign sign ∧ ds ≠ [] ∧ IsDigits ds ∧ m = sign ++ ds :=
    readsOnly_sign.cons readsOnly_digits fun sign ds hs hd => ⟨sign, ds, hs, hd.1, hd.2, rfl⟩
  refine (readsOnly_one.cons signed fun m m' hm hm' => ?_).concat
  obtain ⟨mark, hmark, rfl⟩ := hm
  obtain ⟨sign, ds, hs, hne, hd, rfl⟩ := hm'
  have hmark : mark = 'e' ∨ mark = 'E' := by
    simpa [CharSet.exponentMark, CharSet.accepts] using hmark
  exact ⟨mark, sign, ds, hmark, hs, hne, hd, rfl⟩

/-- A point, digits that come after it, and perhaps an exponent. -/
theorem readsOnly_point {S : List Char → Prop} (h : ReadsOnly [p] S) :
    ReadsOnly [char '.', p, .optional exponent] fun m => ∃ ds e, S ds ∧ (IsExponent e ∨ e = []) ∧
      m = '.' :: (ds ++ e) := by
  have further : ReadsOnly [p, .optional exponent]
      fun m => ∃ ds e, S ds ∧ (IsExponent e ∨ e = []) ∧ m = ds ++ e :=
    h.cons readsOnly_exponent.optional fun ds e hd he => ⟨ds, e, hd, he, rfl⟩
  refine (readsOnly_char '.').cons further fun m m' hm hm' => ?_
  obtain rfl := hm
  obtain ⟨ds, e, hd, he, rfl⟩ := hm'
  exact ⟨ds, e, hd, he, rfl⟩

theorem readsOnly_unsigned : ReadsOnly
    [.alt (.concat [.someOf .asciiDigit, char '.', anyOf .asciiDigit, .optional exponent])
      (.alt (.concat [char '.', .someOf .asciiDigit, .optional exponent])
        (.concat [.someOf .asciiDigit, exponent]))] IsUnsigned := by
  refine .alt (.concat ?_) (.alt (.concat ?_) (.concat ?_))
  · refine readsOnly_digits.cons (readsOnly_point readsOnly_anyDigits) fun ds m hd hm => ?_
    obtain ⟨ds', e, hd', he, rfl⟩ := hm
    exact .pointed (.inl hd.1) hd.2 hd' he
  · refine (readsOnly_point readsOnly_digits).mono fun m hm => ?_
    obtain ⟨ds', e, hd', he, rfl⟩ := hm
    have none : IsDigits [] := by simp [IsDigits]
    exact @IsUnsigned.pointed [] ds' e (.inr hd'.1) none hd'.2 he
  · exact readsOnly_digits.cons readsOnly_exponent fun ds e hd he => .whole hd.1 hd.2 (.inl he)

end Pattern

namespace TokenRow

open Decimal Pattern

theorem isNumber_of_readsOnly {name pattern tag : String} {ps : List Pattern}
    (h : ReadsOnly ps IsUnsigned) {text : String}
    (ha : (ofParts name pattern tag (.optional (.one .sign) :: ps)).accepts text) :
    IsNumber text.toList := by
  obtain ⟨c, hc, hr⟩ := (accepts_iff text).1 ha
  have signed : ReadsOnly (.optional (.one .sign) :: ps) IsNumber :=
    readsOnly_sign.cons h fun sign m hs hm => ⟨sign, m, rfl, hs, hm⟩
  obtain ⟨m, hm, hn⟩ := signed _ c hc
  obtain rfl : text.toList = m := by simpa [hr] using hm
  exact hn

theorem isNumber_of_float {text : String} (h : float.accepts text) : IsNumber text.toList :=
  isNumber_of_readsOnly readsOnly_unsigned h

theorem isNumber_of_int {text : String} (h : int.accepts text) : IsNumber text.toList := by
  refine isNumber_of_readsOnly (readsOnly_digits.mono fun ds hd => ?_) h
  have whole : IsUnsigned (ds ++ []) := .whole hd.1 hd.2 (.inr rfl)
  rwa [List.append_nil] at whole

end TokenRow

/-! ## Casts -/

namespace Token

theorem isOk_castFloat {kind : NumberKind} {text : String} (h : (Binary64.read? text).isSome) :
    (castFloat kind text).isOk := by
  obtain ⟨x, hx⟩ := Option.isSome_iff_exists.1 h
  rw [castFloat, hx]
  rfl

/-- Only a token by the name of a number can be refused a scalar. -/
theorem isOk_cast {t : Token}
    (h : t.name = "FLOAT" ∨ t.name = "INT" → (Binary64.read? t.text).isSome) : t.cast.isOk := by
  unfold cast
  split
  · next hn => exact isOk_castFloat (h (.inl hn))
  · next hn =>
      split
      · rfl
      · exact isOk_castFloat (h (.inr hn))
  · split <;> rfl
  · rfl
  · rfl

end Token

namespace TokenTable

/-- Every token that a text is cut into stands for a scalar. -/
theorem isOk_cast_of_mem {position : Nat} {rest : List Char} {ts : List Token}
    (h : script.tokenizeFrom 0 position rest = .ok ts) {t : Token} (ht : t ∈ ts) :
    t.cast.isOk := by
  obtain ⟨row, after, hs, hname, -⟩ := firstScan?_of_mem h ht
  have float := float_accepts_iff hs
  have int := int_accepts_iff hs
  rw [String.ofList_toList, ← hname] at float int
  refine Token.isOk_cast fun hn => Decimal.isSome_read? ?_
  rcases hn with hn | hn
  · exact TokenRow.isNumber_of_float (float.2 hn)
  · exact TokenRow.isNumber_of_int (int.2 hn)

end TokenTable

end NodeScript
