import NodeScript.Node.Scalar
import NodeScript.Proofs.Decimal.Numeral
import NodeScript.Proofs.Token.Words

/-!
# Quoted texts and numbers

The tokens of what scalars are written as: texts between quotes, whole numbers, and numbers with a
fraction or an exponent.
-/

namespace NodeScript

open Pattern TokenRow
open Decimal (minus)

namespace TokenTable

variable {rest : List Char}

/-! ## Quoted texts -/

/-- What stands between the quotes for a character. -/
def escaped (x : Char) : List Char :=
  if x = '"' ∨ x = '\\' then ['\\', x] else [x]

/-- What stands between the quotes of a string for a single character. -/
def IsQuotedPiece (piece : List Char) : Prop :=
  (∃ x, piece = [x] ∧ ¬(x = '"' ∨ x = '\\')) ∨ ∃ x, piece = ['\\', x] ∧ x ≠ '\n'

theorem isQuotedPiece_escaped (x : Char) : IsQuotedPiece (escaped x) := by
  by_cases h : x = '"' ∨ x = '\\'
  · refine .inr ⟨x, by rw [escaped, if_pos h], ?_⟩
    rcases h with rfl | rfl <;> decide
  · exact .inl ⟨x, by rw [escaped, if_neg h], h⟩

/-- A character that is neither a quote nor a backslash, or one after a backslash. -/
def quotedPiece : Pattern :=
  .alt (.one (.compl (.union (.single '"') (.single '\\'))))
    (.concat [char '\\', .one .notLineFeed])

theorem IsQuotedPiece.takesFirst {piece : List Char} (h : IsQuotedPiece piece)
    (after : List Char) : TakesFirst [quotedPiece] piece after := by
  rcases h with ⟨x, rfl, hx⟩ | ⟨x, rfl, hx⟩
  · exact (takesFirst_one (by simpa [CharSet.accepts, not_or] using hx) after).alt_left _
  · have hf : Fails (.one (.compl (.union (.single '"') (.single '\\')))) (['\\', x] ++ after) :=
      fails_one (by simp [CharSet.accepts])
    have hx : CharSet.notLineFeed.accepts x := by
      simpa [CharSet.notLineFeed, CharSet.accepts] using hx
    exact .alt_right hf ((takesFirst_one rfl _).cons (takesFirst_one hx after)).concat

theorem IsQuotedPiece.ne_nil {piece : List Char} (h : IsQuotedPiece piece) : piece ≠ [] := by
  rcases h with ⟨x, rfl, -⟩ | ⟨x, rfl, -⟩ <;> simp

/-- Pieces between quotes are a token, whatever they are followed by. -/
theorem firstScan?_pieces {pieces : List (List Char)} (h : ∀ piece ∈ pieces, IsQuotedPiece piece)
    (rest : List Char) : script.firstScan? ('"' :: (pieces.flatten ++ ['"']) ++ rest) =
      some (string, '"' :: (pieces.flatten ++ ['"'])) := by
  have hb : TakesFirst [.rep quotedPiece 0 none true] pieces.flatten (['"'] ++ rest) := by
    refine takesFirst_rep (fun piece hp => ⟨(h piece hp).ne_nil, (h piece hp).takesFirst⟩) ?_
    intro c hc
    simp [quotedPiece, ends, ends_concat, endsAll, char, hc, CharSet.accepts]
  exact firstScan?_of_only (by rfl) (scan?_of_takesFirst (List.cons_ne_nil _ _)
    ((takesFirst_one rfl _).cons (hb.cons (takesFirst_one rfl rest))))

/-- A text between quotes is a token, whatever it is followed by. -/
theorem firstScan?_quote (cs rest : List Char) :
    script.firstScan? (Scalar.quote cs ++ rest) = some (string, Scalar.quote cs) := by
  have hq : Scalar.quote cs = '"' :: ((cs.map escaped).flatten ++ ['"']) := by
    rw [Scalar.quote, List.flatMap_def]
    rfl
  rw [hq]
  refine firstScan?_pieces (fun piece hp => ?_) rest
  obtain ⟨x, -, rfl⟩ := List.mem_map.1 hp
  exact isQuotedPiece_escaped x

theorem mem_ends_quotedPiece {c c' : Cursor} (h : c' ∈ quotedPiece.ends c) :
    ∃ piece, IsQuotedPiece piece ∧ c.rest = piece ++ c'.rest := by
  rcases List.mem_append.1 h with h | h
  · cases hr : c.rest with
    | nil => simp [ends, hr] at h
    | cons x rest =>
        obtain ⟨hx, rfl⟩ : ¬(x = '"' ∨ x = '\\') ∧ c' = c.skip [x] rest := by
          simpa [ends, hr, CharSet.accepts, not_or] using h
        exact ⟨[x], .inl ⟨x, rfl, hx⟩, rfl⟩
  · rw [ends_concat] at h
    obtain ⟨c₁, h₁, h⟩ := mem_endsAll_cons.1 h
    rw [endsAll_singleton] at h
    cases hr : c.rest with
    | nil => simp [ends, char, hr] at h₁
    | cons y rest =>
        obtain ⟨rfl, rfl⟩ : y = '\\' ∧ c₁ = c.skip [y] rest := by
          simpa [ends, char, hr, CharSet.accepts] using h₁
        cases rest with
        | nil => simp [ends] at h
        | cons x rest =>
            obtain ⟨hx, rfl⟩ : x ≠ '\n' ∧ c' = (c.skip ['\\'] (x :: rest)).skip [x] rest := by
              simpa [ends, CharSet.notLineFeed, CharSet.accepts] using h
            exact ⟨['\\', x], .inr ⟨x, rfl, hx⟩, rfl⟩

/-- What the row of strings takes is pieces between quotes. -/
theorem pieces_of_scan? {rest text : List Char} (h : string.scan? rest = some text) :
    ∃ pieces : List (List Char), (∀ piece ∈ pieces, IsQuotedPiece piece) ∧
      text = '"' :: (pieces.flatten ++ ['"']) := by
  obtain ⟨-, after, hr, hm⟩ := head?_of_scan? h
  have hm := List.mem_of_mem_head? hm
  obtain ⟨c₁, h₁, hm⟩ := mem_endsAll_cons.1 hm
  obtain ⟨c₂, h₂, hm⟩ := mem_endsAll_cons.1 hm
  rw [endsAll_singleton] at hm
  let R (c c' : Cursor) : Prop := ∃ pieces : List (List Char),
    (∀ piece ∈ pieces, IsQuotedPiece piece) ∧ c.rest = pieces.flatten ++ c'.rest
  have rounds : R c₁ c₂ := by
    change c₂ ∈ (Pattern.rep quotedPiece 0 none true).ends c₁ at h₂
    simp only [ends_rep_none, endsTimes, List.flatMap_singleton] at h₂
    refine endsAtMost_induct (R := R) (fun c => ⟨[], by simp, rfl⟩) ?_ ?_ h₂
    · rintro c c' c'' ⟨ps, hps, hc⟩ ⟨ps', hps', hc'⟩
      exact ⟨ps ++ ps', List.forall_mem_append.2 ⟨hps, hps'⟩, by simp [hc, hc']⟩
    · intro c c' hc
      obtain ⟨piece, hp, hrest⟩ := mem_ends_quotedPiece hc
      exact ⟨[piece], by simpa using hp, by simpa using hrest⟩
  obtain ⟨pieces, hp, hrest⟩ := rounds
  have quote {c c' : Cursor} (h : c' ∈ (char '"').ends c) : c.rest = '"' :: c'.rest := by
    cases hc : c.rest with
    | nil => simp [ends, char, hc] at h
    | cons y rest =>
        obtain ⟨rfl, rfl⟩ : y = '"' ∧ c' = c.skip [y] rest := by
          simpa [ends, char, hc, CharSet.accepts] using h
        rfl
  have taken : text ++ after = '"' :: (pieces.flatten ++ ['"']) ++ after :=
    calc
      text ++ after = rest := hr.symm
      _ = '"' :: c₁.rest := quote h₁
      _ = '"' :: (pieces.flatten ++ '"' :: after) := by rw [hrest, quote hm, Cursor.skip_rest]
      _ = '"' :: (pieces.flatten ++ ['"']) ++ after := by simp
  exact ⟨pieces, hp, List.append_cancel_right taken⟩

/-! ## Numbers -/

theorem accepts_digits {ds : List Char} (h : ∀ x ∈ ds, x.isDigit) :
    ∀ x ∈ ds, CharSet.asciiDigit.accepts x := by
  simpa [accepts_asciiDigit] using h

/-- The rows that can take a number. -/
theorem firstScan?_number {x : Char} (hx : x.isDigit || x == '-') (rest : List Char) :
    script.firstScan? (x :: rest) = [float, int].findSome? fun row =>
      (row.scan? (x :: rest)).map (row, ·) := by
  have ascii : x.toNat < 128 := by
    rw [Bool.or_eq_true, beq_iff_eq] at hx
    rcases hx with hx | rfl
    · exact toNat_lt_of_isAlphanum (by simp [Char.isAlphanum, hx])
    · decide
  exact firstScan?_eq_filter ["FLOAT", "INT"] (p := fun x => x.isDigit || x == '-') (by decide)
    ascii hx rest

theorem minus_mem {negative : Bool} {x : Char} (h : x ∈ minus negative) : x = '-' := by
  cases negative with
  | true => simpa [minus] using h
  | false => simp [minus] at h

theorem takesFirst_minus (negative : Bool) {x : Char} (hx : ¬CharSet.sign.accepts x) :
    TakesFirst [.optional (.one .sign)] (minus negative) (x :: rest) := by
  cases negative with
  | true => exact takesFirst_optional (takesFirst_one rfl _)
  | false => exact takesFirst_optional_none (fails_one (by simpa using hx))

theorem takesFirst_digits {ds : List Char} (hne : ds ≠ []) (hd : ∀ x ∈ ds, x.isDigit)
    (hr : ∀ x ∈ rest.head?, ¬x.isDigit) : TakesFirst [.someOf .asciiDigit] ds rest :=
  takesFirst_someOf hne (accepts_digits hd) (by simpa [accepts_asciiDigit] using hr)

/-- What a sign and digits take, of which the digits are first. -/
theorem takesFirst_signed (negative : Bool) {ds text : List Char} {ps : List Pattern}
    (hne : ds ≠ []) (hd : ∀ x ∈ ds, x.isDigit) (h : TakesFirst ps (ds ++ text) rest) :
    TakesFirst (.optional (.one .sign) :: ps) (minus negative ++ (ds ++ text)) rest := by
  obtain ⟨x, ds, rfl⟩ := List.exists_cons_of_ne_nil hne
  have hx := forall_digit (P := fun x => ¬CharSet.sign.accepts x) (by decide) (hd x (by simp))
  exact (takesFirst_minus negative hx).cons h

theorem takesFirst_signedDigits (negative : Bool) {ds : List Char} (hne : ds ≠ [])
    (hd : ∀ x ∈ ds, x.isDigit) (hr : Stops rest) :
    TakesFirst [.optional (.one .sign), .someOf .asciiDigit] (minus negative ++ ds) rest := by
  have h : TakesFirst [.someOf .asciiDigit] (ds ++ []) rest := by
    simpa using takesFirst_digits hne hd (hr.not (by decide))
  simpa using takesFirst_signed negative hne hd h

theorem firstScan?_signed (negative : Bool) {ds : List Char} (hne : ds ≠ [])
    (hd : ∀ x ∈ ds, x.isDigit) (rest : List Char) :
    script.firstScan? (minus negative ++ (ds ++ rest)) = [float, int].findSome? fun row =>
      (row.scan? (minus negative ++ (ds ++ rest))).map (row, ·) := by
  obtain ⟨x, ds, rfl⟩ := List.exists_cons_of_ne_nil hne
  cases negative with
  | true => exact firstScan?_number rfl _
  | false => exact firstScan?_number (by simp [hd x (by simp)]) _

/-- A whole number is a token. -/
theorem firstScan?_int (negative : Bool) {ds : List Char} (hne : ds ≠ [])
    (hd : ∀ x ∈ ds, x.isDigit) (hr : Stops rest) :
    script.firstScan? (minus negative ++ ds ++ rest) = some (int, minus negative ++ ds) := by
  have hf : float.scan? (minus negative ++ ds ++ rest) = none := by
    refine scan?_eq_none_of_fails (fails_of_needs [.single '.', .exponentMark] rfl ?_
      (hr.not (by decide)))
    intro x hx
    rcases List.mem_append.1 hx with hx | hx
    · rw [minus_mem hx]
      decide
    · exact forall_digit (P := fun x => ∀ set ∈ _, ¬CharSet.accepts set x) (by decide) (hd x hx)
  have hi : int.scan? (minus negative ++ ds ++ rest) = some (minus negative ++ ds) := by
    exact scan?_of_takesFirst (by simp [hne]) (takesFirst_signedDigits negative hne hd hr)
  rw [List.append_assoc] at hf hi ⊢
  rw [firstScan?_signed negative hne hd]
  simp [hf, hi]

theorem takesFirst_exponent (negative : Bool) {ds : List Char} (hne : ds ≠ [])
    (hd : ∀ x ∈ ds, x.isDigit) (hr : Stops rest) :
    TakesFirst [exponent] ('e' :: (minus negative ++ ds)) rest := by
  exact ((takesFirst_one rfl _).cons (takesFirst_signedDigits negative hne hd hr)).concat

/-- A number with a point is a token. -/
theorem firstScan?_pointed (negative : Bool) {ds ds' : List Char} {e : Option (Bool × List Char)}
    (hne : ds ≠ []) (hd : ∀ x ∈ ds, x.isDigit) (hd' : ∀ x ∈ ds', x.isDigit)
    (he : ∀ p ∈ e, p.2 ≠ [] ∧ ∀ x ∈ p.2, x.isDigit) (hr : Stops rest) :
    script.firstScan? (minus negative ++ (ds ++ '.' :: (ds' ++ Numeral.exponentText e)) ++ rest) =
      some (float, minus negative ++ (ds ++ '.' :: (ds' ++ Numeral.exponentText e))) := by
  have exp : TakesFirst [.optional exponent] (Numeral.exponentText e) rest := by
    match e with
    | none => exact takesFirst_optional_none (fails_one (hr.not (by decide))).concat_cons
    | some (n, es) =>
        obtain ⟨hne, hes⟩ := he _ rfl
        exact takesFirst_optional (takesFirst_exponent n hne hes hr)
  have fraction : TakesFirst [.anyOf .asciiDigit, .optional exponent]
      (ds' ++ Numeral.exponentText e) rest := by
    refine (takesFirst_anyOf (accepts_digits hd') ?_).cons exp
    match e with
    | none => exact hr.not (by decide)
    | some (n, es) =>
        simp [Numeral.exponentText]
        decide
  have number : TakesFirst [.someOf .asciiDigit, char '.', .anyOf .asciiDigit, .optional exponent]
      (ds ++ '.' :: (ds' ++ Numeral.exponentText e)) rest :=
    (takesFirst_digits hne hd (by simp)).cons ((takesFirst_one rfl _).cons fraction)
  have hf : float.scan? (minus negative ++ (ds ++ '.' :: (ds' ++ Numeral.exponentText e)) ++ rest) =
      some (minus negative ++ (ds ++ '.' :: (ds' ++ Numeral.exponentText e))) :=
    scan?_of_takesFirst (by simp) (takesFirst_signed negative hne hd (number.concat.alt_left _))
  rw [List.append_assoc, List.append_assoc] at hf ⊢
  rw [firstScan?_signed negative hne hd, List.findSome?_cons, hf]
  rfl

/-- A number with an exponent and no point is a token. -/
theorem firstScan?_exponential (negative negative' : Bool) {ds es : List Char} (hne : ds ≠ [])
    (hd : ∀ x ∈ ds, x.isDigit) (hne' : es ≠ []) (hes : ∀ x ∈ es, x.isDigit) (hr : Stops rest) :
    script.firstScan? (minus negative ++ (ds ++ 'e' :: (minus negative' ++ es)) ++ rest) =
      some (float, minus negative ++ (ds ++ 'e' :: (minus negative' ++ es))) := by
  have number : TakesFirst [.someOf .asciiDigit, exponent] (ds ++ 'e' :: (minus negative' ++ es))
      rest :=
    (takesFirst_digits hne hd (by simp)).cons (takesFirst_exponent negative' hne' hes hr)
  have noPoint : ∀ x ∈ ds ++ 'e' :: (minus negative' ++ es), ∀ set ∈ [CharSet.single '.'],
      ¬set.accepts x := by
    intro x hx
    have digit {x : Char} : x.isDigit → ∀ set ∈ [CharSet.single '.'], ¬set.accepts x :=
      forall_digit (P := fun x => ∀ set ∈ [CharSet.single '.'], ¬set.accepts x) (by decide)
    rcases List.mem_append.1 hx with hx | _ | ⟨_, hx⟩
    · exact digit (hd x hx)
    · decide
    · rcases List.mem_append.1 hx with hx | hx
      · rw [minus_mem hx]
        decide
      · exact digit (hes x hx)
  have pointed : TakesFirst _ _ rest := .alt_right
    (fails_of_needs (p := .concat [.someOf .asciiDigit, char '.', .anyOf .asciiDigit,
      .optional exponent]) _ rfl noPoint (hr.not (by decide)))
    (.alt_right (fails_of_needs (p := .concat [char '.', .someOf .asciiDigit, .optional exponent])
      _ rfl noPoint (hr.not (by decide))) number.concat)
  have hf : float.scan? (minus negative ++ (ds ++ 'e' :: (minus negative' ++ es)) ++ rest) =
      some (minus negative ++ (ds ++ 'e' :: (minus negative' ++ es))) :=
    scan?_of_takesFirst (by simp) (takesFirst_signed negative hne hd pointed)
  rw [List.append_assoc, List.append_assoc] at hf ⊢
  rw [firstScan?_signed negative hne hd, List.findSome?_cons, hf]
  rfl

/-- A numeral that is not a whole number is a token. -/
theorem firstScan?_numeral (negative : Bool) {n : Numeral} (h : n.WellFormed)
    (hn : n.fraction.isSome ∨ n.exponent.isSome) (hr : Stops rest) :
    script.firstScan? (minus negative ++ n.text ++ rest) =
      some (float, minus negative ++ n.text) := by
  match hf : n.fraction, he : n.exponent with
  | some ds, e =>
      have := firstScan?_pointed negative (e := n.exponent) h.whole_ne h.whole (h.fraction ds hf)
        (fun p hp => ⟨h.exponent_ne p hp, h.exponent p hp⟩) hr
      simpa only [Numeral.text, hf] using this
  | none, some (m, es) =>
      have := firstScan?_exponential negative m h.whole_ne h.whole (h.exponent_ne _ he)
        (h.exponent _ he) hr
      simpa only [Numeral.text, hf, he, Numeral.exponentText] using this
  | none, none => simp [hf, he] at hn

end TokenTable

end NodeScript
