import Mathlib.Data.List.TakeDrop
import Mathlib.Tactic.SplitIfs
import NodeScript.Pattern.Reader

/-!
# Parts of patterns in brackets

What is read of a pattern is read alike where a closing parenthesis follows: no reader of a part
comes to the end of a text and takes the parenthesis for more of the part.
-/

namespace NodeScript.Pattern

/-- What is read from a text is read alike where a closing parenthesis follows the text. -/
def IsEnclosable {α : Type} (reader : List Char → Option (α × List Char)) : Prop :=
  ∀ ⦃cs : List Char⦄ ⦃x : α⦄ ⦃rest : List Char⦄,
    reader cs = some (x, rest) → reader (cs ++ [')']) = some (x, rest ++ [')'])

theorem IsEnclosable.bind {α β : Type} {first : List Char → Option (α × List Char)}
    {second : α → List Char → Option (β × List Char)} (hf : IsEnclosable first)
    (hs : ∀ x, IsEnclosable (second x)) :
    IsEnclosable fun cs => (first cs).bind fun (x, rest) => second x rest := by
  intro cs y rest h
  obtain ⟨⟨x, after⟩, hx, h⟩ := Option.bind_eq_some_iff.1 h
  simp only [hf hx, Option.bind_some]
  exact hs x h

/-- A text that does not begin with something does not begin with it before a closing parenthesis
either. -/
theorem append_ne {cs : List Char} (start : List Char) (hs : ')' ∉ start)
    (h : ∀ rest, cs ≠ start ++ rest) (rest : List Char) : cs ++ [')'] ≠ start ++ rest := by
  intro he
  rcases List.prefix_concat_iff.1 (he ▸ List.prefix_append start rest) with rfl | ⟨rest, rfl⟩
  · exact hs (List.mem_append_right cs (.head _))
  · exact h rest rfl

/-- Where a span ends inside a text, more text after it changes nothing. -/
theorem span_append {p : Char → Bool} {cs inner rest : List Char} {c : Char}
    (h : cs.span p = (inner, c :: rest)) (more : List Char) :
    (cs ++ more).span p = (inner, c :: (rest ++ more)) := by
  rw [List.span_eq_takeWhile_dropWhile, Prod.mk.injEq] at h
  obtain ⟨ht, hd⟩ := h
  have hl : (cs.takeWhile p).length ≠ cs.length := by
    intro he
    have := congrArg List.length (List.takeWhile_append_dropWhile (p := p) (l := cs))
    rw [List.length_append, hd, List.length_cons] at this
    omega
  rw [List.span_eq_takeWhile_dropWhile, List.takeWhile_append, List.dropWhile_append, if_neg hl, ht,
    hd]
  rfl

/-- A span ends before a character that is not of it. -/
theorem span_append_of_not {p : Char → Bool} {c : Char} (hc : p c = false) (cs : List Char) :
    (cs ++ [c]).span p = ((cs.span p).1, (cs.span p).2 ++ [c]) := by
  simp only [List.span_eq_takeWhile_dropWhile]
  induction cs with
  | nil => simp [hc]
  | cons d cs ih => by_cases hd : p d <;> simp_all

/-- A span that takes all of a text takes one more character of its own, too. -/
theorem span_snd_append_eq_nil {p : Char → Bool} {c : Char} {cs : List Char} (hc : p c)
    (h : (cs.span p).2 = []) : ((cs ++ [c]).span p).2 = [] := by
  simp only [List.span_eq_takeWhile_dropWhile] at h ⊢
  rw [List.dropWhile_append, h]
  simp [hc]

/-! ## Escapes -/

theorem untilBrace?_isEnclosable : IsEnclosable untilBrace? := by
  intro cs inner rest h
  unfold untilBrace? at h ⊢
  split at h
  · next hs =>
      obtain ⟨rfl, rfl⟩ := by simpa using h
      rw [span_append hs]
  · cases h

theorem readCodePoint?_isEnclosable (count : Nat) : IsEnclosable (readCodePoint? count) := by
  intro cs e rest h
  unfold readCodePoint? at h
  split at h
  · next cs =>
      obtain ⟨⟨digits, after⟩, hu, h⟩ := Option.bind_eq_some_iff.1 h
      obtain ⟨c, hc, he⟩ := Option.bind_eq_some_iff.1 h
      cases he
      simp [readCodePoint?, untilBrace?_isEnclosable hu, hc]
  · next hb =>
      split at h
      · cases h
      · next hl =>
          obtain ⟨c, hc, he⟩ := Option.bind_eq_some_iff.1 h
          cases he
          have hl : count ≤ cs.length := Nat.le_of_not_lt hl
          have hl' : ¬(cs ++ [')']).length < count := by
            rw [List.length_append]
            omega
          rw [readCodePoint?.eq_2 _ _ (append_ne ['\x7b'] (by decide) hb)]
          simp only [hl', if_false, List.take_append_of_le_length hl,
            List.drop_append_of_le_length hl, hc]
          rfl

theorem readBoundary?_isEnclosable : IsEnclosable readBoundary? := by
  intro cs e rest h
  unfold readBoundary? at h
  split at h
  · next inner =>
      -- a closing parenthesis is no letter of a name
      have hi : (inner ++ [')']).head?.any isBoundaryLetter = inner.head?.any isBoundaryLetter := by
        cases inner <;> rfl
      simp only [List.cons_append, readBoundary?, hi]
      split at h
      · obtain ⟨⟨name, after⟩, hu, h⟩ := Option.bind_eq_some_iff.1 h
        simp only [untilBrace?_isEnclosable hu, Option.bind_eq_bind, Option.bind_some]
        dsimp only at h
        split at h <;> cases h <;> simp_all
      · cases h
        simp_all
  · next hb =>
      cases h
      rw [readBoundary?.eq_2 _ (append_ne ['\x7b'] (by decide) hb)]

theorem readEscape?_isEnclosable : IsEnclosable readEscape? := by
  rintro (_ | ⟨c, cs⟩) e rest h
  · cases h
  · rw [List.cons_append]
    unfold readEscape? at h ⊢
    dsimp only at h ⊢
    split at h
    -- beyond its letter, an escape is read on only for a code point and for a boundary
    all_goals first
      | exact readCodePoint?_isEnclosable _ h
      | exact readBoundary?_isEnclosable h
      | simp_all

/-! ## Classes

The readers of classes are made of the parts that are named here. -/

/-- Whether a caret comes first, and what follows it. -/
def takeCaret (cs : List Char) : Bool × List Char :=
  match cs with
  | '^' :: rest => (true, rest)
  | _ => (false, cs)

theorem takeCaret_append (cs : List Char) :
    takeCaret (cs ++ [')']) = ((takeCaret cs).1, (takeCaret cs).2 ++ [')']) := by
  rcases cs with _ | ⟨c, cs⟩
  · rfl
  · by_cases hc : c = '^' <;> simp [takeCaret, hc]

/-- What a bracket begins with when hyphens stand first in it. -/
def openMembers (negated : Bool) (hyphens : List CharSet) (cs : List Char) :
    OpenBracket × List Char :=
  match hyphens, cs with
  | [], ']' :: rest => (⟨negated, none, [.single ']']⟩, rest)
  | _, _ => (⟨negated, none, hyphens⟩, cs)

theorem openMembers_append (negated : Bool) (hyphens : List CharSet) (cs : List Char) :
    openMembers negated hyphens (cs ++ [')']) =
      ((openMembers negated hyphens cs).1, (openMembers negated hyphens cs).2 ++ [')']) := by
  rcases hyphens with _ | ⟨s, hyphens⟩
  · rcases cs with _ | ⟨c, cs⟩
    · rfl
    · by_cases hc : c = ']' <;> simp [openMembers, hc]
  · rfl

theorem openBracket_eq (cs : List Char) :
    openBracket cs = openMembers (takeCaret cs).1
      (((takeCaret cs).2.span (· == '-')).1.map .single) ((takeCaret cs).2.span (· == '-')).2 := rfl

theorem openBracket_append (cs : List Char) :
    openBracket (cs ++ [')']) = ((openBracket cs).1, (openBracket cs).2 ++ [')']) := by
  simp only [openBracket_eq, takeCaret_append, span_append_of_not (p := (· == '-')) (c := ')') rfl,
    openMembers_append]

/-- The class of a name whose end a colon and a closing bracket mark. -/
def nameClass? (negated : Bool) (name cs : List Char) : Option (CharSet × List Char) := do
  let rest ← match cs with
    | ':' :: ']' :: rest => some rest
    | _ => none
  let s ← CharSet.ascii? (String.ofList name)
  some (if negated then .compl s else s, rest)

theorem readNamedClass?_eq (cs : List Char) :
    readNamedClass? (':' :: cs) =
      nameClass? (takeCaret cs).1 ((takeCaret cs).2.span (· != ':')).1
        ((takeCaret cs).2.span (· != ':')).2 := rfl

theorem nameClass?_append (negated : Bool) (name cs : List Char) :
    nameClass? negated name (cs ++ [')']) =
      (nameClass? negated name cs).map fun (s, rest) => (s, rest ++ [')']) := by
  rcases cs with _ | ⟨c, _ | ⟨d, cs⟩⟩
  · rfl
  · by_cases hc : c = ':' <;> simp [nameClass?]
  · by_cases hc : c = ':'
    · by_cases hd : d = ']'
      · subst hc hd
        cases h : CharSet.ascii? (String.ofList name) <;> simp [nameClass?, h]
      · simp [nameClass?, hd]
    · simp [nameClass?, hc]

theorem readNamedClass?_append (cs : List Char) :
    readNamedClass? (cs ++ [')']) =
      (readNamedClass? cs).map fun (s, rest) => (s, rest ++ [')']) := by
  rcases cs with _ | ⟨c, cs⟩
  · rfl
  · by_cases hc : c = ':'
    · subst hc
      rw [List.cons_append, readNamedClass?_eq, readNamedClass?_eq, takeCaret_append]
      match hs : (takeCaret cs).2.span (· != ':') with
      | (name, []) =>
          rw [span_snd_append_eq_nil rfl (congrArg Prod.snd hs)]
          rfl
      | (name, d :: rest) =>
          rw [span_append hs]
          exact nameClass?_append _ _ (d :: rest)
    · have none (cs : List Char) : readNamedClass? (c :: cs) = none := by
        simp [readNamedClass?, hc]
      rw [List.cons_append, none, none, Option.map_none]

theorem readElement?_isEnclosable : IsEnclosable readElement? := by
  intro cs e rest h
  unfold readElement? at h
  split at h
  · cases h
  · exact readEscape?_isEnclosable h
  · next c cs hc =>
      cases h
      rw [List.cons_append, readElement?.eq_3 _ _ hc]

/-- A member that makes no range. -/
def single? (e : Element) (rest : List Char) : Option (CharSet × List Char) :=
  match e with
  | .char c => some (.single c, rest)
  | .set s => some (s, rest)
  | .anchor _ => none

theorem single?_isEnclosable (e : Element) : IsEnclosable (single? e) := by
  intro cs s rest h
  cases e <;> simp_all [single?]

/-- A range from its first member on, after the hyphen. -/
def range? (first : Element) (cs : List Char) : Option (CharSet × List Char) := do
  let (last, rest) ← readElement? cs
  match first, last with
  | .char low, .char high => if low ≤ high then some (.range low high, rest) else none
  | _, _ => none

theorem range?_isEnclosable (first : Element) : IsEnclosable (range? first) := by
  intro cs s rest h
  obtain ⟨⟨last, after⟩, hl, h⟩ := Option.bind_eq_some_iff.1 h
  simp only [range?, readElement?_isEnclosable hl, Option.bind_eq_bind, Option.bind_some]
  dsimp only at h
  split at h <;> simp_all

/-- What follows the first member of what may be a range. -/
def afterElement? (first : Element) (cs : List Char) : Option (CharSet × List Char) :=
  match cs with
  | '-' :: ']' :: _ => single? first cs
  | '-' :: '-' :: _ => single? first cs
  | '-' :: after => range? first after
  | _ => single? first cs

theorem afterElement?_isEnclosable (first : Element) : IsEnclosable (afterElement? first) := by
  intro cs s rest h
  unfold afterElement? at h
  split at h
  · exact single?_isEnclosable first h
  · exact single?_isEnclosable first h
  · next cs hb hh =>
      rw [List.cons_append, afterElement?.eq_3 _ _ (append_ne [']'] (by decide) hb)
        (append_ne ['-'] (by decide) hh)]
      exact range?_isEnclosable first h
  · next hb hh ha =>
      rw [afterElement?.eq_4 _ _ (append_ne ['-', ']'] (by decide) hb)
        (append_ne ['-', '-'] (by decide) hh) (append_ne ['-'] (by decide) ha)]
      exact single?_isEnclosable first h

/-- A range is read as its first member and what follows that. -/
theorem readRange?_isEnclosable : IsEnclosable readRange? :=
  readElement?_isEnclosable.bind afterElement?_isEnclosable

/-- A class is read alike, also with a greater limit. -/
theorem readMembers?_append {ignoreCase : Bool} {limit limit' : Nat} {current : OpenBracket}
    {outer : List OpenBracket} {cs rest : List Char} {s : CharSet}
    (h : readMembers? ignoreCase limit current outer cs = some (s, rest)) (hl : limit ≤ limit') :
    readMembers? ignoreCase limit' current outer (cs ++ [')']) = some (s, rest ++ [')']) := by
  induction limit generalizing limit' current outer cs with
  | zero => cases h
  | succ limit ih =>
      obtain ⟨limit', rfl⟩ : ∃ n, limit' = n + 1 := ⟨limit' - 1, by omega⟩
      have hl : limit ≤ limit' := Nat.le_of_succ_le_succ hl
      unfold readMembers? at h
      dsimp only at h
      split at h
      · cases h
      · simp only [List.cons_append, readMembers?, readNamedClass?_append]
        split at h
        · next hn =>
            simp only [hn, Option.map_some]
            exact ih h hl
        · next hn =>
            simp only [hn, Option.map_none, openBracket_append]
            exact ih h hl
      · simp only [List.cons_append, readMembers?]
        split at h
        · cases h
          rfl
        · exact ih h hl
      · rw [List.cons_append, List.cons_append, readMembers?]
        exact ih h hl
      · rw [List.cons_append, List.cons_append, readMembers?]
        exact ih h hl
      · rw [List.cons_append, List.cons_append, readMembers?]
        exact ih h hl
      · -- no mark of a class stands first, and none does before the parenthesis either
        next h₁ h₂ h₃ h₄ h₅ =>
          split at h
          · next hr =>
              rw [readMembers?.eq_9 _ _ _ _ _ (by simp) (append_ne ['['] (by decide) h₁)
                (append_ne [']'] (by decide) h₂) (append_ne ['&', '&'] (by decide) h₃)
                (append_ne ['-', '-'] (by decide) h₄) (append_ne ['~', '~'] (by decide) h₅),
                readRange?_isEnclosable hr]
              exact ih h hl
          · cases h

theorem readBracket?_isEnclosable (ignoreCase : Bool) : IsEnclosable (readBracket? ignoreCase) := by
  intro cs s rest h
  unfold readBracket? at h ⊢
  rw [openBracket_append]
  refine readMembers?_append h (Nat.succ_le_succ ?_)
  exact (List.prefix_append _ _).length_le

/-! ## Counts, settings and groups -/

theorem dropWhile_isBlank_append (cs : List Char) :
    (cs ++ [')']).dropWhile Text.isBlank = cs.dropWhile Text.isBlank ++ [')'] := by
  rw [List.dropWhile_append]
  split <;> simp_all [Text.isBlank]

theorem readCount?_isEnclosable : IsEnclosable readCount? := by
  intro cs n rest h
  unfold readCount? at h ⊢
  rw [dropWhile_isBlank_append, Decimal.spanDigits, span_append_of_not rfl]
  dsimp only [Decimal.spanDigits] at h ⊢
  obtain ⟨hn, he⟩ := Option.ite_none_left_eq_some.1 h
  cases he
  rw [if_neg hn, dropWhile_isBlank_append]

/-- The greatest count with the brace after it. -/
def most? (least : Nat) (cs : List Char) : Option ((Nat × Option Nat) × List Char) := do
  let (most, rest) ← readCount? cs
  match rest with
  | '\x7d' :: rest => if least ≤ most then some ((least, some (most - least)), rest) else none
  | _ => none

theorem most?_isEnclosable (least : Nat) : IsEnclosable (most? least) := by
  intro cs counts rest h
  obtain ⟨⟨most, after⟩, hm, h⟩ := Option.bind_eq_some_iff.1 h
  simp only [most?, readCount?_isEnclosable hm, Option.bind_eq_bind, Option.bind_some]
  dsimp only at h
  split at h <;> simp_all

/-- What follows the least count. -/
def afterLeast? (least : Nat) (cs : List Char) : Option ((Nat × Option Nat) × List Char) :=
  match cs with
  | '\x7d' :: rest => some ((least, some 0), rest)
  | ',' :: '\x7d' :: rest => some ((least, none), rest)
  | ',' :: rest => most? least rest
  | _ => none

theorem afterLeast?_isEnclosable (least : Nat) : IsEnclosable (afterLeast? least) := by
  intro cs counts rest h
  unfold afterLeast? at h
  split at h
  · cases h
    rfl
  · cases h
    rfl
  · next hb =>
      rw [List.cons_append, afterLeast?.eq_3 _ _ (append_ne ['\x7d'] (by decide) hb)]
      exact most?_isEnclosable least h
  · cases h

/-- Counts are read as the least one and what follows it. -/
theorem readCounts?_isEnclosable : IsEnclosable readCounts? :=
  readCount?_isEnclosable.bind afterLeast?_isEnclosable

theorem readSettings?_append {mode mode' : Mode} {seen : List Char} {on lastHyphen alone : Bool}
    {cs rest : List Char}
    (h : readSettings? mode seen on lastHyphen cs = some (mode', alone, rest)) :
    readSettings? mode seen on lastHyphen (cs ++ [')']) = some (mode', alone, rest ++ [')']) := by
  induction cs generalizing mode seen on lastHyphen with
  | nil => cases h
  | cons c cs ih =>
      rw [List.cons_append]
      unfold readSettings? at h ⊢
      split_ifs at h ⊢
      · cases h
        rfl
      · exact ih h
      -- a letter is one of the settings, and others may follow it
      all_goals split at h
      all_goals first | exact ih h | cases h

theorem readGroupName?_isEnclosable (names : List String) :
    IsEnclosable (readGroupName? names) := by
  intro cs name rest h
  unfold readGroupName? at h ⊢
  split at h
  · next hs =>
      rw [span_append hs]
      dsimp only at h ⊢
      obtain ⟨hn, he⟩ := Option.ite_none_right_eq_some.1 h
      cases he
      rw [if_pos hn]
  · cases h

end NodeScript.Pattern
