import Mathlib.Data.List.Forall2
import NodeScript.Proofs.Json.Leaves

/-!
# Reading what is written

Both written forms of a JSON value, with and without line ends, are read back as the value, if it
holds no floating-point numbers and its whole numbers fit into 64 bits.
-/

namespace NodeScript

namespace Json

open Number (EndsNumber Fits)

/-! ## Blanks -/

def isBlank (c : Char) : Bool :=
  c == ' ' || c == '\n' || c == '\t' || c == '\r'

/-- A text of nothing but blanks. -/
def IsBlanks (ws : List Char) : Prop :=
  ∀ c ∈ ws, isBlank c

variable {ws inner outer text rest : List Char} {limit : Nat} {v : Json}

theorem skipBlanks_append (h : IsBlanks ws) (rest : List Char) :
    skipBlanks (ws ++ rest) = skipBlanks rest :=
  List.dropWhile_append_of_pos h

/-- Nothing is skipped before a character that is no blank. -/
theorem skipBlanks_cons {c : Char} (hc : isBlank c = false) (rest : List Char) :
    skipBlanks (c :: rest) = c :: rest :=
  List.dropWhile_cons_of_neg (Bool.eq_false_iff.1 hc)

theorem skipBlanks_append_cons (h : IsBlanks ws) {c : Char} (hc : isBlank c = false)
    (rest : List Char) : skipBlanks (ws ++ c :: rest) = c :: rest :=
  (skipBlanks_append h _).trans (skipBlanks_cons hc rest)

theorem readValue?_blanks (h : IsBlanks ws) (limit : Nat) (rest : List Char) :
    readValue? limit (ws ++ rest) = readValue? limit rest := by
  cases limit with
  | zero => rfl
  | succ limit => rw [readValue?, readValue?, skipBlanks_append h]

theorem readItems?_blanks (h : IsBlanks ws) (limit : Nat) (done : List Json) (rest : List Char) :
    readItems? limit done (ws ++ rest) = readItems? limit done rest := by
  cases limit with
  | zero => rfl
  | succ limit => rw [readItems?, readItems?, readValue?_blanks h]

theorem readFields?_blanks (h : IsBlanks ws) (limit : Nat) (done : List (Option String × Json))
    (rest : List Char) : readFields? limit done (ws ++ rest) = readFields? limit done rest := by
  cases limit with
  | zero => rfl
  | succ limit => rw [readFields?, readFields?, skipBlanks_append h]

/-! ## Texts of values -/

/-- The text is read as the value, whatever follows it that does not go on a number. -/
structure Rereads (v : Json) (text : List Char) : Prop where
  begins : ∃ c cs, text = c :: cs ∧ isBlank c = false ∧ c ≠ ']'
  reads {limit : Nat} {rest : List Char} : 2 * text.length ≤ limit → EndsNumber rest →
    readValue? limit (text ++ rest) = some (v, rest)

/-- A text that begins so is read by its first character. -/
theorem rereads_of_begins {c : Char} {cs : List Char} (hc : isBlank c = false) (hne : c ≠ ']')
    (h : ∀ limit rest, 2 * cs.length ≤ limit → EndsNumber rest →
      readValue? (limit + 1) (c :: (cs ++ rest)) = some (v, rest)) : Rereads v (c :: cs) where
  begins := ⟨c, cs, rfl, hc, hne⟩
  reads := by
    intro limit rest hl hr
    cases limit with
    | zero => simp at hl
    | succ limit =>
        rw [List.length_cons] at hl
        exact h limit rest (by omega) hr

/-- A word is read from its first letter and the rest of it. -/
theorem afterWord?_append (word : String) (rest : List Char) :
    afterWord? word (word.toList ++ rest) = some rest := by
  rw [afterWord?, if_pos (List.isPrefixOf_iff_prefix.2 (List.prefix_append _ _)),
    ← String.length_toList, List.drop_left]

/-- A value that is read by the rest of its word is read from the whole word. -/
theorem rereads_word (c : Char) (word : String) (hc : isBlank c = false) (hne : c ≠ ']')
    (h : ∀ limit rest, readValue? (limit + 1) (c :: rest) = (afterWord? word rest).map (v, ·)) :
    Rereads v (c :: word.toList) :=
  rereads_of_begins hc hne fun limit rest _ _ => by
    rw [h, afterWord?_append, Option.map_some]

theorem rereads_null : Rereads .null "null".toList :=
  rereads_word 'n' "ull" rfl (by decide) fun limit rest => by
    rw [readValue?, skipBlanks_cons rfl]
    rfl

theorem rereads_bool (b : Bool) : Rereads (.bool b) (if b then "true" else "false").toList := by
  cases b with
  | false =>
      exact rereads_word 'f' "alse" rfl (by decide) fun limit rest => by
        rw [readValue?, skipBlanks_cons rfl]
        rfl
  | true =>
      exact rereads_word 't' "rue" rfl (by decide) fun limit rest => by
        rw [readValue?, skipBlanks_cons rfl]
        rfl

theorem rereads_str (s : String) : Rereads (.str s) (quote s).toList := by
  rw [quote, String.toList_ofList]
  refine rereads_of_begins rfl (by decide) fun limit rest _ _ => ?_
  have text := readText?_escaped s.toList rest
  rw [readValue?, skipBlanks_cons rfl]
  simp [List.append_assoc, text, String.ofList_toList]

/-- What begins with a digit or a minus is read as a number. -/
theorem readValue?_number {c : Char} (hc : c.isDigit || c == '-') (hb : isBlank c = false)
    (limit : Nat) (cs : List Char) :
    readValue? (limit + 1) (c :: cs) = Number.read? (c :: cs) := by
  have other {x : Char} {rest : List Char} (hx : (x.isDigit || x == '-') = false)
      (h : c :: cs = x :: rest) : False := by
    obtain ⟨rfl, -⟩ := List.cons.inj h
    rw [hx] at hc
    cases hc
  rw [readValue?, skipBlanks_cons hb]
  split
  iterate 6 · next h => exact (other rfl h).elim
  · rfl

theorem rereads_int {i : Int} (h : Fits i) : Rereads (.int i) (toString i).toList := by
  obtain ⟨c, cs, ht, hc⟩ := exists_toString i
  have solid : isBlank c = false := Bool.eq_false_iff.2 fun hb => by
    simp only [isBlank, Bool.or_eq_true, beq_iff_eq] at hb
    rcases hb with ((rfl | rfl) | rfl) | rfl <;> cases hc
  have unclosed : c ≠ ']' := by
    rintro rfl
    cases hc
  rw [ht]
  refine rereads_of_begins solid unclosed fun limit rest _ hr => ?_
  have number := Number.read?_toString h hr
  rw [ht] at number
  rw [readValue?_number hc solid]
  exact number

/-! ## Parts of lists and records -/

/-- The text is read as a part by a loop that gathers parts up to a closing mark, and then finishes
what was gathered. -/
structure IsPart {β : Type} (loop : Nat → List β → List Char → Option (Json × List Char))
    (finish : List β → Json) (close : Char) (part : β) (text : List Char) : Prop where
  begins : ∃ c cs, text = c :: cs ∧ isBlank c = false ∧ c ≠ close
  next {limit : Nat} (done : List β) (rest : List Char) : 2 * text.length ≤ limit →
    loop (limit + 1) done (text ++ ',' :: rest) = loop limit (part :: done) rest
  last {limit : Nat} (done : List β) {outer : List Char} (rest : List Char) :
    2 * text.length ≤ limit → IsBlanks outer →
      loop (limit + 1) done (text ++ (outer ++ close :: rest)) = some (finish (part :: done), rest)

variable {β : Type} {loop : Nat → List β → List Char → Option (Json × List Char)}
  {finish : List β → Json} {close : Char} {parts : List β} {texts : List (List Char)}

/-- The texts of parts with commas and blanks between them are read part by part. -/
theorem loop_intercalate (hp : List.Forall₂ (IsPart loop finish close) parts texts)
    (hne : parts ≠ [])
    (blanks : ∀ limit done rest, loop limit done (inner ++ rest) = loop limit done rest)
    (ho : IsBlanks outer) {limit : Nat} (done : List β) (rest : List Char)
    (hl : 2 * ((',' :: inner).intercalate texts ++ outer ++ [close]).length ≤ limit) :
    loop limit done ((',' :: inner).intercalate texts ++ (outer ++ close :: rest)) =
      some (finish (parts.reverse ++ done), rest) := by
  -- a round takes one from the limit, and the comma after the part makes up for it
  induction hp generalizing limit done with
  | nil => exact absurd rfl hne
  | @cons part text parts texts h hp ih =>
      cases limit with
      | zero => simp at hl
      | succ limit =>
          cases hp with
          | nil =>
              rw [List.intercalate_singleton] at hl ⊢
              simp only [List.length_append, List.length_cons, List.length_nil] at hl
              rw [h.last done rest (by omega) ho]
              rfl
          | @cons part' text' parts texts h' hp =>
              rw [List.intercalate_cons_cons] at hl ⊢
              simp only [List.length_append, List.length_cons, List.length_nil] at hl
              have fits : 2 * ((',' :: inner).intercalate (text' :: texts) ++ outer ++
                  [close]).length ≤ limit := by
                simp only [List.length_append, List.length_cons, List.length_nil]
                omega
              have more := ih (List.cons_ne_nil _ _) (part :: done) fits
              rw [List.append_assoc, List.append_assoc, List.cons_append, h.next done _ (by omega),
                blanks, more]
              simp

theorem endsNumber_mark {c : Char} (hc : c.isDigit = false ∧ c ≠ '.' ∧ c ≠ 'e' ∧ c ≠ 'E')
    (rest : List Char) : EndsNumber (c :: rest) := by
  rintro _ ⟨⟩
  simpa using hc

theorem endsNumber_blanks (h : IsBlanks ws) {c : Char} (hc : EndsNumber (c :: rest)) :
    EndsNumber (ws ++ c :: rest) := by
  cases ws with
  | nil => exact hc
  | cons x ws =>
      have hx := h x List.mem_cons_self
      refine endsNumber_mark ?_ _
      simp only [isBlank, Bool.or_eq_true, beq_iff_eq] at hx
      rcases hx with ((rfl | rfl) | rfl) | rfl <;> decide

/-- The list of the items before, latest first. -/
def finishItems (done : List Json) : Json :=
  .arr done.reverse

/-- The record of the fields before, latest first. -/
def finishFields (done : List (Option String × Json)) : Json :=
  ofFields done.reverse

theorem isPart_item (h : Rereads v text) : IsPart readItems? finishItems ']' v text where
  begins := h.begins
  next := by
    intro limit done rest hl
    rw [readItems?, h.reads hl (endsNumber_mark (by decide) rest)]
    rfl
  last := by
    intro limit done outer rest hl ho
    have ends := endsNumber_blanks ho (endsNumber_mark (c := ']') (by decide) rest)
    have mark := skipBlanks_append_cons ho (c := ']') rfl rest
    rw [readItems?, h.reads hl ends]
    simp only [mark, finishItems]

theorem isPart_field (h : Rereads v text) (hg : IsBlanks inner) (name : String) :
    IsPart readFields? finishFields '\x7d' (some name, v)
      ((quote name).toList ++ ':' :: (inner ++ text)) := by
  have named (after : List Char) : (quote name).toList ++ ':' :: (inner ++ text) ++ after =
      '"' :: (name.toList.flatMap escape ++ '"' :: ':' :: (inner ++ (text ++ after))) := by
    simp [quote]
  have start (after : List Char) : skipBlanks ('"' :: (name.toList.flatMap escape ++
      '"' :: ':' :: (inner ++ (text ++ after)))) = _ := skipBlanks_cons rfl _
  have colon (after : List Char) : skipBlanks (':' :: (inner ++ (text ++ after))) = _ :=
    skipBlanks_cons rfl _
  have length : 2 * text.length ≤ 2 * ((quote name).toList ++ ':' :: (inner ++ text)).length := by
    simp only [List.length_append, List.length_cons]
    omega
  refine ⟨⟨'"', _, (List.append_nil _).symm.trans (named []), rfl, by decide⟩, ?_, ?_⟩
  · intro limit done rest hl
    have value := h.reads (Nat.le_trans length hl) (endsNumber_mark (c := ',') (by decide) rest)
    have mark : skipBlanks (',' :: rest) = _ := skipBlanks_cons rfl _
    rw [named, readFields?, start]
    simp only [readText?_escaped, colon, readValue?_blanks hg, value, mark, Option.map_some,
      String.ofList_toList]
  · intro limit done outer rest hl ho
    have ends := endsNumber_blanks ho (endsNumber_mark (c := '\x7d') (by decide) rest)
    have value := h.reads (Nat.le_trans length hl) ends
    have mark := skipBlanks_append_cons ho (c := '\x7d') rfl rest
    rw [named, readFields?, start]
    simp only [readText?_escaped, colon, readValue?_blanks hg, value, mark, Option.map_some,
      String.ofList_toList, finishFields]

/-! ## Lists and records -/

/-- Texts between two marks, with commas between them and blanks around them. -/
def enclosed (opening closing : Char) (inner outer : List Char) (texts : List (List Char)) :
    List Char :=
  opening :: (inner ++ ((',' :: inner).intercalate texts ++ (outer ++ [closing])))

/-- The texts of parts begin as the first of them does. -/
theorem exists_intercalate (hp : List.Forall₂ (IsPart loop finish close) parts texts)
    (hne : parts ≠ []) (sep : List Char) :
    ∃ c cs, sep.intercalate texts = c :: cs ∧ isBlank c = false ∧ c ≠ close := by
  cases hp with
  | nil => exact absurd rfl hne
  | cons h hp =>
      obtain ⟨c, cs, rfl, hc, hclose⟩ := h.begins
      cases hp with
      | nil => exact ⟨c, cs, List.intercalate_singleton, hc, hclose⟩
      | cons h' hp => exact ⟨c, _, List.intercalate_cons_cons, hc, hclose⟩

/-- The texts of parts are read from between the marks that start and end a loop. -/
theorem rereads_enclosed (opening : Char)
    (hp : List.Forall₂ (IsPart loop finish close) parts texts) (hne : parts ≠ [])
    (blanks : ∀ limit done rest, loop limit done (inner ++ rest) = loop limit done rest)
    (ho : IsBlanks outer) (hb : isBlank opening = false) (hopen : opening ≠ ']')
    (start : ∀ limit c cs, isBlank c = false → c ≠ close →
      readValue? (limit + 1) (opening :: (inner ++ c :: cs)) = loop limit [] (c :: cs)) :
    Rereads (finish parts.reverse) (enclosed opening close inner outer texts) := by
  refine rereads_of_begins hb hopen fun limit rest hl _ => ?_
  obtain ⟨c, cs, ht, hc, hclose⟩ := exists_intercalate hp hne (',' :: inner)
  have fits : 2 * ((',' :: inner).intercalate texts ++ outer ++ [close]).length ≤ limit := by
    simp only [List.length_append] at hl ⊢
    omega
  have run := loop_intercalate hp hne blanks ho [] rest fits
  rw [ht, List.cons_append, List.append_nil] at run
  rw [ht, List.append_assoc, List.cons_append, List.cons_append, start limit c _ hc hclose]
  simpa [List.append_assoc] using run

theorem rereads_arr {vs : List Json} (hi : IsBlanks inner)
    (ho : IsBlanks outer) (h : List.Forall₂ Rereads vs texts) (hne : vs ≠ []) :
    Rereads (.arr vs) (enclosed '[' ']' inner outer texts) := by
  have parts := h.imp fun _ _ h => isPart_item h
  have all := rereads_enclosed '[' parts hne (readItems?_blanks hi) ho rfl (by decide)
    fun limit c cs hc hclose => by
      have first := skipBlanks_append_cons hi hc cs
      rw [readValue?, skipBlanks_cons rfl]
      simp only [first]
      split
      · next h => exact absurd (List.cons.inj h).1 hclose
      · rfl
  rwa [finishItems, List.reverse_reverse] at all

theorem mapM_named (fields : List (String × Json)) :
    (fields.map fun field => (some field.1, field.2)).mapM (fun (name, v) => name.map (·, v)) =
      some fields := by
  induction fields with
  | nil => rfl
  | cons field fields ih =>
      rw [List.map_cons, List.mapM_cons, ih]
      rfl

theorem ofFields_named (fields : List (String × Json)) :
    ofFields (fields.map fun field => (some field.1, field.2)) = .obj fields := by
  rw [ofFields, mapM_named]

/-- The text of a field: its name, a colon and its value. -/
def RereadsField (field : String × Json) (text : List Char) : Prop :=
  ∃ gap value, IsBlanks gap ∧ Rereads field.2 value ∧
    text = (quote field.1).toList ++ ':' :: (gap ++ value)

theorem rereads_obj {fields : List (String × Json)}
    (hi : IsBlanks inner) (ho : IsBlanks outer) (h : List.Forall₂ RereadsField fields texts)
    (hne : fields ≠ []) : Rereads (.obj fields) (enclosed '\x7b' '\x7d' inner outer texts) := by
  have parts : List.Forall₂ (IsPart readFields? finishFields '\x7d')
      (fields.map fun field => (some field.1, field.2)) texts := by
    refine List.forall₂_map_left_iff.2 (h.imp fun field text h => ?_)
    obtain ⟨gap, value, hg, hv, rfl⟩ := h
    exact isPart_field hv hg field.1
  have all := rereads_enclosed '\x7b' parts (by simpa using hne) (readFields?_blanks hi) ho rfl
    (by decide) fun limit c cs hc hclose => by
      have first := skipBlanks_append_cons hi hc cs
      rw [readValue?, skipBlanks_cons rfl]
      simp only [first]
      split
      · next h => exact absurd (List.cons.inj h).1 hclose
      · rfl
  rwa [finishFields, List.reverse_reverse, ofFields_named] at all

theorem rereads_arr_nil : Rereads (.arr []) ['[', ']'] :=
  rereads_of_begins rfl (by decide) fun limit rest _ _ => by
    have close : skipBlanks (']' :: rest) = _ := skipBlanks_cons rfl _
    rw [readValue?, skipBlanks_cons rfl]
    simp [close]

theorem rereads_obj_nil : Rereads (.obj []) ['\x7b', '\x7d'] :=
  rereads_of_begins rfl (by decide) fun limit rest _ _ => by
    have close : skipBlanks ('\x7d' :: rest) = _ := skipBlanks_cons rfl _
    rw [readValue?, skipBlanks_cons rfl]
    simp [close]

/-! ## Written forms -/

mutual

/-- Whether all numbers in the value are whole and fit into 64 bits. -/
def isPlain : Json → Bool
  | .null => true
  | .bool _ => true
  | .int i => decide (Fits i)
  | .float _ => false
  | .str _ => true
  | .arr items => arePlain items
  | .obj fields => arePlainFields fields
  | .void => false

def arePlain : List Json → Bool
  | [] => true
  | v :: rest => v.isPlain && arePlain rest

def arePlainFields : List (String × Json) → Bool
  | [] => true
  | (_, v) :: rest => v.isPlain && arePlainFields rest

end

theorem toList_compact_arr (items : List Json) : (Json.arr items).compact.toList =
    enclosed '[' ']' [] [] ((compactItems items).map String.toList) := by
  simp [compact, enclosed, String.toList_intercalate]

theorem toList_compact_obj (fields : List (String × Json)) : (Json.obj fields).compact.toList =
    enclosed '\x7b' '\x7d' [] [] ((compactFields fields).map String.toList) := by
  simp [compact, enclosed, String.toList_intercalate]

theorem isBlanks_nil : IsBlanks [] := List.forall_mem_nil _

mutual

/-- The written form without blanks is read back. -/
theorem rereads_compact : ∀ {v : Json}, v.isPlain → Rereads v v.compact.toList
  | .null, _ => rereads_null
  | .bool b, _ => rereads_bool b
  | .int i, h => rereads_int (of_decide_eq_true h)
  | .str s, _ => rereads_str s
  | .arr [], _ => rereads_arr_nil
  | .arr (v :: items), h => by
      rw [toList_compact_arr]
      exact rereads_arr isBlanks_nil isBlanks_nil (rereads_compactItems h) (List.cons_ne_nil _ _)
  | .obj [], _ => rereads_obj_nil
  | .obj (field :: fields), h => by
      rw [toList_compact_obj]
      exact rereads_obj isBlanks_nil isBlanks_nil (rereads_compactFields h) (List.cons_ne_nil _ _)

theorem rereads_compactItems : ∀ {vs : List Json}, arePlain vs →
    List.Forall₂ Rereads vs ((compactItems vs).map String.toList)
  | [], _ => .nil
  | v :: vs, h => by
      obtain ⟨hv, hvs⟩ := Bool.and_eq_true_iff.1 h
      exact .cons (rereads_compact hv) (rereads_compactItems hvs)

theorem rereads_compactFields : ∀ {fields : List (String × Json)}, arePlainFields fields →
    List.Forall₂ RereadsField fields ((compactFields fields).map String.toList)
  | [], _ => .nil
  | (name, v) :: fields, h => by
      obtain ⟨hv, hvs⟩ := Bool.and_eq_true_iff.1 h
      refine .cons ⟨[], v.compact.toList, isBlanks_nil, rereads_compact hv, ?_⟩
        (rereads_compactFields hvs)
      simp

end

theorem block_nil (indent opening closing : String) :
    block indent opening closing [] = opening ++ closing := rfl

theorem toList_block {opening closing : String} {first last : Char} (ho : opening.toList = [first])
    (hc : closing.toList = [last]) (indent : String) {parts : List String} (hne : parts ≠ []) :
    (block indent opening closing parts).toList =
      enclosed first last ('\n' :: (indent.toList ++ [' ', ' '])) ('\n' :: indent.toList)
        (parts.map String.toList) := by
  have full : parts.isEmpty = false := by simpa using hne
  simp [block, full, enclosed, String.toList_intercalate, ho, hc]

theorem isBlanks_line {indent : List Char} (h : IsBlanks indent) : IsBlanks ('\n' :: indent) :=
  List.forall_mem_cons.2 ⟨rfl, h⟩

theorem isBlanks_deeper {indent : List Char} (h : IsBlanks indent) :
    IsBlanks (indent ++ [' ', ' ']) :=
  List.forall_mem_append.2 ⟨h, List.all_eq_true.1 rfl⟩

mutual

/-- The written form with line ends is read back. -/
theorem rereads_prettyAt : ∀ {v : Json} {indent : String}, IsBlanks indent.toList → v.isPlain →
    Rereads v (v.prettyAt indent).toList
  | .null, _, _, _ => rereads_null
  | .bool b, _, _, _ => rereads_bool b
  | .int i, _, _, h => rereads_int (of_decide_eq_true h)
  | .str s, _, _, _ => rereads_str s
  | .arr [], _, _, _ => by
      rw [prettyAt, prettyItems, block_nil]
      exact rereads_arr_nil
  | .arr (v :: items), indent, hi, h => by
      have first : "[".toList = ['['] := rfl
      rw [prettyAt, toList_block first rfl indent (by simp [prettyItems])]
      exact rereads_arr (isBlanks_line (isBlanks_deeper hi)) (isBlanks_line hi)
        (rereads_prettyItems (by simpa using isBlanks_deeper hi) h) (List.cons_ne_nil _ _)
  | .obj [], _, _, _ => by
      rw [prettyAt, prettyFields, block_nil]
      exact rereads_obj_nil
  | .obj (field :: fields), indent, hi, h => by
      have first : "\x7b".toList = ['\x7b'] := rfl
      rw [prettyAt, toList_block first rfl indent (by simp [prettyFields])]
      exact rereads_obj (isBlanks_line (isBlanks_deeper hi)) (isBlanks_line hi)
        (rereads_prettyFields (by simpa using isBlanks_deeper hi) h) (List.cons_ne_nil _ _)

theorem rereads_prettyItems : ∀ {vs : List Json} {indent : String}, IsBlanks indent.toList →
    arePlain vs → List.Forall₂ Rereads vs ((prettyItems indent vs).map String.toList)
  | [], _, _, _ => .nil
  | v :: vs, _, hi, h => by
      obtain ⟨hv, hvs⟩ := Bool.and_eq_true_iff.1 h
      exact .cons (rereads_prettyAt hi hv) (rereads_prettyItems hi hvs)

theorem rereads_prettyFields : ∀ {fields : List (String × Json)} {indent : String},
    IsBlanks indent.toList → arePlainFields fields →
      List.Forall₂ RereadsField fields ((prettyFields indent fields).map String.toList)
  | [], _, _, _ => .nil
  | (name, v) :: fields, indent, hi, h => by
      obtain ⟨hv, hvs⟩ := Bool.and_eq_true_iff.1 h
      refine .cons ⟨[' '], (v.prettyAt indent).toList, List.all_eq_true.1 rfl,
        rereads_prettyAt hi hv, ?_⟩ (rereads_prettyFields hi hvs)
      simp

end

/-- A text that reads as a value alone stands for it. -/
theorem Rereads.read? {s : String} (h : Rereads v s.toList) : read? s = some v := by
  have ends : EndsNumber [] := by simp [EndsNumber]
  have value : readValue? (2 * s.length + 2) (s.toList ++ []) = some (v, []) :=
    h.reads (by rw [String.length_toList]; omega) ends
  rw [List.append_nil] at value
  rw [Json.read?, value]
  rfl

theorem read?_compact {v : Json} (h : v.isPlain) : read? v.compact = some v :=
  (rereads_compact h).read?

theorem read?_pretty {v : Json} (h : v.isPlain) : read? v.pretty = some v :=
  (rereads_prettyAt (by simp [IsBlanks]) h).read?

end Json

end NodeScript
