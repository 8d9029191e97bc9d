import NodeScript.Proofs.Token.Chain
import NodeScript.Proofs.Token.Literals

/-!
# Spelling tokens

What a piece of a script adds to the kinds of its tokens, when something follows that ends a token.
Pieces are put together from blanks, marks and texts that stand alone.
-/

namespace NodeScript.TokenTable

open Pattern TokenRow

/-- The piece adds tokens of these kinds to whatever follows it, or cannot be cut into tokens. -/
def Spells (text : List Char) (ks : Option (List (String × String))) : Prop :=
  ∀ rest, Stops rest →
    script.kinds? (text ++ rest) = ks.bind fun ks => (script.kinds? rest).map (ks ++ ·)

theorem stops_nil : Stops [] := by
  simp [Stops]

theorem stops_cons {x : Char} (h : x ∈ [' ', '\n', '\x7d', ']']) (rest : List Char) :
    Stops (x :: rest) := by
  simpa [Stops] using h

theorem Stops.append {text rest : List Char} (h : Stops text) (hr : Stops rest) :
    Stops (text ++ rest) := by
  cases text with
  | nil => exact hr
  | cons x text => exact stops_cons (h x rfl) _

variable {text text' : List Char} {ks ks' : Option (List (String × String))}

theorem Spells.kinds? (h : Spells text ks) : script.kinds? text = ks := by
  have := h [] stops_nil
  rw [List.append_nil] at this
  rw [this]
  cases ks <;> simp [kinds?_nil]

theorem spells_nil : Spells [] (some []) := by
  intro rest _
  simp

theorem Spells.append (h : Spells text ks) (hs : Stops text') (h' : Spells text' ks') :
    Spells (text ++ text') (ks.bind fun ks => ks'.map (ks ++ ·)) := by
  intro rest hr
  rw [List.append_assoc, h _ (hs.append hr), h' _ hr]
  cases ks <;> cases ks' <;> cases script.kinds? rest <;> simp

theorem Spells.blank {x : Char} (hx : Text.isBlank x) (h : Spells text ks) :
    Spells (x :: text) ks := by
  intro rest hr
  rw [List.cons_append, kinds?_blank hx, h rest hr]

theorem Spells.mark {name pattern : String} {c : Char}
    (hc : script.rows.filter (·.begins c) = [TokenRow.mark name pattern c]) (h : Spells text ks) :
    Spells (c :: text) (ks.map ((name, c.toString) :: ·)) := by
  intro rest hr
  have hk : script.kinds? ([c] ++ (text ++ rest)) = _ :=
    kinds?_append (List.cons_ne_nil _ _) (firstScan?_mark hc _)
  rw [kindOf_of_tag (show _ = some "RESERVED" from rfl) (by decide), h rest hr] at hk
  rw [List.cons_append, ← List.singleton_append, hk]
  cases ks <;> cases script.kinds? rest <;> simp
  rfl

theorem spells_of_firstScan? (row : TokenRow) {tag : String} (hne : text ≠ [])
    (ht : row.tag = some tag) (hi : tag ≠ Token.ignorableTag)
    (h : ∀ rest, Stops rest → script.firstScan? (text ++ rest) = some (row, text)) :
    Spells text (some [(row.name, String.ofList text)]) := by
  intro rest hr
  rw [kinds?_append hne (h rest hr), kindOf_of_tag ht hi]
  rfl

/-- The name of the row that takes a text that stands alone. -/
def rowName (text : List Char) : String :=
  ((script.firstScan? text).map (·.1.name)).getD ""

theorem StandsAlone.ne_nil (h : StandsAlone text) : text ≠ [] := by
  obtain ⟨row, -, -, -, h⟩ := h
  exact (append_of_firstScan? (h [] stops_nil)).1

theorem StandsAlone.spells (h : StandsAlone text) :
    Spells text (some [(rowName text, String.ofList text)]) := by
  have hne := h.ne_nil
  obtain ⟨row, tag, ht, hi, h⟩ := h
  have hn : rowName text = row.name := by
    have := h [] stops_nil
    rw [List.append_nil] at this
    simp [rowName, this]
  rw [hn]
  exact spells_of_firstScan? row hne ht hi h

/-! ## Rows that accept what they take -/

theorem accepts_of_scan? {name pattern tag : String} {parts : List Pattern}
    (h : (ofParts name pattern tag parts).scan? text = some text) :
    (ofParts name pattern tag parts).accepts (String.ofList text) := by
  obtain ⟨-, after, ht, hm⟩ := head?_of_scan? h
  obtain rfl : after = [] := by simpa using ht.symm
  exact (accepts_iff _).2 ⟨_, by simpa using List.mem_of_mem_head? hm, rfl⟩

theorem accepts_of_firstScan? {row : TokenRow} (h : script.firstScan? text = some (row, text)) :
    row.accepts (String.ofList text) := by
  obtain ⟨hr, hs⟩ := firstScan?_eq_some h
  obtain ⟨name, pattern, tag, parts, rfl⟩ := script_rows hr
  exact accepts_of_scan? hs

/-- What a row accepts begins as what it takes. -/
theorem begins_of_accepts {name pattern tag : String} {parts : List Pattern} {text : String}
    (hn : (ofParts name pattern tag parts).scanner.pattern.nullable = false)
    (h : (ofParts name pattern tag parts).accepts text) :
    ∃ x rest, text.toList = x :: rest ∧ (ofParts name pattern tag parts).begins x := by
  obtain ⟨c, hc, -⟩ := (accepts_iff _).1 h
  rw [← ends_concat_textStart] at hc
  rcases begins_of_mem_ends _ hc with ⟨h, _⟩ | ⟨x, text', rest, ht, hx, _⟩
  · exact absurd (hn.symm.trans h) (by simp)
  · exact ⟨x, _, ht, hx⟩

/-! ## Tokens of a text -/

/-- Where a token of a text comes from. -/
theorem firstScan?_of_mem {position : Nat} {rest : List Char} {ts : List Token}
    (h : script.tokenizeFrom 0 position rest = .ok ts) {t : Token} (ht : t ∈ ts) :
    ∃ row after, script.firstScan? (t.text.toList ++ after) = some (row, t.text.toList) ∧
      t.name = row.name ∧ (after ≠ [] → (script.firstScan? after).isSome) := by
  obtain ⟨links, stop, chain, rfl⟩ := exists_chain_of_tokenizeFrom script_isTied h
  obtain ⟨l, hl, hlt⟩ := List.mem_filterMap.1 ht
  obtain ⟨tag, -, rfl⟩ := Option.map_eq_some_iff.1 hlt
  obtain ⟨after, first, more⟩ := chain.isFirst_of_mem l hl
  exact ⟨l.row, after, by simpa using firstScan?_eq_some_iff.2 first, rfl, more⟩

theorem standsAlone_of_mem {position : Nat} {rest : List Char} {ts : List Token}
    (h : script.tokenizeFrom 0 position rest = .ok ts) {t : Token} (ht : t ∈ ts)
    (hw : word.accepts t.text) : StandsAlone t.text.toList := by
  obtain ⟨row, after, hs, -, ha⟩ := firstScan?_of_mem h ht
  exact standsAlone_of_firstScan? hs (by simpa using hw) ha

/-- Of a text that a row accepts, a row has taken that can begin with the same character. -/
theorem name_mem_of_accepts (names : List String) {name pattern tag : String} {parts : List Pattern}
    (hn : (ofParts name pattern tag parts).scanner.pattern.nullable = false)
    (ascii : (ofParts name pattern tag parts).scanner.pattern.beginSets.all CharSet.isAscii)
    (hb : ∀ n < 128, (ofParts name pattern tag parts).begins (Char.ofNat n) →
      ∀ row ∈ script.rows, row.begins (Char.ofNat n) → row.name ∈ names)
    {row : TokenRow} {text after : List Char}
    (hs : script.firstScan? (text ++ after) = some (row, text))
    (ht : (ofParts name pattern tag parts).accepts (String.ofList text)) : row.name ∈ names := by
  obtain ⟨hr, hs⟩ := firstScan?_eq_some hs
  obtain ⟨x, more, hx, hbegins⟩ := begins_of_accepts hn ht
  rw [String.toList_ofList] at hx
  have hl : x.toNat < 128 := by
    obtain ⟨set, hset, ha⟩ := List.any_eq_true.1 hbegins
    exact CharSet.toNat_lt_of_isAscii (List.all_eq_true.1 ascii set hset) ha
  have hrow : row.begins x := by
    refine Bool.of_not_eq_false fun hb => ?_
    rw [hx, List.cons_append, scan?_eq_none hr hb] at hs
    cases hs
  exact forall_ascii (P := fun x => (ofParts name pattern tag parts).begins x →
    ∀ row ∈ script.rows, row.begins x → row.name ∈ names) hb hl hbegins row hr hrow

/-- The text of a number is taken by a row of numbers. -/
theorem name_of_accepts_number {row : TokenRow} {text after : List Char}
    (hs : script.firstScan? (text ++ after) = some (row, text))
    (hn : float.accepts (String.ofList text) ∨ int.accepts (String.ofList text)) :
    row.name ∈ ["FLOAT", "INT"] := by
  rcases hn with hn | hn
  · exact name_mem_of_accepts _ (by decide) (by decide) (by decide) hs hn
  · exact name_mem_of_accepts _ (by decide) (by decide) (by decide) hs hn

/-- The token of a number is of a row of numbers. -/
theorem name_of_mem {position : Nat} {rest : List Char} {ts : List Token}
    (h : script.tokenizeFrom 0 position rest = .ok ts) {t : Token} (ht : t ∈ ts)
    (hn : float.accepts t.text ∨ int.accepts t.text) : t.name = "FLOAT" ∨ t.name = "INT" := by
  obtain ⟨row, after, hs, hname, -⟩ := firstScan?_of_mem h ht
  have hm := name_of_accepts_number hs (by rwa [String.ofList_toList])
  rw [hname]
  simpa using hm

end NodeScript.TokenTable
