import NodeScript.Proofs.Script.Writing
import NodeScript.Proofs.Token.Gaps

/-!
# Tokens stand alone

A token that a grammar sees is cut off wherever it is written again before a blank or a closing
mark, and an opening mark before anything. So the text of a block, which has such tokens only, is
cut into the tokens that it was made of.
-/

namespace NodeScript

namespace TokenTable

open Pattern TokenRow

variable {row : TokenRow} {x : Char} {text tail after rest : List Char}

/-- Rows of more than a mark do not read what a token stops at, unless they are of blanks, comments
or strings. -/
theorem reads_stop : ∀ row ∈ script.rows,
    row.name ∉ ["WHITESPACE", "COMMENT", "STRING", "CLOSE_BRACE", "CLOSE_BRACKET"] →
      [' ', '\n', '\x7d', ']'].any row.scanner.pattern.reads = false := by
  decide

set_option maxRecDepth 4000 in
theorem name_of_begins (hx : x.toNat < 128) (hp : BeginsPlain x) (hc : x ∉ ['\x7d', ']']) :
    ∀ row ∈ script.rows, row.begins x →
      row.name ∉ ["WHITESPACE", "COMMENT", "STRING", "CLOSE_BRACE", "CLOSE_BRACKET"] := by
  refine forall_ascii (P := fun x => BeginsPlain x ∧ x ∉ ['\x7d', ']'] →
    ∀ row ∈ script.rows, row.begins x →
      row.name ∉ ["WHITESPACE", "COMMENT", "STRING", "CLOSE_BRACE", "CLOSE_BRACKET"]) ?_ hx ⟨hp, hc⟩
  decide

theorem scan?_stopped (hx : x.toNat < 128) (hp : BeginsPlain x) (hc : x ∉ ['\x7d', ']'])
    (hrow : row ∈ script.rows) (hr : Stops rest) :
    row.scan? (x :: tail ++ rest) = row.scan? (x :: tail) :=
  scan?_before hrow hr.wordAfter fun hb => by
    have stop := reads_stop row hrow (name_of_begins hx hp hc row hrow hb)
    exact ⟨(isLocal_of_begins hx hp hrow hb).1, fun y hy =>
      Bool.of_not_eq_true (List.any_eq_false.1 stop y (hr y hy))⟩

/-- The row that has taken something is the only one that can begin so. -/
theorem eq_of_filter {row' : TokenRow} (hf : script.rows.filter (·.begins x) = [row'])
    (h : script.firstScan? (x :: tail) = some (row, text)) : row = row' := by
  obtain ⟨hrow, hs⟩ := firstScan?_eq_some h
  have hb : row.begins x := Bool.of_not_eq_false fun hb => by
    rw [scan?_eq_none hrow hb] at hs
    cases hs
  have only : row ∈ script.rows.filter (·.begins x) := List.mem_filter.2 ⟨hrow, hb⟩
  rw [hf] at only
  exact List.mem_singleton.1 only

/-- A token that a grammar sees is a string or begins with a character of its own. -/
theorem beginsPlain_of_firstScan? (h : script.firstScan? (x :: tail) = some (row, text))
    (htag : row.tag ≠ some Token.ignorableTag) (hq : x ≠ '"') : BeginsPlain x := by
  refine ⟨fun hblank => htag ?_, fun hc => htag ?_, hq⟩
  · obtain ⟨ws, hws, -⟩ := exists_firstScan?_blank hblank tail
    obtain ⟨rfl, -⟩ := Prod.mk.inj (Option.some.inj (h.symm.trans hws))
    rfl
  · subst hc
    obtain rfl : row = comment := eq_of_filter (by rfl) h
    rfl

/-- A mark is taken alone. -/
theorem firstScan?_closing {name pattern : String} {c : Char}
    (hc : script.rows.filter (·.begins c) = [TokenRow.mark name pattern c])
    (h : script.firstScan? (c :: tail) = some (row, c :: tail)) (rest : List Char) :
    script.firstScan? (c :: tail ++ rest) = some (row, c :: tail) := by
  obtain ⟨rfl, he⟩ := Prod.mk.inj (Option.some.inj ((firstScan?_mark hc tail).symm.trans h))
  obtain rfl : tail = [] := (List.cons.inj he).2.symm
  exact firstScan?_mark hc rest

/-- A token that a grammar sees is the same before a blank or a closing mark, whatever it was
followed by. -/
theorem firstScan?_stopped (h : script.firstScan? (text ++ after) = some (row, text))
    (htag : row.tag ≠ some Token.ignorableTag)
    (ha : after ≠ [] → (script.firstScan? after).isSome) (hr : Stops rest) :
    script.firstScan? (text ++ rest) = some (row, text) := by
  have alone : script.firstScan? (text ++ []) = some (row, text) :=
    firstScan?_separated h htag ha (by simp [Separates])
  rw [List.append_nil] at alone
  obtain ⟨hne, -⟩ := append_of_firstScan? alone
  obtain ⟨-, hs⟩ := firstScan?_eq_some alone
  obtain ⟨x, tail, rfl⟩ := List.exists_cons_of_ne_nil hne
  by_cases hq : x = '"'
  · subst hq
    obtain rfl : row = string := eq_of_filter (by rfl) alone
    obtain ⟨pieces, hp, ht⟩ := pieces_of_scan? hs
    rw [ht]
    exact firstScan?_pieces hp rest
  by_cases hc : x ∈ ['\x7d', ']']
  · simp only [List.mem_cons, List.not_mem_nil, or_false] at hc
    rcases hc with rfl | rfl
    · exact firstScan?_closing filter_closeBrace alone rest
    · exact firstScan?_closing filter_closeBracket alone rest
  · have hp := beginsPlain_of_firstScan? alone htag hq
    have hx : x.toNat < 128 := hp.toNat_lt (Option.isSome_of_eq_some alone)
    rw [← alone]
    exact firstScan?_congr fun r hrow => scan?_stopped hx hp hc hrow hr

/-! ## Tokens in their place -/

/-- The token of this name and text is cut off before a blank or a closing mark, and before anything
when it is an opening mark. -/
def Stands (k : String × String) : Prop :=
  ∀ rest, Stops rest ∨ k.2 = "\x7b" ∨ k.2 = "[" →
    script.kinds? (k.2.toList ++ rest) = (script.kinds? rest).map (k :: ·)

/-- All tokens of a text stand. -/
theorem stands_of_kinds? {ks : List (String × String)} (h : script.kinds? text = some ks) :
    ∀ k ∈ ks, Stands k := by
  intro k hk rest hr
  obtain ⟨row, after, hs, htag, kind, more⟩ := firstScan?_of_kinds? h k hk
  have first : script.firstScan? (k.2.toList ++ rest) = some (row, k.2.toList) := by
    rcases hr with hr | ho | ho
    · exact firstScan?_stopped hs htag more hr
    · have opening := firstScan?_mark filter_openBrace
      rw [ho] at hs ⊢
      obtain ⟨rfl, -⟩ := Prod.mk.inj (Option.some.inj ((opening after).symm.trans hs))
      exact opening rest
    · have opening := firstScan?_mark filter_openBracket
      rw [ho] at hs ⊢
      obtain ⟨rfl, -⟩ := Prod.mk.inj (Option.some.inj ((opening after).symm.trans hs))
      exact opening rest
  rw [kinds?_append (append_of_firstScan? hs).1 first, kind]
  rfl

/-! ## Blocks -/

open Builder (joinBlock isTight)

theorem exists_joinBlock_cons (text : String) (texts : List String) :
    ∃ more, joinBlock (text :: texts) = text ++ more := by
  cases texts with
  | nil => exact ⟨"", by simp [joinBlock]⟩
  | cons next texts => exact ⟨_, String.append_assoc⟩

/-- Where a block has no space, the texts on either side are marks that need none. -/
theorem stops_of_isTight {before after : String} (h : isTight before after) (texts : List String)
    (rest : List Char) : Stops ((joinBlock (after :: texts)).toList ++ rest) ∨ before = "\x7b" ∨
      before = "[" := by
  obtain ⟨more, hm⟩ := exists_joinBlock_cons after texts
  rw [hm, String.toList_append, List.append_assoc]
  simp only [isTight, Bool.or_eq_true, beq_iff_eq] at h
  rcases h with ((h | h) | rfl) | rfl
  · exact .inr (.inl h)
  · exact .inr (.inr h)
  · exact .inl (stops_cons (by decide) _)
  · exact .inl (stops_cons (by decide) _)

/-- The text of a block is cut into the tokens that it was made of. -/
theorem spells_joinBlock {ks : List (String × String)} (h : ∀ k ∈ ks, Stands k) :
    Spells (joinBlock (ks.map Prod.snd)).toList (some ks) := by
  intro rest hr
  induction ks with
  | nil => simp [joinBlock]
  | cons k ks ih =>
      obtain ⟨hk, hks⟩ := List.forall_mem_cons.1 h
      cases ks with
      | nil => simpa [joinBlock] using hk rest (.inl hr)
      | cons k' ks =>
          have more := ih hks
          simp only [List.map_cons, Option.bind_some] at more ⊢
          rw [joinBlock, String.toList_append, String.toList_append, List.append_assoc,
            List.append_assoc]
          by_cases ht : isTight k.2 k'.2
          · rw [if_pos ht, String.toList_empty, List.nil_append,
              hk _ (stops_of_isTight ht (ks.map Prod.snd) rest), more, Option.map_map]
            rfl
          · have blank := kinds?_blank (x := ' ') (by decide)
              ((joinBlock (k'.2 :: ks.map Prod.snd)).toList ++ rest)
            have space : (" " : String).toList = [' '] := rfl
            rw [if_neg ht, space, List.singleton_append, hk _ (.inl (stops_cons (by decide) _)),
              blank, more, Option.map_map]
            rfl

end TokenTable

end NodeScript
