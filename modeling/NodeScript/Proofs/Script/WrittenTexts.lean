import NodeScript.Proofs.Script.Scalars
import NodeScript.Proofs.Token.Gaps

/-!
# Texts that are written

A text as a scalar is written between quotes or as a bare word. What is between quotes is cut off
whatever follows it, and a bare word before white space and braces; the token that is cut off stands
for the text that was written.
-/

namespace NodeScript

namespace TokenTable

open Pattern TokenRow

variable {row : TokenRow} {x : Char} {tail text rest : List Char}

/-- The rest is empty or begins with white space or a brace. -/
def EndsWord (rest : List Char) : Prop :=
  ∀ y ∈ rest.head?, Text.isBlank y ∨ y ∈ ['\x7b', '\x7d']

theorem EndsWord.wordAfter (h : EndsWord rest) : rest.head?.any Text.isWordChar = false := by
  cases hr : rest.head? with
  | none => rfl
  | some y =>
      rcases h y hr with hy | hy
      · exact Text.isWordChar_of_isBlank hy
      · simp only [List.mem_cons, List.not_mem_nil, or_false] at hy
        rcases hy with rfl | rfl <;> decide

/-- What begins as a word does is taken by rows that read neither white space nor braces. -/
theorem isLocal_of_wordHead (hx : CharSet.wordHead.accepts x) (hrow : row ∈ script.rows)
    (hb : row.begins x) : row.scanner.pattern.isLocal true ∧ row.scanner.pattern.readsAscii ∧
      ∀ n < 128, Text.isBlank (Char.ofNat n) ∨ Char.ofNat n ∈ ['\x7b', '\x7d'] →
        row.scanner.pattern.reads (Char.ofNat n) = false := by
  let names := ["TCL_SET", "TCL_PUSH", "FRAME", "WORD"]
  have named : row.name ∈ names := by
    refine forall_ascii (P := fun x => CharSet.wordHead.accepts x →
      ∀ row ∈ script.rows, row.begins x → row.name ∈ names) ?_
        (CharSet.toNat_lt_of_isAscii (by decide) hx) hx row hrow hb
    decide
  have words : ∀ row ∈ script.rows, row.name ∈ names → row.scanner.pattern.isLocal true ∧
      row.scanner.pattern.readsAscii ∧
        ∀ n < 128, Text.isBlank (Char.ofNat n) ∨ Char.ofNat n ∈ ['\x7b', '\x7d'] →
          row.scanner.pattern.reads (Char.ofNat n) = false := by
    decide
  exact words row hrow named

/-- What begins as a word is cut alike with and without what a word ends before. -/
theorem firstScan?_endsWord (hx : CharSet.wordHead.accepts x) (hr : EndsWord rest) :
    script.firstScan? (x :: tail ++ rest) = script.firstScan? (x :: tail) :=
  firstScan?_congr fun row hrow => scan?_before hrow hr.wordAfter fun hb => by
    obtain ⟨hl, ascii, unread⟩ := isLocal_of_wordHead hx hrow hb
    exact ⟨hl, fun y hy => reads_eq_false
      (P := fun y => Text.isBlank y ∨ y ∈ ['\x7b', '\x7d']) ascii unread (hr y hy)⟩

/-- A bare word is a token before white space and braces, by the same row as alone. -/
theorem exists_firstScan?_bare {s : String} (hs : Scalar.isBare s) (hr : EndsWord rest) :
    ∃ row tag, script.firstScan? (s.toList ++ rest) = some (row, s.toList) ∧
      row.tag = some tag ∧ row.name = rowName s.toList := by
  have hi := Scalar.isIdentifier_of_isBare hs
  obtain ⟨row, tag, htag, -, stands⟩ := hi.isName.standsAlone
  have alone := stands [] stops_nil
  rw [List.append_nil] at alone
  have named : row.name = rowName s.toList := by rw [rowName, alone]; rfl
  obtain ⟨x, tail, hw, hx, -⟩ := hi
  have same : script.firstScan? (x :: tail ++ rest) = script.firstScan? (x :: tail) :=
    firstScan?_endsWord (by rwa [accepts_wordHead]) hr
  rw [← hw, alone] at same
  exact ⟨row, tag, same, htag, named⟩

/-- The token of a bare word is cast to the word. -/
theorem cast_bare {s : String} (hs : Scalar.isBare s) {token : Token}
    (hn : token.name = rowName s.toList) (ht : token.text = s) : token.cast = .ok (.text s) := by
  have hk : (Scalar.text s).kind? = some token.kind := by
    simp [Scalar.kind?, Scalar.rowName?, Scalar.render, hs, Token.kind, hn, ht]
  obtain ⟨v, hv, hc⟩ := Scalar.cast_of_kind? hk
  obtain rfl : Scalar.text s = v := Option.some.inj hv
  exact hc

/-- A text written between quotes is cut off by the row of strings, whatever follows it, and reads
back from there. A text written as a bare word is cut off as a token before white space, a brace or
the end, and the token is cast to it. -/
theorem shipped_rereads_text {table : TokenTable} (ht : shipped = .ok table) (s more : String) :
    let written := (Scalar.text s).render
    (¬Scalar.isBare s → ∃ row, table.row? "STRING" = some row ∧
      table.firstScan? (written ++ more).toList = some (row, written.toList) ∧
        Scalar.unquote written = s) ∧
    (Scalar.isBare s → EndsWord more.toList → ∃ row token,
      table.firstScan? (written ++ more).toList = some (row, s.toList) ∧
        tokenOf? row s.toList 0 = some token ∧
        token.text = s ∧ token.cast = .ok (.text s) ∧
        table.tokenize (written ++ more) =
          (table.tokenizeFrom 0 (Text.byteLength s.toList) more.toList).map (token :: ·)) := by
  obtain rfl := Except.ok.inj (shipped_eq.symm.trans ht)
  intro written
  refine ⟨fun hs => ?_, fun hs hr => ?_⟩
  · have hw : written = String.ofList (Scalar.quote s.toList) := if_neg hs
    refine ⟨string, rfl, ?_, ?_⟩
    · rw [hw, String.toList_append, String.toList_ofList]
      exact firstScan?_quote s.toList more.toList
    · rw [hw, Scalar.unquote_quote, String.ofList_toList]
  · have hw : written = s := if_pos hs
    obtain ⟨row, tag, first, htag, named⟩ := exists_firstScan?_bare hs hr
    let token : Token := ⟨row.name, s, some tag, ⟨0, Text.byteLength s.toList⟩⟩
    have made : tokenOf? row s.toList 0 = some token := by
      simp [tokenOf?, htag, token, String.ofList_toList]
    have hne : s.toList ≠ [] := (append_of_firstScan? first).1
    have cut := tokenizeFrom_append hne first 0
    rw [made, Nat.zero_add] at cut
    rw [hw, tokenize, String.toList_append]
    exact ⟨row, token, first, made, rfl, cast_bare hs named rfl, cut⟩

/-- A text with a quote, a line end and a backslash, before a quote; and a word that is a frame,
before a brace. -/
theorem shipped_rereads_text_before_marks :
    let s := "a\"\n\\"
    shipped = .ok script ∧ ¬Scalar.isBare s ∧ (Scalar.text s).render = "\"a\\\"\n\\\\\"" ∧
      script.firstScan? "\"a\\\"\n\\\\\"\"b".toList =
        some (string, "\"a\\\"\n\\\\\"".toList) ∧
      Scalar.unquote "\"a\\\"\n\\\\\"" = s ∧
      Scalar.isBare "x1" ∧ EndsWord "\x7b 2".toList ∧
      ∃ row token, script.firstScan? "x1\x7b 2".toList = some (row, "x1".toList) ∧
        tokenOf? row "x1".toList 0 = some token ∧ token.cast = .ok (.text "x1") := by
  intro s
  have between : ¬Scalar.isBare s := by decide
  have word : Scalar.isBare "x1" := by decide
  have ends : EndsWord "\x7b 2".toList := by
    rintro y ⟨⟩
    exact .inr (by decide)
  have quoted : (Scalar.text s).render = "\"a\\\"\n\\\\\"" := by decide
  obtain ⟨row, found, first, unquoted⟩ :=
    (shipped_rereads_text shipped_eq s "\"b").1 between
  obtain rfl : string = row := Option.some.inj found
  obtain ⟨row, token, cut, made, -, cast, -⟩ :=
    (shipped_rereads_text shipped_eq "x1" "\x7b 2").2 word ends
  rw [quoted] at first unquoted
  exact ⟨shipped_eq, between, quoted, first, unquoted, word, ends, row, token, cut, made, cast⟩

end TokenTable

end NodeScript
