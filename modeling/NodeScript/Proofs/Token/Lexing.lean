import NodeScript.Proofs.Token.Rows

/-!
# Cutting texts into tokens

What a table makes of a text, one token after the other: a text that the first row takes comes
off, and the rest gives the other tokens. Apart from their places, the tokens of a text do not
depend on where it stands.
-/

namespace NodeScript

/-- What a token is apart from its place: the name of its row and its text. -/
def Token.kind (t : Token) : String × String :=
  (t.name, t.text)

namespace TokenTable

variable {table : TokenTable} {row : TokenRow}

/-- The bytes of a token already taken are passed over. -/
theorem tokenizeFrom_taken (table : TokenTable) (text rest : List Char) (position : Nat) :
    table.tokenizeFrom (Text.byteLength text) position (text ++ rest) =
      table.tokenizeFrom 0 (position + Text.byteLength text) rest := by
  induction text generalizing position with
  | nil => rfl
  | cons c text ih =>
      have hc := c.utf8Size_pos
      simp only [List.cons_append, Text.byteLength_cons]
      rw [tokenizeFrom, if_pos (by omega), Nat.add_sub_cancel_left, ih, Nat.add_assoc]

/-- The text of a first token comes off. -/
theorem tokenizeFrom_append {text rest : List Char} (hne : text ≠ [])
    (h : table.firstScan? (text ++ rest) = some (row, text)) (position : Nat) :
    table.tokenizeFrom 0 position (text ++ rest) =
      (table.tokenizeFrom 0 (position + Text.byteLength text) rest).map
        ((tokenOf? row text position).toList ++ ·) := by
  obtain ⟨c, text, rfl⟩ := List.exists_cons_of_ne_nil hne
  have ht := tokenizeFrom_taken table text rest (position + c.utf8Size)
  rw [List.cons_append] at h ⊢
  rw [tokenizeFrom, if_neg (by omega), h]
  simp only [Text.byteLength_cons, Nat.add_sub_cancel_left, ht, Nat.add_assoc]
  rfl

/-- The first row that takes something takes the beginning of the rest. -/
theorem firstScan?_eq_some {rest text : List Char} (h : table.firstScan? rest = some (row, text)) :
    row ∈ table.rows ∧ row.scan? rest = some text := by
  obtain ⟨r, hr, hs⟩ := List.exists_of_findSome?_eq_some h
  obtain ⟨text', ht, he⟩ := Option.map_eq_some_iff.1 hs
  obtain ⟨rfl, rfl⟩ := Prod.mk.inj he
  exact ⟨hr, ht⟩

/-! ## Tokens without their places -/

/-- The kinds of the tokens that a grammar sees, from some place on. -/
def kindsFrom? (table : TokenTable) (taken position : Nat) (text : List Char) :
    Option (List (String × String)) :=
  (table.tokenizeFrom taken position text).toOption.map fun ts =>
    (Token.significant ts).map Token.kind

/-- The kinds of the tokens that a grammar sees in a text, if it can be cut into tokens. -/
def kinds? (table : TokenTable) (text : List Char) : Option (List (String × String)) :=
  table.kindsFrom? 0 0 text

/-- The kind of a row's text, if a grammar sees it. -/
def kindOf (row : TokenRow) (text : List Char) : List (String × String) :=
  (Token.significant (tokenOf? row text 0).toList).map Token.kind

theorem kindOf_eq (row : TokenRow) (text : List Char) (position : Nat) :
    (Token.significant (tokenOf? row text position).toList).map Token.kind = kindOf row text := by
  unfold kindOf tokenOf?
  cases row.tag with
  | none => rfl
  | some tag =>
      by_cases h : tag = Token.ignorableTag <;>
        simp [Token.significant, Token.isIgnorable, List.filter_cons, Token.kind, h]

/-- A token in front puts its kind in front. -/
theorem kinds_map_append (row : TokenRow) (text : List Char) (position : Nat)
    (tokens : Except LexError (List Token)) :
    ((tokens.map ((tokenOf? row text position).toList ++ ·)).toOption.map fun ts =>
        (Token.significant ts).map Token.kind) =
      (tokens.toOption.map fun ts => (Token.significant ts).map Token.kind).map
        (kindOf row text ++ ·) := by
  rw [← kindOf_eq row text position]
  cases tokens <;> simp [Except.map, Except.toOption, Token.significant]

theorem kindsFrom?_position (taken position position' : Nat) (text : List Char) :
    table.kindsFrom? taken position text = table.kindsFrom? taken position' text := by
  induction text generalizing taken position position' with
  | nil => rfl
  | cons c rest ih =>
      simp only [kindsFrom?, tokenizeFrom]
      by_cases ht : 0 < taken
      · simp only [ht, if_true]
        exact ih _ _ _
      · simp only [ht, if_false]
        cases table.firstScan? (c :: rest) with
        | none => rfl
        | some found =>
            obtain ⟨row, text⟩ := found
            have h := ih (Text.byteLength text - c.utf8Size) (position + c.utf8Size)
              (position' + c.utf8Size)
            have hp (position position' : Nat) := kinds_map_append row text position
              (table.tokenizeFrom (Text.byteLength text - c.utf8Size) position' rest)
            exact (hp _ _).trans ((congrArg _ h).trans (hp _ _).symm)

theorem kinds?_nil : table.kinds? [] = some [] :=
  rfl

theorem kinds?_append {text rest : List Char} (hne : text ≠ [])
    (h : table.firstScan? (text ++ rest) = some (row, text)) :
    table.kinds? (text ++ rest) = (table.kinds? rest).map (kindOf row text ++ ·) := by
  rw [kinds?, kindsFrom?, tokenizeFrom_append hne h, kinds_map_append]
  exact congrArg _ (kindsFrom?_position _ _ _ _)

theorem kinds?_eq_none {x : Char} {rest : List Char} (h : table.firstScan? (x :: rest) = none) :
    table.kinds? (x :: rest) = none := by
  simp [kinds?, kindsFrom?, tokenizeFrom, h, Except.toOption]

theorem kindOf_of_tag {tag : String} (h : row.tag = some tag) (hs : tag ≠ Token.ignorableTag)
    (text : List Char) : kindOf row text = [(row.name, String.ofList text)] := by
  simp [kindOf, tokenOf?, h, Token.significant, Token.isIgnorable, List.filter_cons, hs, Token.kind]

theorem kindOf_of_ignorable (h : row.tag = some Token.ignorableTag) (text : List Char) :
    kindOf row text = [] := by
  simp [kindOf, tokenOf?, h, Token.significant, Token.isIgnorable]

/-- A text has some kinds when it is cut into tokens of these kinds. -/
theorem kinds?_eq_some_iff {script : String} {ks : List (String × String)} :
    table.kinds? script.toList = some ks ↔ ∃ ts,
      (table.tokenize script).map Token.significant = .ok ts ∧ ts.map Token.kind = ks := by
  rw [kinds?, kindsFrom?, tokenize]
  cases table.tokenizeFrom 0 0 script.toList <;> simp [Except.map, Except.toOption]

end TokenTable

end NodeScript
