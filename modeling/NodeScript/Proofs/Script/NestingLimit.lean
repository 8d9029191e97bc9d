import NodeScript.Proofs.Script.Nesting

/-!
# Scripts nested deeper than the limit

A larger limit reads the scripts with nested blocks that the smaller one reads, and reads them
alike. A rule that fails for its depth makes the block around it fail: what is left to close the
block is no closing brace, and the alternatives after it want one too.
-/

namespace NodeScript

namespace Script

open Descent (Widens)
open RuleTable (descend_succ descend_single)

/-- The tokens begin with a block or a scalar. -/
def BeginsWithItem (ts : List Token) : Prop :=
  ∃ t rest, ts = t :: rest ∧ (t.text = "\x7b" ∨ isScalar t)

theorem not_beginsWithItem {t : Token} (h : t.text = "\x7d") (rest : List Token) :
    ¬BeginsWithItem (t :: rest) := by
  rintro ⟨_, _, he, ht⟩
  obtain ⟨rfl, -⟩ := List.cons.inj he
  rw [isScalar_mark (by simp [h, marks]), h] at ht
  simp at ht

/-- Items in braces, or nothing in braces. -/
def blockForm (limit : Nat) (item : Descent) : Descent := fun ts =>
  [Descent.sequence [.one (isText "\x7b"), .oneOrMore limit item, .one (isText "\x7d")],
    .sequence [.one (isText "\x7b"), .one (isText "\x7d")]].findSome? (· ts)

/-- A block or a scalar. -/
def itemForm (block scalar : Descent) : Descent :=
  .sequence [.alternation block scalar]

theorem phrasesOf_nested_item : RuleTable.nested.phrasesOf "block_item" =
    [some [.alternation (.rule "block") (.rule "scalar")]] := by
  decide

variable (limit : Nat)

theorem readNested_block_succ (b : Nat) :
    readNested limit (b + 1) "block" = blockForm limit (readNested limit b "block_item") := by
  funext ts
  rw [readNested, descend_succ, RuleTable.phrasesOf_nested_block,
    Descent.rule_eq_findSome? (by decide)]
  rfl

theorem readNested_item_succ (b : Nat) : readNested limit (b + 1) "block_item" =
    itemForm (readNested limit b "block") (readNested limit b "scalar") := by
  rw [readNested, descend_single phrasesOf_nested_item (by decide)]
  rfl

theorem readNested_scalar (b : Nat) : readNested limit (b + 1) "scalar" = .one isScalar := by
  rw [readNested, descend_shared limit (b + 1) RuleTable.keepsRules_nested "scalar" (by decide),
    read_scalar]

/-! ## A block read within a limit is read the same within a larger one -/

theorem readNested_scalar_sound {b : Nat} {ts : List Token} {r : Tree × List Token}
    (h : readNested limit b "scalar" ts = some r) : ∃ a rest, ts = a :: rest ∧ isScalar a := by
  cases b with
  | zero => cases h
  | succ b =>
      rw [readNested_scalar] at h
      obtain ⟨a, ha, hs, -⟩ := Descent.one_eq_some.1 h
      exact ⟨a, _, ha, hs⟩

theorem readNested_scalar_mono {b b' : Nat} (hb : b ≤ b') {ts : List Token}
    {r : Tree × List Token} (h : readNested limit b "scalar" ts = some r) :
    readNested limit b' "scalar" ts = some r := by
  cases b with
  | zero => cases h
  | succ b =>
      obtain ⟨b', rfl⟩ : ∃ c, b' = c + 1 := ⟨b' - 1, by omega⟩
      rw [readNested_scalar] at h ⊢
      exact h

/-- Where a scalar begins no block does. -/
theorem readNested_block_eq_none {a : Token} (h : isScalar a) (b : Nat) (rest : List Token) :
    readNested limit b "block" (a :: rest) = none := by
  match hb : readNested limit b "block" (a :: rest) with
  | none => rfl
  | some (t, last) =>
      obtain ⟨⟨o, mid, he, ho⟩, -⟩ := readNested_block limit b hb
      obtain ⟨rfl, -⟩ := List.cons.inj he
      rw [isScalar_mark (by simp [ho, marks])] at h
      cases h

theorem readNested_item_sound {b : Nat} {ts : List Token} {t : Tree} {rest : List Token}
    (h : readNested limit b "block_item" ts = some (t, rest)) : BeginsWithItem ts := by
  cases b with
  | zero => cases h
  | succ b =>
      rw [readNested_item_succ, itemForm, sequence_singleton] at h
      obtain ⟨⟨t, rest⟩, h, -⟩ := Option.map_eq_some_iff.1 h
      simp only [Descent.alternation] at h
      cases hb : readNested limit b "block" ts with
      | some taken =>
          obtain ⟨⟨o, mid, rfl, ho⟩, -⟩ := readNested_block limit b hb
          exact ⟨o, mid, rfl, .inl ho⟩
      | none =>
          rw [hb] at h
          obtain ⟨a, rest, rfl, ha⟩ := readNested_scalar_sound limit h
          exact ⟨a, rest, rfl, .inr ha⟩

theorem readNested_item_mono {b b' : Nat} (hb : b ≤ b')
    (hblock : ∀ {ts r}, readNested limit b "block" ts = some r →
      readNested limit b' "block" ts = some r)
    {ts : List Token} {r : Tree × List Token}
    (h : readNested limit (b + 1) "block_item" ts = some r) :
    readNested limit (b' + 1) "block_item" ts = some r := by
  rw [readNested_item_succ, itemForm, sequence_singleton, Descent.alternation] at h ⊢
  cases hn : readNested limit b "block" ts with
  | some taken =>
      rw [hn] at h
      rw [hblock hn]
      exact h
  | none =>
      rw [hn] at h
      obtain ⟨taken, hs, -⟩ := Option.map_eq_some_iff.1 h
      obtain ⟨a, rest, rfl, ha⟩ := readNested_scalar_sound limit hs
      rw [readNested_block_eq_none limit ha]
      simp only [readNested_scalar_mono limit hb hs]
      rwa [← hs]

theorem one_close_eq_none {ts : List Token} (h : BeginsWithItem ts) :
    Descent.one (isText "\x7d") ts = none := by
  match hc : Descent.one (isText "\x7d") ts with
  | none => rfl
  | some (t, rest) =>
      obtain ⟨a, rfl, ha, -⟩ := Descent.one_eq_some.1 hc
      exact absurd h (not_beginsWithItem (eq_of_beq ha) rest)

end Script

namespace Descent

variable {test : Token → Bool} {t : Token}

theorem sequence_one_cons (h : test t) (fs : List Descent) (rest : List Token) :
    sequence (one test :: fs) (t :: rest) = (all fs rest).map fun (trees, last) =>
      ((Tree.list (.token t :: trees)).flatten, last) := by
  simp only [sequence, all, one, h, if_true, Option.map_map]
  rfl

theorem sequence_one_cons_eq_none (h : ¬test t) (fs : List Descent) (rest : List Token) :
    sequence (one test :: fs) (t :: rest) = none := by
  simp [sequence, all, one, h]

end Descent

namespace Script

open Descent (Widens)

variable (limit : Nat)

/-- A block of wider items is read as before, or not read at all with the narrow ones: they stop
before a wider item, where no brace closes the block. -/
theorem blockForm_or {item item' : Descent}
    (h : Widens item item' BeginsWithItem fun _ => True)
    (hbegins : ∀ {ts t rest}, item' ts = some (t, rest) → BeginsWithItem ts) (ts : List Token) :
    blockForm limit item' ts = blockForm limit item ts ∨ blockForm limit item ts = none := by
  simp only [blockForm, List.findSome?_cons, List.findSome?_nil]
  match ts with
  | [] => exact .inl rfl
  | o :: mid =>
      by_cases ho : isText "\x7b" o
      · simp only [Descent.sequence_one_cons ho]
        rcases h.oneOrMore (fun _ => True) (fun _ _ _ _ => trivial) limit mid with
          he | ⟨hstop, trees, rest, ht, -⟩
        · left
          simp only [Descent.all, he]
        · right
          obtain ⟨⟨t, last⟩, hfirst⟩ := Descent.eq_some_of_oneOrMore ht
          have hempty := one_close_eq_none (hbegins hfirst)
          cases hn : Descent.oneOrMore limit item mid with
          | none => simp [Descent.all, hn, hempty]
          | some taken =>
              obtain ⟨t', rest'⟩ := taken
              simp [Descent.all, hn, hempty, one_close_eq_none (hstop t' rest' hn)]
      · simp only [Descent.sequence_one_cons_eq_none ho]
        exact .inl trivial

theorem readNested_block_mono {b b' : Nat} (hb : b ≤ b') :
    (∀ ts r, readNested limit b "block" ts = some r → readNested limit b' "block" ts = some r) ∧
    ∀ ts r, readNested limit b "block_item" ts = some r →
      readNested limit b' "block_item" ts = some r := by
  -- blocks and items at once, since either reads the other one level down
  induction b generalizing b' with
  | zero => exact ⟨fun _ _ h => (by cases h), fun _ _ h => (by cases h)⟩
  | succ b ih =>
      obtain ⟨b', rfl⟩ : ∃ c, b' = c + 1 := ⟨b' - 1, by omega⟩
      obtain ⟨hblock, hitem⟩ := ih (Nat.le_of_succ_le_succ hb)
      refine ⟨fun ts r h => ?_,
        fun _ _ => readNested_item_mono limit (Nat.le_of_succ_le_succ hb) (hblock _ _)⟩
      have hwidens : Widens (readNested limit b "block_item") (readNested limit b' "block_item")
          BeginsWithItem fun _ => True :=
        Descent.widens_of_mono (hitem _ _) fun h => ⟨readNested_item_sound limit h, trivial⟩
      rw [readNested_block_succ] at h ⊢
      rcases blockForm_or limit hwidens (readNested_item_sound limit) ts with he | hn
      · rwa [he]
      · rw [hn] at h
        cases h

theorem widens_block {b b' : Nat} (hb : b ≤ b') :
    Widens (readNested limit b "block") (readNested limit b' "block") BeginsWithBrace IsListed :=
  Descent.widens_of_mono ((readNested_block_mono limit hb).1 _ _) (readNested_block limit b')

/-- What is read to the end of the tokens within a limit is read the same within a larger one. -/
theorem readNested_main_mono {b b' : Nat} (hb : b ≤ b') {ts : List Token} {t : Tree}
    (h : readNested limit (b + 10) "main" ts = some (t, [])) :
    readNested limit (b' + 10) "main" ts = some (t, []) := by
  have hwidens := widens_valueForm limit (widens_block limit (Nat.add_le_add_right hb 4))
  rw [readNested_main] at h ⊢
  rcases scriptForm_or limit hwidens ts with he | ⟨hnone, -⟩
  · exact he.trans h
  · exact absurd h (hnone t)

end Script

namespace ScriptParser

open Script

/-- The nodes of a script by a parser with another limit on how deep rules are in one another. -/
def parseWithin (p : ScriptParser) (limit : Nat) (script : String) :
    Except ScriptError (List Node) :=
  match p.tokenize script with
  | .error e => .error (.lex e)
  | .ok tokens => ((p.resolveTokensWithin limit tokens.toArray).mapError .parse).map Tree.nodes

theorem parseWithin_nestingLimit (p : ScriptParser) (script : String) :
    p.parseWithin Graph.nestingLimit script = p.parse script := by
  unfold parseWithin parse resolve
  cases p.tokenize script <;> rfl

theorem parseWithin_eq_ok_iff {p : ScriptParser} {limit : Nat} {text : String}
    {nodes : List Node} : p.parseWithin limit text = .ok nodes ↔
      ∃ ts, p.tokenize text = .ok ts ∧
        ∃ t, p.resolveTokensWithin limit ts.toArray = .ok t ∧ t.nodes = nodes := by
  unfold parseWithin
  match p.tokenize text with
  | .error e => simp
  | .ok ts =>
      cases hr : p.resolveTokensWithin limit ts.toArray <;>
        simp [hr, Except.map, Except.mapError]

variable {q : ScriptParser}

/-- Tokens that resolve within a limit resolve to the same tree within a larger one. -/
theorem IsNested.resolveTokensWithin_mono (h : q.IsNested) {limit limit' : Nat}
    (hl : 10 ≤ limit) (hle : limit ≤ limit') {ts : List Token} {t : Tree}
    (ht : q.resolveTokensWithin limit ts.toArray = .ok t) :
    q.resolveTokensWithin limit' ts.toArray = .ok t := by
  by_cases hne : ts = []
  · subst hne
    exact ht
  · rw [resolveTokensWithin_eq_ok_iff h.compiled h.root hne, h.builders] at ht ⊢
    obtain ⟨b, rfl⟩ : ∃ b, limit = b + 10 := ⟨limit - 10, by omega⟩
    obtain ⟨b', rfl⟩ : ∃ b', limit' = b' + 10 := ⟨limit' - 10, by omega⟩
    exact readNested_main_mono _ (by omega) ht

/-- The limit on nesting can only reject a script with nested blocks: what the parser gives for a
text it gives with every larger limit, and what it gives with a larger one it gives itself, or the
text does not parse. -/
theorem nested_limit_only_rejects : ∃ q, nested = .ok q ∧ ∀ text limit,
    Graph.nestingLimit ≤ limit →
      (∀ nodes, q.parse text = .ok nodes → q.parseWithin limit text = .ok nodes) ∧
      ∀ nodes, q.parseWithin limit text = .ok nodes →
        q.parse text = .ok nodes ∨ ∃ e, q.parse text = .error (.parse e) := by
  obtain ⟨q, hq, hn⟩ := nested_isNested
  refine ⟨q, hq, fun text limit hl => ?_⟩
  have more : ∀ nodes, q.parse text = .ok nodes → q.parseWithin limit text = .ok nodes := by
    intro nodes h
    rw [← parseWithin_nestingLimit, parseWithin_eq_ok_iff] at h
    obtain ⟨ts, hts, t, ht, hnodes⟩ := h
    exact parseWithin_eq_ok_iff.2
      ⟨ts, hts, t, hn.resolveTokensWithin_mono (by decide) hl ht, hnodes⟩
  refine ⟨more, fun nodes h => ?_⟩
  obtain ⟨ts, hts, -⟩ := parseWithin_eq_ok_iff.1 h
  match hp : q.parse text with
  | .ok nodes' => exact .inl ((more nodes' hp).symm.trans h)
  | .error (.parse e) => exact .inr ⟨e, rfl⟩
  | .error (.lex e) =>
      rw [parse, resolve, hts] at hp
      cases hr : q.resolveTokens ts.toArray <;> simp [hr, Except.map, Except.mapError] at hp

/-- The nodes that the rules with nested blocks read in the tokens of a text, at most `limit` deep
in one another. -/
def nestedNodesWithin? (limit : Nat) (text : String) : Option (List Node) :=
  (TokenTable.script.tokenize text).toOption.bind fun ts =>
    let ts := Token.significant ts
    if ts = [] then some []
    else (readNested ts.length limit RuleTable.rootRule ts).bind fun (t, rest) =>
      if rest = [] then some t.nodes else none

theorem IsNested.parseWithin_eq_ok_iff (h : q.IsNested) {limit : Nat} {text : String}
    {nodes : List Node} : q.parseWithin limit text = .ok nodes ↔
      nestedNodesWithin? limit text = some nodes := by
  rw [ScriptParser.parseWithin_eq_ok_iff, nestedNodesWithin?, tokenize, h.tokens]
  cases TokenTable.script.tokenize text with
  | error e => simp [Except.map, Except.toOption]
  | ok ts =>
      simp only [Except.map, Except.toOption, Except.ok.injEq, exists_eq_left', Option.bind_some]
      generalize Token.significant ts = ts
      by_cases hne : ts = []
      · subst hne
        have he : q.resolveTokensWithin limit [].toArray = .ok (.list []) := rfl
        simp [he, Tree.nodes, Tree.nodesList]
      · simp only [resolveTokensWithin_eq_ok_iff h.compiled h.root hne, h.builders, hne, if_false,
          readNested]
        cases RuleTable.nested.descend TokenTable.script .standard ts.length limit
          RuleTable.rootRule ts with
        | none => simp
        | some taken => by_cases hr : taken.2 = [] <;> simp [hr, Prod.ext_iff]

/-- A number in 47 pairs of braces. -/
def deepText : String :=
  String.ofList (List.replicate 47 '\x7b' ++ '1' :: List.replicate 47 '\x7d')

theorem nested_limit_only_rejects_deep : ∃ q, nested = .ok q ∧ Graph.nestingLimit ≤ 200 ∧
    q.parse "A\x7ba \x7b\x7b1\x7d 2\x7d\x7d" =
      .ok [⟨"A", [⟨"a", .block "\x7b\x7b1\x7d 2\x7d"⟩], none⟩] ∧
    q.parseWithin 200 "A\x7ba \x7b\x7b1\x7d 2\x7d\x7d" =
      .ok [⟨"A", [⟨"a", .block "\x7b\x7b1\x7d 2\x7d"⟩], none⟩] ∧
    q.parseWithin 200 ("A\x7ba " ++ deepText ++ "\x7d") =
      .ok [⟨"A", [⟨"a", .block deepText⟩], none⟩] ∧
    ∃ e, q.parse ("A\x7ba " ++ deepText ++ "\x7d") = .error (.parse e) := by
  obtain ⟨q, hq, h⟩ := nested_limit_only_rejects
  obtain ⟨q', hq', hn⟩ := nested_isNested
  obtain rfl := Except.ok.inj (hq.symm.trans hq')
  have hshallow : q.parse "A\x7ba \x7b\x7b1\x7d 2\x7d\x7d" =
      .ok [⟨"A", [⟨"a", .block "\x7b\x7b1\x7d 2\x7d"⟩], none⟩] := by
    rw [← parseWithin_nestingLimit, hn.parseWithin_eq_ok_iff]
    decide +kernel
  have hdeep : q.parseWithin 200 ("A\x7ba " ++ deepText ++ "\x7d") =
      .ok [⟨"A", [⟨"a", .block deepText⟩], none⟩] := by
    rw [hn.parseWithin_eq_ok_iff]
    decide +kernel
  have hrejected : nestedNodesWithin? Graph.nestingLimit ("A\x7ba " ++ deepText ++ "\x7d") =
      none := by
    decide +kernel
  refine ⟨q, hq, by decide, hshallow, (h _ 200 (by decide)).1 _ hshallow, hdeep, ?_⟩
  rcases (h _ 200 (by decide)).2 _ hdeep with hp | he
  · rw [← parseWithin_nestingLimit, hn.parseWithin_eq_ok_iff, hrejected] at hp
    cases hp
  · exact he

end ScriptParser

end NodeScript
