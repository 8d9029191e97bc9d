import NodeScript.Proofs.Script.Joining
import NodeScript.Proofs.Token.Gaps

/-!
# Layouts of scripts

A script in another layout is the same script: it gives the same nodes, or it fails at the same
token with the same preview.
-/

namespace NodeScript.ScriptParser

open TokenTable (IsGap IsLayout Continues)

/-- The same nodes, or failures at the same position among as many tokens with the same preview. -/
inductive SameAnswer :
    Except ScriptError (List Node) → Except ScriptError (List Node) → Prop
  | success (nodes : List Node) : SameAnswer (.ok nodes) (.ok nodes)
  | failure {e e' : ParseError} (hp : e'.position = e.position) (ht : e'.total = e.total)
    (hu : e'.unconsumed = e.unconsumed) : SameAnswer (.error (.parse e)) (.error (.parse e'))

/-- What two parses give that give the same without places. -/
theorem SameParse.sameAnswer {r r' r'' : Except ParseError Tree} (h : SameParse r r'')
    (h' : SameParse r' r'') : SameAnswer ((r.mapError .parse).map Tree.nodes)
      ((r'.mapError .parse).map Tree.nodes) := by
  cases h with
  | success t =>
      generalize hu : Except.ok t.unplaced = r'' at h'
      cases h' with
      | success t' =>
          have same : t'.nodes = t.nodes := by
            rw [← Tree.nodes_unplaced t', ← Tree.nodes_unplaced t, Except.ok.inj hu]
          simpa only [Except.mapError, Except.map, same] using SameAnswer.success t.nodes
      | failure => cases hu
  | failure hp ht hu =>
      cases h' with
      | failure hp' ht' hu' =>
          exact .failure (hp'.symm.trans hp) (ht'.symm.trans ht) (hu'.symm.trans hu)

variable {p : ScriptParser}

/-- Texts with tokens of the same names and texts are parsed alike. -/
theorem sameAnswer_of_kinds (hb : p.builders.IgnoresPlaces) {text text' : String}
    {ts ts' : List Token} (h : p.tokenize text = .ok ts) (h' : p.tokenize text' = .ok ts')
    (hk : ts'.map Token.kind = ts.map Token.kind) : SameAnswer (p.parse text) (p.parse text') := by
  have same := resolveTokensWithin_unplaced hb Graph.nestingLimit ts.toArray
  have same' := resolveTokensWithin_unplaced hb Graph.nestingLimit ts'.toArray
  rw [List.map_toArray, unplaced_of_kinds hk, ← List.map_toArray] at same'
  rw [parse, parse, resolve, resolve, h, h']
  exact same.sameAnswer same'

theorem texts_of_kinds (ts : List Token) :
    (ts.map Token.kind).map Prod.snd = ts.map Token.text := by
  rw [List.map_map]
  rfl

theorem IsScript.tokenize_layout (h : p.IsScript) {text text' : String} {ts : List Token}
    (hts : p.tokenize text = .ok ts) (hl : IsLayout (ts.map Token.text) text'.toList) :
    ∃ ts', p.tokenize text' = .ok ts' ∧ ts'.map Token.kind = ts.map Token.kind := by
  rw [tokenize, h.tokens] at hts ⊢
  have hk := TokenTable.kinds?_eq_some_iff.2 ⟨ts, hts, rfl⟩
  rw [← texts_of_kinds] at hl
  exact TokenTable.kinds?_eq_some_iff.1 (TokenTable.kinds?_layout hk hl)

/-- Layout does not matter. A text that has the tokens of another in order, with white space and
comments between them, whether or not they were apart before, is cut into tokens of the same names
and texts, and the shipped parser gives the same answer for both. -/
theorem shipped_parse_layout : ∃ p, shipped = .ok p ∧ ∀ text ts text',
    p.tokenize text = .ok ts → IsLayout (ts.map Token.text) text'.toList →
      ∃ ts', p.tokenize text' = .ok ts' ∧ ts'.map Token.kind = ts.map Token.kind ∧
        SameAnswer (p.parse text) (p.parse text') := by
  obtain ⟨p, hp, hs⟩ := shipped_isScript
  refine ⟨p, hp, fun text ts text' hts hl => ?_⟩
  have hb : p.builders.IgnoresPlaces := hs.builders ▸ BuilderTable.ignoresPlaces_standard
  obtain ⟨ts', hts', hk⟩ := hs.tokenize_layout hts hl
  exact ⟨ts', hts', hk, sameAnswer_of_kinds hb hts hts' hk⟩

theorem isLayout_spread : IsLayout ["A", "\x7b", "a", "1e5", "\x7d", "push", "$", "b"]
    "A #c\n\x7b a\n1e5 \x7d push $ b\n".toList := by
  have blank : IsGap [' '] := .blank (by decide) .nil
  have line : IsGap ['\n'] := .blank (by decide) .nil
  have comment : IsGap (' ' :: '#' :: (['c'] ++ ['\n'])) :=
    .blank (by decide) (.comment (by decide) .nil)
  have spread : IsLayout ["A", "\x7b", "a", "1e5", "\x7d", "push", "$", "b"]
      ([] ++ ("A".toList ++ ((' ' :: '#' :: (['c'] ++ ['\n'])) ++ ("\x7b".toList ++ ([' '] ++
        ("a".toList ++ (['\n'] ++ ("1e5".toList ++ ([' '] ++ ("\x7d".toList ++ ([' '] ++
          ("push".toList ++ ([' '] ++ ("$".toList ++ ([' '] ++
            ("b".toList ++ ['\n'])))))))))))))))) :=
    .begin .nil (.next comment (by simp) (.next blank (by simp) (.next line (by simp)
      (.next blank (by simp) (.next blank (by simp) (.next blank (by simp) (.next blank (by simp)
        (.done line))))))))
  exact spread

theorem shipped_parse_layout_spread : ∃ p ts, shipped = .ok p ∧
    p.tokenize "A\x7ba 1e5\x7dpush$b" = .ok ts ∧
    IsLayout (ts.map Token.text) "A #c\n\x7b a\n1e5 \x7d push $ b\n".toList ∧
    SameAnswer (p.parse "A\x7ba 1e5\x7dpush$b") (p.parse "A #c\n\x7b a\n1e5 \x7d push $ b\n") := by
  obtain ⟨p, hp, h⟩ := shipped_parse_layout
  obtain ⟨p', hp', hs⟩ := shipped_isScript
  obtain rfl := Except.ok.inj (hp.symm.trans hp')
  have hk : TokenTable.script.kinds? "A\x7ba 1e5\x7dpush$b".toList =
      some [("WORD", "A"), ("OPEN_BRACE", "\x7b"), ("WORD", "a"), ("FLOAT", "1e5"),
        ("CLOSE_BRACE", "\x7d"), ("TCL_PUSH", "push"), ("TCL_VAR", "$"), ("WORD", "b")] := by
    decide +kernel
  obtain ⟨ts, hts, hkinds⟩ := hs.tokenize_of_kinds? hk
  have texts : ts.map Token.text = ["A", "\x7b", "a", "1e5", "\x7d", "push", "$", "b"] := by
    rw [← texts_of_kinds, hkinds]
    rfl
  have hl : IsLayout (ts.map Token.text) "A #c\n\x7b a\n1e5 \x7d push $ b\n".toList := by
    rw [texts]
    exact isLayout_spread
  obtain ⟨-, -, -, same⟩ := h _ ts _ hts hl
  exact ⟨p, ts, hp, hts, hl, same⟩

end NodeScript.ScriptParser
