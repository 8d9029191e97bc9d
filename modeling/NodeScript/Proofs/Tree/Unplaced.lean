import NodeScript.Proofs.Results
import NodeScript.Tree.Builder

/-!
# Trees without places

A tree whose tokens have lost their places and tags. The standard builders look at names and texts
of tokens only, so they make the same of it, and its nodes are the same.
-/

namespace NodeScript

namespace Token

/-- The token with nothing but its name and its text. -/
def unplaced (t : Token) : Token :=
  ⟨t.name, t.text, none, ⟨0, 0⟩⟩

@[simp] theorem unplaced_text (t : Token) : t.unplaced.text = t.text :=
  rfl

@[simp] theorem cast_unplaced (t : Token) : t.unplaced.cast = t.cast :=
  rfl

@[simp] theorem castFrame_unplaced (t : Token) : t.unplaced.castFrame = t.castFrame :=
  rfl

end Token

namespace Tree

mutual

/-- The tree with nothing but the names and texts of its tokens. -/
def unplaced : Tree → Tree
  | .token t => .token t.unplaced
  | .list items => .list (unplacedList items)
  | .channels tokens => .channels (tokens.map Token.unplaced)
  | .curve pairs => .curve (pairs.map (Prod.map Token.unplaced Token.unplaced))
  | .attribute a => .attribute a
  | .node n => .node n

/-- The trees of a list with nothing but the names and texts of their tokens. -/
def unplacedList : List Tree → List Tree
  | [] => []
  | t :: rest => t.unplaced :: unplacedList rest

end

@[simp] theorem unplacedList_eq_map (ts : List Tree) : unplacedList ts = ts.map unplaced := by
  induction ts with
  | nil => rfl
  | cons t ts ih => rw [unplacedList, ih, List.map_cons]

theorem unplaced_list (ts : List Tree) : (Tree.list ts).unplaced = .list (ts.map unplaced) := by
  rw [unplaced, unplacedList_eq_map]

theorem unplaced_flatten (t : Tree) : t.flatten.unplaced = t.unplaced.flatten := by
  fun_induction flatten t with
  | case1 item ih => rw [ih, unplaced_list, List.map_singleton, flatten]
  | case2 t h =>
      cases t with
      | list items =>
          match items with
          | [] => rfl
          | [item] => exact absurd rfl (h item)
          | _ :: _ :: _ => simp [unplaced_list, flatten]
      | _ => rfl

theorem items_unplaced (t : Tree) : t.unplaced.items = t.items.map unplaced := by
  cases t <;> simp [unplaced, items]

mutual

theorem tokens_unplaced (t : Tree) : t.unplaced.tokens = t.tokens.map Token.unplaced := by
  cases t with
  | list items => simp only [unplaced, tokens, tokensList_unplaced items]
  | curve pairs => simp [unplaced, tokens, List.flatMap_map, List.map_flatMap]
  | _ => simp [unplaced, tokens]

theorem tokensList_unplaced (ts : List Tree) :
    tokensList (unplacedList ts) = (tokensList ts).map Token.unplaced := by
  cases ts with
  | nil => rfl
  | cons t ts =>
      simp only [unplacedList, tokensList, tokens_unplaced t, tokensList_unplaced ts,
        List.map_append]

end

mutual

/-- What has been folded into nodes has no places. -/
theorem nodes_unplaced (t : Tree) : t.unplaced.nodes = t.nodes := by
  cases t with
  | list items => simp only [unplaced, nodes, nodesList_unplaced items]
  | _ => simp [unplaced, nodes]

theorem nodesList_unplaced (ts : List Tree) : nodesList (unplacedList ts) = nodesList ts := by
  cases ts with
  | nil => rfl
  | cons t ts =>
      simp only [unplacedList, nodesList, nodes_unplaced t, nodesList_unplaced ts]

end

end Tree

/-! ## Builders -/

namespace Builder

open NodeScript.Tree (unplaced unplacedList)

mutual

theorem attributesOf_unplaced (t : Tree) :
    (attributesOf t.unplaced).toOption = (attributesOf t).toOption := by
  cases t with
  | list items => simp only [unplaced, attributesOf, attributesOfList_unplaced items]
  | _ => simp only [unplaced, attributesOf, Except.toOption]

theorem attributesOfList_unplaced (ts : List Tree) :
    (attributesOfList (unplacedList ts)).toOption = (attributesOfList ts).toOption := by
  cases ts with
  | nil => rfl
  | cons t ts =>
      simp only [unplacedList, attributesOfList, Except.toOption_bind, attributesOf_unplaced t,
        attributesOfList_unplaced ts]

end

theorem knobsUntilClose_unplaced (ts : List Tree) :
    (knobsUntilClose (ts.map unplaced)).toOption =
      (knobsUntilClose ts).toOption.map fun (as, after) => (as, after.map unplaced) := by
  induction ts with
  | nil => rfl
  | cons t ts ih =>
      have knobs : (do
            let first ← attributesOf t.unplaced
            let (others, after) ← knobsUntilClose (ts.map unplaced)
            .ok (first ++ others, after) : Except BuildError _).toOption =
          (do
            let first ← attributesOf t
            let (others, after) ← knobsUntilClose ts
            .ok (first ++ others, after) : Except BuildError _).toOption.map
              fun (as, after) => (as, after.map unplaced) := by
        simp only [Except.toOption_bind, attributesOf_unplaced, ih]
        cases (attributesOf t).toOption <;> cases (knobsUntilClose ts).toOption <;> rfl
      cases t with
      | token closing =>
          simp only [List.map_cons, unplaced, knobsUntilClose, Token.unplaced_text]
          by_cases h : closing.text = "\x7d"
          · simp [h, Except.toOption]
          · simp only [h, if_false]
            exact knobs
      | list items =>
          simp only [List.map_cons, unplaced, knobsUntilClose] at knobs ⊢
          exact knobs
      | _ => exact knobs

theorem buildNode_unplaced (t : Tree) :
    (buildNode t.unplaced).toOption = (buildNode t).toOption.map unplaced := by
  unfold buildNode
  rw [Tree.items_unplaced]
  match t.items with
  | [] => rfl
  | [first] => cases first <;> rfl
  | first :: second :: rest =>
      cases first with
      | token className =>
          cases second with
          | token opening =>
              simp only [List.map_cons, unplaced, Token.unplaced_text]
              by_cases ho : opening.text = "\x7b"
              · have h := knobsUntilClose_unplaced rest
                simp only [ho, if_true, Except.toOption_bind, h]
                cases (knobsUntilClose rest).toOption with
                | none => rfl
                | some found =>
                    obtain ⟨attributes, after⟩ := found
                    have ht : Tree.tokensList (after.map unplaced) =
                        (Tree.tokensList after).map Token.unplaced := by
                      rw [← Tree.unplacedList_eq_map, Tree.tokensList_unplaced]
                    simp [ht, Function.comp_def, Except.toOption, unplaced]
              · simp [ho, Except.toOption]
          | _ => rfl
      | _ => rfl

theorem castAll_unplaced (ts : List Token) : castAll (ts.map Token.unplaced) = castAll ts := by
  induction ts with
  | nil => rfl
  | cons t ts ih => simp only [List.map_cons, castAll, ih, Token.cast_unplaced]

theorem castPairs_unplaced (pairs : List (Token × Token)) :
    castPairs (pairs.map (Prod.map Token.unplaced Token.unplaced)) = castPairs pairs := by
  induction pairs with
  | nil => rfl
  | cons p pairs ih =>
      simp only [List.map_cons, castPairs, ih, Prod.map, Token.cast_unplaced,
        Token.castFrame_unplaced]

theorem valueOf_unplaced (t : Tree) : (valueOf t.unplaced).toOption = (valueOf t).toOption := by
  cases t with
  | list items =>
      simp only [unplaced, valueOf, Tree.tokensList_unplaced, List.map_map]
      rfl
  | channels tokens => simp only [unplaced, valueOf, castAll_unplaced]
  | curve pairs => simp only [unplaced, valueOf, castPairs_unplaced]
  | _ => simp only [unplaced, valueOf, Token.cast_unplaced, Except.toOption]

theorem buildAttribute_unplaced (t : Tree) :
    (buildAttribute t.unplaced).toOption = (buildAttribute t).toOption.map unplaced := by
  unfold buildAttribute
  rw [Tree.items_unplaced]
  match t.items with
  | [] => rfl
  | [first] => cases first <;> rfl
  | [first, value] =>
      cases first with
      | token name =>
          simp only [List.map_cons, List.map_nil, unplaced, Except.toOption_map, valueOf_unplaced,
            Option.map_map]
          rfl
      | _ => rfl
  | first :: _ :: _ :: _ => cases first <;> rfl

theorem withoutDelimiters_unplaced (ts : List Token) :
    withoutDelimiters (ts.map Token.unplaced) = (withoutDelimiters ts).map Token.unplaced := by
  match ts with
  | [] => rfl
  | [first] => rfl
  | first :: second :: rest =>
      have hl : ((second :: rest).map Token.unplaced).getLast (by simp) =
          ((second :: rest).getLast (by simp)).unplaced := List.getLast_map ..
      simp only [List.map_cons] at hl ⊢
      simp only [withoutDelimiters, hl, Token.unplaced_text]
      by_cases h : areDelimiters first.text ((second :: rest).getLast (by simp)).text
      · simp only [h, if_true, ← List.map_cons, List.map_dropLast]
      · simp only [h, Bool.false_eq_true, if_false, List.map_cons]

theorem buildMultiValue_unplaced (t : Tree) :
    (buildMultiValue t.unplaced).toOption = (buildMultiValue t).toOption.map unplaced := by
  unfold buildMultiValue
  rw [Tree.tokens_unplaced, withoutDelimiters_unplaced]
  cases withoutDelimiters t.tokens <;> rfl

theorem pairUp?_unplaced (ts : List Token) : pairUp? (ts.map Token.unplaced) =
    (pairUp? ts).map (List.map (Prod.map Token.unplaced Token.unplaced)) := by
  fun_induction pairUp? ts with
  | case1 => rfl
  | case2 => rfl
  | case3 frame value rest ih => simp [pairUp?, ih, Option.map_map, Function.comp_def]

theorem checkFrames_unplaced (pairs : List (Token × Token)) :
    checkFrames (pairs.map (Prod.map Token.unplaced Token.unplaced)) = checkFrames pairs := by
  induction pairs with
  | nil => rfl
  | cons p pairs ih =>
      simp only [List.map_cons, checkFrames, ih, Prod.map, Token.castFrame_unplaced]

theorem withoutCurveWord_unplaced (ts : List Token) :
    withoutCurveWord (ts.map Token.unplaced) = (withoutCurveWord ts).map Token.unplaced := by
  cases ts with
  | nil => rfl
  | cons t ts => by_cases h : t.text = "curve" <;> simp [withoutCurveWord, h]

theorem buildAnimatedValue_unplaced (t : Tree) :
    (buildAnimatedValue t.unplaced).toOption = (buildAnimatedValue t).toOption.map unplaced := by
  unfold buildAnimatedValue
  simp only [Tree.tokens_unplaced, List.filter_map, Function.comp_def, Token.unplaced_text,
    withoutCurveWord_unplaced, pairUp?_unplaced]
  match pairUp?
      (withoutCurveWord (t.tokens.filter fun t => t.text != "\x7b" && t.text != "\x7d")) with
  | none => rfl
  | some [] => rfl
  | some (p :: pairs) =>
      simp only [Option.map_some, List.map_cons]
      rw [← List.map_cons, checkFrames_unplaced]
      cases checkFrames (p :: pairs) <;> rfl

/-- The builder does not look at the places of tokens. -/
def IgnoresPlaces (b : Builder) : Prop :=
  ∀ t, (b.build t.unplaced).toOption = (b.build t).toOption.map unplaced

end Builder

namespace BuilderTable

/-- No builder of the table looks at the places of tokens. -/
def IgnoresPlaces (table : BuilderTable) : Prop :=
  ∀ {rule b}, table.get? rule = some b → b.IgnoresPlaces

theorem IgnoresPlaces.build {table : BuilderTable} (h : table.IgnoresPlaces) (rule : String)
    (t : Tree) :
    (table.build rule t.unplaced).toOption = (table.build rule t).toOption.map Tree.unplaced := by
  unfold BuilderTable.build
  match hb : table.get? rule with
  | none => rfl
  | some b => exact h hb t

theorem ignoresPlaces_standard : IgnoresPlaces .standard := by
  intro rule b h
  obtain ⟨before, after, he, -⟩ := List.lookup_eq_some_iff.1 h
  have mem : (rule, b) ∈ standard.entries := he ▸ List.mem_append_right before (.head after)
  have entries : standard.entries = [("node", .node), ("knob", .attribute),
      ("multi_value", .multiValue), ("animated_value", .animatedValue)] := rfl
  simp only [entries, List.mem_cons, Prod.mk.injEq, List.not_mem_nil, or_false] at mem
  rcases mem with ⟨-, rfl⟩ | ⟨-, rfl⟩ | ⟨-, rfl⟩ | ⟨-, rfl⟩
  · exact Builder.buildNode_unplaced
  · exact Builder.buildAttribute_unplaced
  · exact Builder.buildMultiValue_unplaced
  · exact Builder.buildAnimatedValue_unplaced

end BuilderTable

end NodeScript
