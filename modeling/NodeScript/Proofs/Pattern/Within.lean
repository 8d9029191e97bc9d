import NodeScript.Proofs.Pattern.Following

/-!
# Matches within a text

What follows a text has no say in the matches that end within the text, but for a word boundary at
the end of the text. So of a text that goes on, the matches that do not go on with it are those of
the text alone, in the same order.
-/

namespace NodeScript.Pattern

/-- Whether matches within a text do not depend on what follows it, when it is easily seen; with
`words`, they may depend on whether a word goes on there. Rounds without a bound must read
something, as their number depends on how much text there is. -/
def isLocal (words : Bool) : Pattern → Bool
  | .empty => true
  | .one _ => true
  | .anchor a => a == .textStart || (words && a == .wordBoundary)
  | .seq first second => first.isLocal words && second.isLocal words
  | .alt first second => first.isLocal words && second.isLocal words
  | .rep body _ extra _ => body.isLocal words && (extra.isSome || !body.nullable)
  | .group _ body => body.isLocal words

/-- A pattern that also never reads a character stops at it. -/
theorem stopsAt_of_isLocal {words : Bool} {x : Char} (p : Pattern) (h : p.isLocal words)
    (hx : p.reads x = false) : p.stopsAt x := by
  induction p with
  | empty => rfl
  | one set => simpa [stopsAt, reads] using hx
  | anchor a =>
      simp only [isLocal, Bool.or_eq_true, Bool.and_eq_true] at h
      simp only [stopsAt, Bool.or_eq_true]
      exact h.imp_right And.right
  | seq first second ih ih' =>
      obtain ⟨hf, hs⟩ := Bool.and_eq_true_iff.1 h
      obtain ⟨hxf, hxs⟩ := Bool.or_eq_false_iff.1 hx
      exact Bool.and_eq_true_iff.2 ⟨ih hf hxf, ih' hs hxs⟩
  | alt first second ih ih' =>
      obtain ⟨hf, hs⟩ := Bool.and_eq_true_iff.1 h
      obtain ⟨hxf, hxs⟩ := Bool.or_eq_false_iff.1 hx
      exact Bool.and_eq_true_iff.2 ⟨ih hf hxf, ih' hs hxs⟩
  | rep body least extra greedy ih =>
      obtain ⟨hb, he⟩ := Bool.and_eq_true_iff.1 h
      exact Bool.and_eq_true_iff.2 ⟨ih hb hx, he⟩
  | group _ body ih => exact ih h hx

/-- The ways that end before the text `after`. -/
def within (after : List Char) (cs : List Cursor) : List Cursor :=
  cs.filter fun c => after.length ≤ c.rest.length

/-- Ways that, when the text goes on with `after`, are within the text those of the text alone. Ways
never lead back. -/
structure Stays (after : List Char) (ways : Cursor → List Cursor) : Prop where
  forward : ∀ {c c'}, c' ∈ ways c → c'.rest.length ≤ c.rest.length
  within : ∀ c, within after (ways (c.followedBy after)) = (ways c).map (·.followedBy after)

namespace Stays

variable {after : List Char} {f g : Cursor → List Cursor}

theorem within_followedBy (c : Cursor) :
    Pattern.within after [c.followedBy after] = [c.followedBy after] := by
  simp [Pattern.within, Cursor.followedBy]

theorem stay : Stays after fun c => [c] where
  forward h := by simp [List.mem_singleton.1 h]
  within c := within_followedBy c

theorem either (hf : Stays after f) (hg : Stays after g) : Stays after fun c => f c ++ g c where
  forward h := (List.mem_append.1 h).elim hf.forward hg.forward
  within c := by
    rw [Pattern.within, List.filter_append, List.map_append, ← hf.within, ← hg.within]
    rfl

/-- One way after another: what has gone beyond the text does not come back. -/
theorem andThen (hf : Stays after f) (hg : Stays after g) :
    Stays after fun c => (f c).flatMap g where
  forward h := by
    obtain ⟨mid, h₁, h₂⟩ := List.mem_flatMap.1 h
    exact Nat.le_trans (hg.forward h₂) (hf.forward h₁)
  within c := by
    have beyond (cs : List Cursor) : Pattern.within after (cs.flatMap g) =
        Pattern.within after ((Pattern.within after cs).flatMap g) := by
      induction cs with
      | nil => rfl
      | cons c cs ih =>
          by_cases hc : after.length ≤ c.rest.length
          · simp only [Pattern.within, List.flatMap_cons, List.filter_append, List.filter_cons, hc,
              decide_true, if_true] at ih ⊢
            rw [ih]
          · have none : (g c).filter (fun c => after.length ≤ c.rest.length) = [] :=
              List.filter_eq_nil_iff.2 fun c' hc' => by
                have := hg.forward hc'
                simp only [decide_eq_true_eq]
                omega
            simp only [Pattern.within, List.flatMap_cons, List.filter_append, List.filter_cons, hc,
              none, decide_false, Bool.false_eq_true, if_false, List.nil_append] at ih ⊢
            rw [ih]
    rw [beyond, hf.within, Pattern.within, List.flatMap_map, List.filter_flatMap,
      List.map_flatMap]
    exact List.flatMap_congr fun c' _ => hg.within c'

/-- Rounds that all read something, as many as there can be. -/
theorem rounds {greedy : Bool} (hs : ∀ {c c'}, c' ∈ f c → c'.rest.length < c.rest.length)
    (hr : ∀ count, Stays after (endsAtMost greedy f count)) :
    Stays after fun c => endsAtMost greedy f c.rest.length c where
  forward h := (hr _).forward h
  within c := by
    have fewer : endsAtMost greedy f (c.followedBy after).rest.length c =
        endsAtMost greedy f c.rest.length c :=
      endsAtMost_eq hs (by simp [Cursor.followedBy]) (Nat.le_refl _)
    rw [(hr _).within, fewer]

theorem compositional : Compositional (Stays after) :=
  ⟨stay, either, andThen, rounds⟩

end Stays

variable {after : List Char}

theorem holds_textStart (c : Cursor) :
    Anchor.textStart.holds (c.followedBy after) = Anchor.textStart.holds c :=
  rfl

theorem holds_wordBoundary (h : after.head?.any Text.isWordChar = false) (c : Cursor) :
    Anchor.wordBoundary.holds (c.followedBy after) = Anchor.wordBoundary.holds c := by
  cases hr : c.rest <;>
    simp [Anchor.holds, Cursor.followedBy, Cursor.wordBefore, Cursor.wordAfter, hr, h]

theorem stays_one (after : List Char) (set : CharSet) : Stays after (Pattern.one set).ends := by
  refine ⟨fun hm => Nat.le_of_lt (length_lt_of_mem_ends rfl hm), fun c => ?_⟩
  match hr : c.rest with
  | [] =>
      -- at the end of the text what is read is beyond it
      have none : (Pattern.one set).ends c = [] := by simp [ends, hr]
      rw [none, List.map_nil]
      refine List.filter_eq_nil_iff.2 fun c' hc' => ?_
      have := length_lt_of_mem_ends (p := .one set) rfl hc'
      simp only [Cursor.followedBy, hr, List.nil_append] at this
      simpa using this
  | x :: rest =>
      by_cases hx : set.accepts x <;>
        simp [ends, within, Cursor.followedBy, Cursor.skip, hr, hx]

theorem stays_anchor {a : Anchor} (h : ∀ c, a.holds (c.followedBy after) = a.holds c) :
    Stays after (Pattern.anchor a).ends := by
  refine ⟨fun hm => ?_, fun c => ?_⟩
  · obtain ⟨-, rfl⟩ := by simpa [ends] using hm
    exact Nat.le_refl _
  · simp only [ends, h]
    by_cases ha : a.holds c
    · simpa [ha] using Stays.within_followedBy c
    · simp [ha, within]

/-- The matches within a text that goes on are those of the text alone. -/
theorem stays_ends {words : Bool} (hw : words = true → after.head?.any Text.isWordChar = false)
    (p : Pattern) (h : p.isLocal words) : Stays after p.ends := by
  induction p with
  | empty => exact .stay
  | one set => exact stays_one after set
  | anchor a =>
      simp only [isLocal, Bool.or_eq_true, Bool.and_eq_true, beq_iff_eq] at h
      rcases h with rfl | ⟨rfl, rfl⟩
      · exact stays_anchor holds_textStart
      · exact stays_anchor (holds_wordBoundary (hw rfl))
  | seq first second ih ih' =>
      obtain ⟨hf, hs⟩ := Bool.and_eq_true_iff.1 h
      exact (ih hf).andThen (ih' hs)
  | alt first second ih ih' =>
      obtain ⟨hf, hs⟩ := Bool.and_eq_true_iff.1 h
      exact (ih hf).either (ih' hs)
  | rep body least extra greedy ih =>
      obtain ⟨hb, he⟩ := Bool.and_eq_true_iff.1 h
      exact Stays.compositional.rep (ih hb) he least greedy
  | group _ body ih => exact ih h

end NodeScript.Pattern
