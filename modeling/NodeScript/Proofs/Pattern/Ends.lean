import NodeScript.Pattern.Finder

/-!
# The ways in which a pattern matches

The places where matches of a pattern at a place can end, in the order in which they are tried.
Matching by going back finds the first of them from which the rest succeeds (`run_eq_findSome?`).
-/

namespace NodeScript

namespace Cursor

/-- The place after some characters, given what follows them. -/
def skip (c : Cursor) (text rest : List Char) : Cursor :=
  ⟨text.getLast?.or c.before, rest, c.offset + text.length⟩

@[simp] theorem start_rest (text : List Char) : (start text).rest = text :=
  rfl

@[simp] theorem start_offset (text : List Char) : (start text).offset = 0 :=
  rfl

@[simp] theorem skip_rest (c : Cursor) (text rest : List Char) : (c.skip text rest).rest = rest :=
  rfl

@[simp] theorem skip_offset (c : Cursor) (text rest : List Char) :
    (c.skip text rest).offset = c.offset + text.length :=
  rfl

@[simp] theorem skip_skip (c : Cursor) (text rest text' rest' : List Char) :
    (c.skip text rest).skip text' rest' = c.skip (text ++ text') rest' := by
  simp [skip, List.getLast?_append, Option.or_assoc, Nat.add_assoc]

theorem skip_nil (c : Cursor) : c.skip [] c.rest = c := by
  simp [skip]

theorem next_eq_skip (c : Cursor) (x : Char) (rest : List Char) : c.next x rest = c.skip [x] rest :=
  rfl

@[simp] theorem wordBefore_skip_concat (c : Cursor) (text rest : List Char) (x : Char) :
    (c.skip (text ++ [x]) rest).wordBefore = Text.isWordChar x := by
  simp [skip, wordBefore]

@[simp] theorem wordAfter_skip (c : Cursor) (text rest : List Char) :
    (c.skip text rest).wordAfter = rest.head?.any Text.isWordChar :=
  rfl

end Cursor

namespace Pattern

/-- The ends of exactly `count` rounds. -/
def endsTimes (body : Cursor → List Cursor) : (count : Nat) → Cursor → List Cursor
  | 0, c => [c]
  | count + 1, c => (body c).flatMap (endsTimes body count)

/-- The ends of at most `count` rounds. -/
def endsAtMost (greedy : Bool) (body : Cursor → List Cursor) : (count : Nat) → Cursor → List Cursor
  | 0, c => [c]
  | count + 1, c =>
    if greedy then (body c).flatMap (endsAtMost greedy body count) ++ [c]
    else c :: (body c).flatMap (endsAtMost greedy body count)

/-- The ends of a pattern's matches at a place, those that are tried first coming first. -/
def ends : Pattern → Cursor → List Cursor
  | .empty, c => [c]
  | .one set, c =>
    match c.rest with
    | x :: rest => if set.accepts x then [c.skip [x] rest] else []
    | [] => []
  | .anchor a, c => if a.holds c then [c] else []
  | .seq first second, c => (first.ends c).flatMap second.ends
  | .alt first second, c => first.ends c ++ second.ends c
  | .rep body least (some extra) greedy, c =>
    (endsTimes body.ends least c).flatMap (endsAtMost greedy body.ends extra)
  | .rep body least none greedy, c =>
    (endsTimes body.ends least c).flatMap fun c' => endsAtMost greedy body.ends c'.rest.length c'
  | .group _ body, c => body.ends c

section Run

variable {α : Type}

theorem orElse_eq_or (a b : Unit → Option α) : orElse a b = (a ()).or (b ()) := by
  unfold orElse
  cases a () <;> rfl

theorem findSome?_flatMap (l : List Cursor) (f : Cursor → List Cursor) (k : Cursor → Option α) :
    (l.flatMap f).findSome? k = l.findSome? fun c => (f c).findSome? k := by
  induction l with
  | nil => rfl
  | cons c l ih => cases h : (f c).findSome? k <;> simp [h, ih]

variable {body : Cursor → Continuation α → Option α} {bodyEnds : Cursor → List Cursor}

theorem times_eq_findSome? (h : ∀ c k, body c k = (bodyEnds c).findSome? k) (count : Nat)
    (c : Cursor) (k : Continuation α) :
    times body count c k = (endsTimes bodyEnds count c).findSome? k := by
  induction count generalizing c with
  | zero => simp [times, endsTimes]
  | succ count ih => simp [times, endsTimes, h, ih, findSome?_flatMap]

theorem atMost_eq_findSome? (h : ∀ c k, body c k = (bodyEnds c).findSome? k) (greedy : Bool)
    (count : Nat) (c : Cursor) (k : Continuation α) :
    atMost greedy body count c k = (endsAtMost greedy bodyEnds count c).findSome? k := by
  induction count generalizing c with
  | zero => simp [atMost, endsAtMost]
  | succ count ih =>
      cases greedy with
      | true => simp [atMost, endsAtMost, choose, orElse_eq_or, h, ih, findSome?_flatMap]
      | false =>
          simp only [atMost, endsAtMost, choose, orElse_eq_or, h, ih]
          cases hk : k c <;> simp [hk, findSome?_flatMap]

/-- Matching and going on succeeds at the first end from which going on succeeds. -/
theorem run_eq_findSome? (p : Pattern) (c : Cursor) (k : Continuation α) :
    p.run c k = (p.ends c).findSome? k := by
  induction p generalizing c k with
  | empty => simp [run, ends]
  | one set =>
      simp only [run, ends]
      cases c.rest with
      | nil => rfl
      | cons x rest => by_cases h : set.accepts x <;> simp [h, Cursor.next_eq_skip]
  | anchor a => by_cases h : a.holds c <;> simp [run, ends, h]
  | seq first second ih ih' => simp [run, ends, ih, ih', findSome?_flatMap]
  | alt first second ih ih' => simp [run, ends, ih, ih', orElse_eq_or]
  | rep body least extra greedy ih =>
      cases extra with
      | some extra =>
          simp [run, ends, times_eq_findSome? ih, atMost_eq_findSome? ih, findSome?_flatMap]
      | none =>
          simp [run, ends, times_eq_findSome? ih, atMost_eq_findSome? ih, findSome?_flatMap]
  | group _ body ih => simp [run, ends, ih]

end Run

theorem matchAt?_eq (p : Pattern) (c : Cursor) :
    p.matchAt? c = ((p.ends c).head?).map Cursor.offset := by
  rw [matchAt?, run_eq_findSome?]
  cases p.ends c <;> simp

/-! ## What all ends have in common -/

/-- The cursor is the place after some of the characters that follow another, which all have a
property. -/
def Follows (K : Char → Prop) (c c' : Cursor) : Prop :=
  ∃ text, c.rest = text ++ c'.rest ∧ c' = c.skip text c'.rest ∧ ∀ x ∈ text, K x

variable {K K' : Char → Prop}

theorem Follows.refl (c : Cursor) : Follows K c c :=
  ⟨[], rfl, (c.skip_nil).symm, by simp⟩

theorem Follows.trans {c c' c'' : Cursor} (h : Follows K c c') (h' : Follows K c' c'') :
    Follows K c c'' := by
  obtain ⟨text, hr, hc, ht⟩ := h
  obtain ⟨text', hr', hc', ht'⟩ := h'
  refine ⟨text ++ text', by rw [hr, hr', List.append_assoc], ?_, ?_⟩
  · rw [hc', hc]
    simp
  · intro x hx
    exact (List.mem_append.1 hx).elim (ht x) (ht' x)

theorem Follows.weaken {c c' : Cursor} (h : Follows K c c') (hk : ∀ x, K x → K' x) :
    Follows K' c c' := by
  obtain ⟨text, hc, hc', ht⟩ := h
  exact ⟨text, hc, hc', fun x hx => hk x (ht x hx)⟩

/-- What holds of no and of one round, and of two parts in turn, holds of some rounds. -/
theorem endsTimes_induct {R : Cursor → Cursor → Prop} {body : Cursor → List Cursor}
    (refl : ∀ c, R c c) (trans : ∀ {c c' c''}, R c c' → R c' c'' → R c c'')
    (h : ∀ {c c'}, c' ∈ body c → R c c') :
    ∀ {count c c'}, c' ∈ endsTimes body count c → R c c'
  | 0, c, c', hc => by
      obtain rfl : c' = c := by simpa [endsTimes] using hc
      exact refl _
  | count + 1, c, c', hc => by
      obtain ⟨c₁, h₁, h₂⟩ := List.mem_flatMap.1 hc
      exact trans (h h₁) (endsTimes_induct refl trans h h₂)

theorem endsAtMost_induct {R : Cursor → Cursor → Prop} {body : Cursor → List Cursor}
    {greedy : Bool} (refl : ∀ c, R c c) (trans : ∀ {c c' c''}, R c c' → R c' c'' → R c c'')
    (h : ∀ {c c'}, c' ∈ body c → R c c') :
    ∀ {count c c'}, c' ∈ endsAtMost greedy body count c → R c c'
  | 0, c, c', hc => by
      obtain rfl : c' = c := by simpa [endsAtMost] using hc
      exact refl _
  | count + 1, c, c', hc => by
      have hc : c' = c ∨ c' ∈ (body c).flatMap (endsAtMost greedy body count) := by
        cases greedy <;> simpa [endsAtMost, or_comm] using hc
      rcases hc with rfl | hc
      · exact refl _
      · obtain ⟨c₁, h₁, h₂⟩ := List.mem_flatMap.1 hc
        exact trans (h h₁) (endsAtMost_induct refl trans h h₂)

/-- Whether a match can read a character, when it is easily told. -/
def reads : Pattern → Char → Bool
  | .empty, _ => false
  | .one set, x => set.accepts x
  | .anchor _, _ => false
  | .seq first second, x => first.reads x || second.reads x
  | .alt first second, x => first.reads x || second.reads x
  | .rep body _ _ _, x => body.reads x
  | .group _ body, x => body.reads x

/-- Every end follows characters that the pattern reads. -/
theorem ends_follow (p : Pattern) {c c' : Cursor} (h : c' ∈ p.ends c) :
    Follows (fun x => p.reads x = true) c c' := by
  induction p generalizing c c' with
  | empty =>
      obtain rfl : c' = c := by simpa [ends] using h
      exact .refl _
  | one set =>
      match hr : c.rest with
      | [] => simp [ends, hr] at h
      | x :: rest =>
          obtain ⟨hx, rfl⟩ : set.accepts x ∧ c' = c.skip [x] rest := by simpa [ends, hr] using h
          exact ⟨[x], hr, rfl, by simpa [reads] using hx⟩
  | anchor a =>
      obtain ⟨_, rfl⟩ : a.holds c ∧ c' = c := by simpa [ends] using h
      exact .refl _
  | seq first second ih ih' =>
      obtain ⟨c₁, h₁, h₂⟩ := List.mem_flatMap.1 h
      exact ((ih h₁).weaken (by simp +contextual [reads])).trans
        ((ih' h₂).weaken (by simp +contextual [reads]))
  | alt first second ih ih' =>
      rcases List.mem_append.1 h with h | h
      · exact (ih h).weaken (by simp +contextual [reads])
      · exact (ih' h).weaken (by simp +contextual [reads])
  | rep body least extra greedy ih =>
      let R : Cursor → Cursor → Prop := Follows fun x => body.reads x = true
      cases extra with
      | some extra =>
          obtain ⟨c₁, h₁, h₂⟩ := List.mem_flatMap.1 h
          exact (endsTimes_induct (R := R) .refl .trans ih h₁).trans
            (endsAtMost_induct (R := R) .refl .trans ih h₂)
      | none =>
          obtain ⟨c₁, h₁, h₂⟩ := List.mem_flatMap.1 h
          exact (endsTimes_induct (R := R) .refl .trans ih h₁).trans
            (endsAtMost_induct (R := R) .refl .trans ih h₂)
  | group _ body ih => exact ih h

end Pattern

end NodeScript
