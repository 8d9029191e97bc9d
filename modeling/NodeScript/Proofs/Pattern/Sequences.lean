import NodeScript.Pattern.Canonical
import NodeScript.Proofs.Pattern.Ends

/-!
# Patterns one after the other

The ends of a sequence of patterns, the first of them, and what a match can begin with. Runs of
characters of a set are told by where they can end, which is how a sequence that goes on with
another set is seen to fail.
-/

namespace NodeScript.Pattern

/-! ## Sequences -/

/-- The ends of patterns one after the other. -/
def endsAll : List Pattern → Cursor → List Cursor
  | [], c => [c]
  | p :: ps, c => (p.ends c).flatMap (endsAll ps)

theorem endsAll_append (ps qs : List Pattern) (c : Cursor) :
    endsAll (ps ++ qs) c = (endsAll ps c).flatMap (endsAll qs) := by
  induction ps generalizing c with
  | nil => simp [endsAll]
  | cons p ps ih => simp [endsAll, funext ih, List.flatMap_assoc]

theorem endsAll_singleton (p : Pattern) (c : Cursor) : endsAll [p] c = p.ends c := by
  simp [endsAll]

theorem endsAll_parts (p : Pattern) (c : Cursor) : endsAll p.parts c = p.ends c := by
  induction p generalizing c with
  | empty => rfl
  | seq first second ih ih' =>
      rw [parts, endsAll_append, ih, ends]
      congr 1
      funext c'
      exact ih' c'
  | _ => exact endsAll_singleton _ c

theorem ends_join (first : Pattern) (rest : List Pattern) (c : Cursor) :
    (join .seq first rest).ends c = endsAll (first :: rest) c := by
  induction rest generalizing first c with
  | nil => simp [join, endsAll]
  | cons second rest ih =>
      simp only [join, ends, funext (ih second), endsAll]

theorem ends_concat (items : List Pattern) (c : Cursor) :
    (concat items).ends c = endsAll items c := by
  have flat : endsAll (items.flatMap parts) c = endsAll items c := by
    induction items generalizing c with
    | nil => rfl
    | cons p ps ih =>
        rw [List.flatMap_cons, endsAll_append, endsAll_parts, endsAll]
        congr 1
        funext c'
        exact ih c'
  rw [← flat, concat]
  cases items.flatMap parts with
  | nil => rfl
  | cons first rest => exact ends_join first rest c

theorem mem_endsAll_nil {c c' : Cursor} : c' ∈ endsAll [] c ↔ c' = c := by
  simp [endsAll]

theorem mem_endsAll_cons {p : Pattern} {ps : List Pattern} {c c'' : Cursor} :
    c'' ∈ endsAll (p :: ps) c ↔ ∃ c' ∈ p.ends c, c'' ∈ endsAll ps c' := by
  simp [endsAll]

theorem endsAll_follow {ps : List Pattern} {c c' : Cursor} (h : c' ∈ endsAll ps c) :
    Follows (fun x => (concat ps).reads x = true) c c' := by
  rw [← ends_concat] at h
  exact ends_follow _ h

/-! ## The first end -/

/-- Patterns one after the other take a text first where it stands before the rest. -/
def TakesFirst (ps : List Pattern) (text rest : List Char) : Prop :=
  ∀ c : Cursor, c.rest = text ++ rest → (endsAll ps c).head? = some (c.skip text rest)

/-- The pattern cannot match where the text stands. -/
def Fails (p : Pattern) (text : List Char) : Prop :=
  ∀ c : Cursor, c.rest = text → p.ends c = []

/-- What one pattern takes first and the others take first from there on. -/
theorem TakesFirst.cons {p : Pattern} {ps : List Pattern} {text text' rest : List Char}
    (hp : TakesFirst [p] text (text' ++ rest)) (hps : TakesFirst ps text' rest) :
    TakesFirst (p :: ps) (text ++ text') rest := by
  intro c hc
  have hp := hp c (by rw [hc, List.append_assoc])
  have hps := hps (c.skip text (text' ++ rest)) rfl
  rw [endsAll_singleton] at hp
  rw [endsAll]
  match hc : p.ends c with
  | [] => simp [hc] at hp
  | c' :: cs =>
      obtain rfl : c' = _ := by simpa [hc] using hp
      rw [List.flatMap_cons, List.head?_append, hps]
      simp

theorem takesFirst_one {s : CharSet} {x : Char} (h : s.accepts x) (rest : List Char) :
    TakesFirst [.one s] [x] rest := by
  intro c hc
  simp [endsAll_singleton, ends, hc, h]

theorem fails_one {set : CharSet} {rest : List Char} (h : ∀ x ∈ rest.head?, ¬set.accepts x) :
    Fails (.one set) rest := by
  rintro c rfl
  match hc : c.rest with
  | [] => simp [ends, hc]
  | x :: rest => simp [ends, hc, h x (by simp [hc])]

theorem Fails.concat_cons {p : Pattern} {ps : List Pattern} {rest : List Char} (h : Fails p rest) :
    Fails (.concat (p :: ps)) rest := by
  intro c hc
  simp [ends_concat, endsAll, h c hc]

/-- A word boundary after a word character, where no word character follows. -/
theorem TakesFirst.boundary {ps : List Pattern} {text rest : List Char} {x : Char}
    (h : TakesFirst ps (text ++ [x]) rest) (hx : Text.isWordChar x)
    (hr : rest.head?.any Text.isWordChar = false) :
    TakesFirst (ps ++ [.anchor .wordBoundary]) (text ++ [x]) rest := by
  intro c hc
  have h := h c hc
  rw [endsAll_append]
  match he : endsAll ps c with
  | [] => simp [he] at h
  | c' :: cs =>
      obtain rfl : c' = _ := by simpa [he] using h
      have hb : Anchor.wordBoundary.holds (c.skip (text ++ [x]) rest) := by
        simp [Anchor.holds, hx, hr]
      simp [endsAll_singleton, ends, hb]

theorem TakesFirst.alt_left {p : Pattern} {text rest : List Char} (h : TakesFirst [p] text rest)
    (q : Pattern) : TakesFirst [.alt p q] text rest := by
  intro c hc
  rw [endsAll_singleton, ends, List.head?_append, ← endsAll_singleton p, h c hc]
  rfl

theorem TakesFirst.alt_right {p q : Pattern} {text rest : List Char} (hp : Fails p (text ++ rest))
    (h : TakesFirst [q] text rest) : TakesFirst [.alt p q] text rest := by
  intro c hc
  rw [endsAll_singleton, ends, hp c hc, List.nil_append, ← endsAll_singleton q, h c hc]

theorem TakesFirst.concat {ps : List Pattern} {text rest : List Char}
    (h : TakesFirst ps text rest) : TakesFirst [.concat ps] text rest := by
  intro c hc
  rw [endsAll_singleton, ends_concat, h c hc]

/-! ## Repetitions -/

theorem endsAtMost_ne_nil (greedy : Bool) (body : Cursor → List Cursor) (count : Nat) (c : Cursor) :
    endsAtMost greedy body count c ≠ [] := by
  cases count <;> cases greedy <;> simp [endsAtMost]

/-- A greedy repetition goes on from the first end of a round. -/
theorem head?_endsAtMost {body : Cursor → List Cursor} {c c' : Cursor} {cs : List Cursor}
    (h : body c = c' :: cs) (count : Nat) :
    (endsAtMost true body (count + 1) c).head? = (endsAtMost true body count c').head? := by
  have hne := endsAtMost_ne_nil true body count c'
  obtain ⟨c₁, cs₁, h₁⟩ := List.exists_cons_of_ne_nil hne
  simp [endsAtMost, h, h₁]

/-- A greedy repetition stops where no round is possible. -/
theorem head?_endsAtMost_stop {body : Cursor → List Cursor} {c : Cursor} (h : body c = [])
    (count : Nat) : (endsAtMost true body count c).head? = some c := by
  cases count <;> simp [endsAtMost, h]

theorem takesFirst_optional {p : Pattern} {text rest : List Char} (h : TakesFirst [p] text rest) :
    TakesFirst [.rep p 0 (some 1) true] text rest := by
  intro c hc
  have h := h c hc
  rw [endsAll_singleton] at h
  match hc : p.ends c with
  | [] => simp [hc] at h
  | c' :: cs =>
      obtain rfl : c' = _ := by simpa [hc] using h
      simp [endsAll_singleton, ends, endsTimes, endsAtMost, h]

theorem takesFirst_optional_none {p : Pattern} {rest : List Char} (h : Fails p rest) :
    TakesFirst [.rep p 0 (some 1) true] [] rest := by
  rintro c rfl
  simp [endsAll_singleton, ends, endsTimes, head?_endsAtMost_stop (h c rfl), c.skip_nil]

/-- A greedy repetition takes rounds that each take their text first, up to where it fails. -/
theorem takesFirst_rep {p : Pattern} {rounds : List (List Char)} {rest : List Char}
    (h : ∀ round ∈ rounds, round ≠ [] ∧ ∀ after, TakesFirst [p] round after) (hr : Fails p rest) :
    TakesFirst [.rep p 0 none true] rounds.flatten rest := by
  have go (count : Nat) (hl : rounds.length ≤ count) (c : Cursor)
      (hc : c.rest = rounds.flatten ++ rest) :
      (endsAtMost true p.ends count c).head? = some (c.skip rounds.flatten rest) := by
    induction rounds generalizing count c with
    | nil =>
        have hc : c.rest = rest := hc
        rw [head?_endsAtMost_stop (hr c hc), List.flatten_nil, ← hc, c.skip_nil]
    | cons round rounds ih =>
        obtain ⟨⟨_, ht⟩, hs⟩ := List.forall_mem_cons.1 h
        obtain ⟨count, rfl⟩ : ∃ m, count = m + 1 := ⟨count - 1, by simp at hl; omega⟩
        have ht := ht (rounds.flatten ++ rest) c (by simpa using hc)
        rw [endsAll_singleton] at ht
        match he : p.ends c with
        | [] => simp [he] at ht
        | c' :: cs =>
            obtain rfl : c' = _ := by simpa [he] using ht
            rw [head?_endsAtMost he, ih hs count (by simpa using hl) _ rfl]
            simp
  -- the rounds are bounded by the characters that are left, and no round is empty
  have hl : rounds.length ≤ rounds.flatten.length := by
    clear go
    induction rounds with
    | nil => simp
    | cons round rounds ih =>
        obtain ⟨⟨hne, _⟩, hs⟩ := List.forall_mem_cons.1 h
        have := List.length_pos_iff.2 hne
        have := ih hs
        simp only [List.length_cons, List.flatten_cons, List.length_append]
        omega
  intro c hc
  simp only [endsAll_singleton, ends, endsTimes, List.flatMap_singleton]
  exact go _ (by simp only [hc, List.length_append]; omega) c hc

/-! ## Runs of characters -/

theorem ends_rep_none (body : Pattern) (least : Nat) (greedy : Bool) (c : Cursor) :
    (Pattern.rep body least none greedy).ends c = (endsTimes body.ends least c).flatMap fun c' =>
      endsAtMost greedy body.ends c'.rest.length c' :=
  rfl

/-- The ends of at most so many characters of a set are the ends of its runs. -/
theorem mem_endsAtMost_one {set : CharSet} {count : Nat} {c c' : Cursor} :
    c' ∈ endsAtMost true (Pattern.one set).ends count c ↔ ∃ run rest, c.rest = run ++ rest ∧
      run.length ≤ count ∧ (∀ x ∈ run, set.accepts x) ∧ c' = c.skip run rest := by
  induction count generalizing c with
  | zero =>
      constructor
      · intro h
        obtain rfl : c' = c := by simpa [endsAtMost] using h
        exact ⟨[], c'.rest, rfl, Nat.le_refl _, by simp, c'.skip_nil.symm⟩
      · rintro ⟨run, rest, hc, hl, _, rfl⟩
        obtain rfl : run = [] := by simpa using hl
        obtain rfl : c.rest = rest := hc
        simp [endsAtMost, c.skip_nil]
  | succ count ih =>
      simp only [endsAtMost, if_true, List.mem_append, List.mem_singleton, List.mem_flatMap, ih]
      constructor
      · rintro (⟨c₁, h₁, run, rest, hc, hl, hs, rfl⟩ | rfl)
        · cases hr : c.rest with
          | nil => simp [ends, hr] at h₁
          | cons x rest' =>
              obtain ⟨hx, rfl⟩ : set.accepts x ∧ c₁ = c.skip [x] rest' := by
                simpa [ends, hr] using h₁
              obtain rfl : rest' = run ++ rest := hc
              exact ⟨x :: run, rest, rfl, by simpa using hl, by simpa [hx] using hs, by simp⟩
        · exact ⟨[], c'.rest, rfl, Nat.zero_le _, by simp, c'.skip_nil.symm⟩
      · rintro ⟨run, rest, hc, hl, hs, rfl⟩
        cases run with
        | nil =>
            obtain rfl : c.rest = rest := hc
            exact .inr c.skip_nil
        | cons x run =>
            obtain ⟨hx, hs⟩ := List.forall_mem_cons.1 hs
            refine .inl ⟨c.skip [x] (run ++ rest), ?_, run, rest, rfl, by simpa using hl, hs,
              by simp⟩
            simp [ends, hc, hx]

theorem mem_ends_anyOf {set : CharSet} {c c' : Cursor} :
    c' ∈ (Pattern.rep (.one set) 0 none true).ends c ↔ ∃ run rest, c.rest = run ++ rest ∧
      (∀ x ∈ run, set.accepts x) ∧ c' = c.skip run rest := by
  simp only [ends_rep_none, endsTimes, List.flatMap_singleton, mem_endsAtMost_one]
  constructor
  · rintro ⟨run, rest, hc, _, hs, rfl⟩
    exact ⟨run, rest, hc, hs, rfl⟩
  · rintro ⟨run, rest, hc, hs, rfl⟩
    exact ⟨run, rest, hc, by simp [hc], hs, rfl⟩

theorem mem_ends_someOf {set : CharSet} {c c' : Cursor} :
    c' ∈ (Pattern.rep (.one set) 1 none true).ends c ↔ ∃ run rest, c.rest = run ++ rest ∧
      run ≠ [] ∧ (∀ x ∈ run, set.accepts x) ∧ c' = c.skip run rest := by
  simp only [ends_rep_none, endsTimes, List.mem_flatMap, mem_endsAtMost_one, List.mem_singleton]
  constructor
  · rintro ⟨c₁, ⟨_, h₁, rfl⟩, run, rest, hc, _, hs, rfl⟩
    cases hr : c.rest with
    | nil => simp [ends, hr] at h₁
    | cons x rest' =>
        obtain ⟨hx, rfl⟩ : set.accepts x ∧ c₁ = c.skip [x] rest' := by simpa [ends, hr] using h₁
        obtain rfl : rest' = run ++ rest := hc
        exact ⟨x :: run, rest, rfl, by simp, by simpa [hx] using hs, by simp⟩
  · rintro ⟨run, rest, hc, hne, hs, rfl⟩
    obtain ⟨x, run, rfl⟩ := List.exists_cons_of_ne_nil hne
    obtain ⟨hx, hs⟩ := List.forall_mem_cons.1 hs
    exact ⟨_, ⟨c.skip [x] (run ++ rest), by simp [ends, hc, hx], rfl⟩, run, rest, rfl, by simp, hs,
      by simp⟩

/-- A run goes as far as it can. -/
theorem head?_endsAtMost_one {set : CharSet} {run rest : List Char} (hs : ∀ x ∈ run, set.accepts x)
    (hr : ∀ x ∈ rest.head?, ¬set.accepts x) {count : Nat} (hl : run.length ≤ count) {c : Cursor}
    (hc : c.rest = run ++ rest) :
    (endsAtMost true (Pattern.one set).ends count c).head? = some (c.skip run rest) := by
  induction run generalizing count c with
  | nil =>
      have hc : c.rest = rest := hc
      rw [head?_endsAtMost_stop (fails_one hr c hc), ← hc, c.skip_nil]
  | cons x run ih =>
      obtain ⟨hx, hs⟩ := List.forall_mem_cons.1 hs
      obtain ⟨count, rfl⟩ : ∃ m, count = m + 1 := ⟨count - 1, by simp at hl; omega⟩
      have h : (Pattern.one set).ends c = [c.skip [x] (run ++ rest)] := by simp [ends, hc, hx]
      rw [head?_endsAtMost h, ih hs (by simpa using hl) rfl]
      simp

theorem takesFirst_anyOf {set : CharSet} {run rest : List Char} (hs : ∀ x ∈ run, set.accepts x)
    (hr : ∀ x ∈ rest.head?, ¬set.accepts x) :
    TakesFirst [.rep (.one set) 0 none true] run rest := by
  intro c hc
  simp only [endsAll_singleton, ends_rep_none, endsTimes, List.flatMap_singleton]
  exact head?_endsAtMost_one hs hr (by simp [hc]) hc

theorem takesFirst_someOf {set : CharSet} {run rest : List Char} (hne : run ≠ [])
    (hs : ∀ x ∈ run, set.accepts x) (hr : ∀ x ∈ rest.head?, ¬set.accepts x) :
    TakesFirst [.rep (.one set) 1 none true] run rest := by
  intro c hc
  obtain ⟨x, run, rfl⟩ := List.exists_cons_of_ne_nil hne
  obtain ⟨hx, hs⟩ := List.forall_mem_cons.1 hs
  have h : endsTimes (Pattern.one set).ends 1 c = [c.skip [x] (run ++ rest)] := by
    simp [endsTimes, ends, hc, hx]
  simp only [endsAll_singleton, ends_rep_none, h, List.flatMap_singleton]
  rw [head?_endsAtMost_one hs hr (by simp) rfl]
  simp

/-! ## What matches need -/

/-- Whether every match has a character of one of the sets, when it is easily told. -/
def needs (sets : List CharSet) : Pattern → Bool
  | .empty => false
  | .one set => set ∈ sets
  | .anchor _ => false
  | .seq first second => first.needs sets || second.needs sets
  | .alt first second => first.needs sets && second.needs sets
  | .rep body least _ _ => least != 0 && body.needs sets
  | .group _ body => body.needs sets

/-- A match of some characters of which one has a property. -/
def Reads (P : Char → Prop) (c c' : Cursor) : Prop :=
  ∃ text, c.rest = text ++ c'.rest ∧ ∃ x ∈ text, P x

variable {P : Char → Prop}

theorem Reads.trans_follows {K : Char → Prop} {c c' c'' : Cursor} (h : Reads P c c')
    (h' : Follows K c' c'') : Reads P c c'' := by
  obtain ⟨text, hc, x, hx, hp⟩ := h
  obtain ⟨text', hc', -, -⟩ := h'
  exact ⟨text ++ text', by rw [hc, hc', List.append_assoc], x, by simp [hx], hp⟩

theorem Reads.of_follows {K : Char → Prop} {c c' c'' : Cursor} (h : Follows K c c')
    (h' : Reads P c' c'') : Reads P c c'' := by
  obtain ⟨text, hc, -, -⟩ := h
  obtain ⟨text', hc', x, hx, hp⟩ := h'
  exact ⟨text ++ text', by rw [hc, hc', List.append_assoc], x, by simp [hx], hp⟩

theorem reads_of_mem_ends {sets : List CharSet} (hP : ∀ set ∈ sets, ∀ x, set.accepts x → P x)
    (p : Pattern) (hn : p.needs sets) {c c' : Cursor} (h : c' ∈ p.ends c) : Reads P c c' := by
  induction p generalizing c c' with
  | one set =>
      match hr : c.rest with
      | [] => simp [ends, hr] at h
      | x :: rest =>
          obtain ⟨hx, rfl⟩ : set.accepts x ∧ c' = c.skip [x] rest := by simpa [ends, hr] using h
          exact ⟨[x], hr, x, by simp, hP set (by simpa [needs] using hn) x hx⟩
  | seq first second ih ih' =>
      obtain ⟨c₁, h₁, h₂⟩ := List.mem_flatMap.1 h
      rcases Bool.or_eq_true_iff.1 hn with hn | hn
      · exact (ih hn h₁).trans_follows (ends_follow _ h₂)
      · exact .of_follows (ends_follow _ h₁) (ih' hn h₂)
  | alt first second ih ih' =>
      obtain ⟨hn, hn'⟩ := Bool.and_eq_true_iff.1 hn
      exact (List.mem_append.1 h).elim (ih hn) (ih' hn')
  | rep body least extra greedy ih =>
      obtain ⟨hl, hn⟩ := Bool.and_eq_true_iff.1 hn
      obtain ⟨least, rfl⟩ : ∃ m, least = m + 1 := ⟨least - 1, by simp at hl; omega⟩
      have rounds {extra : Cursor → Nat}
          (h : c' ∈ (endsTimes body.ends (least + 1) c).flatMap fun c₁ =>
            endsAtMost greedy body.ends (extra c₁) c₁) : Reads P c c' := by
        obtain ⟨c₁, h₁, h₂⟩ := List.mem_flatMap.1 h
        obtain ⟨c₂, h₂', h₃⟩ := List.mem_flatMap.1 h₁
        let R : Cursor → Cursor → Prop := Follows fun x => body.reads x = true
        have hR : R c₂ c' := (endsTimes_induct (R := R) .refl .trans (ends_follow _) h₃).trans
          (endsAtMost_induct (R := R) .refl .trans (ends_follow _) h₂)
        exact (ih hn h₂').trans_follows hR
      cases extra with
      | some extra => exact rounds h
      | none => exact rounds h
  | group _ body ih => exact ih hn h
  | empty => cases hn
  | anchor a => cases hn

/-- A pattern fails before a text that has nothing of what it needs, followed by what it does not
read. -/
theorem fails_of_needs {p : Pattern} (sets : List CharSet) (hn : p.needs sets)
    {text rest : List Char} (ht : ∀ x ∈ text, ∀ set ∈ sets, ¬set.accepts x)
    (hr : ∀ x ∈ rest.head?, ¬p.reads x) : Fails p (text ++ rest) := by
  intro c hc
  refine List.eq_nil_iff_forall_not_mem.2 fun c' h => ?_
  obtain ⟨taken, h₁, x, hx, hP⟩ :=
    reads_of_mem_ends (P := fun x => ∃ set ∈ sets, set.accepts x) (fun set hs x hx => ⟨set, hs, hx⟩)
      p hn h
  obtain ⟨taken', h₂, -, hk⟩ := ends_follow p h
  obtain rfl : taken = taken' := List.append_cancel_right (h₁.symm.trans h₂)
  rcases List.append_eq_append_iff.1 (hc.symm.trans h₁) with ⟨more, rfl, ha⟩ | ⟨more, rfl, -⟩
  · cases more with
    | nil => exact hP.elim fun set hs => ht x (by simpa using hx) set hs.1 hs.2
    | cons y more => exact hr y (by simp [ha]) (hk y (by simp))
  · exact hP.elim fun set hs => ht x (by simp [hx]) set hs.1 hs.2

/-! ## What matches begin with -/

/-- Whether a match can have no character, when it is easily told. -/
def nullable : Pattern → Bool
  | .empty => true
  | .one _ => false
  | .anchor _ => true
  | .seq first second => first.nullable && second.nullable
  | .alt first second => first.nullable || second.nullable
  | .rep body least _ _ => least == 0 || body.nullable
  | .group _ body => body.nullable

/-- The sets that the first character of a match can be from, when they are easily told. -/
def beginSets : Pattern → List CharSet
  | .empty => []
  | .one set => [set]
  | .anchor _ => []
  | .seq first second => first.beginSets ++ if first.nullable then second.beginSets else []
  | .alt first second => first.beginSets ++ second.beginSets
  | .rep body _ _ _ => body.beginSets
  | .group _ body => body.beginSets

/-- Whether a match can begin with a character, when it is easily told. -/
def begins (p : Pattern) (x : Char) : Bool :=
  p.beginSets.any (·.accepts x)

theorem begins_alt (p q : Pattern) (x : Char) :
    (p.alt q).begins x = (p.begins x || q.begins x) :=
  List.any_append

/-- A match of no character at a place, or of some of which the first can begin a match. -/
def Begins (nullable : Prop) (begins : Char → Prop) (c c' : Cursor) : Prop :=
  (nullable ∧ c' = c) ∨ ∃ x text rest, c.rest = x :: text ++ rest ∧ begins x ∧
    c' = c.skip (x :: text) rest

theorem Begins.trans {m n m' : Prop} {f g h : Char → Prop} {c c' c'' : Cursor}
    (hf : Begins m f c c') (hg : Begins n g c' c'') (hn : m → n → m') (hh : ∀ x, f x → h x)
    (hh' : m → ∀ x, g x → h x) : Begins m' h c c'' := by
  rcases hf with ⟨hm, rfl⟩ | ⟨x, text, rest, hc, hx, rfl⟩
  · rcases hg with ⟨hn', rfl⟩ | ⟨x, text, rest, hc, hx, rfl⟩
    · exact .inl ⟨hn hm hn', rfl⟩
    · exact .inr ⟨x, text, rest, hc, hh' hm x hx, rfl⟩
  · rcases hg with ⟨_, rfl⟩ | ⟨y, text', rest', hc', _, rfl⟩
    · exact .inr ⟨x, text, rest, hc, hh x hx, rfl⟩
    · obtain rfl : rest = y :: text' ++ rest' := hc'
      exact .inr ⟨x, text ++ y :: text', rest', by rw [hc]; simp, hh x hx, by simp⟩

theorem Begins.weaken {m m' : Prop} {f : Char → Prop} {c c' : Cursor} (h : Begins m f c c')
    (hm : m → m') : Begins m' f c c' :=
  h.imp_left fun ⟨hn, hc⟩ => ⟨hm hn, hc⟩

/-- Rounds begin as one round does. -/
theorem begins_rounds {body : Pattern} (ih : ∀ {c c'}, c' ∈ body.ends c →
      Begins (body.nullable = true) (fun x => body.begins x = true) c c')
    {least : Nat} {extra : Cursor → Nat} {greedy : Bool} {c c' : Cursor}
    (h : c' ∈ (endsTimes body.ends least c).flatMap fun c₁ =>
      endsAtMost greedy body.ends (extra c₁) c₁) :
    Begins ((least == 0 || body.nullable) = true) (fun x => body.begins x = true) c c' := by
  let R : Cursor → Cursor → Prop := Begins True fun x => body.begins x = true
  have refl (c : Cursor) : R c c := .inl ⟨trivial, rfl⟩
  have trans {c c' c'' : Cursor} (h : R c c') (h' : R c' c'') : R c c'' :=
    Begins.trans h h' (fun _ _ => trivial) (fun _ hx => hx) fun _ _ hx => hx
  have round {c c' : Cursor} (h : c' ∈ body.ends c) : R c c' := (ih h).weaken fun _ => trivial
  obtain ⟨c₁, h₁, h₂⟩ := List.mem_flatMap.1 h
  have more : R c₁ c' := endsAtMost_induct refl trans round h₂
  match least with
  | 0 =>
      obtain rfl : c₁ = c := by simpa [endsTimes] using h₁
      exact more.weaken fun _ => rfl
  | least + 1 =>
      obtain ⟨c₂, h₂, h₃⟩ := List.mem_flatMap.1 h₁
      have rest : R c₂ c' := trans (endsTimes_induct refl trans round h₃) more
      exact (ih h₂).trans rest (by simp +contextual) (fun _ hx => hx) fun _ _ hx => hx

theorem begins_of_mem_ends (p : Pattern) {c c' : Cursor} (h : c' ∈ p.ends c) :
    Begins (p.nullable = true) (fun x => p.begins x = true) c c' := by
  induction p generalizing c c' with
  | empty => exact .inl ⟨rfl, by simpa [ends] using h⟩
  | one set =>
      cases hr : c.rest with
      | nil => simp [ends, hr] at h
      | cons x rest =>
          obtain ⟨hx, rfl⟩ : set.accepts x ∧ c' = c.skip [x] rest := by simpa [ends, hr] using h
          exact .inr ⟨x, [], rest, hr, by simpa [begins, beginSets] using hx, rfl⟩
  | anchor a =>
      obtain ⟨_, rfl⟩ : a.holds c ∧ c' = c := by simpa [ends] using h
      exact .inl ⟨rfl, rfl⟩
  | seq first second ih ih' =>
      obtain ⟨c₁, h₁, h₂⟩ := List.mem_flatMap.1 h
      exact (ih h₁).trans (ih' h₂) (by simp +contextual [nullable])
        (by simp +contextual [begins, beginSets]) (by simp +contextual [begins, beginSets])
  | alt first second ih ih' =>
      rcases List.mem_append.1 h with h | h
      · rcases ih h with ⟨hn, rfl⟩ | ⟨x, text, rest, hc, hx, rfl⟩
        · exact .inl ⟨by simp [nullable, hn], rfl⟩
        · exact .inr ⟨x, text, rest, hc, by simp [begins_alt, hx], rfl⟩
      · rcases ih' h with ⟨hn, rfl⟩ | ⟨x, text, rest, hc, hx, rfl⟩
        · exact .inl ⟨by simp [nullable, hn], rfl⟩
        · exact .inr ⟨x, text, rest, hc, by simp [begins_alt, hx], rfl⟩
  | rep body least extra greedy ih =>
      cases extra with
      | some extra => exact begins_rounds ih h
      | none => exact begins_rounds ih h
  | group _ body ih => exact ih h

end NodeScript.Pattern
