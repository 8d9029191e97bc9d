import Mathlib.Data.List.Basic
import Mathlib.Logic.ExistsUnique
import NodeScript.Proofs.Pattern.Bounds
import NodeScript.Proofs.Pattern.Enclosing
import NodeScript.Proofs.Token.Lexing

/-!
# Chains of first matches

From a place in a text, the first row of a table that takes something takes its text, and then the
same goes on from the end of that text, until no row takes anything. The tokens of a text are those
that the rows with a tag take along this chain (`tokenize_eq_chain`).

A row is tied when all that it takes is the beginning of the rest, as the pattern of a row is read
with a tie to the start in front of it. Every row whose pattern reads by itself is tied
(`TokenRow.isTied_of_make`). Only a pattern that closes the brackets around itself, such as
`a)|(?:b`, gets out of the tie.
-/

namespace NodeScript

namespace TokenRow

/-- What the row takes is always the beginning of the rest. -/
def IsTied (row : TokenRow) : Prop :=
  ∀ {rest text : List Char}, row.scan? rest = some text → text <+: rest

theorem scan?_eq_some {row : TokenRow} {rest text : List Char} (h : row.scan? rest = some text) :
    ∃ start stop, row.scanner.find? rest = some (start, stop) ∧ start < stop ∧
      text = (rest.drop start).take (stop - start) := by
  unfold scan? at h
  match hf : row.scanner.find? rest with
  | none =>
      rw [hf] at h
      cases h
  | some (start, stop) =>
      rw [hf] at h
      obtain ⟨hlt, he⟩ := Option.ite_none_right_eq_some.1 h
      exact ⟨start, stop, rfl, hlt, (Option.some.inj he).symm⟩

theorem scan?_ne_nil {row : TokenRow} {rest text : List Char} (h : row.scan? rest = some text) :
    text ≠ [] := by
  obtain ⟨start, stop, hf, hlt, rfl⟩ := scan?_eq_some h
  have hle : stop ≤ rest.length := Finder.find?_le hf
  apply List.ne_nil_of_length_pos
  rw [List.length_take, List.length_drop]
  omega

/-- A row is tied when its pattern can match at the start only. -/
theorem isTied_of_atStartOnly {row : TokenRow} (ha : row.scanner.pattern.atStartOnly) :
    row.IsTied := by
  intro rest text h
  obtain ⟨start, stop, hf, -, rfl⟩ := scan?_eq_some h
  rw [Finder.find?, if_pos ha] at hf
  obtain ⟨stop', -, he⟩ := Option.map_eq_some_iff.1 hf
  obtain ⟨rfl, rfl⟩ := Prod.mk.inj he
  exact List.take_prefix _ _

theorem make_eq_ok {name pattern : List Char} {tag : Option (List Char)} {row : TokenRow}
    (h : make name pattern tag = .ok row) :
    row.pattern.toList = pattern ∧
      Pattern.read? (scannerText pattern) = some row.scanner.pattern := by
  unfold make at h
  split at h
  · next p _ hp _ =>
      cases h
      refine ⟨String.toList_ofList, hp.trans ?_⟩
      unfold Finder.ofPattern
      split <;> rfl
  · cases h

/-- A row is tied when its pattern reads by itself: in the brackets it is the same pattern. -/
theorem isTied_of_make {name pattern : List Char} {tag : Option (List Char)} {row : TokenRow}
    (h : make name pattern tag = .ok row) (hp : (Pattern.read? pattern).isSome) : row.IsTied := by
  obtain ⟨q, hq⟩ := Option.isSome_iff_exists.1 hp
  obtain ⟨-, hs⟩ := make_eq_ok h
  apply isTied_of_atStartOnly
  rw [Pattern.read?_enclosed hq hs]
  exact Pattern.atStartOnly_concat [q]

/-- A pattern that gets out of the brackets takes text from further on. -/
example : ∃ row, make ['T'] "a)|(?:b".toList none = .ok row ∧ ¬row.IsTied := by
  have h : (make ['T'] "a)|(?:b".toList none).toOption.bind (scan? · ['x', 'b']) = some ['b'] := by
    decide +kernel
  obtain ⟨row, hr, hs⟩ := Option.bind_eq_some_iff.1 h
  exact ⟨row, toOption_eq_some_iff.1 hr, fun tied => absurd (tied hs) (by decide)⟩

theorem exists_make_of_ofLine {line : Nat} {text : List Char} {row : TokenRow}
    (h : ofLine line text = .ok row) :
    ∃ name tag, make name row.pattern.toList tag = .ok row := by
  unfold ofLine at h
  split at h
  · next name pattern columns _ =>
      split at h
      · cases h
      · obtain ⟨hp, -⟩ := make_eq_ok h
        exact ⟨name, _, hp ▸ h⟩
  · cases h

end TokenRow

namespace TokenTable

/-- The rows of lines are made of their patterns. -/
theorem exists_make_of_rowsOfLines {lines : List (List Char)} {line : Nat} {rows : List TokenRow}
    (h : rowsOfLines line lines = .ok rows) :
    ∀ row ∈ rows, ∃ name tag, TokenRow.make name row.pattern.toList tag = .ok row := by
  induction lines generalizing line rows with
  | nil =>
      cases h
      exact fun _ hm => nomatch hm
  | cons text lines ih =>
      unfold rowsOfLines at h
      dsimp only at h
      split at h
      · exact ih h
      · obtain ⟨row, hr, h⟩ := bind_eq_ok_iff.1 h
        obtain ⟨rows, hs, h⟩ := bind_eq_ok_iff.1 h
        cases h
        exact List.forall_mem_cons.2 ⟨TokenRow.exists_make_of_ofLine hr, ih hs⟩

/-- The rows of a table that is read are tied when their patterns read by themselves. -/
theorem isTied_of_read {source : String} {table : TokenTable} (h : read source = .ok table)
    (hp : ∀ row ∈ table.rows, (Pattern.read? row.pattern.toList).isSome) :
    ∀ row ∈ table.rows, row.IsTied := by
  obtain ⟨rows, hs, rfl⟩ := map_eq_ok_iff.1 h
  intro row hm
  obtain ⟨name, tag, hr⟩ := exists_make_of_rowsOfLines hs row hm
  exact TokenRow.isTied_of_make hr (hp row hm)

/-- The rows of the shipped table are tied. -/
theorem script_isTied : ∀ row ∈ script.rows, row.IsTied :=
  isTied_of_read shipped_eq (by decide +kernel)

end TokenTable

/-! ## Bytes -/

namespace Text

theorem dropBytes?_append (text rest : List Char) :
    dropBytes? (byteLength text) (text ++ rest) = some rest := by
  induction text with
  | nil => cases rest <;> rfl
  | cons c text ih =>
      obtain ⟨n, hn⟩ := Nat.exists_eq_add_one_of_ne_zero
        (Nat.ne_of_gt (Nat.add_pos_left c.utf8Size_pos (byteLength text)))
      rw [List.cons_append, byteLength_cons, hn, dropBytes?, ← hn, if_pos (by omega),
        Nat.add_sub_cancel_left, ih]

theorem takeBytes?_append (text rest : List Char) :
    takeBytes? (byteLength text) (text ++ rest) = some text := by
  induction text with
  | nil => cases rest <;> rfl
  | cons c text ih =>
      obtain ⟨n, hn⟩ := Nat.exists_eq_add_one_of_ne_zero
        (Nat.ne_of_gt (Nat.add_pos_left c.utf8Size_pos (byteLength text)))
      rw [List.cons_append, byteLength_cons, hn, takeBytes?, ← hn, if_pos (by omega),
        Nat.add_sub_cancel_left, ih, Option.map_some]

end Text

namespace Span

/-- The byte at a position is in the span. -/
def Covers (s : Span) (position : Nat) : Prop :=
  s.start ≤ position ∧ position < s.stop

/-- The text of a span between two others. -/
theorem text?_append (before text rest : List Char) {script : String}
    (h : script.toList = before ++ (text ++ rest)) :
    (Span.mk (Text.byteLength before) (Text.byteLength before + Text.byteLength text)).text? script =
      some (String.ofList text) := by
  simp only [text?, h, Nat.le_add_right, if_true, Text.dropBytes?_append, Option.bind_some,
    Nat.add_sub_cancel_left, Text.takeBytes?_append, Option.map_some]

end Span

namespace TokenTable

/-! ## Chains -/

/-- A part of a chain: a row, the text that it takes, and where the text begins. -/
structure Link where
  row : TokenRow
  text : List Char
  position : Nat

namespace Link

def span (l : Link) : Span :=
  ⟨l.position, l.position + Text.byteLength l.text⟩

/-- The token of the link, which has one if its row has a tag. -/
def token? (l : Link) : Option Token :=
  l.row.tag.map fun tag => ⟨l.row.name, String.ofList l.text, some tag, l.span⟩

end Link

/-- Of the rows in their order, the first that takes something from the rest takes the text. -/
def IsFirst (table : TokenTable) (row : TokenRow) (rest text : List Char) : Prop :=
  ∃ before after, table.rows = before ++ row :: after ∧ (∀ r ∈ before, r.scan? rest = none) ∧
    row.scan? rest = some text

/-- No row takes anything from the rest. -/
def IsStuck (table : TokenTable) (rest : List Char) : Prop :=
  ∀ row ∈ table.rows, row.scan? rest = none

/-- Links from a position and the rest of a text there up to another, each of the first row that
takes something where the link before it ends. -/
inductive Chain (table : TokenTable) : Nat → List Char → List Link → Nat → List Char → Prop
  | nil {position : Nat} {rest : List Char} : Chain table position rest [] position rest
  | cons {row : TokenRow} {text rest left : List Char} {links : List Link} {position stop : Nat} :
    table.IsFirst row (text ++ rest) text →
    Chain table (position + Text.byteLength text) rest links stop left →
    Chain table position (text ++ rest) (⟨row, text, position⟩ :: links) stop left

variable {table : TokenTable} {row : TokenRow} {rest text left : List Char} {links : List Link}
  {position stop : Nat}

theorem firstScan?_eq_some_iff :
    table.firstScan? rest = some (row, text) ↔ table.IsFirst row rest text := by
  unfold firstScan?
  rw [List.findSome?_eq_some_iff]
  constructor
  · rintro ⟨before, r, after, hr, hs, hb⟩
    obtain ⟨text', ht, he⟩ := Option.map_eq_some_iff.1 hs
    obtain ⟨rfl, rfl⟩ := Prod.mk.inj he
    exact ⟨before, after, hr, fun r hm => Option.map_eq_none_iff.1 (hb r hm), ht⟩
  · rintro ⟨before, after, hr, hb, hs⟩
    exact ⟨before, row, after, hr, by rw [hs, Option.map_some],
      fun r hm => Option.map_eq_none_iff.2 (hb r hm)⟩

theorem firstScan?_eq_none_iff : table.firstScan? rest = none ↔ table.IsStuck rest := by
  simp only [firstScan?, List.findSome?_eq_none_iff, Option.map_eq_none_iff, IsStuck]

theorem IsFirst.scan?_eq (h : table.IsFirst row rest text) : row.scan? rest = some text := by
  obtain ⟨_, _, _, _, hs⟩ := h
  exact hs

theorem IsFirst.ne_nil (h : table.IsFirst row rest text) : text ≠ [] :=
  TokenRow.scan?_ne_nil h.scan?_eq

theorem IsFirst.mem (h : table.IsFirst row rest text) : row ∈ table.rows := by
  obtain ⟨before, after, hr, _, _⟩ := h
  rw [hr]
  exact List.mem_append_right before (.head after)

theorem IsFirst.unique {row' : TokenRow} {text' : List Char} (h : table.IsFirst row rest text)
    (h' : table.IsFirst row' rest text') : row = row' ∧ text = text' :=
  Prod.mk.inj (Option.some.inj
    ((firstScan?_eq_some_iff.2 h).symm.trans (firstScan?_eq_some_iff.2 h')))

theorem IsFirst.not_isStuck (h : table.IsFirst row rest text) : ¬table.IsStuck rest := by
  intro hs
  have := (firstScan?_eq_some_iff.2 h).symm.trans (firstScan?_eq_none_iff.2 hs)
  cases this

/-- From everywhere there is a chain that goes on until it is stuck. -/
theorem exists_chain (h : ∀ row ∈ table.rows, row.IsTied) (rest : List Char) (position : Nat) :
    ∃ links stop left, Chain table position rest links stop left ∧ table.IsStuck left := by
  -- every link takes something, so that less is left after it
  induction hn : rest.length using Nat.strongRecOn generalizing rest position with
  | ind n ih =>
      match hs : table.firstScan? rest with
      | none => exact ⟨[], position, rest, .nil, firstScan?_eq_none_iff.1 hs⟩
      | some (row, text) =>
          have first : table.IsFirst row rest text := firstScan?_eq_some_iff.1 hs
          obtain ⟨more, rfl⟩ := h row first.mem first.scan?_eq
          have less : more.length < n := by
            have := List.length_pos_iff.2 first.ne_nil
            rw [List.length_append] at hn
            omega
          obtain ⟨links, stop, left, chain, stuck⟩ :=
            ih more.length less more (position + Text.byteLength text) rfl
          exact ⟨_, stop, left, .cons first chain, stuck⟩

theorem Chain.unique {links' : List Link} {stop' : Nat} {left' : List Char}
    (h : Chain table position rest links stop left) (hs : table.IsStuck left)
    (h' : Chain table position rest links' stop' left') (hs' : table.IsStuck left') :
    links' = links ∧ stop' = stop ∧ left' = left := by
  induction h generalizing links' with
  | nil =>
      cases h' with
      | nil => exact ⟨rfl, rfl, rfl⟩
      | cons first _ => exact absurd hs first.not_isStuck
  | @cons row text rest left links position stop first chain ih =>
      generalize hr : text ++ rest = whole at h'
      cases h' with
      | nil => exact absurd (hr ▸ hs') first.not_isStuck
      | @cons row' text' rest' _ _ _ _ first' chain' =>
          obtain ⟨rfl, rfl⟩ := first.unique (hr ▸ first')
          obtain rfl := List.append_cancel_left hr
          obtain ⟨rfl, rfl, rfl⟩ := ih hs chain'
          exact ⟨rfl, rfl, rfl⟩

/-- The links are what lies between the two positions. -/
theorem Chain.append_eq (h : Chain table position rest links stop left) :
    rest = links.flatMap Link.text ++ left ∧
      stop = position + Text.byteLength (links.flatMap Link.text) := by
  induction h with
  | nil => exact ⟨rfl, rfl⟩
  | cons _ _ ih =>
      obtain ⟨hr, hs⟩ := ih
      rw [List.flatMap_cons, List.append_assoc, ← hr, Text.byteLength_append, ← Nat.add_assoc]
      exact ⟨rfl, hs⟩

/-- Every link has its text where it says. -/
theorem Chain.text_eq {script : String} (h : Chain table position rest links stop left)
    (before : List Char) (hb : script.toList = before ++ rest)
    (hp : position = Text.byteLength before) :
    ∀ l ∈ links, l.text ≠ [] ∧ l.span.text? script = some (String.ofList l.text) := by
  induction h generalizing before with
  | nil => exact fun _ hm => nomatch hm
  | @cons row text rest left links position stop first chain ih =>
      refine List.forall_mem_cons.2 ⟨⟨first.ne_nil, ?_⟩, ih (before ++ text) ?_ ?_⟩
      · rw [Link.span, hp]
        exact Span.text?_append before text rest hb
      · rw [hb, List.append_assoc]
      · rw [hp, Text.byteLength_append]

theorem Chain.le (h : Chain table position rest links stop left) :
    position ≤ stop ∧ ∀ l ∈ links, position ≤ l.span.start := by
  induction h with
  | nil => exact ⟨Nat.le_refl _, fun _ hm => nomatch hm⟩
  | cons _ _ ih =>
      obtain ⟨hle, hl⟩ := ih
      refine ⟨by omega, List.forall_mem_cons.2 ⟨Nat.le_refl _, fun l hm => ?_⟩⟩
      have := hl l hm
      omega

/-- Every byte between the two positions is in one link, and in no other. -/
theorem Chain.existsUnique (h : Chain table position rest links stop left) {byte : Nat}
    (hp : position ≤ byte) (hs : byte < stop) : ∃! l, l ∈ links ∧ l.span.Covers byte := by
  induction h with
  | nil => omega
  | @cons row text rest left links position stop first chain ih =>
      obtain ⟨hle, hl⟩ := chain.le
      by_cases hb : byte < position + Text.byteLength text
      · refine ⟨⟨row, text, position⟩, ⟨.head _, hp, hb⟩, ?_⟩
        rintro l ⟨hm, hc⟩
        cases hm with
        | head => rfl
        | tail _ hm =>
            have := hl l hm
            have := hc.1
            omega
      · obtain ⟨l, ⟨hm, hc⟩, only⟩ := ih (by omega) hs
        refine ⟨l, ⟨.tail _ hm, hc⟩, ?_⟩
        rintro l' ⟨hm', hc'⟩
        cases hm' with
        | head => exact absurd hc'.2 hb
        | tail _ hm' => exact only l' ⟨hm', hc'⟩

/-- The bytes outside the tokens are those of the links without a tag. -/
theorem Chain.gaps (h : Chain table position rest links stop left) {byte : Nat}
    (hp : position ≤ byte) (hs : byte < stop) :
    (∀ t ∈ links.filterMap Link.token?, ¬t.span.Covers byte) ↔
      ∃ l ∈ links, l.row.tag = none ∧ l.span.Covers byte := by
  obtain ⟨l, ⟨hm, hc⟩, only⟩ := h.existsUnique hp hs
  constructor
  · intro outside
    refine ⟨l, hm, ?_, hc⟩
    match ht : l.row.tag with
    | none => rfl
    | some tag =>
        have mem : _ ∈ links.filterMap Link.token? :=
          List.mem_filterMap.2 ⟨l, hm, by rw [Link.token?, ht, Option.map_some]⟩
        exact absurd hc (outside _ mem)
  · rintro ⟨l', hm', ht', hc'⟩ t ht covers
    obtain ⟨l₂, hm₂, he⟩ := List.mem_filterMap.1 ht
    obtain ⟨tag, htag, rfl⟩ := Option.map_eq_some_iff.1 he
    obtain rfl := (only l' ⟨hm', hc'⟩).trans (only l₂ ⟨hm₂, covers⟩).symm
    rw [htag] at ht'
    cases ht'

/-- The tokens along a chain come before those from its end on. -/
theorem Chain.tokenizeFrom_eq (h : Chain table position rest links stop left) :
    table.tokenizeFrom 0 position rest =
      (table.tokenizeFrom 0 stop left).map (links.filterMap Link.token? ++ ·) := by
  induction h with
  | nil => cases table.tokenizeFrom 0 _ _ <;> rfl
  | @cons row text rest left links position stop first chain ih =>
      have token : tokenOf? row text position = Link.token? ⟨row, text, position⟩ := rfl
      rw [tokenizeFrom_append first.ne_nil (firstScan?_eq_some_iff.2 first), ih, token,
        List.filterMap_cons]
      cases table.tokenizeFrom 0 stop left with
      | error e => rfl
      | ok ts => cases Link.token? ⟨row, text, position⟩ <;> rfl

/-- A text that can be cut into tokens has a chain to its end, with these tokens. -/
theorem exists_chain_of_tokenizeFrom (h : ∀ row ∈ table.rows, row.IsTied) {ts : List Token}
    (ht : table.tokenizeFrom 0 position rest = .ok ts) :
    ∃ links stop, Chain table position rest links stop [] ∧ ts = links.filterMap Link.token? := by
  obtain ⟨links, stop, left, chain, stuck⟩ := exists_chain h rest position
  rw [chain.tokenizeFrom_eq] at ht
  cases left with
  | nil => exact ⟨links, stop, chain, by simpa [tokenizeFrom, Except.map] using ht.symm⟩
  | cons c left =>
      have first : table.firstScan? (c :: left) = none := firstScan?_eq_none_iff.2 stuck
      simp [tokenizeFrom, first, Except.map] at ht

/-- The kinds along a chain are those of its links. -/
theorem kinds_of_links (links : List Link) :
    (Token.significant (links.filterMap Link.token?)).map Token.kind =
      links.flatMap fun l => kindOf l.row l.text := by
  rw [List.filterMap_eq_flatMap_toList, Token.significant, List.filter_flatMap, List.map_flatMap]
  exact List.flatMap_congr fun l _ => kindOf_eq l.row l.text l.position

/-- A text whose tokens have some kinds has a chain to its end, with these kinds. -/
theorem exists_chain_of_kinds? (h : ∀ row ∈ table.rows, row.IsTied) {ks : List (String × String)}
    (hk : table.kinds? rest = some ks) : ∃ links stop,
      Chain table 0 rest links stop [] ∧ ks = links.flatMap fun l => kindOf l.row l.text := by
  obtain ⟨ts, ht, rfl⟩ := Option.map_eq_some_iff.1 hk
  obtain ⟨links, stop, chain, rfl⟩ := exists_chain_of_tokenizeFrom h (toOption_eq_some_iff.1 ht)
  exact ⟨links, stop, chain, kinds_of_links links⟩

/-- A chain that comes to the end of a text takes something wherever more is left. -/
theorem Chain.isSome_firstScan? (h : Chain table position rest links stop []) (hne : rest ≠ []) :
    (table.firstScan? rest).isSome := by
  cases h with
  | nil => exact absurd rfl hne
  | cons first _ => exact Option.isSome_of_eq_some (firstScan?_eq_some_iff.2 first)

/-- Every link of a chain to the end of a text takes its text first there, and so does another
link after it if more is left. -/
theorem Chain.isFirst_of_mem (h : Chain table position rest links stop []) :
    ∀ l ∈ links, ∃ after, table.IsFirst l.row (l.text ++ after) l.text ∧
      (after ≠ [] → (table.firstScan? after).isSome) := by
  generalize hl : [] = left at h
  induction h with
  | nil => exact fun _ hm => nomatch hm
  | @cons row text rest left links position stop first chain ih =>
      subst hl
      exact List.forall_mem_cons.2 ⟨⟨rest, first, chain.isSome_firstScan?⟩, ih rfl⟩

/-- Where all rows are tied, cutting a text into tokens follows the one chain from its beginning
that goes on until it is stuck. The links have their texts where they say, and cover what lies
before the end of the chain. The tokens are those of the links whose rows have a tag, and what lies
between them is covered by the other links. Where the chain comes to the end of the text, these are
the tokens of the text, and otherwise the failure is at the character where the chain ends. -/
theorem tokenize_eq_chain (h : ∀ row ∈ table.rows, row.IsTied) (script : String) :
    ∃ links stop left,
      (∀ links' stop' left',
        (Chain table 0 script.toList links' stop' left' ∧ table.IsStuck left') ↔
          links' = links ∧ stop' = stop ∧ left' = left) ∧
      Text.dropBytes? stop script.toList = some left ∧
      (∀ l ∈ links, l.text ≠ [] ∧ l.span.text? script = some (String.ofList l.text)) ∧
      (∀ byte < stop, (∀ t ∈ links.filterMap Link.token?, ¬t.span.Covers byte) ↔
        ∃ l ∈ links, l.row.tag = none ∧ l.span.Covers byte) ∧
      (left = [] → table.tokenize script = .ok (links.filterMap Link.token?)) ∧
      ∀ c more, left = c :: more → table.tokenize script = .error ⟨stop, c⟩ := by
  obtain ⟨links, stop, left, chain, stuck⟩ := exists_chain h script.toList 0
  refine ⟨links, stop, left, ?_, ?_, ?_, ?_, ?_, ?_⟩
  · intro links' stop' left'
    constructor
    · rintro ⟨chain', stuck'⟩
      exact chain.unique stuck chain' stuck'
    · rintro ⟨rfl, rfl, rfl⟩
      exact ⟨chain, stuck⟩
  · obtain ⟨hr, hs⟩ := chain.append_eq
    rw [hr, hs, Nat.zero_add]
    exact Text.dropBytes?_append _ _
  · exact chain.text_eq [] rfl rfl
  · exact fun byte hb => chain.gaps (Nat.zero_le byte) hb
  · rintro rfl
    simp only [tokenize, chain.tokenizeFrom_eq, tokenizeFrom, Except.map, List.append_nil]
  · rintro c more rfl
    have first : table.firstScan? (c :: more) = none := firstScan?_eq_none_iff.2 stuck
    simp only [tokenize, chain.tokenizeFrom_eq, tokenizeFrom, first, Nat.lt_irrefl, if_false,
      Except.map]

theorem tokenize_eq_chain_script : (∀ row ∈ script.rows, row.IsTied) ∧ ∃ links,
    (Chain script 0 "x1 \x7b\u00e9".toList links 4 ['\u00e9'] ∧ script.IsStuck ['\u00e9']) ∧
      links.map Link.text = [['x', '1'], [' '], ['\x7b']] ∧
      script.tokenize "x1 \x7b\u00e9" = .error ⟨4, '\u00e9'⟩ := by
  have first {k : Nat} {row : TokenRow} {text rest : List Char}
      (hr : script.rows = script.rows.take k ++ row :: script.rows.drop (k + 1))
      (hb : ∀ r ∈ script.rows.take k, r.scan? (text ++ rest) = none)
      (hs : row.scan? (text ++ rest) = some text) : script.IsFirst row (text ++ rest) text :=
    ⟨_, _, hr, hb, hs⟩
  have chain : Chain script 0 (['x', '1'] ++ ([' '] ++ (['\x7b'] ++ ['\u00e9'])))
      [⟨TokenRow.frame, ['x', '1'], 0⟩, ⟨TokenRow.whitespace, [' '], 2⟩,
        ⟨TokenRow.mark "OPEN_BRACE" "\\\x7b" '\x7b', ['\x7b'], 3⟩] 4 ['\u00e9'] := by
    refine .cons (first (k := 12) rfl (by decide +kernel) (by decide +kernel)) ?_
    refine .cons (first (k := 0) rfl (by decide +kernel) (by decide +kernel)) ?_
    refine .cons (first (k := 2) rfl (by decide +kernel) (by decide +kernel)) ?_
    exact .nil
  have stuck : script.IsStuck ['\u00e9'] := by
    unfold IsStuck
    decide +kernel
  obtain ⟨links, stop, left, one, -, -, -, -, failed⟩ :=
    tokenize_eq_chain script_isTied "x1 \x7b\u00e9"
  obtain ⟨rfl, rfl, rfl⟩ := (one _ _ _).1 ⟨chain, stuck⟩
  exact ⟨script_isTied, _, ⟨chain, stuck⟩, rfl, failed _ _ rfl⟩

end TokenTable

end NodeScript
