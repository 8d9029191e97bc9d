import Mathlib.Data.List.Nodup
import NodeScript.Proofs.Pattern.Cutting
import NodeScript.Proofs.Token.Spelling

/-!
# Names and texts of tokens

A token has the name of the row that took it, while a grammar tests its text alone, against the row
of a name. For the rows of numbers, strings and frames the two come to the same, whatever else the
text is a token of, and words are what the rows of words, frames and commands take.
-/

namespace NodeScript.TokenTable

open Pattern TokenRow

variable {row : TokenRow} {text after : List Char}

theorem eq_of_name_eq {row' : TokenRow} (h : row ∈ script.rows) (h' : row' ∈ script.rows)
    (hn : row.name = row'.name) : row = row' := by
  have nodup : (script.rows.map TokenRow.name).Nodup := by decide
  exact List.inj_on_of_nodup_map nodup h h' hn

/-- The row of a name takes the text, if one of that name does. -/
theorem scan?_of_name (row' : TokenRow) (hr : row' ∈ script.rows)
    (h : script.firstScan? (text ++ after) = some (row, text)) (hn : row.name = row'.name) :
    row'.scan? (text ++ after) = some text := by
  obtain ⟨hm, hs⟩ := firstScan?_eq_some h
  rwa [← eq_of_name_eq hm hr hn]

/-! ## Rows accept what they take -/

/-- A row that does not see what follows accepts what it takes. -/
theorem accepts_of_scan?_append {name pattern tag : String} {parts : List Pattern}
    (hp : (concat parts).isBlind)
    (h : (ofParts name pattern tag parts).scan? (text ++ after) = some text) :
    (ofParts name pattern tag parts).accepts (String.ofList text) := by
  obtain ⟨-, after', hr, hm⟩ := head?_of_scan? h
  obtain rfl := List.append_cancel_left hr
  have hm := List.mem_of_mem_head? hm
  rw [← ends_concat] at hm
  have start (cs : List Char) : (Cursor.start []).skip [] cs = Cursor.start cs := rfl
  have cut : (Cursor.start []).skip text [] ∈
      (concat parts).ends ((Cursor.start []).skip [] (text ++ [])) :=
    (blind_ends _ hp).cut (Nat.zero_le _) hm
  rw [List.append_nil, start, ends_concat] at cut
  exact (accepts_iff _).2 ⟨_, by rwa [String.toList_ofList], rfl⟩

/-- The row of a name accepts what is taken by that name, if it does not see what follows. -/
theorem accepts_of_name {name pattern tag : String} {parts : List Pattern}
    (hr : ofParts name pattern tag parts ∈ script.rows) (hp : (concat parts).isBlind)
    (h : script.firstScan? (text ++ after) = some (row, text)) (hn : row.name = name) :
    (ofParts name pattern tag parts).accepts (String.ofList text) :=
  accepts_of_scan?_append hp (scan?_of_name _ hr h hn)

theorem accepts_word_of {x : Char} {tail : List Char} (hx : CharSet.wordHead.accepts x)
    (ht : ∀ y ∈ tail, CharSet.wordTail.accepts y) : word.accepts (String.ofList (x :: tail)) := by
  have taken : word.scan? (x :: tail ++ []) = some (x :: tail) :=
    scan?_of_takesFirst (List.cons_ne_nil _ _) (takesFirst_word hx ht (by simp))
  exact accepts_of_scan?_append rfl taken

theorem accepts_word_of_frame (h : IsFrameText text) : word.accepts (String.ofList text) := by
  have tail := h.wordTail
  obtain ⟨ds, -, -, rfl | ⟨ds', -, -, rfl⟩⟩ := h
  · exact accepts_word_of rfl fun y hy => tail y (.tail _ hy)
  · exact accepts_word_of rfl fun y hy => tail y (.tail _ hy)

/-! ## Numbers -/

theorem not_int_of_float {text : String} (h : float.accepts text) : ¬int.accepts text := by
  intro hi
  obtain ⟨c, hc, hr⟩ := (accepts_iff _).1 h
  obtain ⟨c', hc', hr'⟩ := (accepts_iff _).1 hi
  rw [← ends_concat] at hc hc'
  obtain ⟨read, ht, x, hx, set, hset, hm⟩ := reads_of_mem_ends
    (P := fun x => ∃ set ∈ [.single '.', .exponentMark], CharSet.accepts set x)
    (fun set hs x hx => ⟨set, hs, hx⟩) _ rfl hc
  obtain ⟨read', ht', -, hd⟩ := ends_follow _ hc'
  obtain rfl : read = read' := by
    rw [hr, List.append_nil] at ht
    rw [hr', List.append_nil] at ht'
    exact ht.symm.trans ht'
  have mark : x = '.' ∨ x = 'e' ∨ x = 'E' := by
    simp only [List.mem_cons, List.not_mem_nil, or_false] at hset
    rcases hset with rfl | rfl
    · exact .inl (by simpa [CharSet.accepts] using hm)
    · exact .inr (by simpa [CharSet.exponentMark, CharSet.accepts] using hm)
  have digit := hd x hx
  rcases mark with rfl | rfl | rfl
  · cases digit
  · cases digit
  · cases digit

theorem float_accepts_iff (h : script.firstScan? (text ++ after) = some (row, text)) :
    float.accepts (String.ofList text) ↔ row.name = "FLOAT" := by
  constructor
  · intro ha
    have hn := name_of_accepts_number h (.inl ha)
    simp only [List.mem_cons, List.not_mem_nil, or_false] at hn
    refine hn.resolve_right fun hn => not_int_of_float ha ?_
    exact accepts_of_name (by simp [script, int]) rfl h hn
  · exact accepts_of_name (by simp [script, float]) rfl h

theorem int_accepts_iff (h : script.firstScan? (text ++ after) = some (row, text)) :
    int.accepts (String.ofList text) ↔ row.name = "INT" := by
  constructor
  · intro ha
    have hn := name_of_accepts_number h (.inr ha)
    simp only [List.mem_cons, List.not_mem_nil, or_false] at hn
    refine hn.resolve_left fun hn => not_int_of_float ?_ ha
    exact (float_accepts_iff h).2 hn
  · exact accepts_of_name (by simp [script, int]) rfl h

/-! ## Strings -/

theorem string_accepts_iff (h : script.firstScan? (text ++ after) = some (row, text)) :
    string.accepts (String.ofList text) ↔ row.name = "STRING" := by
  constructor
  · intro ha
    have hn : row.name ∈ ["STRING"] :=
      name_mem_of_accepts _ (by decide) (by decide) (by decide) h ha
    simpa using hn
  · exact accepts_of_name (by simp [script, string]) rfl h

/-! ## Frames and words -/

theorem frame_accepts_iff_shape :
    frame.accepts (String.ofList text) ↔ IsFrameText text := by
  have h : frame.accepts (String.ofList text) ↔ IsFrameText (String.ofList text).toList :=
    accepts_iff_shape endsWords_frame _
  rwa [String.toList_ofList] at h

/-- Where one of the first rows takes something, the text is taken by one of them. -/
theorem mem_of_scan? {rows : List TokenRow} (more : List TokenRow) {rest m : List Char}
    {r : TokenRow} (hr : r ∈ rows) (hs : r.scan? rest = some m)
    (h : TokenTable.firstScan? ⟨rows ++ more⟩ rest = some (row, text)) : row ∈ rows := by
  have found : ((rows.findSome? fun r => (r.scan? rest).map (r, ·))).isSome :=
    List.findSome?_isSome_iff.2 ⟨r, hr, by rw [hs]; rfl⟩
  obtain ⟨first, hf⟩ := Option.isSome_iff_exists.1 found
  rw [firstScan?, List.findSome?_append, hf, Option.some_or, Option.some.injEq] at h
  rw [h] at hf
  have taken : TokenTable.firstScan? ⟨rows⟩ rest = some (row, text) := hf
  exact (firstScan?_eq_some taken).1

/-- Where the row of words takes a text, the row of frames takes nothing. -/
theorem scan?_frame_eq_none {rest : List Char} (h : script.firstScan? rest = some (row, text))
    (hn : row.name = "WORD") : frame.scan? rest = none := by
  refine Option.eq_none_iff_forall_ne_some.2 fun m hm => ?_
  have frame_mem : frame ∈ script.rows.take 15 := by simp [script]
  have before : row ∈ script.rows.take 15 := mem_of_scan? [word] frame_mem hm h
  have other : ∀ r ∈ script.rows.take 15, r.name ≠ "WORD" := by decide
  exact other row before hn

/-- The row of words takes a frame only before a character that no token begins with. -/
theorem frame_accepts_iff (h : script.firstScan? (text ++ after) = some (row, text))
    (ha : after ≠ [] → (script.firstScan? after).isSome) :
    frame.accepts (String.ofList text) ↔ row.name = "FRAME" := by
  rw [frame_accepts_iff_shape]
  constructor
  · intro hf
    have hn : row.name ∈ ["FRAME", "WORD"] := name_mem_of_accepts _ (by decide) (by decide)
      (by decide) h (frame_accepts_iff_shape.2 hf)
    simp only [List.mem_cons, List.not_mem_nil, or_false] at hn
    refine hn.resolve_right fun hn => ?_
    obtain ⟨x, tail, rfl, hx, ht⟩ := accepts_word (accepts_word_of_frame hf)
    have hw := scan?_of_name word (by simp [script]) h hn
    rw [List.cons_append] at hw
    have missed : frame.scan? (x :: tail ++ after) = none := scan?_frame_eq_none h hn
    have more : after.head?.any Text.isWordChar = true :=
      (scan?_eq_none_iff endsWords_frame fun _ hm => hm.ne_nil).1 missed _ _ rfl hf
    rw [not_word_of_scan? hx ht hw ha] at more
    cases more
  · intro hn
    exact (shape_of_scan? endsWords_frame (scan?_of_name frame (by simp [script]) h hn)).1

theorem word_accepts_iff (h : script.firstScan? (text ++ after) = some (row, text)) :
    word.accepts (String.ofList text) ↔
      row.name ∈ ["WORD", "FRAME", "TCL_SET", "TCL_PUSH"] := by
  constructor
  · exact name_mem_of_accepts _ (by decide) (by decide) (by decide) h
  · intro hn
    simp only [List.mem_cons, List.not_mem_nil, or_false] at hn
    rcases hn with hn | hn | hn | hn
    · exact accepts_of_name (by simp [script, word]) rfl h hn
    · have hs := scan?_of_name frame (by simp [script]) h hn
      exact accepts_word_of_frame (shape_of_scan? endsWords_frame hs).1
    · have hs := scan?_of_name setCommand (by simp [script]) h hn
      rw [(shape_of_scan? endsWords_set hs).1]
      exact accepts_word_of rfl (List.all_eq_true.1 rfl)
    · have hs := scan?_of_name pushCommand (by simp [script]) h hn
      rw [(shape_of_scan? endsWords_push hs).1]
      exact accepts_word_of rfl (List.all_eq_true.1 rfl)

/-- In the tokens of a text by the shipped table, the rows of numbers, strings and frames accept as
a whole the texts of the tokens of their own names and no others. The row of words accepts those of
words, frames and commands. -/
theorem shipped_admits_iff {table : TokenTable} (h : shipped = .ok table) {script : String}
    {ts : List Token} (hts : table.tokenize script = .ok ts) {t : Token}
    (ht : t ∈ Token.significant ts) :
    (∀ name ∈ ["FLOAT", "INT", "STRING", "FRAME"], table.admits name t ↔ t.name = name) ∧
      (table.admits "WORD" t ↔ t.name ∈ ["WORD", "FRAME", "TCL_SET", "TCL_PUSH"]) := by
  obtain rfl := Except.ok.inj (shipped_eq.symm.trans h)
  obtain ⟨row, after, hs, hname, ha⟩ := firstScan?_of_mem hts (List.mem_filter.1 ht).1
  rw [hname]
  have admits (row' : TokenRow) (name : String) (hr : TokenTable.script.row? name = some row') :
      TokenTable.script.admits name t ↔ row'.accepts (String.ofList t.text.toList) := by
    rw [TokenTable.admits, hr, Option.any_some, String.ofList_toList]
  refine ⟨fun name hn => ?_, (admits word "WORD" rfl).trans (word_accepts_iff hs)⟩
  simp only [List.mem_cons, List.not_mem_nil, or_false] at hn
  rcases hn with rfl | rfl | rfl | rfl
  · exact (admits float "FLOAT" rfl).trans (float_accepts_iff hs)
  · exact (admits int "INT" rfl).trans (int_accepts_iff hs)
  · exact (admits string "STRING" rfl).trans (string_accepts_iff hs)
  · exact (admits frame "FRAME" rfl).trans (frame_accepts_iff hs ha)

theorem shipped_admits_iff_frame :
    let t : Token := ⟨"FRAME", "x1", some "ID", ⟨0, 2⟩⟩
    let ts : List Token := [t, ⟨"WHITESPACE", " ", some "IGNORE", ⟨2, 3⟩⟩,
      ⟨"FLOAT", ".5", some "INT", ⟨3, 5⟩⟩]
    shipped = .ok script ∧ script.tokenize "x1 .5" = .ok ts ∧ t ∈ Token.significant ts ∧
      (script.admits "FRAME" t ↔ t.name = "FRAME") ∧
      (script.admits "WORD" t ↔ t.name ∈ ["WORD", "FRAME", "TCL_SET", "TCL_PUSH"]) := by
  intro t ts
  have cut : script.tokenize "x1 .5" = .ok ts := by decide +kernel
  have seen : t ∈ Token.significant ts := .head _
  obtain ⟨named, worded⟩ := shipped_admits_iff shipped_eq cut seen
  exact ⟨shipped_eq, cut, seen, named "FRAME" (by simp), worded⟩

end NodeScript.TokenTable
