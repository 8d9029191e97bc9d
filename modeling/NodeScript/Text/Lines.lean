/-!
# Lines

Cutting a text into lines, and a line into columns. Main statement: lines that are put together
are found again (`lines_unlines`).
-/

namespace NodeScript.Text

/-- The lines of `cs`, where `line` holds the characters of the current line, latest first.
A line feed ends a line and takes a carriage return before it along. -/
def linesFrom (line : List Char) : List Char → List (List Char)
  | [] => if line.isEmpty then [] else [line.reverse]
  | c :: rest =>
    if c = '\n' then
      (if line.head? = some '\r' then line.tail else line).reverse :: linesFrom [] rest
    else linesFrom (c :: line) rest

/-- The lines of a text. Text after the last line feed is a line only when there is some. -/
def lines (cs : List Char) : List (List Char) :=
  linesFrom [] cs

/-- The text of lines, each with a line feed at its end. -/
def unlines (lines : List String) : String :=
  String.join (lines.map (· ++ "\n"))

theorem linesFrom_append {cs : List Char} (line rest : List Char) (h : '\n' ∉ cs) :
    linesFrom line (cs ++ rest) = linesFrom (cs.reverse ++ line) rest := by
  induction cs generalizing line with
  | nil => rfl
  | cons c cs ih =>
    simp only [List.mem_cons, not_or] at h
    simp [linesFrom, Ne.symm h.1, ih _ h.2]

theorem lines_line {cs : List Char} (rest : List Char) (h : '\n' ∉ cs)
    (hr : cs.getLast? ≠ some '\r') : lines (cs ++ '\n' :: rest) = cs :: lines rest := by
  simp [lines, linesFrom_append _ _ h, linesFrom, hr]

/-- Lines without line feeds, and without carriage returns at their ends, are the lines of their
text. -/
theorem lines_unlines {ls : List String}
    (h : ∀ l ∈ ls, '\n' ∉ l.toList ∧ l.toList.getLast? ≠ some '\r') :
    lines (unlines ls).toList = ls.map String.toList := by
  induction ls with
  | nil => simp [unlines, lines, linesFrom]
  | cons l ls ih =>
    obtain ⟨⟨hl, hr⟩, hs⟩ := List.forall_mem_cons.1 h
    have hu : (unlines (l :: ls)).toList = l.toList ++ '\n' :: (unlines ls).toList := by
      simp [unlines]
    rw [hu, lines_line _ hl hr, ih hs, List.map_cons]

/-- The pieces between occurrences of `mark`, where `piece` holds the characters of the current
piece, latest first. -/
def splitFrom (mark : Char) (piece : List Char) : List Char → List (List Char)
  | [] => [piece.reverse]
  | c :: rest =>
    if c = mark then piece.reverse :: splitFrom mark [] rest else splitFrom mark (c :: piece) rest

/-- The pieces between occurrences of `mark`; without one, the whole is the only piece. -/
def splitAt (mark : Char) (cs : List Char) : List (List Char) :=
  splitFrom mark [] cs

/-- The texts before and after the first occurrence of `mark`. -/
def splitOnce? (mark : List Char) : List Char → Option (List Char × List Char)
  | [] => if mark.isEmpty then some ([], []) else none
  | c :: rest =>
    if mark.isPrefixOf (c :: rest) then some ([], (c :: rest).drop mark.length)
    else (splitOnce? mark rest).map fun (before, after) => (c :: before, after)

end NodeScript.Text
