import LineScript.Proofs.Comments

/-!
# Programs are read line by line

A terminator separates what stands before it from what stands after it, whatever quotes, escapes and
comments there are, so a text is read as its lines are read one at a time. What a line is read as
depends on the line without the blanks around it, and that is what a statement keeps as its source:
a program can be put together again from the sources of its statements.
-/

namespace LineScript.Proofs

open Text

/-! ### Trimming -/

lemma trim_surrounded {before after : List Char} (hbefore : ∀ c ∈ before, isBlank c = true)
    (hafter : ∀ c ∈ after, isBlank c = true) (text : List Char) :
    trim (before ++ text ++ after) = trim text := by
  have hleft : before.dropWhile isBlank = [] := List.dropWhile_eq_nil_iff.2 hbefore
  have hright : after.dropWhile isBlank = [] := List.dropWhile_eq_nil_iff.2 hafter
  have hreverse : after.reverse.dropWhile isBlank = [] := by
    rw [List.dropWhile_eq_nil_iff]
    simpa using hafter
  rw [trim, trim, List.append_assoc, List.dropWhile_append, hleft, List.isEmpty_nil, if_pos rfl,
    List.dropWhile_append]
  -- A text of blanks only leaves nothing for the blanks after it to stand behind.
  by_cases h : text.dropWhile isBlank = []
  · rw [h, List.isEmpty_nil, if_pos rfl, hright]
  · have hfull : (text.dropWhile isBlank).isEmpty = false := by simpa using h
    rw [hfull, if_neg (by decide), trimRight, List.reverse_append, List.dropWhile_append, hreverse,
      List.isEmpty_nil, if_pos rfl, trimRight]

lemma exists_blanks_trim (text : List Char) :
    ∃ before after, (∀ c ∈ before, isBlank c = true) ∧ (∀ c ∈ after, isBlank c = true) ∧
      text = before ++ trim text ++ after := by
  obtain ⟨after, hafter, hright⟩ := exists_trimRight_append (text.dropWhile isBlank)
  refine ⟨text.takeWhile isBlank, after, fun c hmem => List.mem_takeWhile_imp hmem, hafter, ?_⟩
  rw [List.append_assoc, trim, ← hright, List.takeWhile_append_dropWhile]

lemma trim_trim (text : List Char) : trim (trim text) = trim text := by
  obtain ⟨before, after, hbefore, hafter, htext⟩ := exists_blanks_trim text
  have hsame := trim_surrounded hbefore hafter (trim text)
  rw [← htext] at hsame
  exact hsame.symm

lemma mem_of_mem_trim {c : Char} {text : List Char} (hmem : c ∈ trim text) : c ∈ text := by
  obtain ⟨before, after, -, -, htext⟩ := exists_blanks_trim text
  rw [htext]
  simp [hmem]

/-! ### Lines -/

/-- No blank is at the ends of the text and no terminator is in it. -/
structure IsLine (line : List Char) : Prop where
  trimmed : trim line = line
  unbroken : ∀ c ∈ line, isTerminator c = false

lemma unbroken_of_mem_piecesFrom {current text piece : List Char}
    (hcurrent : ∀ c ∈ current, isTerminator c = false) (hmem : piece ∈ piecesFrom current text) :
    ∀ c ∈ piece, isTerminator c = false := by
  induction text generalizing current with
  | nil =>
    rw [piecesFrom, List.mem_singleton] at hmem
    simpa [hmem] using hcurrent
  | cons d rest ih =>
    rw [piecesFrom] at hmem
    by_cases hd : isTerminator d = true
    · rw [if_pos hd] at hmem
      obtain rfl | hmem := List.mem_cons.1 hmem
      · simpa using hcurrent
      · exact ih (by simp) hmem
    · rw [if_neg hd] at hmem
      refine ih ?_ hmem
      rw [List.forall_mem_cons]
      exact ⟨by simpa using hd, hcurrent⟩

lemma isLine_of_mem_lines {text line : List Char} (hmem : line ∈ lines text) : IsLine line := by
  rw [lines, List.mem_filter] at hmem
  obtain ⟨piece, hpiece, rfl⟩ := List.mem_map.1 hmem.1
  have hunbroken := unbroken_of_mem_piecesFrom (by simp) hpiece
  constructor
  · exact trim_trim piece
  · intro c hc
    exact hunbroken c (mem_of_mem_trim hc)

/-- A text without a terminator is read as a line. -/
lemma parseAll_of_parse {line : String} {statement : Option Statement}
    (hnone : ∀ c ∈ line.toList, isTerminator c = false)
    (hparse : Statement.parse line = .ok statement) :
    Statement.parseAll line = .ok statement.toList := by
  rw [Statement.parse] at hparse
  rw [Statement.parseAll, lines_of_unbroken hnone]
  by_cases h : trim line.toList = []
  · have hblank : Statement.ofTrimmed [] = .ok none := rfl
    rw [h, hblank] at hparse
    cases hparse
    rw [if_pos h]
    rfl
  · rw [if_neg h, Statement.ofLines, trim_trim, hparse]
    simp only [Statement.ofLines]
    exact congrArg Except.ok (List.append_nil _)

/-! ### Lines with terminators between them -/

/-- What ends a statement. -/
inductive Terminator where
  | newline
  | semicolon
  deriving DecidableEq

def Terminator.char : Terminator → Char
  | newline => '\n'
  | semicolon => ';'

lemma isTerminator_char (terminator : Terminator) : isTerminator terminator.char = true := by
  cases terminator <;> rfl

/-- Lines one after the other, each followed by its terminator if another line comes. -/
def joinLines : List (String × Terminator) → String
  | [] => ""
  | [(line, _)] => line
  | (line, terminator) :: next :: rest =>
    line ++ terminator.char.toString ++ joinLines (next :: rest)

/-- Joined lines are read one at a time. -/
lemma parseAll_joinLines {ι : Type} {line : ι → String × Terminator}
    {read : ι → List Statement} {items : List ι}
    (hread : ∀ item ∈ items, Statement.parseAll (line item).1 = .ok (read item)) :
    Statement.parseAll (joinLines (items.map line)) = .ok (items.flatMap read) := by
  induction items with
  | nil => rfl
  | cons item rest ih =>
    rw [List.forall_mem_cons] at hread
    obtain ⟨hfirst, hrest⟩ := hread
    cases rest with
    | nil => simpa [joinLines] using hfirst
    | cons next later =>
      have hlater := ih hrest
      rw [List.flatMap_cons]
      exact parseAll_append (isTerminator_char (line item).2) hfirst hlater

/-- Reading is a homomorphism at terminators. A text with a terminator in it is read as what stands
before it followed by what stands after it, and a text without one is read as one line. So where
lines are joined, each is read as if it stood alone. -/
theorem reading_is_homomorphism :
    (∀ (first second : String) (terminator : Terminator), ∃ before after,
      Statement.parseAll first = .ok before ∧ Statement.parseAll second = .ok after ∧
      Statement.parseAll (first ++ terminator.char.toString ++ second) = .ok (before ++ after)) ∧
    (∀ line : String, (∀ c ∈ line.toList, isTerminator c = false) → ∃ statement,
      Statement.parse line = .ok statement ∧
      Statement.parseAll line = .ok statement.toList) ∧
    (∀ lines : List (String × Terminator),
      (∀ line ∈ lines, ∀ c ∈ line.1.toList, isTerminator c = false) →
      ∃ statements : List (Option Statement),
        lines.map (fun line => Statement.parse line.1) = statements.map .ok ∧
        Statement.parseAll (joinLines lines) = .ok (statements.flatMap Option.toList)) := by
  have hexists : ∀ line : String, ∃ statement, Statement.parse line = .ok statement :=
    fun line => exists_ofTrimmed (trim line.toList)
  choose read hread using hexists
  refine ⟨?_, ?_, ?_⟩
  · intro first second terminator
    obtain ⟨before, hfirst⟩ := exists_parseAll first
    obtain ⟨after, hsecond⟩ := exists_parseAll second
    exact ⟨before, after, hfirst, hsecond,
      parseAll_append (isTerminator_char terminator) hfirst hsecond⟩
  · intro line hnone
    exact ⟨read line, hread line, parseAll_of_parse hnone (hread line)⟩
  · intro lines hnone
    refine ⟨lines.map fun line => read line.1, ?_, ?_⟩
    · simp [hread]
    · have hlines : ∀ line ∈ lines, Statement.parseAll (id line).1 = .ok (read line.1).toList :=
        fun line hmem => parseAll_of_parse (hnone line hmem) (hread line.1)
      have hjoined := parseAll_joinLines hlines
      rw [List.map_id] at hjoined
      rw [hjoined, List.flatMap_map]

/-- An open quote with a backslash at its end, a comment with a quote, nothing, and a comment. -/
def awkwardLines : List (String × Terminator) :=
  [("println \"a\\", .semicolon), (": \"", .newline), ("", .newline), ("b\" c:d", .semicolon)]

/-- The statement of the first line, whose quote nothing closes. -/
def openQuote : Statement :=
  ⟨.call, "println \"a\\", [.literal "println" "println", .literal "\"a\\" "\"a\\"]⟩

/-- The statement of the last line, in which a quote stands inside a token. -/
def commentedCall : Statement :=
  ⟨.call, "b\" c:d", [.literal "b\"" "b\"", .literal "c" "c"]⟩

/-- No quote is closed in another line, and no comment goes on in one. -/
theorem reading_is_homomorphism_open_quote :
    joinLines awkwardLines = "println \"a\\;: \"\n\nb\" c:d" ∧
    Statement.parseAll "println \"a\\;b\" c:d" = .ok [openQuote, commentedCall] ∧
    Statement.parse "b\" c:d" = .ok (some commentedCall) ∧
    Statement.parseAll "b\" c:d" = .ok [commentedCall] ∧
    awkwardLines.map (fun line => Statement.parse line.1) =
      [.ok (some openQuote), .ok none, .ok none, .ok (some commentedCall)] ∧
    Statement.parseAll (joinLines awkwardLines) = .ok [openQuote, commentedCall] := by
  have hnone : awkwardLines.all (fun line => line.1.toList.all fun c => !isTerminator c) = true := by
    decide
  simp only [List.all_eq_true, Bool.not_eq_true'] at hnone
  have hfirst : Statement.parseAll "println \"a\\" = .ok [openQuote] := by decide +kernel
  have hlast : Statement.parse "b\" c:d" = .ok (some commentedCall) := by decide +kernel
  have hlines : awkwardLines.map (fun line => Statement.parse line.1) =
      [some openQuote, none, none, some commentedCall].map .ok := by
    decide +kernel
  obtain ⟨hsplit, hline, hjoined⟩ := reading_is_homomorphism
  obtain ⟨statement, hstatement, hsecond⟩ :=
    hline "b\" c:d" (hnone ("b\" c:d", .semicolon) (by decide))
  obtain rfl : some commentedCall = statement := Except.ok.inj (hlast.symm.trans hstatement)
  obtain ⟨before, after, hbefore, hafter, hwhole⟩ :=
    hsplit "println \"a\\" "b\" c:d" .semicolon
  obtain rfl : [openQuote] = before := Except.ok.inj (hfirst.symm.trans hbefore)
  obtain rfl : [commentedCall] = after := Except.ok.inj (hsecond.symm.trans hafter)
  obtain ⟨statements, hstatements, hall⟩ := hjoined awkwardLines hnone
  obtain rfl : [some openQuote, none, none, some commentedCall] = statements :=
    List.map_injective_iff.2 (fun _ _ => Except.ok.inj) (hlines.symm.trans hstatements)
  exact ⟨by decide, hwhole, hlast, hsecond, hlines, hall⟩

/-! ### Programs put together again -/

lemma source_of_ofTrimmed {line : List Char} {statement : Statement}
    (hread : Statement.ofTrimmed line = .ok (some statement)) :
    statement.source = String.ofList line := by
  by_cases hhead : line.head? = some ':'
  · rw [Statement.ofTrimmed, if_pos hhead] at hread
    cases hread
  · cases hscan : Token.scan line with
    | nil =>
      rw [Statement.ofTrimmed, if_neg hhead, hscan] at hread
      cases hread
    | cons first rest =>
      obtain ⟨expressions, hexpressions⟩ :=
        exists_ofTokens fun token hmem => text_ne_nil_of_mem_operands hscan hmem
      rw [ofTrimmed_of_scan hhead hscan (hexpressions _)] at hread
      cases hread
      rfl

lemma exists_line_of_mem {texts : List (List Char)} {statements : List Statement}
    (hread : Statement.ofLines texts = .ok statements) {statement : Statement}
    (hmem : statement ∈ statements) :
    ∃ text ∈ texts, Statement.ofTrimmed (trim text) = .ok (some statement) := by
  induction texts generalizing statements with
  | nil =>
    cases hread
    cases hmem
  | cons text rest ih =>
    obtain ⟨first, hfirst⟩ := exists_ofTrimmed (trim text)
    obtain ⟨later, hlater⟩ := exists_ofLines rest
    rw [Statement.ofLines, hfirst, hlater] at hread
    cases hread
    obtain hmem | hmem := List.mem_append.1 hmem
    · rw [Option.mem_toList] at hmem
      exact ⟨text, List.mem_cons_self, by rw [hfirst, hmem]⟩
    · obtain ⟨other, hother, htext⟩ := ih hlater hmem
      exact ⟨other, List.mem_cons_of_mem _ hother, htext⟩

/-- The source of a statement of a program is a line, which is read as this statement. -/
lemma isLine_source {source : String} {statements : List Statement}
    (hparse : Statement.parseAll source = .ok statements) {statement : Statement}
    (hmem : statement ∈ statements) :
    IsLine statement.source.toList ∧
      Statement.ofTrimmed statement.source.toList = .ok (some statement) := by
  obtain ⟨line, hline, hread⟩ := exists_line_of_mem hparse hmem
  have his := isLine_of_mem_lines hline
  rw [his.trimmed] at hread
  rw [source_of_ofTrimmed hread, String.toList_ofList]
  exact ⟨his, hread⟩

/-- Where a statement stands in a program: the blanks around it, and its terminator. -/
structure Placement where
  before : String
  after : String
  terminator : Terminator
  blank : (before.toList ++ after.toList).all (fun c => isBlank c && !isTerminator c) = true

/-- The line of a statement in its place. -/
def Placement.line (placement : Placement) (statement : Statement) : String × Terminator :=
  (placement.before ++ statement.source ++ placement.after, placement.terminator)

lemma parseAll_line {statement : Statement} (hline : IsLine statement.source.toList)
    (hread : Statement.ofTrimmed statement.source.toList = .ok (some statement))
    (placement : Placement) :
    Statement.parseAll (placement.line statement).1 = .ok [statement] := by
  have hblank := placement.blank
  simp only [List.all_eq_true, Bool.and_eq_true, Bool.not_eq_true', List.forall_mem_append]
    at hblank
  have htext : (placement.line statement).1.toList =
      placement.before.toList ++ statement.source.toList ++ placement.after.toList := by
    simp [Placement.line]
  have hnone : ∀ c ∈ (placement.line statement).1.toList, isTerminator c = false := by
    intro c hmem
    rw [htext, List.mem_append, List.mem_append] at hmem
    obtain (hmem | hmem) | hmem := hmem
    · exact (hblank.1 c hmem).2
    · exact hline.unbroken c hmem
    · exact (hblank.2 c hmem).2
  have htrim : trim (placement.line statement).1.toList = statement.source.toList := by
    rw [htext, trim_surrounded (fun c hmem => (hblank.1 c hmem).1)
      (fun c hmem => (hblank.2 c hmem).1), hline.trimmed]
  have hparse : Statement.parse (placement.line statement).1 = .ok (some statement) := by
    rw [Statement.parse, htrim, hread]
  exact parseAll_of_parse hnone hparse

/-- The program whose statements stand in these places. -/
def placed (statements : List (Statement × Placement)) : String :=
  joinLines (statements.map fun entry => entry.2.line entry.1)

/-- A program can be put together again from the sources of its statements: each source alone is
read as its statement, and the sources one after the other, with either terminator between each two
and any blanks around them, are read as the same program. -/
theorem program_rebuilt_from_sources (source : String) :
    ∃ statements, Statement.parseAll source = .ok statements ∧
      (∀ statement ∈ statements, Statement.parse statement.source = .ok (some statement)) ∧
      ∀ entries : List (Statement × Placement), entries.map Prod.fst = statements →
        Statement.parseAll (placed entries) = .ok statements := by
  obtain ⟨statements, hparse⟩ := exists_parseAll source
  refine ⟨statements, hparse, ?_, ?_⟩
  · intro statement hmem
    obtain ⟨hline, hread⟩ := isLine_source hparse hmem
    rw [Statement.parse, hline.trimmed, hread]
  · intro entries hentries
    have hlines : ∀ entry ∈ entries,
        Statement.parseAll (entry.2.line entry.1).1 = .ok [entry.1] := by
      intro entry hmem
      have hstatement : entry.1 ∈ statements := hentries ▸ List.mem_map_of_mem hmem
      obtain ⟨hline, hread⟩ := isLine_source hparse hstatement
      exact parseAll_line hline hread entry.2
    rw [placed, parseAll_joinLines hlines, ← hentries, List.map_eq_flatMap]

/-- An open quote, a quote that only a backslash closes, and a comment after a keyword. -/
def awkwardProgram : List Statement :=
  [⟨.call, "print \"a", [.literal "print" "print", .literal "\"a" "\"a"]⟩,
    ⟨.call, "f \"b\\\" c", [.literal "f" "f", .literal "\"b\\\"" "b\\", .literal "c" "c"]⟩,
    ⟨.assignment, "var x:y", [.literal "x" "x"]⟩]

/-- Other blanks and other terminators for its statements. -/
def awkwardPlaces : List (Statement × Placement) :=
  awkwardProgram.zip [⟨"", "", .newline, by decide⟩, ⟨"\u2003", "\t", .semicolon, by decide⟩,
    ⟨"", "\r", .newline, by decide⟩]

theorem program_rebuilt_from_sources_awkward :
    Statement.parseAll " print \"a;f \"b\\\" c\n: note\n\tvar x:y ;" = .ok awkwardProgram ∧
    (∀ statement ∈ awkwardProgram, Statement.parse statement.source = .ok (some statement)) ∧
    placed awkwardPlaces = "print \"a\n\u2003f \"b\\\" c\t;var x:y\r" ∧
    Statement.parseAll (placed awkwardPlaces) = .ok awkwardProgram := by
  have hread : Statement.parseAll " print \"a;f \"b\\\" c\n: note\n\tvar x:y ;" =
      .ok awkwardProgram := by
    decide +kernel
  obtain ⟨statements, hparse, hsources, hplaced⟩ :=
    program_rebuilt_from_sources " print \"a;f \"b\\\" c\n: note\n\tvar x:y ;"
  rw [hread, Except.ok.injEq] at hparse
  rw [← hparse] at hsources hplaced
  exact ⟨hread, hsources, by decide +kernel, hplaced awkwardPlaces rfl⟩

end LineScript.Proofs
