import LineScript.Proofs.TokenGrammar

/-!
# Spacing carries no meaning

Whether a quote opens a text depends on all of the line after it, but not on the blanks there: a
token looks ahead only for quotes, and gaps hold none. So the tokens of a line, written with other
gaps, make up a layout by the grammar again, and the scanner finds the same tokens. What a line is
read as depends on its tokens alone.
-/

namespace LineScript.Proofs

open Text

/-! ### Tokens in another line -/

lemma ClosesAt.of_append {text after after' : List Char} {offset : Nat}
    (hcloses : ClosesAt (text ++ after) offset) (hoffset : offset < text.length)
    (hquotes : '"' ∈ after' → '"' ∈ after) : ClosesAt (text ++ after') offset := by
  have hsame : ∀ i, i < text.length →
      (UnescapedAt '"' (text ++ after') i ↔ UnescapedAt '"' (text ++ after) i) := by
    intro i hi
    rw [unescapedAt_append_left hi, unescapedAt_append_left hi]
  obtain hfirst | ⟨hnone, hlast⟩ := hcloses
  · left
    refine ⟨(hsame offset hoffset).2 hfirst.1, fun i hi => ?_⟩
    by_contra hlt
    have hbefore := hfirst.2 ((hsame i (by omega)).1 hi)
    omega
  · -- The last quote of the line stands in `text`, so that none stands after it.
    have hnot : '"' ∉ after' := by
      intro hmem
      obtain ⟨i, hi⟩ := List.mem_iff_getElem?.1 (hquotes hmem)
      have hle : text.length + i ≤ offset := by
        apply hlast.2
        change (text ++ after)[text.length + i]? = some '"'
        rw [List.getElem?_append_right (by omega), Nat.add_sub_cancel_left, hi]
      omega
    have hwithin : ∀ i, (text ++ after')[i]? = some '"' → i < text.length := by
      intro i hi
      by_contra hge
      rw [List.getElem?_append_right (by omega)] at hi
      exact hnot (List.mem_of_getElem? hi)
    right
    refine ⟨fun i hi => hnone i ((hsame i (hwithin i hi.1)).1 hi), ?_, fun i hi => ?_⟩
    · change (text ++ after')[offset]? = some '"'
      rw [List.getElem?_append_left hoffset, ← List.getElem?_append_left hoffset]
      exact hlast.1
    · have hi' := hwithin i hi
      apply hlast.2
      change (text ++ after')[i]? = some '"' at hi
      change (text ++ after)[i]? = some '"'
      rwa [List.getElem?_append_left hi'] at hi ⊢

/-- A token stays one if what follows it holds a quote or none as before, and a bare token still
ends there. -/
lemma TokenRule.move {token : Token} {after after' : List Char} (hrule : TokenRule token after)
    (hquotes : '"' ∈ after' ↔ '"' ∈ after)
    (hstop : isQuoted token = false → ∀ c, after'.head? = some c → isBlank c = true) :
    TokenRule token after' := by
  refine ⟨hrule.starts, ?_, fun hquoted => ?_, fun hbare => ?_⟩
  · rw [hrule.quoted_iff, List.mem_append, List.mem_append, hquotes]
  · refine (hrule.closes hquoted).of_append ?_ hquotes.1
    cases token with
    | quoted body =>
      simp only [Token.text, List.length_cons, List.length_append, List.tail_cons]
      omega
    | bare text => cases hquoted
  · exact ⟨(hrule.maximal hbare).1, hstop hbare⟩

/-! ### Layouts with other gaps -/

lemma quote_mem_line_iff {layout : Layout} (hspaced : layout.Spaced) :
    '"' ∈ layout.line ↔ ∃ token ∈ layout.tokens, '"' ∈ token.text := by
  have hblanks : ∀ text : List Char, (∀ c ∈ text, isBlank c = true) → '"' ∉ text := by
    intro text hblank hmem
    exact absurd (hblank '"' hmem) (by decide)
  rw [Layout.line, Layout.tokens, List.mem_append, List.mem_flatMap]
  constructor
  · rintro (⟨word, hword, hmem⟩ | hmem)
    · have hgap := hblanks word.gap (hspaced.gaps word hword)
      exact ⟨word.token, List.mem_map_of_mem hword, (List.mem_append.1 hmem).resolve_left hgap⟩
    · exact absurd hmem (hblanks layout.last hspaced.last)
  · rintro ⟨token, htoken, hmem⟩
    obtain ⟨word, hword, rfl⟩ := List.mem_map.1 htoken
    exact .inl ⟨word, hword, List.mem_append_right _ hmem⟩

/-- Words that start with a gap, or no words at all, start with a blank, if with anything. -/
lemma blank_head_line {words : List Word} {last : List Char} (hspaced : Layout.Spaced ⟨words, last⟩)
    (hgap : ∀ word ∈ words.head?, word.gap ≠ []) :
    ∀ c, (Layout.line ⟨words, last⟩).head? = some c → isBlank c = true := by
  intro c hc
  cases words with
  | nil => exact hspaced.last c (List.mem_of_head? hc)
  | cons word words =>
    cases hword : word.gap with
    | nil => exact absurd hword (hgap word rfl)
    | cons d gap =>
      rw [line_cons, hword] at hc
      cases hc
      apply hspaced.gaps word List.mem_cons_self
      rw [hword]
      exact List.mem_cons_self

/-- The grammar does not care how wide the gaps are. -/
theorem grammatical_of_spaced {words words' : List Word} {last last' : List Char}
    (hlayout : Layout.Grammatical ⟨words, last⟩) (hspaced : Layout.Spaced ⟨words', last'⟩)
    (htokens : words'.map Word.token = words.map Word.token) :
    Layout.Grammatical ⟨words', last'⟩ := by
  induction words' generalizing words with
  | nil => exact ⟨hspaced, by simp⟩
  | cons word' words' ih =>
    cases words with
    | nil => cases htokens
    | cons word words =>
      obtain ⟨htoken, hrest⟩ := List.cons.inj htokens
      obtain ⟨-, hrule, hwords⟩ := (grammatical_cons_iff _ _ _).1 hlayout
      obtain ⟨-, hnext, hspaced'⟩ := (spaced_cons_iff _ _ _).1 hspaced
      rw [grammatical_cons_iff]
      refine ⟨hspaced, ?_, ih hwords hspaced' hrest⟩
      rw [← htoken] at hrule
      apply hrule.move
      · rw [quote_mem_line_iff hspaced', quote_mem_line_iff hwords.spaced, Layout.tokens,
          Layout.tokens, hrest]
      · intro hbare
        apply blank_head_line hspaced'
        intro next hmem hgap
        rw [hnext next hmem hgap] at hbare
        cases hbare

lemma scan_of_spaced {line : List Char} {layout : Layout} (hspaced : layout.Spaced)
    (htokens : layout.tokens = Token.scan line) : Token.scan layout.line = Token.scan line := by
  obtain ⟨original, hlayout, -, hscan⟩ := exists_grammatical [] (by simp) line
  rw [← htokens]
  apply scan_of_grammatical
  exact grammatical_of_spaced hlayout hspaced (htokens.trans hscan.symm)

/-! ### Reading by tokens -/

lemma scan_dropWhile (line : List Char) : Token.scan (line.dropWhile isBlank) = Token.scan line := by
  have hblanks : ∀ c ∈ line.takeWhile isBlank, isBlank c = true :=
    fun c hmem => List.mem_takeWhile_imp hmem
  have hline := scan_blanks hblanks (line.dropWhile isBlank)
  rw [List.takeWhile_append_dropWhile] at hline
  exact hline.symm

lemma scan_trim (line : List Char) : Token.scan (trim line) = Token.scan line := by
  rw [trim, scan_trimRight, scan_dropWhile]

/-- A line starts with its first token. -/
lemma head?_trim {line : List Char} {first : Token} {rest : List Token}
    (hscan : Token.scan line = first :: rest) : (trim line).head? = first.text.head? := by
  rw [← scan_dropWhile] at hscan
  have hstop := List.head?_dropWhile_not isBlank line
  rw [trim]
  cases hline : line.dropWhile isBlank with
  | nil =>
    rw [hline] at hscan
    cases hscan
  | cons c tail =>
    have hc : isBlank c = false := by
      rw [hline] at hstop
      exact hstop
    rw [hline, scan_cons_token hc] at hscan
    obtain ⟨rfl, -⟩ := List.cons.inj hscan
    obtain ⟨text, htext, -⟩ := text_leading_cons c tail
    rw [head?_trimRight hc, htext, List.head?_cons]

/-- What a line is read as, its source apart, depends on its tokens alone. -/
lemma exists_reading (tokens : List Token) (hne : ∀ token ∈ tokens, token.text ≠ []) :
    ∃ reading : Option (StatementKind × List Expression), ∀ line : String,
      Token.scan line.toList = tokens →
        Statement.parse line =
          .ok (reading.map fun read => ⟨read.1, trimmed line, read.2⟩) := by
  cases tokens with
  | nil =>
    refine ⟨none, fun line hscan => ?_⟩
    rw [← scan_trim] at hscan
    unfold Statement.parse Statement.ofTrimmed
    split
    · rfl
    · rw [hscan]
      rfl
  | cons first rest =>
    by_cases hcolon : first.text.head? = some ':'
    · refine ⟨none, fun line hscan => ?_⟩
      rw [← head?_trim hscan] at hcolon
      rw [Statement.parse, Statement.ofTrimmed, if_pos hcolon]
      rfl
    · have hoperands : ∀ token ∈ operands first rest, token.text ≠ [] := by
        intro token hmem
        apply hne
        unfold operands at hmem
        split at hmem
        · exact hmem
        · exact List.mem_cons_of_mem _ hmem
      obtain ⟨expressions, hexpressions⟩ := exists_ofTokens hoperands
      refine ⟨some (.ofKeyword (String.ofList first.text), expressions), fun line hscan => ?_⟩
      rw [← head?_trim hscan] at hcolon
      rw [← scan_trim] at hscan
      exact ofTrimmed_of_scan hcolon hscan (hexpressions _)

/-- Spacing carries no meaning. If the tokens of a line are written one after the other, with blanks
between each two, or nothing after a quoted one, and with any blanks before the first and after the
last, the scanner finds the same tokens, and the line is read as a statement of the same kind with
the same expressions, or as none if it was none before. -/
theorem spacing_carries_no_meaning (line : String) (layout : Layout) (hspaced : layout.Spaced)
    (htokens : layout.tokens = Token.scan line.toList) :
    Token.scan layout.line = Token.scan line.toList ∧
    ∃ reading : Option (StatementKind × List Expression),
      Statement.parse line = .ok (reading.map fun read => ⟨read.1, trimmed line, read.2⟩) ∧
      Statement.parse (String.ofList layout.line) =
        .ok (reading.map fun read =>
          ⟨read.1, trimmed (String.ofList layout.line), read.2⟩) := by
  have hscan := scan_of_spaced hspaced htokens
  obtain ⟨reading, hreading⟩ := exists_reading (Token.scan line.toList)
    fun token hmem => text_ne_nil_of_mem_scanAfter hmem
  refine ⟨hscan, reading, hreading line rfl, hreading _ ?_⟩
  rw [String.toList_ofList, hscan]

/-- Two quoted texts that touch, the second of which only its last quote closes, then a backslash
and a comment. -/
def crampedLine : String :=
  "f \"p q\"\"r\\\" \\ :n"

/-- Its tokens with other gaps. -/
def respaced : Layout where
  words := [⟨['\t'], .bare ['f']⟩, ⟨[' '], .quoted "p q".toList⟩, ⟨['\u2003'], .quoted "r\\".toList⟩,
    ⟨[], .bare ['\\']⟩, ⟨[' ', '\n'], .bare ":n".toList⟩]
  last := [' ']

theorem spacing_carries_no_meaning_cramped :
    respaced.Spaced ∧
    String.ofList respaced.line = "\tf \"p q\"\u2003\"r\\\"\\ \n:n " ∧
    Statement.parse crampedLine = .ok (some ⟨.call, crampedLine,
      [.literal "f" "f", .literal "\"p q\"" "p q", .literal "\"r\\\"" "r\\",
        .literal "\\" ""]⟩) ∧
    Token.scan respaced.line = Token.scan crampedLine.toList ∧
    ∃ reading : Option (StatementKind × List Expression),
      Statement.parse crampedLine =
        .ok (reading.map fun read => ⟨read.1, trimmed crampedLine, read.2⟩) ∧
      Statement.parse (String.ofList respaced.line) =
        .ok (reading.map fun read =>
          ⟨read.1, trimmed (String.ofList respaced.line), read.2⟩) := by
  have hspaced : respaced.Spaced := by
    refine ⟨?_, ?_, ?_⟩
    · simp [respaced, isBlank]
    · simp [respaced, isBlank]
    · simp [respaced, isQuoted]
  have htokens : respaced.tokens = Token.scan crampedLine.toList := by decide +kernel
  exact ⟨hspaced, by decide +kernel, by decide +kernel,
    spacing_carries_no_meaning crampedLine respaced hspaced htokens⟩

end LineScript.Proofs
