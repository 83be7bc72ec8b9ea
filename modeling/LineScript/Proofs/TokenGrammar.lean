import LineScript.Proofs.Escapes

/-!
# The grammar of tokens

The scanner reads a line in one pass, and where a quoted token ends it decides by looking ahead. The
grammar says of a finished layout, tokens with gaps between them, what makes it the right one:
`Layout.Spaced` is about the gaps and `TokenRule` about each token and what follows it in the line.
A line has one layout by these rules, and its tokens are those of the scanner.
-/

namespace LineScript.Proofs

open Text

/-! ### Layouts -/

/-- A token of a line, with what stands between it and the token before. -/
structure Word where
  gap : List Char
  token : Token

/-- A line as its words, and what stands after the last. -/
structure Layout where
  words : List Word
  last : List Char

def Layout.line (layout : Layout) : List Char :=
  layout.words.flatMap (fun word => word.gap ++ word.token.text) ++ layout.last

def Layout.tokens (layout : Layout) : List Token :=
  layout.words.map Word.token

def isQuoted : Token → Bool
  | .quoted _ => true
  | .bare _ => false

/-- The gaps are blank, and only after a quoted token may the next one follow without a gap. -/
structure Layout.Spaced (layout : Layout) : Prop where
  gaps : ∀ word ∈ layout.words, ∀ c ∈ word.gap, isBlank c = true
  last : ∀ c ∈ layout.last, isBlank c = true
  apart : layout.words.IsChain fun first second => second.gap = [] → isQuoted first.token = true

/-- The quote at this offset closes a text that was opened before: it is the first with an even
number of backslashes before it, or, if there is none, the last of all. -/
def ClosesAt (text : List Char) (offset : Nat) : Prop :=
  IsLeast {i | UnescapedAt '"' text i} offset ∨
    (∀ i, ¬UnescapedAt '"' text i) ∧ IsGreatest {i | text[i]? = some '"'} offset

/-- What a token is, in a line that goes on with `after`. -/
structure TokenRule (token : Token) (after : List Char) : Prop where
  starts : ∃ c tail, token.text = c :: tail ∧ isBlank c = false
  quoted_iff : isQuoted token = true ↔
    token.text.head? = some '"' ∧ '"' ∈ token.text.tail ++ after
  closes : isQuoted token = true → ClosesAt (token.text.tail ++ after) (token.text.length - 2)
  maximal : isQuoted token = false →
    (∀ c ∈ token.text, isBlank c = false) ∧ ∀ c, after.head? = some c → isBlank c = true

structure Layout.Grammatical (layout : Layout) : Prop where
  spaced : layout.Spaced
  tokens : ∀ before word after, layout.words = before ++ word :: after →
    TokenRule word.token (Layout.line ⟨after, layout.last⟩)

lemma line_cons (word : Word) (words : List Word) (last : List Char) :
    Layout.line ⟨word :: words, last⟩ =
      word.gap ++ (word.token.text ++ Layout.line ⟨words, last⟩) := by
  simp [Layout.line]

lemma spaced_cons_iff (word : Word) (words : List Word) (last : List Char) :
    Layout.Spaced ⟨word :: words, last⟩ ↔
      (∀ c ∈ word.gap, isBlank c = true) ∧
      (∀ next ∈ words.head?, next.gap = [] → isQuoted word.token = true) ∧
      Layout.Spaced ⟨words, last⟩ := by
  constructor
  · rintro ⟨hgaps, hlast, hapart⟩
    rw [List.forall_mem_cons] at hgaps
    rw [List.isChain_cons] at hapart
    exact ⟨hgaps.1, hapart.1, hgaps.2, hlast, hapart.2⟩
  · rintro ⟨hgap, hnext, hgaps, hlast, hapart⟩
    refine ⟨?_, hlast, ?_⟩
    · rw [List.forall_mem_cons]
      exact ⟨hgap, hgaps⟩
    · rw [List.isChain_cons]
      exact ⟨hnext, hapart⟩

lemma grammatical_cons_iff (word : Word) (words : List Word) (last : List Char) :
    Layout.Grammatical ⟨word :: words, last⟩ ↔
      Layout.Spaced ⟨word :: words, last⟩ ∧
      TokenRule word.token (Layout.line ⟨words, last⟩) ∧
      Layout.Grammatical ⟨words, last⟩ := by
  constructor
  · rintro ⟨hspaced, htokens⟩
    refine ⟨hspaced, htokens [] word words rfl, ((spaced_cons_iff _ _ _).1 hspaced).2.2, ?_⟩
    rintro before other after rfl
    exact htokens (word :: before) other after rfl
  · rintro ⟨hspaced, hrule, hrest⟩
    refine ⟨hspaced, ?_⟩
    intro before other after hsplit
    cases before with
    | nil =>
      cases hsplit
      exact hrule
    | cons first before =>
      obtain ⟨-, hsplit⟩ := List.cons.inj hsplit
      exact hrest.tokens before other after hsplit

/-! ### Closing quotes -/

lemma closingQuote?_eq_some_iff (text : List Char) (offset : Nat) :
    closingQuote? text = some offset ↔ ClosesAt text offset := by
  unfold closingQuote? ClosesAt
  cases hfirst : unescaped? '"' text with
  | some first =>
    have hleast := (unescaped?_eq_some_iff (by decide) text first).1 hfirst
    change some first = some offset ↔ _
    rw [← unescaped?_eq_some_iff (by decide), hfirst]
    constructor
    · exact .inl
    · rintro (hsame | ⟨hnone, -⟩)
      · exact hsame
      · exact absurd hleast.1 (hnone first)
  | none =>
    have hnone := (unescaped?_eq_none_iff (by decide) text).1 hfirst
    change last? '"' text = some offset ↔ _
    rw [last?_eq_some_iff]
    constructor
    · exact fun hlast => .inr ⟨hnone, hlast⟩
    · rintro (hleast | ⟨-, hlast⟩)
      · exact absurd hleast.1 (hnone offset)
      · exact hlast

lemma closingQuote?_eq_none_iff (text : List Char) : closingQuote? text = none ↔ '"' ∉ text := by
  unfold closingQuote?
  cases hfirst : unescaped? '"' text with
  | some first =>
    have hleast := (unescaped?_eq_some_iff (by decide) text first).1 hfirst
    have hmem : '"' ∈ text := List.mem_of_getElem? hleast.1.1
    simp [hmem]
  | none => exact last?_eq_none_iff '"' text

/-! ### The scanner follows the grammar -/

lemma takeWhile_append_of_stop {p : Char → Bool} {text rest : List Char}
    (htext : ∀ c ∈ text, p c = true) (hrest : ∀ c, rest.head? = some c → p c = false) :
    (text ++ rest).takeWhile p = text := by
  rw [List.takeWhile_append_of_pos htext]
  cases rest with
  | nil => simp
  | cons c rest => simp [hrest c rfl]

/-- A token that the grammar allows is what the scanner makes of the line from there on. -/
lemma TokenRule.leading {token : Token} {after : List Char} (hrule : TokenRule token after) :
    ∃ c tail, token.text = c :: tail ∧ isBlank c = false ∧
      Token.leading c (tail ++ after) = token := by
  obtain ⟨c, tail, htext, hc⟩ := hrule.starts
  refine ⟨c, tail, htext, hc, ?_⟩
  cases token with
  | quoted body =>
    have hclosing := (closingQuote?_eq_some_iff _ _).2 (hrule.closes rfl)
    obtain ⟨rfl, rfl⟩ := List.cons.inj htext
    have hlength : (Token.quoted body).text.length - 2 = body.length := by simp [Token.text]
    rw [hlength] at hclosing
    change closingQuote? (body ++ ['"'] ++ after) = some body.length at hclosing
    rw [leading_quoted hclosing, List.append_assoc, List.take_left]
  | bare text =>
    obtain ⟨hrun, hstop⟩ := hrule.maximal rfl
    change text = c :: tail at htext
    subst htext
    have hopen : c = '"' → closingQuote? (tail ++ after) = none := by
      rintro rfl
      rw [closingQuote?_eq_none_iff]
      intro hmem
      have hquoted := hrule.quoted_iff.2 ⟨rfl, hmem⟩
      cases hquoted
    have htail : (tail ++ after).takeWhile (fun d => !isBlank d) = tail := by
      apply takeWhile_append_of_stop
      · intro d hd
        rw [hrun d (List.mem_cons_of_mem _ hd)]
        rfl
      · intro d hd
        rw [hstop d hd]
        rfl
    rw [leading_bare hopen, htail]

/-- What is left of a line after its first token. -/
def afterLeading (c : Char) (rest : List Char) : List Char :=
  rest.drop ((Token.leading c rest).text.length - 1)

lemma afterLeading_bare {c : Char} {rest : List Char} (h : c = '"' → closingQuote? rest = none) :
    afterLeading c rest = rest.dropWhile fun d => !isBlank d := by
  rw [afterLeading, leading_bare h]
  have hdrop := List.prefix_iff_eq_append.1 (List.takeWhile_prefix (fun d => !isBlank d) (l := rest))
  exact List.append_cancel_left (hdrop.trans List.takeWhile_append_dropWhile.symm)

lemma text_leading_append (c : Char) (rest : List Char) :
    (Token.leading c rest).text ++ afterLeading c rest = c :: rest := by
  obtain ⟨length, rfl, hclosing⟩ | hclosing := leading_cases c rest
  · obtain ⟨hlt, hquote⟩ := List.getElem?_eq_some_iff.1 (getElem?_of_closingQuote? hclosing)
    rw [afterLeading, leading_quoted hclosing, length_quoted_take hclosing]
    change '"' :: (rest.take length ++ ['"']) ++ rest.drop (length + 1) = '"' :: rest
    rw [← hquote, List.cons_append, List.append_assoc, List.singleton_append,
      List.getElem_cons_drop, List.take_append_drop]
  · rw [afterLeading_bare hclosing, leading_bare hclosing]
    change c :: rest.takeWhile _ ++ rest.dropWhile _ = c :: rest
    rw [List.cons_append, List.takeWhile_append_dropWhile]

lemma text_leading_cons (c : Char) (rest : List Char) :
    ∃ tail, (Token.leading c rest).text = c :: tail ∧ tail ++ afterLeading c rest = rest := by
  have hline := text_leading_append c rest
  cases htext : (Token.leading c rest).text with
  | nil => exact absurd htext (text_leading_ne_nil c rest)
  | cons d tail =>
    rw [htext, List.cons_append] at hline
    obtain ⟨rfl, htail⟩ := List.cons.inj hline
    exact ⟨tail, rfl, htail⟩

/-- The token that the scanner makes at the start of a line is one that the grammar allows. -/
lemma tokenRule_leading {c : Char} (hc : isBlank c = false) (rest : List Char) :
    TokenRule (Token.leading c rest) (afterLeading c rest) := by
  obtain ⟨tail, htext, htail⟩ := text_leading_cons c rest
  have hrest : (Token.leading c rest).text.tail ++ afterLeading c rest = rest := by
    rw [htext, List.tail_cons, htail]
  have hhead : (Token.leading c rest).text.head? = some c := by
    rw [htext, List.head?_cons]
  obtain ⟨length, rfl, hclosing⟩ | hclosing := leading_cases c rest
  · have hquoted : isQuoted (Token.leading '"' rest) = true := by
      rw [leading_quoted hclosing]
      rfl
    have hmem : '"' ∈ rest := List.mem_of_getElem? (getElem?_of_closingQuote? hclosing)
    refine ⟨⟨'"', tail, htext, hc⟩, ?_, fun _ => ?_, fun hbare => ?_⟩
    · rw [hrest]
      exact ⟨fun _ => ⟨hhead, hmem⟩, fun _ => hquoted⟩
    · rw [hrest, leading_quoted hclosing, length_quoted_take hclosing]
      exact (closingQuote?_eq_some_iff _ _).1 hclosing
    · rw [hquoted] at hbare
      cases hbare
  · have hbare : isQuoted (Token.leading c rest) = false := by
      rw [leading_bare hclosing]
      rfl
    refine ⟨⟨c, tail, htext, hc⟩, ?_, fun hquoted => ?_, fun _ => ⟨?_, ?_⟩⟩
    · rw [hrest, hhead, hbare]
      simp only [Bool.false_eq_true, Option.some.injEq, false_iff, not_and]
      intro hquote
      exact (closingQuote?_eq_none_iff rest).1 (hclosing hquote)
    · rw [hbare] at hquoted
      cases hquoted
    · rw [leading_bare hclosing]
      intro d hd
      obtain rfl | hd := List.mem_cons.1 hd
      · exact hc
      · simpa using List.mem_takeWhile_imp hd
    · intro d hd
      have hstop := List.head?_dropWhile_not (fun d => !isBlank d) rest
      rw [afterLeading_bare hclosing] at hd
      rw [hd] at hstop
      simpa using hstop

/-! ### Layouts and scans -/

/-- After a token that runs to the next blank, the next one cannot follow without a gap. -/
lemma apart_of_rule {token : Token} {words : List Word} {last : List Char}
    (hrule : TokenRule token (Layout.line ⟨words, last⟩))
    (hwords : Layout.Grammatical ⟨words, last⟩) :
    ∀ next ∈ words.head?, next.gap = [] → isQuoted token = true := by
  intro next hnext hgap
  by_contra hbare
  rw [Bool.not_eq_true] at hbare
  cases words with
  | nil => cases hnext
  | cons word words =>
    cases hnext
    obtain ⟨c, tail, htext, hc⟩ := ((grammatical_cons_iff _ _ _).1 hwords).2.1.starts
    have hblank := (hrule.maximal hbare).2 c (by rw [line_cons, hgap, htext]; rfl)
    rw [hc] at hblank
    cases hblank

/-- Every line has a layout by the grammar, with the tokens of the scanner. -/
lemma exists_grammatical (gap : List Char) (hgap : ∀ c ∈ gap, isBlank c = true)
    (line : List Char) :
    ∃ layout : Layout, layout.Grammatical ∧ layout.line = gap ++ line ∧
      layout.tokens = Token.scan line := by
  -- The blanks before the next token are gathered in `gap`.
  induction line using line_induction generalizing gap with
  | nil =>
    refine ⟨⟨[], gap⟩, ⟨⟨by simp, hgap, .nil⟩, by simp⟩, ?_, rfl⟩
    simp [Layout.line]
  | blank c rest hc ih =>
    have hgap' : ∀ d ∈ gap ++ [c], isBlank d = true := by
      simpa [or_imp, forall_and, hc] using hgap
    obtain ⟨layout, hlayout, hline, htokens⟩ := ih (gap ++ [c]) hgap'
    refine ⟨layout, hlayout, ?_, ?_⟩
    · rw [hline, ← List.append_cons]
    · rw [htokens, scan_cons_blank hc]
  | token c rest hc ih =>
    have hrule := tokenRule_leading hc rest
    obtain ⟨⟨words, last⟩, hwords, hline, htokens⟩ :=
      ih ((Token.leading c rest).text.length - 1) [] (by simp)
    change Layout.line ⟨words, last⟩ = afterLeading c rest at hline
    rw [← hline] at hrule
    refine ⟨⟨⟨gap, Token.leading c rest⟩ :: words, last⟩, ?_, ?_, ?_⟩
    · rw [grammatical_cons_iff, spaced_cons_iff]
      exact ⟨⟨hgap, apart_of_rule hrule hwords, hwords.spaced⟩, hrule, hwords⟩
    · rw [line_cons, hline, text_leading_append]
    · rw [scan_cons_token hc, ← htokens]
      rfl

/-- The scanner finds the tokens of a layout by the grammar. -/
lemma scan_of_grammatical {layout : Layout} (hlayout : layout.Grammatical) :
    Token.scan layout.line = layout.tokens := by
  obtain ⟨words, last⟩ := layout
  induction words with
  | nil =>
    have hlast := scan_blanks hlayout.spaced.last []
    rwa [List.append_nil] at hlast
  | cons word words ih =>
    obtain ⟨hspaced, hrule, hwords⟩ := (grammatical_cons_iff _ _ _).1 hlayout
    obtain ⟨c, tail, htext, hc, hleading⟩ := hrule.leading
    have hafter : (tail ++ Layout.line ⟨words, last⟩).drop (word.token.text.length - 1) =
        Layout.line ⟨words, last⟩ := by
      rw [htext, List.length_cons, Nat.add_sub_cancel, List.drop_left]
    rw [line_cons, scan_blanks ((spaced_cons_iff _ _ _).1 hspaced).1, htext, List.cons_append,
      scan_cons_token hc, hleading, hafter, ih hwords]
    rfl

/-- The scanner is the grammar of tokens: tokens are those of the scanner exactly if the line has a
layout by the grammar with these tokens, so that the grammar leaves no choice. In such a layout the
line is made of blank gaps and of tokens, a gap between two tokens is empty only after a quoted one,
and each token starts with a character that is not blank. A token is quoted if it starts with a
quote and there is another quote in the rest of the line. It then ends at the first of these that has
an even number of backslashes before it, or else at the last one; a bare token goes on to the next
blank. -/
theorem scanning_is_token_grammar (line : List Char) (tokens : List Token) :
    Token.scan line = tokens ↔
      ∃ layout : Layout, layout.Grammatical ∧ layout.line = line ∧ layout.tokens = tokens := by
  constructor
  · rintro rfl
    exact exists_grammatical [] (by simp) line
  · rintro ⟨layout, hlayout, rfl, rfl⟩
    exact scan_of_grammatical hlayout

-- No quote closes the text, so that it ends at the last one and the rest of the line is bare.
example : Token.scan "println \"a\\\"b c".toList =
    [.bare "println".toList, .quoted "a\\".toList, .bare "b".toList, .bare "c".toList] := by
  decide +kernel

end LineScript.Proofs
