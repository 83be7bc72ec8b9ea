import LineScript.Proofs.TokenGrammar

/-!
# Escapes in quoted tokens

The scanner decides where a quoted token ends, and `unescape` reads what is inside. Both go by
backslashes that take the next character along, each in a loop of its own. `glyphs` is what the loop
of `unescape` goes through. It ends on a backslash that has nothing to take along exactly if the text
ends in an odd number of backslashes (`lone_mem_glyphs_iff`), and by that number the scanner tells a
quote that closes a token from one inside.
-/

namespace LineScript.Proofs

open Text

/-! ### Glyphs -/

/-- What `unescape` reads in one go: a character that stands for itself, a backslash with the
character that it takes along, or a backslash at the end with nothing to take along. -/
inductive Glyph where
  | plain (c : Char)
  | escaped (c : Char)
  | lone
  deriving DecidableEq

def Glyph.meaning : Glyph → List Char
  | plain c => [c]
  | escaped c => if c = '"' ∨ c = '\\' then [c] else ['\\', c]
  | lone => ['\\']

def glyphs : List Char → List Glyph
  | [] => []
  | c :: rest =>
    if c = '\\' then
      match rest with
      | [] => [.lone]
      | d :: rest => .escaped d :: glyphs rest
    else .plain c :: glyphs rest

lemma unescape_escaped (c : Char) (rest : List Char) :
    unescape ('\\' :: c :: rest) = (Glyph.escaped c).meaning ++ unescape rest := by
  rw [unescape_cons_slash, Glyph.meaning]
  by_cases hboth : c = '"' ∨ c = '\\'
  · rw [if_pos hboth, if_pos hboth, List.singleton_append]
  · rw [if_neg hboth, if_neg hboth, List.cons_append, List.singleton_append]

theorem unescape_eq_flatMap (text : List Char) :
    unescape text = (glyphs text).flatMap Glyph.meaning := by
  fun_induction glyphs text with
  | case1 => rfl
  | case2 => rfl
  | case3 c rest ih => rw [unescape_escaped, ih, List.flatMap_cons]
  | case4 c rest hslash ih =>
    rw [unescape_cons_of_ne hslash, ih, List.flatMap_cons]
    rfl

/-- No quote is dropped, and none is added. -/
lemma count_unescape (text : List Char) : (unescape text).count '"' = text.count '"' := by
  rw [unescape_eq_flatMap]
  fun_induction glyphs text with
  | case1 => rfl
  | case2 => rfl
  | case3 c rest ih =>
    have hmeaning : ((Glyph.escaped c).meaning).count '"' = ['\\', c].count '"' := by
      by_cases hboth : c = '"' ∨ c = '\\'
      · rw [Glyph.meaning, if_pos hboth]
        rfl
      · rw [Glyph.meaning, if_neg hboth]
    rw [List.flatMap_cons, List.count_append, ih, hmeaning, ← List.count_append]
    rfl
  | case4 c rest hslash ih =>
    rw [List.flatMap_cons, List.count_append, ih, ← List.count_append]
    rfl

/-! ### Glyphs and runs of backslashes -/

/-- The text after `front`, which ends in an even number of backslashes, is read to an end without a
lone backslash unless the number at its own end is odd. -/
lemma lone_mem_glyphs_iff_of_even {front : List Char} (heven : Even (slashes front))
    (text : List Char) : Glyph.lone ∈ glyphs text ↔ Odd (slashes (front ++ text)) := by
  fun_induction glyphs text generalizing front with
  | case1 =>
    rw [List.append_nil]
    simpa using heven
  | case2 =>
    rw [slashes_append_slash]
    simpa using heven.add_one
  | case3 c rest ih =>
    rw [List.mem_cons, ih (even_slashes_escaped heven c)]
    simp
  | case4 c rest hslash ih =>
    have hplain : Even (slashes (front ++ [c])) := by
      rw [slashes_append_plain hslash]
      exact Even.zero
    rw [List.mem_cons, ih hplain]
    simp

lemma lone_mem_glyphs_iff (text : List Char) :
    Glyph.lone ∈ glyphs text ↔ Odd (slashes text) := by
  have hempty : Even (slashes []) := Even.zero
  exact lone_mem_glyphs_iff_of_even hempty text

lemma glyphs_plain {c : Char} (hslash : c ≠ '\\') (rest : List Char) :
    glyphs (c :: rest) = .plain c :: glyphs rest := by
  rw [glyphs.eq_def]
  exact if_neg hslash

lemma glyphs_append {front : List Char} (hfront : Glyph.lone ∉ glyphs front) (back : List Char) :
    glyphs (front ++ back) = glyphs front ++ glyphs back := by
  fun_induction glyphs front with
  | case1 => rfl
  | case2 => simp at hfront
  | case3 c rest ih =>
    rw [List.mem_cons, not_or] at hfront
    rw [List.cons_append, List.cons_append, glyphs, if_pos rfl, ih hfront.2, List.cons_append]
  | case4 c rest hslash ih =>
    rw [List.mem_cons, not_or] at hfront
    rw [List.cons_append, glyphs_plain hslash, ih hfront.2, List.cons_append]

/-- After an even number of backslashes the reading starts anew. -/
lemma unescape_append {front : List Char} (heven : Even (slashes front)) (back : List Char) :
    unescape (front ++ back) = unescape front ++ unescape back := by
  have hfront : Glyph.lone ∉ glyphs front := by
    rw [lone_mem_glyphs_iff, Nat.not_odd_iff_even]
    exact heven
  rw [unescape_eq_flatMap, unescape_eq_flatMap, unescape_eq_flatMap, glyphs_append hfront,
    List.flatMap_append]

lemma exists_of_odd_slashes {text : List Char} (hodd : Odd (slashes text)) :
    ∃ kept, text = kept ++ ['\\'] ∧ Even (slashes kept) := by
  cases text using List.reverseRecOn with
  | nil => exact absurd hodd (by decide)
  | append_singleton kept c =>
    by_cases hc : c = '\\'
    · subst hc
      rw [slashes_append_slash] at hodd
      refine ⟨kept, rfl, ?_⟩
      rwa [Nat.odd_add_one, Nat.not_odd_iff_even] at hodd
    · rw [slashes_append_plain hc] at hodd
      exact absurd hodd (by decide)

/-- An escaped quote becomes a plain one, and its backslash goes. -/
lemma unescape_of_odd {front : List Char} (hodd : Odd (slashes front)) (back : List Char) :
    ∃ kept, front = kept ++ ['\\'] ∧
      unescape (front ++ '"' :: back) = unescape kept ++ '"' :: unescape back := by
  obtain ⟨kept, rfl, heven⟩ := exists_of_odd_slashes hodd
  refine ⟨kept, rfl, ?_⟩
  rw [List.append_assoc, List.singleton_append, unescape_append heven, unescape_escaped]
  rfl

/-! ### Bodies of quoted tokens -/

lemma slashes_cons_plain {c : Char} (hc : c ≠ '\\') (text : List Char) :
    slashes (c :: text) = slashes text := by
  unfold slashes
  rw [List.reverse_cons, List.takeWhile_append]
  by_cases hall : (text.reverse.takeWhile fun c => c == '\\').length = text.reverse.length
  · rw [if_pos hall, hall]
    simp [hc]
  · rw [if_neg hall]

lemma unescapedAt_cons_iff {target c : Char} (hc : c ≠ '\\') (text : List Char) (i : Nat) :
    UnescapedAt target (c :: text) (i + 1) ↔ UnescapedAt target text i := by
  rw [UnescapedAt, UnescapedAt, List.getElem?_cons_succ, List.take_succ_cons, slashes_cons_plain hc]

/-- A place where the scanner makes a token is the start of that token in the line. -/
lemma exists_leading_of_mem_spans {offset start : Nat} {line : List Char} {token : Token}
    (hmem : (start, token) ∈ spansAfter 0 offset line) :
    ∃ c rest, isBlank c = false ∧ line.drop (start - offset) = c :: rest ∧
      token = Token.leading c rest := by
  induction line using line_induction generalizing offset with
  | nil => simp [spansAfter] at hmem
  | blank c rest hc ih =>
    rw [spansAfter_cons_blank hc] at hmem
    have hle := le_of_mem_spansAfter hmem
    have hstart : start - offset = start - (offset + 1) + 1 := by omega
    rw [hstart, List.drop_succ_cons]
    exact ih hmem
  | token c rest hc ih =>
    rw [spansAfter_cons_token hc, List.mem_cons] at hmem
    obtain hfirst | hmem := hmem
    · cases hfirst
      refine ⟨c, rest, hc, ?_, rfl⟩
      rw [Nat.sub_self, List.drop_zero]
    · have hle := le_of_mem_spansAfter hmem
      have hpos := List.length_pos_of_ne_nil (text_leading_ne_nil c rest)
      obtain ⟨d, tail, hd, htail, htoken⟩ := ih _ hmem
      have hstart : start - offset = (Token.leading c rest).text.length - 1 +
          (start - (offset + (Token.leading c rest).text.length)) + 1 := by omega
      refine ⟨d, tail, hd, ?_, htoken⟩
      rw [hstart, List.drop_succ_cons, ← List.drop_drop, htail]

/-- The body of a quoted token, read by `unescape`, has the escapes that the scanner went by, where
`text` is the line from the opening quote of the token on. -/
structure SameEscapes (text body : List Char) : Prop where
  odd : ∀ i, body[i]? = some '"' → Odd (slashes (body.take i))
  plain : ∀ front back, body = front ++ '"' :: back →
    ∃ kept, front = kept ++ ['\\'] ∧ unescape body = unescape kept ++ '"' :: unescape back
  count : (unescape body).count '"' = body.count '"'
  read : unescape body = (glyphs body).flatMap Glyph.meaning
  lone_iff_fallback : Glyph.lone ∈ glyphs body ↔ unescaped? '"' text.tail = none
  lone_iff_escaped : Glyph.lone ∈ glyphs body ↔ ∀ i, 0 < i → ¬UnescapedAt '"' text i

/-- No quote before the one that closes a token has an even number of backslashes before it. -/
lemma odd_slashes_of_closesAt {body after : List Char}
    (hcloses : ClosesAt (body ++ '"' :: after) body.length) {i : Nat}
    (hquote : body[i]? = some '"') : Odd (slashes (body.take i)) := by
  have hlt : i < body.length := (List.getElem?_eq_some_iff.1 hquote).1
  rw [← Nat.not_even_iff_odd]
  intro heven
  have hat : UnescapedAt '"' (body ++ '"' :: after) i := by
    rw [unescapedAt_append_left hlt]
    exact ⟨hquote, heven⟩
  obtain hleast | ⟨hnone, -⟩ := hcloses
  · have hle := hleast.2 hat
    omega
  · exact hnone i hat

/-- The closing quote has an odd number of backslashes before it only if every quote has. -/
lemma odd_slashes_iff_of_closesAt {body after : List Char}
    (hcloses : ClosesAt (body ++ '"' :: after) body.length) :
    Odd (slashes body) ↔ ∀ i, ¬UnescapedAt '"' (body ++ '"' :: after) i := by
  constructor
  · intro hodd
    obtain hleast | ⟨hnone, -⟩ := hcloses
    · have hat := hleast.1
      rw [Set.mem_ofPred_eq, unescapedAt_length_iff] at hat
      exact absurd hodd (Nat.not_odd_iff_even.2 hat.2)
    · exact hnone
  · intro hnone
    rw [← Nat.not_even_iff_odd]
    intro heven
    apply hnone body.length
    rw [unescapedAt_length_iff]
    exact ⟨rfl, heven⟩

lemma sameEscapes_of_closesAt {body after : List Char}
    (hcloses : ClosesAt (body ++ '"' :: after) body.length) :
    SameEscapes ('"' :: (body ++ '"' :: after)) body := by
  have hlone : Glyph.lone ∈ glyphs body ↔ ∀ i, ¬UnescapedAt '"' (body ++ '"' :: after) i := by
    rw [lone_mem_glyphs_iff, odd_slashes_iff_of_closesAt hcloses]
  refine ⟨fun i => odd_slashes_of_closesAt hcloses, ?_, count_unescape body,
    unescape_eq_flatMap body, ?_, ?_⟩
  · rintro front back rfl
    apply unescape_of_odd
    have hodd := odd_slashes_of_closesAt hcloses (i := front.length) (by simp)
    rwa [List.take_left] at hodd
  · rw [hlone, List.tail_cons, unescaped?_eq_none_iff (by decide)]
  · rw [hlone]
    constructor
    · intro hnone i hi
      obtain ⟨i, rfl⟩ := Nat.exists_eq_succ_of_ne_zero hi.ne'
      rw [Nat.succ_eq_add_one, unescapedAt_cons_iff (by decide)]
      exact hnone i
    · intro hnone i
      rw [← unescapedAt_cons_iff (by decide : '"' ≠ '\\')]
      exact hnone (i + 1) (Nat.succ_pos i)

/-- The scanner and `unescape` agree on what is escaped. In the body of every quoted token of a
line, each quote has an odd number of backslashes before it; `unescape` drops the last of them and
keeps the quote, and keeps as many quotes as there are. It comes to a backslash at the end with
nothing to take along exactly if the scanner found no quote to close the token and took the last
one, which is the case exactly if no quote after the opening one has an even number of backslashes
before it. -/
theorem scanner_and_unescape_agree (line : List Char) :
    (spans line).map Prod.snd = Token.scan line ∧
    ∀ start body, (start, Token.quoted body) ∈ spans line →
      SameEscapes (line.drop start) body := by
  refine ⟨spans_snd line, ?_⟩
  intro start body hmem
  obtain ⟨c, rest, hc, hdrop, htoken⟩ := exists_leading_of_mem_spans hmem
  rw [Nat.sub_zero] at hdrop
  -- The grammar says where the token closes in the line from its start on.
  have hrule := tokenRule_leading hc rest
  have hline := text_leading_append c rest
  rw [← htoken] at hrule hline
  have htext : c :: rest = '"' :: (body ++ '"' :: afterLeading c rest) := by
    rw [← hline]
    simp [Token.text]
  rw [hdrop, htext]
  apply sameEscapes_of_closesAt
  have hcloses := hrule.closes rfl
  have hlength : (Token.quoted body).text.length - 2 = body.length := by simp [Token.text]
  rw [hlength] at hcloses
  simpa [Token.text] using hcloses

/-- The first token is closed by a quote of its own, and the second by an escaped one. -/
theorem scanner_and_unescape_agree_fallback :
    Token.scan "\"a\\\"b\" \"c\\\"d e".toList =
      [.quoted "a\\\"b".toList, .quoted "c\\".toList, .bare "d".toList, .bare "e".toList] ∧
    glyphs "a\\\"b".toList = [.plain 'a', .escaped '"', .plain 'b'] ∧
    glyphs "c\\".toList = [.plain 'c', .lone] ∧
    ¬(∀ i, 0 < i → ¬UnescapedAt '"' "\"a\\\"b\" \"c\\\"d e".toList i) ∧
    ∀ i, 0 < i → ¬UnescapedAt '"' "\"c\\\"d e".toList i := by
  obtain ⟨hscan, hspans⟩ := scanner_and_unescape_agree "\"a\\\"b\" \"c\\\"d e".toList
  have hfirst := hspans 0 "a\\\"b".toList (by decide +kernel)
  have hsecond := hspans 7 "c\\".toList (by decide +kernel)
  refine ⟨?_, by decide, by decide, ?_, ?_⟩
  · rw [← hscan]
    decide +kernel
  · exact fun hnone => absurd (hfirst.lone_iff_escaped.2 hnone) (by decide)
  · exact hsecond.lone_iff_escaped.1 (by decide)

end LineScript.Proofs
