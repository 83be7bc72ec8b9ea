import LineScript.Statement.Parser
import Mathlib.Tactic

/-!
# Reading source texts

Every text can be read: the scanner makes no empty token, and no other text fails to be an
expression. A text is read piece by piece, since a terminator ends a piece wherever it stands; so a
text with a terminator in it is read as what stands before it, followed by what stands after it.
-/

namespace LineScript.Proofs

open Text

/-! ### Every text can be read -/

lemma text_leading_ne_nil (c : Char) (rest : List Char) : (Token.leading c rest).text ≠ [] := by
  unfold Token.leading
  split <;> simp [Token.text]

lemma text_ne_nil_of_mem_scanAfter {skip : Nat} {line : List Char} {token : Token}
    (hmem : token ∈ Token.scanAfter skip line) : token.text ≠ [] := by
  induction line generalizing skip with
  | nil => simp [Token.scanAfter] at hmem
  | cons c rest ih =>
    cases skip with
    | succ skip => exact ih hmem
    | zero =>
      by_cases hblank : isBlank c = true
      · rw [Token.scanAfter, if_pos hblank] at hmem
        exact ih hmem
      · rw [Token.scanAfter, if_neg hblank] at hmem
        obtain rfl | hmem := List.mem_cons.1 hmem
        · exact text_leading_ne_nil c rest
        · exact ih hmem

lemma exists_ofBare {text : List Char} (hne : text ≠ []) :
    ∃ expression, ∀ line, Expression.ofBare line text = .ok expression := by
  unfold Expression.ofBare
  cases hbare : Expression.ofBare? text with
  | some expression => exact ⟨expression, fun _ => rfl⟩
  | none =>
    unfold Expression.ofBare? at hbare
    split at hbare <;> simp_all

/-- Tokens that are not empty stand for expressions, whatever line they stand in. -/
lemma exists_ofTokens {tokens : List Token} (hne : ∀ token ∈ tokens, token.text ≠ []) :
    ∃ expressions, ∀ line, Expression.ofTokens line tokens = .ok expressions := by
  induction tokens with
  | nil => exact ⟨[], fun _ => rfl⟩
  | cons token rest ih =>
    rw [List.forall_mem_cons] at hne
    obtain ⟨expressions, hrest⟩ := ih hne.2
    cases token with
    | quoted body =>
      refine ⟨Expression.ofQuoted body :: expressions, fun line => ?_⟩
      rw [Expression.ofTokens, hrest]
      rfl
    | bare text =>
      have htext : text ≠ [] := hne.1
      cases hcomment : comment? text with
      | none =>
        obtain ⟨expression, hbare⟩ := exists_ofBare htext
        refine ⟨expression :: expressions, fun line => ?_⟩
        simp only [Expression.ofTokens, hcomment, hbare, hrest]
        rfl
      | some length =>
        cases length with
        | zero => exact ⟨[], fun line => by simp only [Expression.ofTokens, hcomment]⟩
        | succ length =>
          have hcut : text.take (length + 1) ≠ [] := by simp [htext]
          obtain ⟨expression, hbare⟩ := exists_ofBare hcut
          refine ⟨[expression], fun line => ?_⟩
          simp only [Expression.ofTokens, hcomment, hbare]
          rfl

/-- The tokens of a statement that are its operands. -/
def operands (first : Token) (rest : List Token) : List Token :=
  if (StatementKind.ofKeyword (String.ofList first.text)).keepsKeyword then first :: rest else rest

lemma ofTrimmed_of_scan {line : List Char} {first : Token} {rest : List Token}
    {expressions : List Expression} (hhead : line.head? ≠ some ':')
    (hscan : Token.scan line = first :: rest)
    (hexpressions : Expression.ofTokens (String.ofList line) (operands first rest) =
      .ok expressions) :
    Statement.ofTrimmed line =
      .ok (some ⟨.ofKeyword (String.ofList first.text), String.ofList line, expressions⟩) := by
  rw [operands] at hexpressions
  rw [Statement.ofTrimmed, if_neg hhead, hscan]
  simp only [Statement.ofTokens, hexpressions]
  rfl

lemma text_ne_nil_of_mem_operands {line : List Char} {first token : Token} {rest : List Token}
    (hscan : Token.scan line = first :: rest) (hmem : token ∈ operands first rest) :
    token.text ≠ [] := by
  have hscanned : token ∈ first :: rest := by
    unfold operands at hmem
    split at hmem
    · exact hmem
    · exact List.mem_cons_of_mem _ hmem
  rw [← hscan] at hscanned
  exact text_ne_nil_of_mem_scanAfter hscanned

lemma exists_ofTrimmed (line : List Char) :
    ∃ statement, Statement.ofTrimmed line = .ok statement := by
  by_cases hhead : line.head? = some ':'
  · exact ⟨none, by rw [Statement.ofTrimmed, if_pos hhead]⟩
  · cases hscan : Token.scan line with
    | nil =>
      refine ⟨none, ?_⟩
      rw [Statement.ofTrimmed, if_neg hhead, hscan]
    | cons first rest =>
      obtain ⟨expressions, hexpressions⟩ :=
        exists_ofTokens fun token hmem => text_ne_nil_of_mem_operands hscan hmem
      exact ⟨_, ofTrimmed_of_scan hhead hscan (hexpressions _)⟩

lemma exists_ofLines (lines : List (List Char)) :
    ∃ statements, Statement.ofLines lines = .ok statements := by
  induction lines with
  | nil => exact ⟨[], rfl⟩
  | cons line rest ih =>
    obtain ⟨statement, hline⟩ := exists_ofTrimmed (trim line)
    obtain ⟨statements, hrest⟩ := ih
    refine ⟨statement.toList ++ statements, ?_⟩
    rw [Statement.ofLines, hline, hrest]
    rfl

/-- Every source text can be read. -/
theorem exists_parseAll (source : String) :
    ∃ statements, Statement.parseAll source = .ok statements :=
  exists_ofLines (lines source.toList)

/-! ### Texts are read piece by piece -/

lemma piecesFrom_append {c : Char} (hc : isTerminator c = true) (current first second : List Char) :
    piecesFrom current (first ++ c :: second) =
      piecesFrom current first ++ piecesFrom [] second := by
  induction first generalizing current with
  | nil =>
    simp only [List.nil_append, piecesFrom, if_pos hc]
    rfl
  | cons d rest ih =>
    rw [List.cons_append, piecesFrom, piecesFrom]
    by_cases hd : isTerminator d = true
    · rw [if_pos hd, if_pos hd, ih, List.cons_append]
    · rw [if_neg hd, if_neg hd, ih]

lemma lines_append {c : Char} (hc : isTerminator c = true) (first second : List Char) :
    lines (first ++ c :: second) = lines first ++ lines second := by
  rw [lines, pieces, piecesFrom_append hc, List.map_append, List.filter_append]
  rfl

lemma ofLines_append {first second : List (List Char)} {before after : List Statement}
    (hfirst : Statement.ofLines first = .ok before)
    (hsecond : Statement.ofLines second = .ok after) :
    Statement.ofLines (first ++ second) = .ok (before ++ after) := by
  induction first generalizing before with
  | nil =>
    cases hfirst
    exact hsecond
  | cons line rest ih =>
    obtain ⟨statement, hline⟩ := exists_ofTrimmed (trim line)
    obtain ⟨statements, hrest⟩ := exists_ofLines rest
    rw [Statement.ofLines, hline, hrest] at hfirst
    cases hfirst
    rw [List.cons_append, Statement.ofLines, hline, ih hrest, List.append_assoc]
    rfl

/-- A text with a terminator in it is read as its two parts. -/
theorem parseAll_append {c : Char} (hc : isTerminator c = true) {first second : String}
    {before after : List Statement} (hfirst : Statement.parseAll first = .ok before)
    (hsecond : Statement.parseAll second = .ok after) :
    Statement.parseAll (first ++ c.toString ++ second) = .ok (before ++ after) := by
  have htext : (first ++ c.toString ++ second).toList = first.toList ++ c :: second.toList := by
    simp
  rw [Statement.parseAll, htext, lines_append hc]
  exact ofLines_append hfirst hsecond

end LineScript.Proofs
