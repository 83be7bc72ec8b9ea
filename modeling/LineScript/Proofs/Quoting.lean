import LineScript.Statement.Parser
import Mathlib.Tactic

/-!
# Quoting is lossless

Every text can be written between double quotes, and a line of such texts is read back as the texts
that were written, with or without blanks between them. The scanner and `unescape` go by the same
escapes: the scanner finds the closing quote right after the escaped text (`closingQuote?_escape`),
and `unescape` undoes `escape`.
-/

namespace LineScript.Proofs

open Text

/-! ### Escaped texts -/

lemma escape_cons_of_special {c : Char} (hc : c = '\\' ∨ c = '"') (text : List Char) :
    escape (c :: text) = '\\' :: c :: escape text := by
  simp [escape, hc]

lemma escape_cons_of_plain {c : Char} (hc : ¬(c = '\\' ∨ c = '"')) (text : List Char) :
    escape (c :: text) = c :: escape text := by
  simp [escape, hc]

lemma mem_escape {c : Char} {text : List Char} (hmem : c ∈ escape text) :
    c = '\\' ∨ c ∈ text := by
  obtain ⟨d, hd, hc⟩ := List.mem_flatMap.1 hmem
  split at hc
  · obtain rfl | hc := List.mem_cons.1 hc
    · exact .inl rfl
    · rw [List.mem_singleton] at hc
      exact .inr (hc ▸ hd)
  · rw [List.mem_singleton] at hc
    exact .inr (hc ▸ hd)

lemma unescape_cons_of_ne {c : Char} (hc : c ≠ '\\') (text : List Char) :
    unescape (c :: text) = c :: unescape text := by
  rw [unescape.eq_def]
  exact if_neg hc

lemma unescape_cons_slash (c : Char) (text : List Char) :
    unescape ('\\' :: c :: text) =
      if c = '"' ∨ c = '\\' then c :: unescape text else '\\' :: c :: unescape text := by
  rw [unescape.eq_def]
  exact if_pos rfl

/-- Escaping is undone exactly. -/
theorem unescape_escape (text : List Char) : unescape (escape text) = text := by
  induction text with
  | nil => rfl
  | cons c rest ih =>
    by_cases hc : c = '\\' ∨ c = '"'
    · rw [escape_cons_of_special hc, unescape_cons_slash, if_pos hc.symm, ih]
    · have hslash : c ≠ '\\' := fun h => hc (.inl h)
      rw [escape_cons_of_plain hc, unescape_cons_of_ne hslash, ih]

lemma unescapedFrom_target (target : Char) (offset : Nat) (rest : List Char) :
    unescapedFrom target offset (target :: rest) = some offset := by
  rw [unescapedFrom.eq_def]
  exact if_pos rfl

lemma unescapedFrom_escaped {target : Char} (htarget : '\\' ≠ target) (offset : Nat) (c : Char)
    (rest : List Char) :
    unescapedFrom target offset ('\\' :: c :: rest) = unescapedFrom target (offset + 2) rest := by
  rw [unescapedFrom.eq_def]
  simp only [if_neg htarget, if_true]

lemma unescapedFrom_plain {target c : Char} (htarget : c ≠ target) (hslash : c ≠ '\\')
    (offset : Nat) (rest : List Char) :
    unescapedFrom target offset (c :: rest) = unescapedFrom target (offset + 1) rest := by
  rw [unescapedFrom.eq_def]
  simp only [if_neg htarget, if_neg hslash]

/-- No quote of an escaped text is unescaped, so the first one is that after it. -/
lemma unescapedFrom_escape (text tail : List Char) (offset : Nat) :
    unescapedFrom '"' offset (escape text ++ '"' :: tail) =
      some (offset + (escape text).length) := by
  induction text generalizing offset with
  | nil => exact unescapedFrom_target '"' offset tail
  | cons c rest ih =>
    by_cases hc : c = '\\' ∨ c = '"'
    · rw [escape_cons_of_special hc, List.cons_append, List.cons_append,
        unescapedFrom_escaped (by decide), ih]
      simp only [List.length_cons, Option.some.injEq]
      omega
    · have hslash : c ≠ '\\' := fun h => hc (.inl h)
      have hquote : c ≠ '"' := fun h => hc (.inr h)
      rw [escape_cons_of_plain hc, List.cons_append, unescapedFrom_plain hquote hslash, ih]
      simp only [List.length_cons, Option.some.injEq]
      omega

lemma closingQuote?_escape (text tail : List Char) :
    closingQuote? (escape text ++ '"' :: tail) = some (escape text).length := by
  have h := unescapedFrom_escape text tail 0
  rw [Nat.zero_add] at h
  simp only [closingQuote?, unescaped?, h]
  rfl

/-! ### Scanning quoted texts -/

lemma scanAfter_eq_scan_drop (skip : Nat) (line : List Char) :
    Token.scanAfter skip line = Token.scan (line.drop skip) := by
  induction skip generalizing line with
  | zero => rfl
  | succ skip ih =>
    cases line with
    | nil => rfl
    | cons c rest =>
      rw [Token.scanAfter, List.drop_succ_cons]
      exact ih rest

lemma scan_blanks {blanks : List Char} (hblank : ∀ c ∈ blanks, isBlank c = true)
    (line : List Char) : Token.scan (blanks ++ line) = Token.scan line := by
  induction blanks with
  | nil => rfl
  | cons c rest ih =>
    rw [List.forall_mem_cons] at hblank
    rw [← ih hblank.2, Token.scan, List.cons_append, Token.scanAfter, if_pos hblank.1]
    rfl

lemma quote_append (text tail : List Char) :
    quote text ++ tail = '"' :: (escape text ++ '"' :: tail) := by
  simp [quote]

/-- A quoted text is one token, whatever follows it. -/
theorem scan_quote (text tail : List Char) :
    Token.scan (quote text ++ tail) = .quoted (escape text) :: Token.scan tail := by
  have hleading : Token.leading '"' (escape text ++ '"' :: tail) = .quoted (escape text) := by
    simp [Token.leading, closingQuote?_escape]
  have hlength : (Token.quoted (escape text)).text.length - 1 = (escape text ++ ['"']).length := by
    simp [Token.text]
  have hdrop : (escape text ++ '"' :: tail).drop (escape text ++ ['"']).length = tail := by
    rw [List.append_cons (escape text) '"' tail, List.drop_left]
  have hblank : isBlank '"' = false := by decide
  rw [quote_append, Token.scan, Token.scanAfter, hblank]
  simp only [Bool.false_eq_true, if_false, hleading, hlength, scanAfter_eq_scan_drop, hdrop]

/-! ### Lines of quoted texts -/

/-- The text between double quotes. -/
def quoted (text : String) : String :=
  String.ofList (quote text.toList)

/-- Quoted texts one after the other, each but the first with something before it. -/
def quotedLine (first : String) (rest : List (String × String)) : String :=
  quoted first ++ String.join (rest.map fun entry => entry.1 ++ quoted entry.2)

lemma toList_quotedLine (first : String) (rest : List (String × String)) :
    (quotedLine first rest).toList =
      quote first.toList ++ rest.flatMap fun entry => entry.1.toList ++ quote entry.2.toList := by
  simp [quotedLine, quoted, List.flatMap_map]

lemma scan_quotedLine (first : String) (rest : List (String × String))
    (hblank : ∀ entry ∈ rest, ∀ c ∈ entry.1.toList, isBlank c = true) :
    Token.scan (quotedLine first rest).toList =
      (first :: rest.map Prod.snd).map fun text => .quoted (escape text.toList) := by
  rw [toList_quotedLine, scan_quote, List.map_cons]
  congr 1
  induction rest with
  | nil => rfl
  | cons entry rest ih =>
    rw [List.forall_mem_cons] at hblank
    rw [List.flatMap_cons, List.append_assoc, scan_blanks hblank.1, scan_quote, ih hblank.2,
      List.map_cons, List.map_cons]

lemma ofTokens_quoted (line : String) (texts : List String) :
    Expression.ofTokens line (texts.map fun text => .quoted (escape text.toList)) =
      .ok (texts.map fun text => .literal (quoted text) text) := by
  induction texts with
  | nil => rfl
  | cons text rest ih =>
    have hfirst : Expression.ofQuoted (escape text.toList) = .literal (quoted text) text := by
      simp only [Expression.ofQuoted, unescape_escape, String.ofList_toList]
      rfl
    simp only [List.map_cons, Expression.ofTokens, ih, hfirst]
    rfl

lemma ofKeyword_quoted (body : List Char) :
    StatementKind.ofKeyword (String.ofList (Token.quoted body).text) = .call := by
  have hne : ∀ word : String, word.toList.head? ≠ some '"' →
      String.ofList (Token.quoted body).text ≠ word := by
    rintro word hhead rfl
    simp [Token.text] at hhead
  rw [StatementKind.ofKeyword, if_neg (hne "var" (by decide)), if_neg (hne "operator" (by decide))]

lemma trim_of_ends {line tail init : List Char} {first last : Char}
    (hfirst : isBlank first = false) (hlast : isBlank last = false)
    (hhead : line = first :: tail) (hend : line = init ++ [last]) : trim line = line := by
  have hleft : line.dropWhile isBlank = line := by
    rw [hhead, List.dropWhile_cons, hfirst, if_neg (by decide)]
  have hright : line.reverse.dropWhile isBlank = line.reverse := by
    rw [hend, List.reverse_append, List.reverse_singleton, List.singleton_append,
      List.dropWhile_cons, hlast, if_neg (by decide)]
  rw [trim, hleft, trimRight, hright, List.reverse_reverse]

lemma exists_init_quotedLine (first : String) (rest : List (String × String)) :
    ∃ init, (quotedLine first rest).toList = init ++ ['"'] := by
  rw [toList_quotedLine]
  induction rest using List.reverseRecOn with
  | nil => exact ⟨'"' :: escape first.toList, by simp [quote]⟩
  | append_singleton rest entry _ =>
    refine ⟨quote first.toList ++ (rest.flatMap fun entry => entry.1.toList ++ quote entry.2.toList)
      ++ (entry.1.toList ++ '"' :: escape entry.2.toList), ?_⟩
    simp [quote]

lemma trim_quotedLine (first : String) (rest : List (String × String)) :
    trim (quotedLine first rest).toList = (quotedLine first rest).toList := by
  obtain ⟨init, hlast⟩ := exists_init_quotedLine first rest
  have hhead := toList_quotedLine first rest
  rw [quote_append] at hhead
  exact trim_of_ends (by decide) (by decide) hhead hlast

/-- The call that a line of quoted texts stands for. -/
def quotedCall (first : String) (rest : List (String × String)) : Statement :=
  ⟨.call, quotedLine first rest,
    (first :: rest.map Prod.snd).map fun text => .literal (quoted text) text⟩

lemma ofTrimmed_quotedLine (first : String) (rest : List (String × String))
    (hblank : ∀ entry ∈ rest, ∀ c ∈ entry.1.toList, isBlank c = true) :
    Statement.ofTrimmed (quotedLine first rest).toList = .ok (some (quotedCall first rest)) := by
  have hhead : (quotedLine first rest).toList.head? ≠ some ':' := by
    rw [toList_quotedLine, quote_append]
    simp
  have hkind := ofKeyword_quoted (escape first.toList)
  have htokens := ofTokens_quoted (quotedLine first rest) (first :: rest.map Prod.snd)
  rw [Statement.ofTrimmed, if_neg hhead, scan_quotedLine first rest hblank]
  simp only [List.map_cons, String.ofList_toList, Statement.ofTokens, hkind,
    StatementKind.keepsKeyword, if_true] at htokens ⊢
  rw [htokens]
  rfl

/-! ### Source texts of one line -/

lemma piecesFrom_of_no_terminator (current : List Char) {text : List Char}
    (hnone : ∀ c ∈ text, isTerminator c = false) :
    piecesFrom current text = [current.reverse ++ text] := by
  induction text generalizing current with
  | nil => simp [piecesFrom]
  | cons c rest ih =>
    rw [List.forall_mem_cons] at hnone
    rw [piecesFrom, hnone.1, if_neg (by decide), ih _ hnone.2]
    simp

lemma isTerminator_quote {text : List Char} (hnone : ∀ c ∈ text, isTerminator c = false) :
    ∀ c ∈ quote text, isTerminator c = false := by
  intro c hmem
  simp only [quote, List.mem_cons, List.mem_append, List.not_mem_nil, or_false] at hmem
  obtain rfl | hmem | rfl := hmem
  · decide
  · obtain rfl | hmem := mem_escape hmem
    · decide
    · exact hnone c hmem
  · decide

lemma isTerminator_quotedLine {first : String} {rest : List (String × String)}
    (hfirst : ∀ c ∈ first.toList, isTerminator c = false)
    (hrest : ∀ entry ∈ rest, ∀ c ∈ entry.1.toList ++ entry.2.toList, isTerminator c = false) :
    ∀ c ∈ (quotedLine first rest).toList, isTerminator c = false := by
  intro c hmem
  rw [toList_quotedLine, List.mem_append, List.mem_flatMap] at hmem
  obtain hmem | ⟨entry, hentry, hmem⟩ := hmem
  · exact isTerminator_quote hfirst c hmem
  · have hchars := hrest entry hentry
    rw [List.forall_mem_append] at hchars
    obtain hmem | hmem := List.mem_append.1 hmem
    · exact hchars.1 c hmem
    · exact isTerminator_quote hchars.2 c hmem

lemma lines_of_unbroken {text : List Char} (hnone : ∀ c ∈ text, isTerminator c = false) :
    lines text = if trim text = [] then [] else [trim text] := by
  rw [lines, pieces, piecesFrom_of_no_terminator [] hnone]
  by_cases h : trim text = [] <;> simp [h]

lemma lines_of_trimmed {line : List Char} (hnone : ∀ c ∈ line, isTerminator c = false)
    (htrim : trim line = line) (hne : line ≠ []) : lines line = [line] := by
  rw [lines_of_unbroken hnone, htrim, if_neg hne]

/-- Quoting loses nothing. A line of quoted texts, with blanks or nothing between them, is read as
a call whose operands are literals with these texts, written as the quoted texts, in order; and if
no terminator stands in the texts or between them, this call is the whole program. -/
theorem quoting_is_lossless (first : String) (rest : List (String × String))
    (hblank : ∀ entry ∈ rest, ∀ c ∈ entry.1.toList, isBlank c = true) :
    Statement.parse (quotedLine first rest) = .ok (some (quotedCall first rest)) ∧
    ((∀ c ∈ first.toList, isTerminator c = false) →
      (∀ entry ∈ rest, ∀ c ∈ entry.1.toList ++ entry.2.toList, isTerminator c = false) →
      Statement.parseAll (quotedLine first rest) = .ok [quotedCall first rest]) := by
  have htrim := trim_quotedLine first rest
  have hcall := ofTrimmed_quotedLine first rest hblank
  constructor
  · rw [Statement.parse, htrim, hcall]
  · intro hfirst hrest
    have hne : (quotedLine first rest).toList ≠ [] := by
      rw [toList_quotedLine, quote_append]
      exact List.cons_ne_nil _ _
    have hlines := lines_of_trimmed (isTerminator_quotedLine hfirst hrest) htrim hne
    rw [Statement.parseAll, hlines, Statement.ofLines, htrim, hcall]
    rfl

/-- A keyword, a backslash at the end, nothing, and sigils, colons and quotes. -/
def awkwardTexts : String × List (String × String) :=
  ("var", [("", "a\\"), (" \t", ""), ("\u2003", ":$x\"\\\"")])

theorem quoting_is_lossless_awkward :
    quotedLine awkwardTexts.1 awkwardTexts.2 =
      "\"var\"\"a\\\\\" \t\"\"\u2003\":$x\\\"\\\\\\\"\"" ∧
    Statement.parse (quotedLine awkwardTexts.1 awkwardTexts.2) =
      .ok (some (quotedCall awkwardTexts.1 awkwardTexts.2)) ∧
    Statement.parseAll (quotedLine awkwardTexts.1 awkwardTexts.2) =
      .ok [quotedCall awkwardTexts.1 awkwardTexts.2] := by
  have hblank : awkwardTexts.2.all (fun entry => entry.1.toList.all isBlank) = true := by decide
  have hfirst : awkwardTexts.1.toList.all (fun c => !isTerminator c) = true := by decide
  have hrest : awkwardTexts.2.all (fun entry =>
      (entry.1.toList ++ entry.2.toList).all fun c => !isTerminator c) = true := by decide
  simp only [List.all_eq_true, Bool.not_eq_true'] at hblank hfirst hrest
  obtain ⟨hline, hprogram⟩ := quoting_is_lossless awkwardTexts.1 awkwardTexts.2 hblank
  exact ⟨by decide, hline, hprogram hfirst hrest⟩

end LineScript.Proofs
