import LineScript.Proofs.CommentStarts
import LineScript.Proofs.TokenGrammar
import LineScript.Proofs.Utf8Offsets

/-!
# Reading by byte offsets

Lines, tokens and comments can be found by searches for bytes, with slices of the text at the byte
offsets that are found. Every step here can fail: a slice that would cut a character or is out of
range has no result, and neither has a loop that does not move on. That each of these readings has a
result, the one that is found character by character, says that no slice ever fails. The loops are
followed from one found byte to the next, with the text split where the loop stands.
-/

namespace LineScript.Proofs

open Text

variable {search : ByteSearch}

/-! ### Lines -/

/-- A reader of lines: what it has not read yet, and whether it has come to the end. -/
structure LineReader where
  rest : List Char
  done : Bool := false

/-- The next line that is not blank, and the reader after it. -/
def LineReader.next (search : ByteSearch) (reader : LineReader) :
    Option (Option (List Char) × LineReader) :=
  if reader.done then some (none, reader)
  else
    match search.first ['\n'.toUInt8, ';'.toUInt8] (bytes reader.rest) with
    | some position =>
      match _ : cutAt? reader.rest position with
      | none => none
      | some (piece, rest) =>
        if trim piece = [] then next search { rest } else some (some (trim piece), { rest })
    | none =>
      if trim reader.rest = [] then some (none, { reader with done := true })
      else some (some (trim reader.rest), { reader with done := true })
termination_by reader.rest.length
decreasing_by
  apply length_lt_of_cutAt?
  assumption

def LineReader.size (reader : LineReader) : Nat :=
  reader.rest.length + if reader.done then 0 else 1

lemma size_of_unfinished {reader : LineReader} (hdone : ¬reader.done = true) :
    reader.size = reader.rest.length + 1 := by
  rw [LineReader.size, if_neg hdone]

lemma size_lt_of_next {reader after : LineReader} {line : List Char}
    (hnext : reader.next search = some (some line, after)) : after.size < reader.size := by
  fun_induction LineReader.next search reader with
  | case1 => cases hnext
  | case2 => cases hnext
  | case3 reader hdone position hfound piece rest hcut hblank ih =>
    have hshorter := length_lt_of_cutAt? hcut
    have hlt : after.size < rest.length + 1 := ih hnext
    rw [size_of_unfinished hdone]
    omega
  | case4 reader hdone position hfound piece rest hcut hblank =>
    have hshorter := length_lt_of_cutAt? hcut
    cases hnext
    rw [size_of_unfinished hdone]
    change rest.length + 1 < reader.rest.length + 1
    omega
  | case5 => cases hnext
  | case6 reader hdone hfound hblank =>
    cases hnext
    rw [size_of_unfinished hdone]
    exact Nat.lt_succ_self _

/-- All lines that are left. -/
def LineReader.collect (search : ByteSearch) (reader : LineReader) : Option (List (List Char)) :=
  match _ : reader.next search with
  | some (some line, after) => (collect search after).map (line :: ·)
  | some (none, _) => some []
  | none => none
termination_by reader.size
decreasing_by
  apply size_lt_of_next
  assumption

def LineReader.remaining (reader : LineReader) : List (List Char) :=
  if reader.done then [] else lines reader.rest

lemma isTerminator_iff (c : Char) : isTerminator c = true ↔ c ∈ ['\n', ';'] := by
  simp [isTerminator]

lemma utf8Size_terminators : ∀ mark ∈ ['\n', ';'], mark.utf8Size = 1 := by
  simp [Char.utf8Size]

lemma next_of_done (rest : List Char) :
    LineReader.next search ⟨rest, true⟩ = some (none, ⟨rest, true⟩) := by
  rw [LineReader.next, if_pos rfl]

lemma next_of_unbroken (hsearch : search.Exact) {rest : List Char}
    (hrest : ∀ c ∈ rest, isTerminator c = false) :
    LineReader.next search ⟨rest, false⟩ =
      if trim rest = [] then some (none, ⟨rest, true⟩)
      else some (some (trim rest), ⟨rest, true⟩) := by
  have hnone : search.first ['\n'.toUInt8, ';'.toUInt8] (bytes rest) = none := by
    apply hsearch.first_eq_none utf8Size_terminators
    intro c hc hmark
    rw [← isTerminator_iff, hrest c hc] at hmark
    cases hmark
  rw [LineReader.next, if_neg Bool.false_ne_true]
  simp only [hnone]

lemma next_of_terminator (hsearch : search.Exact) {plain : List Char}
    (hplain : ∀ d ∈ plain, isTerminator d = false) {c : Char} (hc : isTerminator c = true)
    (later : List Char) :
    LineReader.next search ⟨plain ++ c :: later, false⟩ =
      if trim plain = [] then LineReader.next search ⟨later, false⟩
      else some (some (trim plain), ⟨later, false⟩) := by
  rw [isTerminator_iff] at hc
  have hfound : search.first ['\n'.toUInt8, ';'.toUInt8] (bytes (plain ++ c :: later)) =
      some (bytes plain).length := by
    apply hsearch.first_eq_some utf8Size_terminators ?_ hc
    intro d hd hmark
    rw [← isTerminator_iff, hplain d hd] at hmark
    cases hmark
  have hcut := cutAt?_append (utf8Size_terminators c hc) plain later
  rw [LineReader.next, if_neg Bool.false_ne_true]
  simp only [hfound]
  split
  · rename_i hparts
    rw [hcut] at hparts
    cases hparts
  · rename_i piece rest hparts
    rw [hcut] at hparts
    cases hparts
    rfl

/-- The reader finds the first of the lines that are left, and the others are left after it. -/
lemma next_eq (hsearch : search.Exact) (reader : LineReader) :
    ∃ after, reader.next search = some (reader.remaining.head?, after) ∧
      after.remaining = reader.remaining.tail := by
  obtain ⟨rest, done⟩ := reader
  cases done with
  | true => exact ⟨⟨rest, true⟩, next_of_done rest, rfl⟩
  | false =>
    change ∃ after, LineReader.next search ⟨rest, false⟩ = some ((lines rest).head?, after) ∧
      after.remaining = (lines rest).tail
    induction hlength : rest.length using Nat.strong_induction_on generalizing rest with
    | _ length ih =>
      obtain hrest | ⟨plain, c, later, rfl, hplain, hc⟩ := first_cases isTerminator rest
      · rw [next_of_unbroken hsearch hrest, lines_of_unbroken hrest]
        refine ⟨⟨rest, true⟩, ?_, ?_⟩
        · split_ifs <;> rfl
        · split_ifs <;> rfl
      · rw [next_of_terminator hsearch hplain hc, lines_append hc, lines_of_unbroken hplain]
        by_cases hblank : trim plain = []
        · -- A blank piece is no line, so the line is looked for in what comes later.
          rw [if_pos hblank, if_pos hblank, List.nil_append]
          refine ih later.length ?_ later rfl
          rw [← hlength, List.length_append, List.length_cons]
          omega
        · rw [if_neg hblank, if_neg hblank]
          exact ⟨⟨later, false⟩, rfl, rfl⟩

theorem collect_eq (hsearch : search.Exact) (reader : LineReader) :
    reader.collect search = some reader.remaining := by
  fun_induction LineReader.collect search reader with
  | case1 reader line after hnext ih =>
    obtain ⟨later, hfirst, hlater⟩ := next_eq hsearch reader
    rw [hnext, Option.some.injEq, Prod.mk.injEq] at hfirst
    obtain ⟨hline, rfl⟩ := hfirst
    rw [ih, hlater, Option.map_some, List.cons_head?_tail hline.symm]
  | case2 reader after hnext =>
    obtain ⟨later, hfirst, -⟩ := next_eq hsearch reader
    rw [hnext, Option.some.injEq, Prod.mk.injEq] at hfirst
    rw [List.head?_eq_none_iff.1 hfirst.1.symm]
  | case3 reader hnext =>
    obtain ⟨later, hfirst, -⟩ := next_eq hsearch reader
    rw [hnext] at hfirst
    cases hfirst

/-! ### Where tokens start and bare ones end -/

/-- The byte offset of the first character of some kind. -/
def offsetOf (p : Char → Bool) : List Char → Option Nat
  | [] => none
  | c :: rest => if p c then some 0 else (offsetOf p rest).map (c.utf8Size + ·)

def nextStart? (line : List Char) (position : Nat) : Option (Option Nat) := do
  let rest ← slice? line position (bytes line).length
  return (offsetOf (fun c => !isBlank c) rest).map (position + ·)

def bareRun? (rest : List Char) : Option (List Char) :=
  slice? rest 0 ((offsetOf isBlank rest).getD (bytes rest).length)

lemma offsetOf_eq_none {p : Char → Bool} {text : List Char} (hnone : ∀ c ∈ text, p c = false) :
    offsetOf p text = none := by
  induction text with
  | nil => rfl
  | cons c rest ih =>
    rw [List.forall_mem_cons] at hnone
    rw [offsetOf, hnone.1, ih hnone.2]
    rfl

lemma offsetOf_eq_some {p : Char → Bool} {plain : List Char} (hplain : ∀ d ∈ plain, p d = false)
    {c : Char} (hc : p c = true) (rest : List Char) :
    offsetOf p (plain ++ c :: rest) = some (bytes plain).length := by
  induction plain with
  | nil => rw [List.nil_append, offsetOf, if_pos hc]; rfl
  | cons d plain ih =>
    rw [List.forall_mem_cons] at hplain
    rw [List.cons_append, offsetOf, hplain.1, ih hplain.2]
    simp

lemma nextStart?_of_blanks {blanks : List Char} (hblanks : ∀ c ∈ blanks, isBlank c = true)
    (front : List Char) : nextStart? (front ++ blanks) (bytes front).length = some none := by
  have hnone : offsetOf (fun c => !isBlank c) blanks = none := by
    apply offsetOf_eq_none
    intro c hc
    rw [hblanks c hc]
    rfl
  rw [nextStart?, slice?_to_end]
  simp only [Option.bind_eq_bind, Option.bind_some, hnone]
  rfl

lemma nextStart?_of_token {blanks : List Char} (hblanks : ∀ c ∈ blanks, isBlank c = true)
    {c : Char} (hc : isBlank c = false) (front rest : List Char) :
    nextStart? (front ++ (blanks ++ c :: rest)) (bytes front).length =
      some (some (bytes (front ++ blanks)).length) := by
  have hsome : offsetOf (fun c => !isBlank c) (blanks ++ c :: rest) =
      some (bytes blanks).length := by
    apply offsetOf_eq_some
    · intro d hd
      rw [hblanks d hd]
      rfl
    · rw [hc]
      rfl
  rw [nextStart?, slice?_to_end, length_bytes_append]
  simp only [Option.bind_eq_bind, Option.bind_some, hsome]
  rfl

lemma bareRun?_eq (rest : List Char) :
    bareRun? rest = some (rest.takeWhile fun c => !isBlank c) := by
  obtain hrest | ⟨plain, c, later, rfl, hplain, hc⟩ := first_cases isBlank rest
  · have hall : rest.takeWhile (fun c => !isBlank c) = rest := by
      rw [List.takeWhile_eq_self_iff]
      simpa using hrest
    have hslice := slice?_left rest []
    rw [List.append_nil] at hslice
    rw [bareRun?, offsetOf_eq_none hrest, hall, Option.getD_none, hslice]
  · have hrun : (plain ++ c :: later).takeWhile (fun c => !isBlank c) = plain := by
      apply takeWhile_append_of_stop
      · simpa using hplain
      · simp [hc]
    rw [bareRun?, offsetOf_eq_some hplain hc, hrun, Option.getD_some, slice?_left]

/-! ### Where quoted tokens end -/

/-- The length of the quoted text at the start of `rest` if it ends at the last quote. -/
def lastQuote? (search : ByteSearch) (rest : List Char) : Option (Option Nat) := do
  let later ← bytesFrom? (bytes rest) 1
  return (search.last '"'.toUInt8 later).map (· + 2)

/-- The length of the quoted text at the start of `rest`, of which nothing before `position` ends
it. -/
def quotedFrom? (search : ByteSearch) (rest : List Char) (position : Nat) :
    Option (Option Nat) := do
  let unread ← bytesFrom? (bytes rest) position
  match search.first ['"'.toUInt8, '\\'.toUInt8] unread with
  | none => lastQuote? search rest
  | some offset =>
    if hinside : position + offset < (bytes rest).length then
      if (bytes rest)[position + offset] = '"'.toUInt8 then return some (position + offset + 1)
      else
        match ← slice? rest (position + offset + 1) (bytes rest).length with
        | [] => lastQuote? search rest
        | c :: _ => quotedFrom? search rest (position + offset + 1 + c.utf8Size)
    else none
termination_by (bytes rest).length - position

def quotedLength? (search : ByteSearch) (rest : List Char) : Option (Option Nat) :=
  if (bytes rest).head? = some '"'.toUInt8 then quotedFrom? search rest 1 else some none

lemma utf8Size_quote : ('"' : Char).utf8Size = 1 := rfl

lemma length_bytes_quote : (bytes ['"']).length = 1 := by
  simp [utf8Size_quote]

lemma lastQuote?_eq (hsearch : search.Exact) (rest : List Char) :
    lastQuote? search ('"' :: rest) =
      some ((last? '"' rest).map fun place => byteOffset ('"' :: rest) (place + 2)) := by
  have hlater := bytesFrom?_append ['"'] rest
  rw [List.singleton_append, length_bytes_quote] at hlater
  rw [lastQuote?, hlater]
  change some ((search.last '"'.toUInt8 (bytes rest)).map (· + 2)) = _
  rw [hsearch.last_eq utf8Size_quote]
  cases hlast : last? '"' rest with
  | none => rw [Option.map_none, Option.map_none, Option.map_none]
  | some place =>
    have hat := ((last?_eq_some_iff '"' rest place).1 hlast).1
    have hoffset : byteOffset ('"' :: rest) (place + 2) = byteOffset rest place + 2 := by
      rw [byteOffset_cons, byteOffset_succ hat utf8Size_quote, utf8Size_quote]
      omega
    rw [Option.map_some, Option.map_some, Option.map_some, hoffset]

lemma utf8Size_quoteMarks : ∀ mark ∈ ['"', '\\'], mark.utf8Size = 1 := by
  simp [Char.utf8Size]

lemma quotedFrom?_of_plain (hsearch : search.Exact) {text : List Char}
    (htext : ∀ d ∈ text, d ∉ ['"', '\\']) (front : List Char) :
    quotedFrom? search (front ++ text) (bytes front).length =
      lastQuote? search (front ++ text) := by
  have hnone : search.first ['"'.toUInt8, '\\'.toUInt8] (bytes text) = none :=
    hsearch.first_eq_none utf8Size_quoteMarks htext
  rw [quotedFrom?, bytesFrom?_append]
  simp only [Option.bind_eq_bind, Option.bind_some, hnone]

/-- The loop comes from one quote or backslash to the next. -/
lemma quotedFrom?_of_mark (hsearch : search.Exact) {plain : List Char}
    (hplain : ∀ d ∈ plain, d ∉ ['"', '\\']) {c : Char} (hc : c ∈ ['"', '\\'])
    (front rest : List Char) :
    quotedFrom? search (front ++ (plain ++ c :: rest)) (bytes front).length =
      if c = '"' then some (some (bytes (front ++ plain ++ [c])).length)
      else
        match rest with
        | [] => lastQuote? search (front ++ (plain ++ c :: rest))
        | d :: _ => quotedFrom? search (front ++ (plain ++ c :: rest))
            (bytes (front ++ plain ++ [c] ++ [d])).length := by
  have hsize := utf8Size_quoteMarks c hc
  have hfound : search.first ['"'.toUInt8, '\\'.toUInt8] (bytes (plain ++ c :: rest)) =
      some (bytes plain).length := hsearch.first_eq_some utf8Size_quoteMarks hplain hc rest
  have hat : (bytes (front ++ (plain ++ c :: rest)))[(bytes (front ++ plain)).length]? =
      some c.toUInt8 := by
    rw [getElem?_bytes_iff hsize]
    exact ⟨front ++ plain, rest, by simp, rfl⟩
  obtain ⟨hinside, hbyte⟩ := List.getElem?_eq_some_iff.1 hat
  have hafter : slice? (front ++ (plain ++ c :: rest)) (bytes (front ++ plain ++ [c])).length
      (bytes (front ++ (plain ++ c :: rest))).length = some rest := by
    have hslice := slice?_to_end (front ++ plain ++ [c]) rest
    simpa using hslice
  rw [quotedFrom?, bytesFrom?_append]
  simp only [Option.bind_eq_bind, Option.bind_some, hfound, ← length_bytes_append, dif_pos hinside,
    hbyte, length_bytes_succ hsize, hafter]
  obtain rfl | rfl := List.mem_pair.1 hc
  · rw [if_pos rfl, if_pos rfl]
    rfl
  · rw [if_neg (by decide), if_neg (by decide)]
    cases rest with
    | nil => rfl
    | cons d rest => simp only [length_bytes_append_singleton _ d]

lemma unescapedFrom_of_plain {target : Char} {plain : List Char}
    (hplain : ∀ d ∈ plain, d ∉ [target, '\\']) (offset : Nat) (rest : List Char) :
    unescapedFrom target offset (plain ++ rest) =
      unescapedFrom target (offset + plain.length) rest := by
  induction plain generalizing offset with
  | nil => rfl
  | cons d plain ih =>
    rw [List.forall_mem_cons, List.mem_pair, not_or] at hplain
    rw [List.cons_append, unescapedFrom_plain hplain.1.1 hplain.1.2, ih hplain.2, List.length_cons]
    congr 1
    omega

/-- The loop ends where the reading of the characters does. -/
lemma quotedFrom?_eq (hsearch : search.Exact) (front text : List Char) :
    quotedFrom? search ('"' :: (front ++ text)) (bytes ('"' :: front)).length =
      match unescapedFrom '"' front.length text with
      | some place => some (some (byteOffset ('"' :: (front ++ text)) (place + 2)))
      | none => lastQuote? search ('"' :: (front ++ text)) := by
  induction hlength : text.length using Nat.strong_induction_on generalizing front text with
  | _ length ih =>
    obtain htext | ⟨plain, c, rest, rfl, hplain, hc⟩ :=
      first_cases (fun d => decide (d ∈ ['"', '\\'])) text
    · simp only [decide_eq_false_iff_not] at htext
      have hread : unescapedFrom '"' front.length text = none := by
        have hskip := unescapedFrom_of_plain htext front.length []
        rwa [List.append_nil, unescapedFrom] at hskip
      rw [hread]
      exact quotedFrom?_of_plain hsearch htext ('"' :: front)
    · simp only [decide_eq_false_iff_not] at hplain
      have hstep := quotedFrom?_of_mark hsearch hplain (of_decide_eq_true hc) ('"' :: front) rest
      rw [List.cons_append] at hstep
      rw [hstep, unescapedFrom_of_plain hplain]
      obtain rfl | rfl := List.mem_pair.1 (of_decide_eq_true hc)
      · have hline : '"' :: (front ++ (plain ++ '"' :: rest)) =
            '"' :: front ++ plain ++ ['"'] ++ rest := by simp
        have hend : front.length + plain.length + 2 = ('"' :: front ++ plain ++ ['"']).length := by
          simp only [List.length_append, List.length_cons, List.length_nil]
          omega
        rw [if_pos rfl, unescapedFrom_target, hline]
        simp only [hend, byteOffset, List.take_left]
      · rw [if_neg (by decide)]
        cases rest with
        | nil => rfl
        | cons d rest =>
          -- The backslash is passed together with what it takes along, whatever its size.
          have hline : front ++ plain ++ ['\\'] ++ [d] ++ rest =
              front ++ (plain ++ '\\' :: d :: rest) := by simp
          have hread : front.length + plain.length + 2 =
              (front ++ plain ++ ['\\'] ++ [d]).length := by
            simp only [List.length_append, List.length_singleton]
          have hshorter : rest.length < length := by
            rw [← hlength, List.length_append, List.length_cons, List.length_cons]
            omega
          have hrest := ih rest.length hshorter (front ++ plain ++ ['\\'] ++ [d]) rest rfl
          rw [hline, ← hread] at hrest
          rw [unescapedFrom_escaped (by decide), ← hrest]
          rfl

lemma quotedLength?_eq (hsearch : search.Exact) (c : Char) (rest : List Char) :
    quotedLength? search (c :: rest) =
      some (if c = '"' then
        (closingQuote? rest).map fun place => byteOffset (c :: rest) (place + 2)
      else none) := by
  by_cases hquote : c = '"'
  · subst hquote
    have hfrom := quotedFrom?_eq hsearch [] rest
    rw [List.nil_append, List.length_nil, length_bytes_quote] at hfrom
    have hstart : (bytes ('"' :: rest)).head? = some '"'.toUInt8 := by
      rw [bytes_cons]
      rfl
    rw [quotedLength?, if_pos hstart, hfrom, if_pos rfl, closingQuote?, unescaped?]
    cases unescapedFrom '"' 0 rest with
    | some place => rfl
    | none => exact lastQuote?_eq hsearch rest
  · have hstart : (bytes (c :: rest)).head? ≠ some '"'.toUInt8 := by
      intro hhead
      rw [bytes_cons, List.head?_append_of_ne_nil _ String.utf8EncodeChar_ne_nil] at hhead
      exact hquote (eq_of_mem_utf8EncodeChar rfl (List.mem_of_head? hhead))
    rw [quotedLength?, if_neg hstart, if_neg hquote]

/-! ### Tokens -/

/-- A token as a slice of its line. -/
structure Lexeme where
  quoted : Bool
  text : List Char
  deriving DecidableEq

def Lexeme.body? (lexeme : Lexeme) : Option (List Char) :=
  if lexeme.quoted then slice? lexeme.text 1 ((bytes lexeme.text).length - 1)
  else some lexeme.text

/-- The token at the start of `rest`. -/
def lexeme? (search : ByteSearch) (rest : List Char) : Option Lexeme := do
  match ← quotedLength? search rest with
  | some length => return ⟨true, ← slice? rest 0 length⟩
  | none => return ⟨false, ← bareRun? rest⟩

def lexemesFrom? (search : ByteSearch) (line : List Char) (position : Nat) :
    Option (List Lexeme) := do
  match ← nextStart? line position with
  | none => return []
  | some start =>
    let rest ← slice? line start (bytes line).length
    let lexeme ← lexeme? search rest
    let stop := start + (bytes lexeme.text).length
    -- A loop that stays where it is has no end.
    if _ : position < stop ∧ stop ≤ (bytes line).length then
      (lexemesFrom? search line stop).map (lexeme :: ·)
    else none
termination_by (bytes line).length - position

def lexemeOf (token : Token) : Lexeme :=
  ⟨isQuoted token, token.text⟩

lemma text_lexemeOf (token : Token) : (lexemeOf token).text = token.text := rfl

lemma lexeme?_eq (hsearch : search.Exact) {c : Char} (hc : isBlank c = false) (rest : List Char) :
    lexeme? search (c :: rest) = some (lexemeOf (Token.leading c rest)) := by
  obtain ⟨length, rfl, hclosing⟩ | hclosing := leading_cases c rest
  · have hlength := quotedLength?_eq hsearch '"' rest
    rw [if_pos rfl, hclosing, Option.map_some] at hlength
    have hat := getElem?_of_closingQuote? hclosing
    have htext : ('"' :: rest).take (length + 2) = (Token.quoted (rest.take length)).text := by
      rw [List.take_succ_cons, List.take_add_one, hat]
      rfl
    rw [lexeme?, hlength, leading_quoted hclosing]
    simp only [Option.bind_eq_bind, Option.bind_some, slice?_from_start, htext]
    rfl
  · have hlength : quotedLength? search (c :: rest) = some none := by
      rw [quotedLength?_eq hsearch]
      split_ifs with hquote
      · rw [hclosing hquote, Option.map_none]
      · rfl
    have hrun : (c :: rest).takeWhile (fun d => !isBlank d) =
        c :: rest.takeWhile fun d => !isBlank d := by simp [hc]
    rw [lexeme?, hlength, leading_bare hclosing]
    simp only [Option.bind_eq_bind, Option.bind_some, bareRun?_eq, hrun]
    rfl

lemma lexemesFrom?_of_blanks {blanks : List Char} (hblanks : ∀ c ∈ blanks, isBlank c = true)
    (front : List Char) : lexemesFrom? search (front ++ blanks) (bytes front).length = some [] := by
  rw [lexemesFrom?, nextStart?_of_blanks hblanks]
  rfl

/-- The loop comes from the end of one token to the end of the next. -/
lemma lexemesFrom?_of_token (hsearch : search.Exact) {blanks : List Char}
    (hblanks : ∀ c ∈ blanks, isBlank c = true) {c : Char} (hc : isBlank c = false)
    (front rest : List Char) :
    lexemesFrom? search (front ++ (blanks ++ c :: rest)) (bytes front).length =
      (lexemesFrom? search (front ++ (blanks ++ c :: rest))
        (bytes (front ++ blanks ++ (Token.leading c rest).text)).length).map
          (lexemeOf (Token.leading c rest) :: ·) := by
  have hrest : slice? (front ++ (blanks ++ c :: rest)) (bytes (front ++ blanks)).length
      (bytes (front ++ (blanks ++ c :: rest))).length = some (c :: rest) := by
    rw [← List.append_assoc]
    exact slice?_to_end (front ++ blanks) (c :: rest)
  have hpos : (bytes (Token.leading c rest).text).length ≠ 0 := by
    intro hzero
    exact text_leading_ne_nil c rest (eq_nil_of_length_bytes hzero)
  have hon : (bytes front).length <
        (bytes (front ++ blanks ++ (Token.leading c rest).text)).length ∧
      (bytes (front ++ blanks ++ (Token.leading c rest).text)).length ≤
        (bytes (front ++ (blanks ++ c :: rest))).length := by
    rw [← text_leading_append c rest]
    simp only [length_bytes_append]
    omega
  rw [lexemesFrom?, nextStart?_of_token hblanks hc]
  simp only [Option.bind_eq_bind, Option.bind_some, hrest, lexeme?_eq hsearch hc, text_lexemeOf,
    ← length_bytes_append]
  exact dif_pos hon

/-- From the end of `front` on, the tokens are those of the rest of the line. -/
lemma lexemesFrom?_eq (hsearch : search.Exact) (front text : List Char) :
    lexemesFrom? search (front ++ text) (bytes front).length =
      some ((Token.scan text).map lexemeOf) := by
  induction hlength : text.length using Nat.strong_induction_on generalizing front text with
  | _ length ih =>
    obtain hblanks | ⟨blanks, c, rest, rfl, hblanks, hc⟩ := first_cases (fun d => !isBlank d) text
    · simp only [Bool.not_eq_false'] at hblanks
      have hscan := scan_blanks hblanks []
      rw [List.append_nil] at hscan
      rw [lexemesFrom?_of_blanks hblanks, hscan]
      rfl
    · simp only [Bool.not_eq_false'] at hblanks
      rw [Bool.not_eq_true'] at hc
      have hline : front ++ blanks ++ (Token.leading c rest).text ++ afterLeading c rest =
          front ++ (blanks ++ c :: rest) := by
        rw [List.append_assoc, text_leading_append, List.append_assoc]
      have hshorter : (afterLeading c rest).length < length := by
        rw [afterLeading, List.length_drop, ← hlength, List.length_append, List.length_cons]
        omega
      have hafter := ih _ hshorter (front ++ blanks ++ (Token.leading c rest).text)
        (afterLeading c rest) rfl
      rw [hline] at hafter
      rw [lexemesFrom?_of_token hsearch hblanks hc, hafter, scan_blanks hblanks, scan_cons_token hc]
      rfl

lemma body?_lexemeOf (token : Token) : (lexemeOf token).body? = some token.body := by
  cases token with
  | bare text => rfl
  | quoted body =>
    have hstop : (bytes (['"'] ++ body ++ ['"'])).length - 1 = (bytes (['"'] ++ body)).length := by
      rw [length_bytes_append (['"'] ++ body), length_bytes_quote, Nat.add_sub_cancel]
    have hslice := slice?_append ['"'] body ['"']
    rw [length_bytes_quote, ← hstop] at hslice
    have htext : (Token.quoted body).text = ['"'] ++ body ++ ['"'] := rfl
    rw [Lexeme.body?, text_lexemeOf, htext, hslice]
    rfl

/-! ### Comments -/

/-- The byte offset of the first colon from `start` on with an even number of backslashes right
before it. -/
def commentFrom? (search : ByteSearch) (text : List Char) (start : Nat) :
    Option (Option Nat) := do
  let unread ← bytesFrom? (bytes text) start
  match search.first [':'.toUInt8] unread with
  | none => return none
  | some offset =>
    if _ : start + offset ≤ (bytes text).length then
      let before := (bytes text).take (start + offset)
      if (before.reverse.takeWhile fun byte => byte == '\\'.toUInt8).length % 2 = 0 then
        return some (start + offset)
      else commentFrom? search text (start + offset + 1)
    else none
termination_by (bytes text).length + 1 - start

/-- The text without the comment in it. -/
def withoutComment? (search : ByteSearch) (text : List Char) : Option (List Char) := do
  match ← commentFrom? search text 0 with
  | some offset => slice? text 0 offset
  | none => return text

lemma utf8Size_colon : ∀ mark ∈ [':'], mark.utf8Size = 1 := by
  simp [Char.utf8Size]

lemma commentFrom?_of_notMem (hsearch : search.Exact) {text : List Char} (hcolon : ':' ∉ text)
    (front : List Char) :
    commentFrom? search (front ++ text) (bytes front).length = some none := by
  have hnone : search.first [':'.toUInt8] (bytes text) = none := by
    apply hsearch.first_eq_none utf8Size_colon
    intro c hc hmark
    rw [List.mem_singleton] at hmark
    exact hcolon (hmark ▸ hc)
  rw [commentFrom?, bytesFrom?_append]
  simp only [Option.bind_eq_bind, Option.bind_some, hnone]
  rfl

/-- The loop comes from one colon to the next. -/
lemma commentFrom?_of_colon (hsearch : search.Exact) {plain : List Char} (hcolon : ':' ∉ plain)
    (front rest : List Char) :
    commentFrom? search (front ++ (plain ++ ':' :: rest)) (bytes front).length =
      if slashes (front ++ plain) % 2 = 0 then some (some (bytes (front ++ plain)).length)
      else commentFrom? search (front ++ (plain ++ ':' :: rest))
        (bytes (front ++ plain ++ [':'])).length := by
  have hfound : search.first [':'.toUInt8] (bytes (plain ++ ':' :: rest)) =
      some (bytes plain).length := by
    apply hsearch.first_eq_some utf8Size_colon ?_ (List.mem_singleton.2 rfl)
    intro d hd hmark
    rw [List.mem_singleton] at hmark
    exact hcolon (hmark ▸ hd)
  have hsplit : bytes (front ++ (plain ++ ':' :: rest)) =
      bytes (front ++ plain) ++ bytes (':' :: rest) := by
    rw [← List.append_assoc, bytes_append]
  have hbefore : (bytes (front ++ (plain ++ ':' :: rest))).take (bytes (front ++ plain)).length =
      bytes (front ++ plain) := by
    rw [hsplit, List.take_left]
  have hinside : (bytes (front ++ plain)).length ≤
      (bytes (front ++ (plain ++ ':' :: rest))).length := by
    rw [hsplit, List.length_append]
    omega
  have hnext := length_bytes_succ (utf8Size_colon ':' (List.mem_singleton.2 rfl)) (front ++ plain)
  rw [commentFrom?, bytesFrom?_append]
  simp only [Option.bind_eq_bind, Option.bind_some, hfound, ← length_bytes_append, hbefore,
    dif_pos hinside, length_takeWhile_bytes, hnext]
  rfl

/-- The loop over the bytes goes through the same colons as that over the characters. -/
lemma commentFrom?_eq (hsearch : search.Exact) (front text : List Char) :
    commentFrom? search (front ++ text) (bytes front).length =
      some ((colonSearch (front ++ text) front.length).map (byteOffset (front ++ text))) := by
  induction hlength : text.length using Nat.strong_induction_on generalizing front text with
  | _ length ih =>
    by_cases hmem : ':' ∈ text
    · obtain ⟨plain, rest, rfl, hplain⟩ := List.eq_append_cons_of_mem hmem
      have hline : front ++ plain ++ [':'] ++ rest = front ++ (plain ++ ':' :: rest) := by simp
      have hshorter : rest.length < length := by
        rw [← hlength, List.length_append, List.length_cons]
        omega
      have hrest := ih rest.length hshorter (front ++ plain ++ [':']) rest rfl
      rw [hline] at hrest
      rw [commentFrom?_of_colon hsearch hplain, hrest, colonSearch_of_colon hplain]
      split_ifs
      · rw [Option.map_some, byteOffset, ← List.append_assoc, List.take_left]
      · rfl
    · rw [commentFrom?_of_notMem hsearch hmem, colonSearch_of_notMem hmem]
      rfl

lemma commentFrom?_eq_comment? (hsearch : search.Exact) (text : List Char) :
    commentFrom? search text 0 = some ((comment? text).map (byteOffset text)) := by
  have hfrom := commentFrom?_eq hsearch [] text
  rw [← commentFrom_eq_colonSearch] at hfrom
  exact hfrom

lemma withoutComment?_eq (hsearch : search.Exact) (text : List Char) :
    withoutComment? search text = some (text.take ((comment? text).getD text.length)) := by
  rw [withoutComment?, commentFrom?_eq_comment? hsearch]
  cases hcomment : comment? text with
  | none =>
    rw [Option.getD_none, List.take_length]
    rfl
  | some offset =>
    rw [Option.getD_some, ← slice?_from_start text offset]
    rfl

/-- Byte offsets cut no character. With searches that find the first byte and the last, lines,
tokens, the bodies of tokens, and comments can be read with slices at byte offsets: every slice is
in range, its ends are in order and between characters, since each reading has a result, and the
results are those of reading the characters one by one. -/
theorem byte_offsets_cut_no_character {search : ByteSearch} (hsearch : search.Exact)
    (text : List Char) :
    LineReader.collect search { rest := text } = some (lines text) ∧
    lexemesFrom? search text 0 = some ((Token.scan text).map lexemeOf) ∧
    (∀ token ∈ Token.scan text, (lexemeOf token).body? = some token.body) ∧
    commentFrom? search text 0 = some ((comment? text).map (byteOffset text)) ∧
    withoutComment? search text = some (text.take ((comment? text).getD text.length)) := by
  refine ⟨?_, ?_, ?_, ?_, ?_⟩
  · exact collect_eq hsearch { rest := text }
  · exact lexemesFrom?_eq hsearch [] text
  · intro token _
    exact body?_lexemeOf token
  · exact commentFrom?_eq_comment? hsearch text
  · exact withoutComment?_eq hsearch text

/-- Lines, tokens and a comment next to characters of two, three and four bytes. -/
theorem byte_offsets_cut_no_character_multibyte :
    LineReader.collect plainSearch { rest := "é \"日\\\"本\" ü;\\🙂:ß".toList } =
      some ["é \"日\\\"本\" ü".toList, "\\🙂:ß".toList] ∧
    lexemesFrom? plainSearch "é \"日\\\"本\" ü".toList 0 =
      some [⟨false, "é".toList⟩, ⟨true, "\"日\\\"本\"".toList⟩, ⟨false, "ü".toList⟩] ∧
    Lexeme.body? ⟨true, "\"日\\\"本\"".toList⟩ = some "日\\\"本".toList ∧
    commentFrom? plainSearch "\\🙂:ß".toList 0 = some (some 5) ∧
    withoutComment? plainSearch "\\🙂:ß".toList = some "\\🙂".toList := by
  obtain ⟨hlines, -⟩ :=
    byte_offsets_cut_no_character plainSearch_exact "é \"日\\\"本\" ü;\\🙂:ß".toList
  obtain ⟨-, htokens, hbodies, -⟩ :=
    byte_offsets_cut_no_character plainSearch_exact "é \"日\\\"本\" ü".toList
  obtain ⟨-, -, -, hcomment, hkept⟩ :=
    byte_offsets_cut_no_character plainSearch_exact "\\🙂:ß".toList
  have hscan : Token.scan "é \"日\\\"本\" ü".toList =
      [.bare "é".toList, .quoted "日\\\"本".toList, .bare "ü".toList] := by decide +kernel
  rw [hscan] at htokens hbodies
  rw [hlines, htokens, hcomment, hkept]
  refine ⟨by decide +kernel, rfl, ?_, by decide +kernel, by decide +kernel⟩
  exact hbodies (.quoted "日\\\"本".toList) (by simp)

end LineScript.Proofs
