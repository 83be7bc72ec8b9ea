import LineScript.Proofs.Quoting
import LineScript.Proofs.Reading
import Mathlib.Data.List.DropRight

/-!
# Comments leave no trace

A colon that starts a comment cuts the line: what is left of the line is read as if the comment had
never been there. The danger is in quotes, since the quote that closes a text is looked for in the
whole rest of the line, comment included. But a token that ends before the comment ends there in the
shorter line too (`leading_of_append`), and where no quote of the whole line closes a text, none of
the shorter line does.
-/

namespace LineScript.Proofs

open Text

/-! ### Searches in a part of a text -/

lemma getElem?_of_unescapedFrom {target : Char} {offset position : Nat} {text : List Char}
    (h : unescapedFrom target offset text = some position) :
    ∃ i, position = offset + i ∧ text[i]? = some target := by
  fun_induction unescapedFrom target offset text with
  | case1 => cases h
  | case2 offset rest =>
    cases h
    exact ⟨0, rfl, rfl⟩
  | case3 => cases h
  | case4 offset htarget c rest ih =>
    obtain ⟨i, rfl, hi⟩ := ih h
    exact ⟨i + 2, by omega, hi⟩
  | case5 offset c rest htarget hslash ih =>
    obtain ⟨i, rfl, hi⟩ := ih h
    exact ⟨i + 1, by omega, hi⟩

lemma le_of_unescapedFrom {target : Char} {offset position : Nat} {text : List Char}
    (h : unescapedFrom target offset text = some position) : offset ≤ position := by
  obtain ⟨i, rfl, -⟩ := getElem?_of_unescapedFrom h
  omega

/-- A search in the first part of a text finds what a search in the whole finds there. -/
lemma unescapedFrom_append_iff (target : Char) (offset position : Nat) (text rest : List Char) :
    unescapedFrom target offset text = some position ↔
      unescapedFrom target offset (text ++ rest) = some position ∧
        position < offset + text.length := by
  fun_induction unescapedFrom target offset text with
  | case1 offset =>
    simp only [reduceCtorEq, List.nil_append, List.length_nil, false_iff, not_and]
    intro h
    have hle := le_of_unescapedFrom h
    omega
  | case2 offset tail =>
    rw [List.cons_append, unescapedFrom_target, List.length_cons]
    simp only [Option.some.injEq]
    omega
  | case3 offset htarget =>
    simp only [reduceCtorEq, List.length_singleton, false_iff, not_and]
    intro h
    cases rest with
    | nil => simp [unescapedFrom, htarget] at h
    | cons c rest =>
      rw [List.singleton_append, unescapedFrom_escaped htarget] at h
      have hle := le_of_unescapedFrom h
      omega
  | case4 offset c tail htarget ih =>
    rw [List.cons_append, List.cons_append, unescapedFrom_escaped htarget, ih, List.length_cons,
      List.length_cons]
    refine and_congr_right fun _ => ?_
    omega
  | case5 offset c tail htarget hslash ih =>
    rw [List.cons_append, unescapedFrom_plain htarget hslash, ih, List.length_cons]
    refine and_congr_right fun _ => ?_
    omega

lemma unescaped?_of_append {target : Char} {text rest : List Char}
    (hbound : ∀ position, unescaped? target (text ++ rest) = some position →
      position < text.length) :
    unescaped? target text = unescaped? target (text ++ rest) := by
  apply Option.ext
  intro position
  rw [unescaped?, unescapedFrom_append_iff target 0 position text rest, Nat.zero_add]
  exact ⟨fun h => h.1, fun h => ⟨h, hbound position h⟩⟩

lemma lastFrom_append (target : Char) (offset : Nat) (found : Option Nat)
    (text rest : List Char) :
    lastFrom target offset found (text ++ rest) =
      lastFrom target (offset + text.length) (lastFrom target offset found text) rest := by
  induction text generalizing offset found with
  | nil => rfl
  | cons c tail ih =>
    rw [List.cons_append, lastFrom, lastFrom, ih, List.length_cons, Nat.add_right_comm, Nat.add_assoc]

/-- The last occurrence stands in the text, unless there is none in it. -/
lemma lastFrom_cases (target : Char) (offset : Nat) (found : Option Nat) (text : List Char) :
    lastFrom target offset found text = found ∨
      ∃ i, lastFrom target offset found text = some (offset + i) ∧ text[i]? = some target := by
  induction text generalizing offset found with
  | nil => exact .inl rfl
  | cons c rest ih =>
    rw [lastFrom]
    obtain hkept | ⟨i, hlast, hi⟩ := ih (offset + 1) (if c = target then some offset else found)
    · by_cases hc : c = target
      · rw [if_pos hc] at hkept ⊢
        exact .inr ⟨0, hkept, by simp [hc]⟩
      · rw [if_neg hc] at hkept ⊢
        exact .inl hkept
    · exact .inr ⟨i + 1, by rw [hlast]; congr 1; omega, by simpa using hi⟩

lemma last?_of_append {target : Char} {text rest : List Char}
    (hbound : ∀ position, last? target (text ++ rest) = some position → position < text.length) :
    last? target text = last? target (text ++ rest) := by
  unfold last? at hbound ⊢
  rw [lastFrom_append, Nat.zero_add] at hbound ⊢
  obtain hkept | ⟨i, hlast, -⟩ :=
    lastFrom_cases target text.length (lastFrom target 0 none text) rest
  · exact hkept.symm
  · have hlt := hbound _ hlast
    omega

lemma getElem?_of_closingQuote? {text : List Char} {position : Nat}
    (h : closingQuote? text = some position) : text[position]? = some '"' := by
  unfold closingQuote? at h
  cases hfirst : unescaped? '"' text with
  | some first =>
    rw [hfirst] at h
    cases h
    obtain ⟨i, rfl, hi⟩ := getElem?_of_unescapedFrom hfirst
    rwa [Nat.zero_add]
  | none =>
    rw [hfirst] at h
    change lastFrom '"' 0 none text = some position at h
    obtain hnone | ⟨i, hlast, hi⟩ := lastFrom_cases '"' 0 none text
    · rw [hnone] at h
      cases h
    · rw [hlast, Nat.zero_add] at h
      cases h
      exact hi

/-- If no quote closes the whole text, or one in its first part does, the same holds of the first
part by itself. -/
lemma closingQuote?_of_append {text rest : List Char}
    (hbound : ∀ position, closingQuote? (text ++ rest) = some position →
      position < text.length) :
    closingQuote? text = closingQuote? (text ++ rest) := by
  unfold closingQuote? at hbound ⊢
  cases hwhole : unescaped? '"' (text ++ rest) with
  | some first =>
    rw [unescaped?_of_append, hwhole]
    · rfl
    · intro position hposition
      exact hbound position (by rw [hposition]; rfl)
  | none =>
    have hnone : unescaped? '"' text = none := by
      rw [unescaped?_of_append, hwhole]
      simp [hwhole]
    rw [hwhole] at hbound
    rw [hnone]
    exact last?_of_append hbound

lemma closingQuote?_eq_none_of_append {text rest : List Char}
    (h : closingQuote? (text ++ rest) = none) : closingQuote? text = none := by
  rw [closingQuote?_of_append, h]
  simp [h]

/-! ### Tokens in a part of a line -/

lemma takeWhile_of_append {α : Type} {p : α → Bool} {text rest : List α}
    (hlength : ((text ++ rest).takeWhile p).length ≤ text.length) :
    text.takeWhile p = (text ++ rest).takeWhile p := by
  rw [List.takeWhile_append] at hlength ⊢
  by_cases hall : (text.takeWhile p).length = text.length
  · rw [if_pos hall, List.length_append] at hlength
    have hnil : rest.takeWhile p = [] := by
      rw [← List.length_eq_zero_iff]
      omega
    rw [if_pos hall, hnil, List.append_nil]
    exact (List.takeWhile_prefix p).eq_of_length hall
  · rw [if_neg hall]

lemma leading_quoted {rest : List Char} {length : Nat} (h : closingQuote? rest = some length) :
    Token.leading '"' rest = .quoted (rest.take length) := by
  simp only [Token.leading, if_true, h]

lemma leading_bare {c : Char} {rest : List Char} (h : c = '"' → closingQuote? rest = none) :
    Token.leading c rest = .bare (c :: rest.takeWhile fun d => !isBlank d) := by
  unfold Token.leading
  by_cases hquote : c = '"'
  · simp only [if_pos hquote, h hquote]
  · simp only [if_neg hquote]

/-- A token is quoted, if there is a quote to close it, or else bare. -/
lemma leading_cases (c : Char) (rest : List Char) :
    (∃ length, c = '"' ∧ closingQuote? rest = some length) ∨
      (c = '"' → closingQuote? rest = none) := by
  by_cases hquote : c = '"'
  · cases hclosing : closingQuote? rest with
    | some length => exact .inl ⟨length, hquote, rfl⟩
    | none => exact .inr fun _ => rfl
  · exact .inr fun h => absurd h hquote

lemma length_quoted_take {text : List Char} {length : Nat} (h : closingQuote? text = some length) :
    (Token.quoted (text.take length)).text.length = length + 2 := by
  have hlt : length < text.length :=
    (List.getElem?_eq_some_iff.1 (getElem?_of_closingQuote? h)).1
  simp only [Token.text, List.length_cons, List.length_append, List.length_take, List.length_nil]
  omega

/-- A token that fits into the first part of a line is a token of that part by itself. -/
lemma leading_of_append {c : Char} {text rest : List Char}
    (hfits : (Token.leading c (text ++ rest)).text.length ≤ text.length + 1) :
    Token.leading c text = Token.leading c (text ++ rest) := by
  obtain ⟨length, rfl, hclosing⟩ | hclosing := leading_cases c (text ++ rest)
  · rw [leading_quoted hclosing, length_quoted_take hclosing] at hfits
    have hsame : closingQuote? text = some length := by
      rw [← hclosing]
      apply closingQuote?_of_append
      rintro position hposition
      rw [hclosing, Option.some.injEq] at hposition
      omega
    rw [leading_quoted hclosing, leading_quoted hsame, List.take_append_of_le_length (by omega)]
  · rw [leading_bare hclosing] at hfits ⊢
    have hsame : c = '"' → closingQuote? text = none :=
      fun hquote => closingQuote?_eq_none_of_append (hclosing hquote)
    rw [leading_bare hsame, takeWhile_of_append (Nat.le_of_succ_le_succ hfits)]

/-- A token ends before the blanks at the end of a line. -/
lemma length_leading_append_blanks {blanks : List Char} (hblanks : ∀ c ∈ blanks, isBlank c = true)
    (c : Char) (rest : List Char) :
    (Token.leading c (rest ++ blanks)).text.length ≤ rest.length + 1 := by
  obtain ⟨length, rfl, hclosing⟩ | hclosing := leading_cases c (rest ++ blanks)
  · rw [leading_quoted hclosing, length_quoted_take hclosing]
    by_contra hlong
    have hquote := getElem?_of_closingQuote? hclosing
    rw [List.getElem?_append_right (by omega)] at hquote
    have hblank := hblanks _ (List.mem_of_getElem? hquote)
    exact absurd hblank (by decide)
  · have hnone : blanks.takeWhile (fun d => !isBlank d) = [] := by
      cases blanks with
      | nil => rfl
      | cons d tail => simp [hblanks d List.mem_cons_self]
    rw [leading_bare hclosing, List.takeWhile_append, hnone, List.append_nil]
    change _ + 1 ≤ _ + 1
    have hle := (List.takeWhile_prefix (fun d => !isBlank d) (l := rest)).length_le
    split <;> omega

lemma scan_cons_blank {c : Char} (hblank : isBlank c = true) (rest : List Char) :
    Token.scan (c :: rest) = Token.scan rest := by
  rw [Token.scan, Token.scanAfter, if_pos hblank, Token.scan]

lemma scan_cons_token {c : Char} (hblank : isBlank c = false) (rest : List Char) :
    Token.scan (c :: rest) = Token.leading c rest ::
      Token.scan (rest.drop ((Token.leading c rest).text.length - 1)) := by
  rw [Token.scan, Token.scanAfter, hblank, if_neg (by decide)]
  simp only [scanAfter_eq_scan_drop]

/-- A line is empty, or starts with a blank, or with a token of some length. -/
@[elab_as_elim]
theorem line_induction {P : List Char → Prop} (line : List Char) (nil : P [])
    (blank : ∀ c rest, isBlank c = true → P rest → P (c :: rest))
    (token : ∀ c rest, isBlank c = false → (∀ count, P (rest.drop count)) → P (c :: rest)) :
    P line := by
  induction hsize : line.length using Nat.strong_induction_on generalizing line with
  | _ size ih =>
    cases line with
    | nil => exact nil
    | cons c rest =>
      have hrest : ∀ count, P (rest.drop count) := by
        intro count
        refine ih _ ?_ _ rfl
        rw [List.length_cons] at hsize
        rw [List.length_drop]
        omega
      cases hc : isBlank c with
      | true => exact blank c rest hc (hrest 0)
      | false => exact token c rest hc hrest

/-- Blanks at the end of a line make no difference to its tokens. -/
lemma scan_append_blanks {blanks : List Char} (hblanks : ∀ c ∈ blanks, isBlank c = true)
    (line : List Char) : Token.scan (line ++ blanks) = Token.scan line := by
  induction line using line_induction with
  | nil => simpa using scan_blanks hblanks []
  | blank c rest hc ih => rw [List.cons_append, scan_cons_blank hc, scan_cons_blank hc, ih]
  | token c rest hc ih =>
    have hfits := length_leading_append_blanks hblanks c rest
    rw [List.cons_append, scan_cons_token hc, scan_cons_token hc, ← leading_of_append hfits]
    rw [← leading_of_append hfits] at hfits
    rw [List.drop_append_of_le_length (by omega), ih]

/-! ### Tokens with their places -/

/-- The tokens of a line after its first `skip` characters, each with the offset of its first
character, where the line starts at `offset`. -/
def spansAfter : (skip offset : Nat) → List Char → List (Nat × Token)
  | _, _, [] => []
  | skip + 1, offset, _ :: rest => spansAfter skip (offset + 1) rest
  | 0, offset, c :: rest =>
    if isBlank c then spansAfter 0 (offset + 1) rest
    else
      let token := Token.leading c rest
      (offset, token) :: spansAfter (token.text.length - 1) (offset + 1) rest

/-- The tokens of a line, each with the offset of its first character. -/
def spans (line : List Char) : List (Nat × Token) :=
  spansAfter 0 0 line

/-- The spans of a line are those of its tokens. -/
lemma spans_snd (line : List Char) : (spans line).map Prod.snd = Token.scan line := by
  have hafter : ∀ skip offset,
      (spansAfter skip offset line).map Prod.snd = Token.scanAfter skip line := by
    induction line with
    | nil => simp [spansAfter, Token.scanAfter]
    | cons c rest ih =>
      intro skip offset
      cases skip with
      | succ skip => exact ih skip (offset + 1)
      | zero =>
        by_cases hblank : isBlank c = true
        · rw [spansAfter, Token.scanAfter, if_pos hblank, if_pos hblank]
          exact ih 0 (offset + 1)
        · rw [spansAfter, Token.scanAfter, if_neg hblank, if_neg hblank, List.map_cons, ih]
  exact hafter 0 0

lemma spansAfter_eq_drop (skip offset : Nat) (line : List Char) :
    spansAfter skip offset line = spansAfter 0 (offset + skip) (line.drop skip) := by
  induction skip generalizing offset line with
  | zero => rfl
  | succ skip ih =>
    cases line with
    | nil => rfl
    | cons c rest =>
      rw [spansAfter, ih, List.drop_succ_cons, Nat.add_assoc, Nat.add_comm 1]

lemma spansAfter_cons_blank {c : Char} (hblank : isBlank c = true) (offset : Nat)
    (rest : List Char) : spansAfter 0 offset (c :: rest) = spansAfter 0 (offset + 1) rest := by
  rw [spansAfter, if_pos hblank]

lemma spansAfter_cons_token {c : Char} (hblank : isBlank c = false) (offset : Nat)
    (rest : List Char) :
    spansAfter 0 offset (c :: rest) = (offset, Token.leading c rest) ::
      spansAfter 0 (offset + (Token.leading c rest).text.length)
        (rest.drop ((Token.leading c rest).text.length - 1)) := by
  have hpos := List.length_pos_of_ne_nil (text_leading_ne_nil c rest)
  have hend : offset + 1 + ((Token.leading c rest).text.length - 1) =
      offset + (Token.leading c rest).text.length := by omega
  rw [spansAfter, hblank, if_neg (by decide)]
  simp only [spansAfter_eq_drop _ (offset + 1), hend]

lemma le_of_mem_spansAfter {offset start : Nat} {line : List Char} {token : Token}
    (hmem : (start, token) ∈ spansAfter 0 offset line) : offset ≤ start := by
  induction line using line_induction generalizing offset with
  | nil => simp [spansAfter] at hmem
  | blank c rest hc ih =>
    rw [spansAfter_cons_blank hc] at hmem
    have hle := ih hmem
    omega
  | token c rest hc ih =>
    rw [spansAfter_cons_token hc, List.mem_cons] at hmem
    obtain hfirst | hmem := hmem
    · exact (congrArg Prod.fst hfirst).ge
    · have hle := ih _ hmem
      omega

/-! ### Cutting a line at a comment -/

lemma getElem?_of_commentFrom {run offset position : Nat} {text : List Char}
    (h : commentFrom run offset text = some position) :
    ∃ i, position = offset + i ∧ text[i]? = some ':' := by
  induction text generalizing run offset with
  | nil => cases h
  | cons c rest ih =>
    have hrest : ∀ run, commentFrom run (offset + 1) rest = some position →
        ∃ i, position = offset + i ∧ (c :: rest)[i]? = some ':' := by
      intro run hrun
      obtain ⟨i, rfl, hi⟩ := ih hrun
      exact ⟨i + 1, by omega, by simpa using hi⟩
    rw [commentFrom] at h
    split_ifs at h with hcolon heven
    · cases h
      exact ⟨0, rfl, by simp [hcolon]⟩
    · exact hrest _ h
    · exact hrest _ h
    · exact hrest _ h

/-- What stands before a comment holds no comment. -/
lemma commentFrom_take {run offset length : Nat} {text : List Char}
    (h : commentFrom run offset text = some (offset + length)) :
    commentFrom run offset (text.take length) = none := by
  induction text generalizing run offset length with
  | nil => cases h
  | cons c rest ih =>
    cases length with
    | zero => rfl
    | succ length =>
      have hshift : offset + (length + 1) = offset + 1 + length := by omega
      rw [hshift] at h
      rw [List.take_succ_cons, commentFrom]
      rw [commentFrom] at h
      split_ifs at h ⊢
      · rw [Option.some.injEq] at h
        omega
      · exact ih h
      · exact ih h
      · exact ih h

/-- The tokens of a word without blanks or quotes. -/
def wordTokens (word : List Char) : List Token :=
  if word = [] then [] else [.bare word]

lemma ofTokens_cut {text : List Char} {length : Nat} (hcomment : comment? text = some length)
    (line : String) (before after : List Token) :
    Expression.ofTokens line (before ++ .bare text :: after) =
      Expression.ofTokens line (before ++ wordTokens (text.take length)) := by
  induction before with
  | nil =>
    have hnone : comment? (text.take length) = none :=
      commentFrom_take (by rwa [Nat.zero_add])
    cases length with
    | zero => simp only [List.nil_append, Expression.ofTokens, hcomment, wordTokens, List.take_zero,
        if_true]
    | succ length =>
      have hne : text.take (length + 1) ≠ [] := by
        rintro hnil
        rw [List.take_eq_nil_iff] at hnil
        obtain hnil | rfl := hnil
        · omega
        · cases hcomment
      simp only [List.nil_append, Expression.ofTokens, hcomment, wordTokens, if_neg hne, hnone]
      cases Expression.ofBare line (text.take (length + 1)) <;> rfl
  | cons token rest ih =>
    cases token with
    | quoted body => simp only [List.cons_append, Expression.ofTokens, ih]
    | bare word => simp only [List.cons_append, Expression.ofTokens, ih]

/-- Where the comment starts inside the first token, the text up to it is one token. -/
lemma leading_cut {c : Char} {kept comment text : List Char}
    (hleading : Token.leading c (kept ++ ':' :: comment) = .bare text)
    (hcomment : comment? text = some (kept.length + 1)) :
    Token.leading c kept = .bare (c :: kept) ∧ text.take (kept.length + 1) = c :: kept := by
  obtain ⟨length, rfl, hclosing⟩ | hclosing := leading_cases c (kept ++ ':' :: comment)
  · rw [leading_quoted hclosing] at hleading
    cases hleading
  · rw [leading_bare hclosing] at hleading
    obtain rfl := Token.bare.inj hleading
    have hlong : kept.length < ((kept ++ ':' :: comment).takeWhile fun d => !isBlank d).length := by
      obtain ⟨i, hi, hcolon⟩ := getElem?_of_commentFrom hcomment
      have hlt := (List.getElem?_eq_some_iff.1 hcolon).1
      rw [List.length_cons] at hlt
      omega
    have hall : (kept.takeWhile fun d => !isBlank d).length = kept.length := by
      by_contra hshort
      rw [List.takeWhile_append, if_neg hshort] at hlong
      have hle := (List.takeWhile_prefix (fun d => !isBlank d) (l := kept)).length_le
      omega
    have hkept : (kept.takeWhile fun d => !isBlank d) = kept :=
      (List.takeWhile_prefix _).eq_of_length hall
    have hsame : c = '"' → closingQuote? kept = none :=
      fun hquote => closingQuote?_eq_none_of_append (hclosing hquote)
    constructor
    · rw [leading_bare hsame, hkept]
    · rw [List.takeWhile_append, if_pos hall, List.take_succ_cons, List.take_left]

/-- The tokens up to a comment are those of the text up to it. -/
theorem scan_cut {offset start length : Nat} {text kept comment : List Char}
    (hmem : (start, Token.bare text) ∈ spansAfter 0 offset (kept ++ ':' :: comment))
    (hcomment : comment? text = some length) (hat : start + length = offset + kept.length) :
    ∃ before after, Token.scan (kept ++ ':' :: comment) = before ++ .bare text :: after ∧
      Token.scan kept = before ++ wordTokens (text.take length) ∧
      (before = [] → kept.dropWhile isBlank = text.take length) := by
  induction kept using line_induction generalizing offset with
  | nil =>
    have hcolon : isBlank ':' = false := by decide
    rw [List.nil_append, spansAfter_cons_token hcolon, List.mem_cons] at hmem
    rw [List.length_nil] at hat
    obtain hfirst | hmem := hmem
    · obtain ⟨rfl, htext⟩ := Prod.mk.inj hfirst
      obtain rfl : length = 0 := by omega
      have hscan := scan_cons_token hcolon comment
      rw [← htext] at hscan
      exact ⟨[], _, hscan, rfl, fun _ => rfl⟩
    · have hpos := List.length_pos_of_ne_nil (text_leading_ne_nil ':' comment)
      have hle := le_of_mem_spansAfter hmem
      omega
  | blank c rest hc ih =>
    rw [List.length_cons] at hat
    rw [List.cons_append, spansAfter_cons_blank hc] at hmem
    rw [List.cons_append, scan_cons_blank hc, scan_cons_blank hc, List.dropWhile_cons, if_pos hc]
    exact ih hmem (by omega)
  | token c rest hc ih =>
    rw [List.length_cons] at hat
    rw [List.cons_append, spansAfter_cons_token hc, List.mem_cons] at hmem
    rw [List.cons_append, scan_cons_token hc, scan_cons_token hc, List.dropWhile_cons,
      if_neg (by simp [hc])]
    obtain hfirst | hmem := hmem
    · obtain ⟨rfl, htext⟩ := Prod.mk.inj hfirst
      obtain rfl : length = rest.length + 1 := by omega
      obtain ⟨hleading, htake⟩ := leading_cut htext.symm hcomment
      refine ⟨[], _, by rw [htext]; rfl, ?_, fun _ => htake.symm⟩
      rw [hleading, htake, wordTokens, if_neg (by simp)]
      simp [Token.text, Token.scan, Token.scanAfter]
    · -- The first token ends before the comment, so it is that of the shorter line too.
      have hpos := List.length_pos_of_ne_nil (text_leading_ne_nil c (rest ++ ':' :: comment))
      have hle := le_of_mem_spansAfter hmem
      have hsame : Token.leading c rest = Token.leading c (rest ++ ':' :: comment) :=
        leading_of_append (by omega)
      rw [← hsame] at hmem hle hpos ⊢
      rw [List.drop_append_of_le_length (by omega)] at hmem ⊢
      obtain ⟨before, after, hwhole, hkept, -⟩ :=
        ih _ hmem (by rw [List.length_drop]; omega)
      refine ⟨Token.leading c rest :: before, after, ?_, ?_, by simp⟩
      · rw [hwhole, List.cons_append]
      · rw [hkept, List.cons_append]

/-! ### Lines with a comment -/

lemma exists_trimRight_append (text : List Char) :
    ∃ blanks, (∀ c ∈ blanks, isBlank c = true) ∧ text = trimRight text ++ blanks := by
  refine ⟨(text.reverse.takeWhile isBlank).reverse, ?_, ?_⟩
  · intro c hmem
    rw [List.mem_reverse] at hmem
    exact List.mem_takeWhile_imp hmem
  · rw [trimRight, ← List.reverse_append, List.takeWhile_append_dropWhile, List.reverse_reverse]

lemma scan_trimRight (text : List Char) : Token.scan (trimRight text) = Token.scan text := by
  obtain ⟨blanks, hblanks, htext⟩ := exists_trimRight_append text
  conv_rhs => rw [htext, scan_append_blanks hblanks]

lemma head?_trimRight {c : Char} (hc : isBlank c = false) (rest : List Char) :
    (trimRight (c :: rest)).head? = some c := by
  obtain ⟨blanks, hblanks, htext⟩ := exists_trimRight_append (c :: rest)
  cases htrim : trimRight (c :: rest) with
  | nil =>
    rw [htrim, List.nil_append] at htext
    have hblank := hblanks c (by rw [← htext]; exact List.mem_cons_self)
    rw [hc] at hblank
    cases hblank
  | cons d tail =>
    rw [htrim, List.cons_append] at htext
    rw [List.head?_cons, (List.cons.inj htext).1]

lemma dropWhile_append_cons {α : Type} {p : α → Bool} {c : α} (hc : p c = false)
    (text rest : List α) : (text ++ c :: rest).dropWhile p = text.dropWhile p ++ c :: rest := by
  induction text with
  | nil => simp [hc]
  | cons d tail ih =>
    rw [List.cons_append, List.dropWhile_cons, List.dropWhile_cons]
    by_cases hd : p d = true
    · rw [if_pos hd, if_pos hd, ih]
    · rw [if_neg hd, if_neg hd, List.cons_append]

lemma trim_comment (kept comment : List Char) :
    trim (kept ++ ':' :: comment) = kept.dropWhile isBlank ++ ':' :: trimRight comment := by
  have hcolon : isBlank ':' = false := by decide
  rw [trim, dropWhile_append_cons hcolon, trimRight, List.reverse_append, List.reverse_cons,
    List.append_assoc, List.singleton_append, dropWhile_append_cons hcolon, List.reverse_append,
    List.reverse_cons, List.reverse_reverse, List.append_assoc, List.singleton_append, trimRight]

lemma ofKeyword_of_colon {text : List Char} (hcolon : ':' ∈ text) :
    StatementKind.ofKeyword (String.ofList text) = .call := by
  have hne : ∀ word : String, ':' ∉ word.toList → String.ofList text ≠ word := by
    rintro word hword rfl
    rw [String.toList_ofList] at hword
    exact hword hcolon
  rw [StatementKind.ofKeyword, if_neg (hne "var" (by decide)), if_neg (hne "operator" (by decide))]

lemma colon_mem_of_comment? {text : List Char} {length : Nat}
    (hcomment : comment? text = some length) : ':' ∈ text := by
  obtain ⟨i, -, hi⟩ := getElem?_of_commentFrom hcomment
  exact List.mem_of_getElem? hi

lemma operands_bare {text : List Char}
    (hcall : StatementKind.ofKeyword (String.ofList text) = .call) (rest : List Token) :
    operands (.bare text) rest = .bare text :: rest := by
  simp only [operands, Token.text, hcall, StatementKind.keepsKeyword, if_true]

/-- Unless the text up to the comment is a keyword by itself, its kind and its operands are those of
the whole line. -/
lemma operands_cut {text kept : List Char} {length : Nat} {before : List Token}
    (hcomment : comment? text = some length) (hne : kept ≠ [])
    (hword : StatementKind.ofKeyword (String.ofList kept) = .call)
    (hfirst : before = [] → kept = text.take length) (after : List Token) :
    ∃ first rest rest' whole, before ++ .bare text :: after = whole :: rest ∧
      before ++ wordTokens (text.take length) = first :: rest' ∧
      StatementKind.ofKeyword (String.ofList whole.text) =
        StatementKind.ofKeyword (String.ofList first.text) ∧
      ∀ line, Expression.ofTokens line (operands whole rest) =
        Expression.ofTokens line (operands first rest') := by
  cases before with
  | nil =>
    obtain rfl := hfirst rfl
    have hcall := ofKeyword_of_colon (colon_mem_of_comment? hcomment)
    have hcut : wordTokens (text.take length) = [.bare (text.take length)] := if_neg hne
    refine ⟨.bare (text.take length), after, [], .bare text, rfl, hcut, hcall.trans hword.symm, ?_⟩
    intro line
    have htokens := ofTokens_cut hcomment line [] after
    rw [hcut] at htokens
    rw [operands_bare hcall, operands_bare hword]
    exact htokens
  | cons first before =>
    refine ⟨first, _, _, first, rfl, rfl, rfl, fun line => ?_⟩
    unfold operands
    split
    · exact ofTokens_cut hcomment line (first :: before) after
    · exact ofTokens_cut hcomment line before after

/-- The comment of a bare token of the line starts at this offset. -/
def CommentAt (line : List Char) (offset : Nat) : Prop :=
  ∃ start text length, (start, Token.bare text) ∈ spans line ∧ comment? text = some length ∧
    start + length = offset

/-- If the text up to the comment is not a keyword, it is read as the whole line is. -/
lemma ofTrimmed_cut {kept comment : List Char} (hcomment : CommentAt (kept ++ ':' :: comment)
      kept.length) (hindent : kept.dropWhile isBlank = kept)
    (hword : StatementKind.ofKeyword (String.ofList kept) = .call) :
    (Statement.ofTrimmed (kept ++ ':' :: comment) = .ok none ∧
      Statement.ofTrimmed (trimRight kept) = .ok none) ∨
    ∃ kind expressions,
      Statement.ofTrimmed (kept ++ ':' :: comment) =
        .ok (some ⟨kind, String.ofList (kept ++ ':' :: comment), expressions⟩) ∧
      Statement.ofTrimmed (trimRight kept) =
        .ok (some ⟨kind, String.ofList (trimRight kept), expressions⟩) := by
  cases kept with
  | nil => exact .inl ⟨rfl, rfl⟩
  | cons c rest =>
    have hc : isBlank c = false := by
      simpa using List.dropWhile_eq_self_iff.1 hindent (Nat.succ_pos _)
    have hhead := head?_trimRight hc rest
    by_cases hcolon : c = ':'
    · left
      subst hcolon
      exact ⟨rfl, by rw [Statement.ofTrimmed, if_pos hhead]⟩
    · right
      obtain ⟨start, text, length, hmem, htext, hat⟩ := hcomment
      obtain ⟨before, after, hwhole, hkept, hfirst⟩ := scan_cut hmem htext (by omega)
      rw [hindent] at hfirst
      obtain ⟨first, tail, tail', whole, hsplit, hsplit', hkind, hoperands⟩ :=
        operands_cut htext (List.cons_ne_nil c rest) hword hfirst after
      rw [hsplit] at hwhole
      rw [hsplit', ← scan_trimRight] at hkept
      obtain ⟨expressions, hexpressions⟩ :=
        exists_ofTokens fun token hmem => text_ne_nil_of_mem_operands hwhole hmem
      refine ⟨.ofKeyword (String.ofList whole.text), expressions, ?_, ?_⟩
      · exact ofTrimmed_of_scan (by simpa using hcolon) hwhole (hexpressions _)
      · rw [hkind]
        refine ofTrimmed_of_scan ?_ hkept ?_
        · rw [hhead]
          simpa using hcolon
        · rw [← hoperands, hexpressions]

lemma exists_scan_keyword {word : String} (hword : word = "var" ∨ word = "operator")
    (comment : List Char) :
    ∃ text after, Token.scan (word.toList ++ ':' :: comment) = .bare text :: after ∧
      comment? text = some word.toList.length ∧ text.take word.toList.length = word.toList := by
  obtain rfl | rfl := hword
  · exact ⟨"var:".toList ++ comment.takeWhile fun d => !isBlank d, _, rfl, rfl, rfl⟩
  · exact ⟨"operator:".toList ++ comment.takeWhile fun d => !isBlank d, _, rfl, rfl, rfl⟩

/-- A keyword with a comment right behind it is the name of a function. -/
lemma ofTrimmed_keyword {word : String} (hword : word = "var" ∨ word = "operator")
    (comment : List Char) :
    Statement.ofTrimmed (word.toList ++ ':' :: comment) =
      .ok (some ⟨.call, String.ofList (word.toList ++ ':' :: comment), [.literal word word]⟩) := by
  obtain ⟨text, after, hscan, hcomment, htake⟩ := exists_scan_keyword hword comment
  have hcall := ofKeyword_of_colon (colon_mem_of_comment? hcomment)
  have hcut : wordTokens word.toList = [.bare word.toList] := by
    obtain rfl | rfl := hword <;> rfl
  have hhead : (word.toList ++ ':' :: comment).head? ≠ some ':' := by
    obtain rfl | rfl := hword <;> nofun
  have hexpressions : ∀ line, Expression.ofTokens line (operands (.bare text) after) =
      .ok [.literal word word] := by
    intro line
    have htokens := ofTokens_cut hcomment line [] after
    rw [htake, hcut] at htokens
    rw [operands_bare hcall]
    refine htokens.trans ?_
    obtain rfl | rfl := hword <;> rfl
  rw [ofTrimmed_of_scan hhead hscan (hexpressions _), Token.text, hcall]

/-- The text without the blanks at its start. -/
def unindented (text : String) : String :=
  String.ofList (text.toList.dropWhile isBlank)

/-- The text without the blanks at either end. -/
def trimmed (text : String) : String :=
  String.ofList (trim text.toList)

/-- A comment leaves no trace. If a comment starts right after `kept`, in a bare token of the line,
the line is read as `kept` is, whatever the comment holds: both are nothing, or they are statements
of the same kind with the same expressions. The one exception is a keyword with the comment right
behind it, which is no keyword then: the line is a call whose only expression is that word, while
the word by itself is a statement without operands. -/
theorem comment_leaves_no_trace (kept comment : String)
    (hcomment : CommentAt (trim (kept ++ ":" ++ comment).toList) (unindented kept).toList.length) :
    (¬(unindented kept = "var" ∨ unindented kept = "operator") →
      (Statement.parse (kept ++ ":" ++ comment) = .ok none ∧ Statement.parse kept = .ok none) ∨
      ∃ kind expressions,
        Statement.parse (kept ++ ":" ++ comment) =
          .ok (some ⟨kind, trimmed (kept ++ ":" ++ comment), expressions⟩) ∧
        Statement.parse kept = .ok (some ⟨kind, trimmed kept, expressions⟩)) ∧
    (unindented kept = "var" ∨ unindented kept = "operator" →
      Statement.parse (kept ++ ":" ++ comment) =
        .ok (some ⟨.call, trimmed (kept ++ ":" ++ comment),
          [.literal (unindented kept) (unindented kept)]⟩) ∧
      ∃ kind, kind ≠ .call ∧ Statement.parse kept = .ok (some ⟨kind, trimmed kept, []⟩)) := by
  have hlist : (kept ++ ":" ++ comment).toList = kept.toList ++ ':' :: comment.toList := by simp
  have hline : trim (kept ++ ":" ++ comment).toList =
      (unindented kept).toList ++ ':' :: trimRight comment.toList := by
    rw [hlist, trim_comment, unindented, String.toList_ofList]
  have hkept : trim kept.toList = trimRight (unindented kept).toList := by
    rw [trim, unindented, String.toList_ofList]
  have hindent : (unindented kept).toList.dropWhile isBlank = (unindented kept).toList := by
    rw [unindented, String.toList_ofList, List.dropWhile_idempotent]
  unfold Statement.parse trimmed
  rw [hline] at hcomment ⊢
  rw [hkept]
  generalize unindented kept = word at hcomment hindent ⊢
  constructor
  · intro hword
    apply ofTrimmed_cut hcomment hindent
    rw [String.ofList_toList, StatementKind.ofKeyword, if_neg fun h => hword (.inl h),
      if_neg fun h => hword (.inr h)]
  · intro hword
    refine ⟨ofTrimmed_keyword hword _, ?_⟩
    obtain rfl | rfl := hword
    · exact ⟨.assignment, by decide, rfl⟩
    · exact ⟨.operator, by decide, rfl⟩

/-- A quoted text and a word, each with a colon, a word that ends in backslashes, and a comment with
quotes and another colon. -/
def commentedLine : String × String :=
  (" say \"\\\":\" x\\:y z\\\\", "\"a\" :\"b ")

theorem comment_leaves_no_trace_quoted :
    Statement.parse commentedLine.1 = .ok (some ⟨.call, "say \"\\\":\" x\\:y z\\\\",
      [.literal "say" "say", .literal "\"\\\":\"" "\":", .literal "x\\:y" "x\\:y",
        .literal "z\\\\" "z\\\\"]⟩) ∧
    ((Statement.parse (commentedLine.1 ++ ":" ++ commentedLine.2) = .ok none ∧
        Statement.parse commentedLine.1 = .ok none) ∨
      ∃ kind expressions,
        Statement.parse (commentedLine.1 ++ ":" ++ commentedLine.2) =
          .ok (some ⟨kind, trimmed (commentedLine.1 ++ ":" ++ commentedLine.2), expressions⟩) ∧
        Statement.parse commentedLine.1 =
          .ok (some ⟨kind, trimmed commentedLine.1, expressions⟩)) ∧
    Statement.parse (" var" ++ ":" ++ "x 1") =
      .ok (some ⟨.call, trimmed (" var" ++ ":" ++ "x 1"),
        [.literal (unindented " var") (unindented " var")]⟩) := by
  have hline : CommentAt (trim (commentedLine.1 ++ ":" ++ commentedLine.2).toList)
      (unindented commentedLine.1).toList.length :=
    ⟨15, "z\\\\:\"a\"".toList, 3, by decide +kernel, by decide, by decide⟩
  have hkeyword : CommentAt (trim (" var" ++ ":" ++ "x 1").toList)
      (unindented " var").toList.length :=
    ⟨0, "var:x".toList, 3, by decide, by decide, by decide⟩
  refine ⟨by decide +kernel, (comment_leaves_no_trace _ _ hline).1 (by decide), ?_⟩
  exact ((comment_leaves_no_trace _ _ hkeyword).2 (by decide)).1

end LineScript.Proofs
