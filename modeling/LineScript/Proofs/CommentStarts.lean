import LineScript.Proofs.Escapes

/-!
# Where comments start

There are three ways to look for the colon that starts a comment. `comment?` carries the number of
backslashes right before along, `colonSearch` goes from colon to colon and counts at each of them
backwards, over text that it has passed, and `unescaped?` reads once from the left, with backslashes
that take the next character along. All find the first colon with an even number of backslashes
before it.
-/

namespace LineScript.Proofs

open Text

/-! ### Counting along -/

/-- A search with the right count finds the first unescaped colon from the end of `front` on. -/
lemma commentFrom_eq_some_iff (front text : List Char) {run offset : Nat}
    (hoffset : offset = front.length) (hrun : run = slashes front) (position : Nat) :
    commentFrom run offset text = some position ↔
      IsLeast {i | offset ≤ i ∧ UnescapedAt ':' (front ++ text) i} position := by
  induction text generalizing front run offset with
  | nil =>
    simp only [commentFrom, reduceCtorEq, false_iff]
    rintro ⟨⟨hle, hat, -⟩, -⟩
    rw [List.append_nil, List.getElem?_eq_none (by omega)] at hat
    cases hat
  | cons c rest ih =>
    have hlength : offset + 1 = (front ++ [c]).length := by simp [hoffset]
    -- All cases but the first go on behind `c`, with the count that is right there.
    have hnext : ∀ run, run = slashes (front ++ [c]) →
        ¬UnescapedAt ':' (front ++ c :: rest) offset →
        (commentFrom run (offset + 1) rest = some position ↔
          IsLeast {i | offset ≤ i ∧ UnescapedAt ':' (front ++ c :: rest) i} position) := by
      intro run hrun hnot
      rw [ih (front ++ [c]) hlength hrun, ← List.append_cons, from_succ hnot]
    rw [commentFrom]
    split_ifs with hcolon heven hslash
    · have hfirst : IsLeast {i | offset ≤ i ∧ UnescapedAt ':' (front ++ c :: rest) i} offset := by
        refine ⟨⟨le_rfl, ?_⟩, fun i hi => hi.1⟩
        rw [hoffset, unescapedAt_length_iff, ← hrun]
        exact ⟨hcolon, Nat.even_iff.2 heven⟩
      rw [Option.some.injEq]
      constructor
      · rintro rfl
        exact hfirst
      · intro hleast
        exact hfirst.unique hleast
    · apply hnext
      · rw [hcolon, slashes_append_plain (by decide)]
      · rw [hoffset, unescapedAt_length_iff, ← hrun, Nat.even_iff]
        exact fun hat => heven hat.2
    · apply hnext
      · rw [hslash, slashes_append_slash, hrun]
      · rw [hoffset, unescapedAt_length_iff]
        exact fun hat => hcolon hat.1
    · apply hnext
      · rw [slashes_append_plain hslash]
      · rw [hoffset, unescapedAt_length_iff]
        exact fun hat => hcolon hat.1

theorem comment?_eq_some_iff (text : List Char) (position : Nat) :
    comment? text = some position ↔ IsLeast {i | UnescapedAt ':' text i} position := by
  have hempty : 0 = slashes [] := rfl
  have hfrom := commentFrom_eq_some_iff [] text rfl hempty position
  simpa only [List.length_nil, Nat.zero_le, true_and, List.nil_append, comment?] using hfrom

/-! ### Counting backwards -/

/-- The offset of the first colon from `start` on with an even number of backslashes right before
it. A colon with an odd number sends the search on behind it. -/
def colonSearch (text : List Char) (start : Nat) : Option Nat :=
  match h : (text.drop start).idxOf? ':' with
  | none => none
  | some offset =>
    if slashes (text.take (start + offset)) % 2 = 0 then some (start + offset)
    else colonSearch text (start + offset + 1)
termination_by text.length - start
decreasing_by
  have hlt := (List.idxOf?_eq_some_iff.1 h).1
  rw [List.length_drop] at hlt
  omega

lemma colonSearch_of_notMem {text : List Char} (hcolon : ':' ∉ text) (front : List Char) :
    colonSearch (front ++ text) front.length = none := by
  have hindex : ((front ++ text).drop front.length).idxOf? ':' = none := by
    rw [List.drop_left, List.idxOf?_eq_none_iff]
    exact hcolon
  rw [colonSearch]
  split
  · rfl
  · rename_i hsome
    rw [hindex] at hsome
    cases hsome

lemma colonSearch_of_colon {plain : List Char} (hcolon : ':' ∉ plain) (front rest : List Char) :
    colonSearch (front ++ (plain ++ ':' :: rest)) front.length =
      if slashes (front ++ plain) % 2 = 0 then some (front ++ plain).length
      else colonSearch (front ++ (plain ++ ':' :: rest)) (front ++ plain ++ [':']).length := by
  have hindex : ((front ++ (plain ++ ':' :: rest)).drop front.length).idxOf? ':' =
      some plain.length := by
    rw [List.drop_left, List.idxOf?_eq_some_iff]
    refine ⟨by simp, by simp, ?_⟩
    intro j hj heq
    rw [List.getElem_append_left hj] at heq
    exact hcolon (List.mem_of_getElem heq)
  have htake : (front ++ (plain ++ ':' :: rest)).take (front.length + plain.length) =
      front ++ plain := by
    rw [← List.append_assoc, ← List.length_append, List.take_left]
  rw [colonSearch]
  split
  · rename_i hnone
    rw [hindex] at hnone
    cases hnone
  · rename_i offset hsome
    rw [hindex] at hsome
    cases hsome
    rw [htake]
    simp only [List.length_append, List.length_singleton]

/-- What a search has passed it needs only for the count. -/
lemma commentFrom_of_notMem {plain : List Char} (hcolon : ':' ∉ plain) (front rest : List Char) :
    commentFrom (slashes front) front.length (plain ++ rest) =
      commentFrom (slashes (front ++ plain)) (front ++ plain).length rest := by
  induction plain generalizing front with
  | nil => rw [List.nil_append, List.append_nil]
  | cons c plain ih =>
    rw [List.mem_cons, not_or] at hcolon
    have hnext := ih hcolon.2 (front ++ [c])
    rw [List.append_assoc, List.singleton_append, List.length_append,
      List.length_singleton] at hnext
    rw [← hnext, List.cons_append, commentFrom, if_neg (Ne.symm hcolon.1)]
    by_cases hslash : c = '\\'
    · rw [if_pos hslash, hslash, slashes_append_slash]
    · rw [if_neg hslash, slashes_append_plain hslash]

/-- Counting backwards at each colon comes to the same as counting along. -/
theorem commentFrom_eq_colonSearch (front text : List Char) :
    commentFrom (slashes front) front.length text = colonSearch (front ++ text) front.length := by
  induction hlength : text.length using Nat.strong_induction_on generalizing front text with
  | _ length ih =>
    by_cases hmem : ':' ∈ text
    · obtain ⟨plain, rest, rfl, hplain⟩ := List.eq_append_cons_of_mem hmem
      have hshorter : rest.length < length := by
        rw [← hlength, List.length_append, List.length_cons]
        omega
      have hrest := ih rest.length hshorter (front ++ plain ++ [':']) rest rfl
      have hline : front ++ plain ++ [':'] ++ rest = front ++ (plain ++ ':' :: rest) := by simp
      rw [slashes_append_plain (by decide), hline] at hrest
      rw [commentFrom_of_notMem hplain, commentFrom, if_pos rfl, colonSearch_of_colon hplain,
        ← hrest, List.length_append, List.length_append, List.length_append]
      rfl
    · have hpassed := commentFrom_of_notMem hmem front []
      rw [List.append_nil] at hpassed
      rw [colonSearch_of_notMem hmem, hpassed, commentFrom]

/-! ### Reading from the left -/

theorem comment?_eq_unescaped? (text : List Char) : comment? text = unescaped? ':' text := by
  apply Option.ext
  intro position
  rw [comment?_eq_some_iff, unescaped?_eq_some_iff (by decide)]

/-- A comment starts at the first colon that a reading from the left meets when each backslash takes
the next character along, and there is none if this reading meets no colon. A search that goes from
colon to colon and counts the backslashes right before each finds the same. What is left when a
comment is cut off holds no comment. -/
theorem comment_starts_at_first_unescaped_colon (text : List Char) :
    comment? text = unescaped? ':' text ∧
    comment? text = colonSearch text 0 ∧
    (∀ offset, comment? text = some offset ↔ IsLeast {i | UnescapedAt ':' text i} offset) ∧
    ∀ offset, comment? text = some offset → comment? (text.take offset) = none := by
  refine ⟨comment?_eq_unescaped? text, ?_, comment?_eq_some_iff text, ?_⟩
  · exact commentFrom_eq_colonSearch [] text
  · intro offset hcomment
    apply commentFrom_take
    rw [Nat.zero_add]
    exact hcomment

/-- The first colon is escaped, and the second has two backslashes before it. -/
theorem comment_starts_at_first_unescaped_colon_even :
    comment? "a\\:b\\\\:c:".toList = some 6 ∧
    unescaped? ':' "a\\:b\\\\:c:".toList = some 6 ∧
    colonSearch "a\\:b\\\\:c:".toList 0 = some 6 ∧
    comment? "a\\:b\\\\".toList = none := by
  have hcomment : comment? "a\\:b\\\\:c:".toList = some 6 := by decide
  obtain ⟨hleft, hback, -, hcut⟩ := comment_starts_at_first_unescaped_colon "a\\:b\\\\:c:".toList
  rw [hcomment] at hleft hback
  exact ⟨hcomment, hleft.symm, hback.symm, hcut 6 hcomment⟩

end LineScript.Proofs
