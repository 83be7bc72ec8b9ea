import LineScript.Proofs.Comments
import Mathlib.Order.Bounds.Basic

/-!
# Escapes and runs of backslashes

A reading from the left, in which each backslash takes the next character along, and a count of the
backslashes right before a character agree on what is escaped: the reading stops at the first
character with an even number of backslashes before it. The reading is at an even number whenever it
goes on, which is what `unescapedFrom_eq_some_iff` carries along.
-/

namespace LineScript.Proofs

open Text

/-! ### Runs of backslashes -/

/-- The number of backslashes at the end of a text. -/
def slashes (text : List Char) : Nat :=
  (text.reverse.takeWhile fun c => c == '\\').length

/-- `target` stands at this offset, with an even number of backslashes right before it. -/
def UnescapedAt (target : Char) (text : List Char) (offset : Nat) : Prop :=
  text[offset]? = some target ∧ Even (slashes (text.take offset))

lemma slashes_append_slash (text : List Char) : slashes (text ++ ['\\']) = slashes text + 1 := by
  simp [slashes]

lemma slashes_append_plain {c : Char} (hc : c ≠ '\\') (text : List Char) :
    slashes (text ++ [c]) = 0 := by
  simp [slashes, hc]

/-- A character that is taken along leaves an even number behind. -/
lemma even_slashes_escaped {text : List Char} (heven : Even (slashes text)) (c : Char) :
    Even (slashes (text ++ ['\\'] ++ [c])) := by
  by_cases hc : c = '\\'
  · rw [hc, slashes_append_slash, slashes_append_slash]
    exact heven.add even_two
  · rw [slashes_append_plain hc]
    exact Even.zero

/-- What stands right after `text` is unescaped if `text` ends in an even number of backslashes. -/
lemma unescapedAt_length_iff (target c : Char) (text rest : List Char) :
    UnescapedAt target (text ++ c :: rest) text.length ↔ c = target ∧ Even (slashes text) := by
  simp [UnescapedAt]

lemma unescapedAt_append_left {target : Char} {text : List Char} {offset : Nat}
    (h : offset < text.length) (rest : List Char) :
    UnescapedAt target (text ++ rest) offset ↔ UnescapedAt target text offset := by
  rw [UnescapedAt, UnescapedAt, List.getElem?_append_left h, List.take_append_of_le_length h.le]

/-! ### The first unescaped character -/

lemma from_succ {P : Nat → Prop} {start : Nat} (h : ¬P start) :
    {i | start ≤ i ∧ P i} = {i | start + 1 ≤ i ∧ P i} := by
  ext i
  constructor
  · rintro ⟨hle, hi⟩
    have hne : start ≠ i := by
      rintro rfl
      exact h hi
    exact ⟨by omega, hi⟩
  · rintro ⟨hle, hi⟩
    exact ⟨by omega, hi⟩

/-- The search from the end of `front` on finds the first unescaped character from there on. -/
lemma unescapedFrom_eq_some_iff {target : Char} (htarget : target ≠ '\\') (front text : List Char)
    {offset : Nat} (hoffset : offset = front.length) (heven : Even (slashes front))
    (position : Nat) :
    unescapedFrom target offset text = some position ↔
      IsLeast {i | offset ≤ i ∧ UnescapedAt target (front ++ text) i} position := by
  fun_induction unescapedFrom target offset text generalizing front with
  | case1 offset =>
    simp only [reduceCtorEq, false_iff]
    rintro ⟨⟨hle, hat, -⟩, -⟩
    rw [List.append_nil, List.getElem?_eq_none (by omega)] at hat
    cases hat
  | case2 offset rest =>
    have hfirst : IsLeast {i | offset ≤ i ∧ UnescapedAt target (front ++ target :: rest) i}
        offset := by
      refine ⟨⟨le_rfl, ?_⟩, fun i hi => hi.1⟩
      rw [hoffset, unescapedAt_length_iff]
      exact ⟨rfl, heven⟩
    rw [Option.some.injEq]
    constructor
    · rintro rfl
      exact hfirst
    · intro hleast
      exact hfirst.unique hleast
  | case3 offset hslash =>
    simp only [reduceCtorEq, false_iff]
    rintro ⟨⟨hle, hat⟩, -⟩
    have hlast : position = front.length := by
      have hlt := (List.getElem?_eq_some_iff.1 hat.1).1
      rw [List.length_append, List.length_singleton] at hlt
      omega
    rw [hlast, unescapedAt_length_iff] at hat
    exact htarget hat.1.symm
  | case4 offset c rest hslash ih =>
    have hfirst : ¬UnescapedAt target (front ++ '\\' :: c :: rest) offset := by
      rw [hoffset, unescapedAt_length_iff]
      rintro ⟨rfl, -⟩
      exact htarget rfl
    -- The backslash makes the number before the character that it takes along odd.
    have hsecond : ¬UnescapedAt target (front ++ '\\' :: c :: rest) (offset + 1) := by
      have hlength : offset + 1 = (front ++ ['\\']).length := by simp [hoffset]
      rw [hlength, List.append_cons, unescapedAt_length_iff, slashes_append_slash]
      rintro ⟨-, hodd⟩
      exact Nat.not_even_iff_odd.2 heven.add_one hodd
    have hline : front ++ ['\\'] ++ [c] ++ rest = front ++ '\\' :: c :: rest := by simp
    have hrest := ih (front ++ ['\\'] ++ [c]) (by simp [hoffset])
      (even_slashes_escaped heven c)
    rw [hrest, hline, from_succ hfirst, from_succ hsecond]
  | case5 offset c rest hne hslash ih =>
    have hfirst : ¬UnescapedAt target (front ++ c :: rest) offset := by
      rw [hoffset, unescapedAt_length_iff]
      rintro ⟨heq, -⟩
      exact hne heq
    have hplain : Even (slashes (front ++ [c])) := by
      rw [slashes_append_plain hslash]
      exact Even.zero
    have hrest := ih (front ++ [c]) (by simp [hoffset]) hplain
    rw [hrest, ← List.append_cons, from_succ hfirst]

theorem unescaped?_eq_some_iff {target : Char} (htarget : target ≠ '\\') (text : List Char)
    (position : Nat) :
    unescaped? target text = some position ↔ IsLeast {i | UnescapedAt target text i} position := by
  have hfrom := unescapedFrom_eq_some_iff htarget [] text rfl Even.zero position
  simpa only [List.length_nil, Nat.zero_le, true_and, List.nil_append, unescaped?] using hfrom

theorem unescaped?_eq_none_iff {target : Char} (htarget : target ≠ '\\') (text : List Char) :
    unescaped? target text = none ↔ ∀ i, ¬UnescapedAt target text i := by
  constructor
  · intro hnone i hi
    have hleast : IsLeast {i | UnescapedAt target text i} (sInf {i | UnescapedAt target text i}) :=
      ⟨Nat.sInf_mem ⟨i, hi⟩, fun j hj => Nat.sInf_le hj⟩
    rw [← unescaped?_eq_some_iff htarget, hnone] at hleast
    cases hleast
  · intro hnone
    cases h : unescaped? target text with
    | none => rfl
    | some position =>
      rw [unescaped?_eq_some_iff htarget] at h
      exact absurd h.1 (hnone position)

/-! ### The last character -/

lemma last?_append_singleton (target : Char) (text : List Char) (c : Char) :
    last? target (text ++ [c]) = if c = target then some text.length else last? target text := by
  rw [last?, lastFrom_append, Nat.zero_add]
  rfl

theorem last?_eq_some_iff (target : Char) (text : List Char) (position : Nat) :
    last? target text = some position ↔ IsGreatest {i | text[i]? = some target} position := by
  induction text using List.reverseRecOn with
  | nil =>
    simp only [last?, lastFrom, reduceCtorEq, false_iff]
    rintro ⟨hat, -⟩
    simp at hat
  | append_singleton text c ih =>
    rw [last?_append_singleton]
    by_cases hc : c = target
    · have hlast : IsGreatest {i : Nat | (text ++ [c])[i]? = some target} text.length := by
        refine ⟨by simp [hc], fun i hi => ?_⟩
        have hlt := (List.getElem?_eq_some_iff.1 hi).1
        rw [List.length_append, List.length_singleton] at hlt
        omega
      rw [if_pos hc, Option.some.injEq]
      constructor
      · rintro rfl
        exact hlast
      · intro hgreatest
        exact hlast.unique hgreatest
    · have hsame : {i : Nat | (text ++ [c])[i]? = some target} = {i | text[i]? = some target} := by
        ext i
        change (text ++ [c])[i]? = some target ↔ text[i]? = some target
        rw [List.getElem?_append]
        by_cases hi : i < text.length
        · rw [if_pos hi]
        · have hnone : text[i]? = none := List.getElem?_eq_none (by omega)
          rw [if_neg hi, hnone, List.getElem?_singleton]
          split <;> simp [hc]
      rw [if_neg hc, ih, hsame]

theorem last?_eq_none_iff (target : Char) (text : List Char) :
    last? target text = none ↔ target ∉ text := by
  induction text using List.reverseRecOn with
  | nil => simp [last?, lastFrom]
  | append_singleton text c ih =>
    rw [last?_append_singleton]
    by_cases hc : c = target
    · simp [hc]
    · rw [if_neg hc, ih]
      simp [Ne.symm hc]

end LineScript.Proofs
