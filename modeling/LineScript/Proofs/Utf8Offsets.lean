import LineScript.Proofs.Escapes
import LineScript.Text.Utf8

/-!
# Byte offsets

A text can be searched byte by byte and cut at the byte offsets that are found. A cut is possible
only where the encoding of a character starts, or at the end; `slice?` fails anywhere else. A byte
of a character that takes more than one is never that of a one-byte character
(`eq_of_mem_utf8EncodeChar`), so a search for one-byte characters finds where these stand, and the
text can be cut there.
-/

namespace LineScript.Proofs

open Text

/-! ### Encodings -/

def bytes (text : List Char) : List UInt8 :=
  utf8 (String.ofList text)

@[simp] lemma bytes_nil : bytes [] = [] := rfl

@[simp] lemma bytes_cons (c : Char) (rest : List Char) :
    bytes (c :: rest) = String.utf8EncodeChar c ++ bytes rest := by
  simp [bytes, utf8]

@[simp] lemma bytes_append (first second : List Char) :
    bytes (first ++ second) = bytes first ++ bytes second := by
  simp [bytes, utf8]

lemma length_bytes_append (front back : List Char) :
    (bytes (front ++ back)).length = (bytes front).length + (bytes back).length := by
  rw [bytes_append, List.length_append]

lemma length_bytes_le_append (front back : List Char) :
    (bytes front).length ≤ (bytes (front ++ back)).length := by
  rw [length_bytes_append]
  omega

lemma length_bytes_append_singleton (front : List Char) (c : Char) :
    (bytes (front ++ [c])).length = (bytes front).length + c.utf8Size := by
  simp

lemma length_bytes_succ {c : Char} (hc : c.utf8Size = 1) (front : List Char) :
    (bytes front).length + 1 = (bytes (front ++ [c])).length := by
  rw [length_bytes_append_singleton, hc]

lemma eq_nil_of_length_bytes {text : List Char} (hzero : (bytes text).length = 0) : text = [] := by
  cases text with
  | nil => rfl
  | cons c rest =>
    have hpos := c.utf8Size_pos
    rw [bytes_cons, List.length_append, String.length_utf8EncodeChar] at hzero
    omega

/-- The byte offset of the character at this position. -/
def byteOffset (text : List Char) (position : Nat) : Nat :=
  (bytes (text.take position)).length

lemma byteOffset_cons (c : Char) (rest : List Char) (position : Nat) :
    byteOffset (c :: rest) (position + 1) = c.utf8Size + byteOffset rest position := by
  simp [byteOffset]

lemma byteOffset_succ {text : List Char} {position : Nat} {c : Char}
    (hat : text[position]? = some c) (hc : c.utf8Size = 1) :
    byteOffset text (position + 1) = byteOffset text position + 1 := by
  rw [byteOffset, List.take_add_one, hat]
  simp [hc, byteOffset]

lemma byteOffset_mono (text : List Char) {first second : Nat} (hle : first ≤ second) :
    byteOffset text first ≤ byteOffset text second := by
  obtain ⟨more, rfl⟩ := Nat.exists_eq_add_of_le hle
  rw [byteOffset, byteOffset, List.take_add]
  exact length_bytes_le_append _ _

/-- Every byte of a character that takes more than one is above those of the others. -/
lemma le_of_mem_utf8EncodeChar {d : Char} (hd : d.utf8Size ≠ 1) {byte : UInt8}
    (hmem : byte ∈ String.utf8EncodeChar d) : 128 ≤ byte.toNat := by
  rw [Ne, Char.utf8Size_eq_one_iff, UInt32.le_iff_toNat_le] at hd
  change ¬d.val.toNat ≤ 127 at hd
  simp only [String.utf8EncodeChar, if_neg hd] at hmem
  split_ifs at hmem
  · simp only [List.mem_cons, List.not_mem_nil, or_false] at hmem
    obtain rfl | rfl := hmem <;> rw [UInt8.toNat_ofNat'] <;> omega
  · simp only [List.mem_cons, List.not_mem_nil, or_false] at hmem
    obtain rfl | rfl | rfl := hmem <;> rw [UInt8.toNat_ofNat'] <;> omega
  · simp only [List.mem_cons, List.not_mem_nil, or_false] at hmem
    obtain rfl | rfl | rfl | rfl := hmem <;> rw [UInt8.toNat_ofNat'] <;> omega

lemma toNat_toUInt8 {c : Char} (hc : c.utf8Size = 1) :
    c.toUInt8.toNat = c.toNat ∧ c.toNat < 128 := by
  rw [Char.utf8Size_eq_one_iff, UInt32.le_iff_toNat_le] at hc
  change c.toNat ≤ 127 at hc
  constructor
  · change c.toNat % 256 = c.toNat
    omega
  · omega

/-- In the encoding of a character stands the byte of a one-byte character only if it is this
character. -/
lemma eq_of_mem_utf8EncodeChar {c d : Char} (hc : c.utf8Size = 1)
    (hmem : c.toUInt8 ∈ String.utf8EncodeChar d) : d = c := by
  obtain ⟨hbyte, hlt⟩ := toNat_toUInt8 hc
  by_cases hd : d.utf8Size = 1
  · rw [String.utf8EncodeChar_eq_singleton hd, List.mem_singleton] at hmem
    have hsame : c.toUInt8.toNat = d.toUInt8.toNat := congrArg UInt8.toNat hmem
    rw [hbyte, (toNat_toUInt8 hd).1] at hsame
    exact (Char.toNat_inj.1 hsame).symm
  · have hle := le_of_mem_utf8EncodeChar hd hmem
    omega

/-- Where the byte of a one-byte character stands, there stands the character. -/
lemma getElem?_bytes_iff {c : Char} (hc : c.utf8Size = 1) (text : List Char) (i : Nat) :
    (bytes text)[i]? = some c.toUInt8 ↔
      ∃ front back, text = front ++ c :: back ∧ (bytes front).length = i := by
  constructor
  · intro hbyte
    induction text generalizing i with
    | nil => simp at hbyte
    | cons d rest ih =>
      rw [bytes_cons] at hbyte
      by_cases hi : i < d.utf8Size
      · rw [List.getElem?_append_left (by simpa using hi)] at hbyte
        obtain rfl := eq_of_mem_utf8EncodeChar hc (List.mem_of_getElem? hbyte)
        exact ⟨[], rest, rfl, by simp; omega⟩
      · rw [List.getElem?_append_right (by simpa using hi), String.length_utf8EncodeChar] at hbyte
        obtain ⟨front, back, rfl, hlength⟩ := ih _ hbyte
        refine ⟨d :: front, back, rfl, ?_⟩
        rw [bytes_cons, List.length_append, String.length_utf8EncodeChar]
        omega
  · rintro ⟨front, back, rfl, rfl⟩
    rw [bytes_append, List.getElem?_append_right le_rfl, Nat.sub_self, bytes_cons,
      String.utf8EncodeChar_eq_singleton hc]
    rfl

/-! ### Slices -/

/-- Whether a text can be cut at a byte offset: at its end, or where a character starts. -/
def isBoundary (text : List Char) (offset : Nat) : Bool :=
  offset == (bytes text).length ||
    (bytes text)[offset]?.any fun byte => decide byte.IsUTF8FirstByte

def charsBefore (offset : Nat) : List Char → List Char
  | [] => []
  | c :: rest => if offset = 0 then [] else c :: charsBefore (offset - c.utf8Size) rest

def charsAfter (offset : Nat) : List Char → List Char
  | [] => []
  | c :: rest => if offset = 0 then c :: rest else charsAfter (offset - c.utf8Size) rest

/-- The part of a text between two byte offsets. There is none if they are in the wrong order, or
if the text cannot be cut at one of them. -/
def slice? (text : List Char) (start stop : Nat) : Option (List Char) :=
  if start ≤ stop ∧ isBoundary text start ∧ isBoundary text stop then
    some (charsAfter start (charsBefore stop text))
  else none

lemma isBoundary_append (front rest : List Char) :
    isBoundary (front ++ rest) (bytes front).length = true := by
  cases rest with
  | nil => simp [isBoundary]
  | cons c rest =>
    have hpos : 0 < (String.utf8EncodeChar c).length := by
      rw [String.length_utf8EncodeChar]
      exact c.utf8Size_pos
    have hbyte : (bytes (front ++ c :: rest))[(bytes front).length]? =
        some (String.utf8EncodeChar c)[0] := by
      rw [bytes_append, List.getElem?_append_right le_rfl, Nat.sub_self, bytes_cons,
        List.getElem?_append_left hpos, List.getElem?_eq_getElem hpos]
    rw [isBoundary, hbyte]
    simp

/-- A text can be cut only where some of its characters end and the others start. -/
lemma exists_of_isBoundary {text : List Char} {offset : Nat}
    (hboundary : isBoundary text offset = true) :
    ∃ front back, text = front ++ back ∧ offset = (bytes front).length := by
  induction text generalizing offset with
  | nil =>
    have hzero : offset = 0 := by simpa [isBoundary] using hboundary
    exact ⟨[], [], rfl, hzero⟩
  | cons c rest ih =>
    by_cases hzero : offset = 0
    · exact ⟨[], c :: rest, rfl, hzero⟩
    rw [isBoundary, Bool.or_eq_true, beq_iff_eq, bytes_cons, List.length_append,
      String.length_utf8EncodeChar] at hboundary
    by_cases hinside : offset < (String.utf8EncodeChar c).length
    · -- No byte of a character but its first can start another one.
      rw [List.getElem?_append_left hinside, List.getElem?_eq_getElem hinside, Option.any_some,
        decide_eq_true_eq, UInt8.isUTF8FirstByte_getElem_utf8EncodeChar] at hboundary
      rw [String.length_utf8EncodeChar] at hinside
      omega
    · rw [List.getElem?_append_right (Nat.le_of_not_lt hinside),
        String.length_utf8EncodeChar] at hboundary
      rw [String.length_utf8EncodeChar] at hinside
      have hrest : isBoundary rest (offset - c.utf8Size) = true := by
        rw [isBoundary, Bool.or_eq_true, beq_iff_eq]
        apply hboundary.imp_left
        omega
      obtain ⟨front, back, rfl, hlength⟩ := ih hrest
      refine ⟨c :: front, back, rfl, ?_⟩
      rw [bytes_cons, List.length_append, String.length_utf8EncodeChar]
      omega

lemma charsBefore_append (front rest : List Char) :
    charsBefore (bytes front).length (front ++ rest) = front := by
  induction front with
  | nil => cases rest <;> rfl
  | cons c front ih =>
    have hpos := c.utf8Size_pos
    rw [bytes_cons, List.length_append, String.length_utf8EncodeChar, List.cons_append, charsBefore,
      if_neg (by omega), Nat.add_sub_cancel_left, ih]

lemma charsAfter_append (front rest : List Char) :
    charsAfter (bytes front).length (front ++ rest) = rest := by
  induction front with
  | nil => cases rest <;> rfl
  | cons c front ih =>
    have hpos := c.utf8Size_pos
    rw [bytes_cons, List.length_append, String.length_utf8EncodeChar, List.cons_append, charsAfter,
      if_neg (by omega), Nat.add_sub_cancel_left, ih]

/-- A slice is what stands between two places of the text. -/
theorem slice?_eq_some_iff (text : List Char) (start stop : Nat) (part : List Char) :
    slice? text start stop = some part ↔
      ∃ front back, text = front ++ part ++ back ∧ start = (bytes front).length ∧
        stop = (bytes (front ++ part)).length := by
  constructor
  · intro hslice
    rw [slice?, Option.ite_none_right_eq_some] at hslice
    obtain ⟨⟨hle, hstart, hstop⟩, hpart⟩ := hslice
    obtain ⟨whole, back, rfl, rfl⟩ := exists_of_isBoundary hstop
    obtain ⟨front, rest, hsplit, rfl⟩ := exists_of_isBoundary hstart
    rw [charsBefore_append, Option.some.injEq] at hpart
    have hfront : ∃ between, whole = front ++ between := by
      obtain ⟨more, rfl, -⟩ | ⟨between, hwhole, -⟩ := List.append_eq_append_iff.1 hsplit
      · rw [length_bytes_append] at hle
        have hempty : more = [] := eq_nil_of_length_bytes (by omega)
        exact ⟨[], by rw [hempty, List.append_nil, List.append_nil]⟩
      · exact ⟨between, hwhole⟩
    obtain ⟨between, rfl⟩ := hfront
    rw [charsAfter_append] at hpart
    subst hpart
    exact ⟨front, back, rfl, rfl, rfl⟩
  · rintro ⟨front, back, rfl, rfl, rfl⟩
    have hle := length_bytes_le_append front part
    have hstart := isBoundary_append front (part ++ back)
    rw [← List.append_assoc] at hstart
    rw [slice?, if_pos ⟨hle, hstart, isBoundary_append (front ++ part) back⟩, charsBefore_append,
      charsAfter_append]

lemma slice?_append (front part back : List Char) :
    slice? (front ++ part ++ back) (bytes front).length (bytes (front ++ part)).length =
      some part := by
  rw [slice?_eq_some_iff]
  exact ⟨front, back, rfl, rfl, rfl⟩

lemma slice?_left (front rest : List Char) :
    slice? (front ++ rest) 0 (bytes front).length = some front := by
  exact slice?_append [] front rest

lemma slice?_to_end (front rest : List Char) :
    slice? (front ++ rest) (bytes front).length (bytes (front ++ rest)).length = some rest := by
  have hslice := slice?_append front rest []
  rwa [List.append_nil] at hslice

lemma slice?_from_start (text : List Char) (position : Nat) :
    slice? text 0 (byteOffset text position) = some (text.take position) := by
  have hslice := slice?_left (text.take position) (text.drop position)
  rwa [List.take_append_drop] at hslice

/-- The parts of a text before and after a character of one byte. -/
def cutAt? (text : List Char) (offset : Nat) : Option (List Char × List Char) := do
  let before ← slice? text 0 offset
  let after ← slice? text (offset + 1) (bytes text).length
  return (before, after)

lemma cutAt?_append {c : Char} (hc : c.utf8Size = 1) (front back : List Char) :
    cutAt? (front ++ c :: back) (bytes front).length = some (front, back) := by
  have hback : slice? (front ++ c :: back) ((bytes front).length + 1)
      (bytes (front ++ c :: back)).length = some back := by
    rw [length_bytes_succ hc, List.append_cons]
    exact slice?_to_end (front ++ [c]) back
  rw [cutAt?, slice?_left, hback]
  rfl

/-- A reading that goes on behind the character comes to an end. -/
lemma length_lt_of_cutAt? {text before after : List Char} {offset : Nat}
    (hcut : cutAt? text offset = some (before, after)) : after.length < text.length := by
  simp only [cutAt?, Option.bind_eq_bind, Option.bind_eq_some_iff, Option.pure_def,
    Option.some.injEq, Prod.mk.injEq] at hcut
  obtain ⟨_, -, _, hafter, -, rfl⟩ := hcut
  obtain ⟨front, back, rfl, hoffset, -⟩ := (slice?_eq_some_iff _ _ _ _).1 hafter
  have hfront : front ≠ [] := by
    rintro rfl
    cases hoffset
  have hpos := List.length_pos_of_ne_nil hfront
  rw [List.length_append, List.length_append]
  omega

/-- The bytes from an offset on. There are none if the offset is out of range. -/
def bytesFrom? (bytes : List UInt8) (start : Nat) : Option (List UInt8) :=
  if start ≤ bytes.length then some (bytes.drop start) else none

lemma bytesFrom?_append (front rest : List Char) :
    bytesFrom? (bytes (front ++ rest)) (bytes front).length = some (bytes rest) := by
  rw [bytesFrom?, if_pos (length_bytes_le_append front rest), bytes_append, List.drop_left]

/-! ### Searches -/

/-- Ways to look for bytes: for the first that is one of some bytes, and for the last that is a
given one. -/
structure ByteSearch where
  first : List UInt8 → List UInt8 → Option Nat
  last : UInt8 → List UInt8 → Option Nat

structure ByteSearch.Exact (search : ByteSearch) : Prop where
  first_iff : ∀ marks bytes position, search.first marks bytes = some position ↔
    IsLeast {i | ∃ mark ∈ marks, bytes[i]? = some mark} position
  last_iff : ∀ mark bytes position, search.last mark bytes = some position ↔
    IsGreatest {i | bytes[i]? = some mark} position

def placesOf (p : UInt8 → Bool) (bytes : List UInt8) : List Nat :=
  (List.range bytes.length).filter fun i => bytes[i]?.any p

/-- Searches that look at every byte. -/
def plainSearch : ByteSearch where
  first marks bytes := (placesOf (fun byte => marks.contains byte) bytes).min?
  last mark bytes := (placesOf (fun byte => byte == mark) bytes).max?

lemma mem_placesOf_iff (p : UInt8 → Bool) (bytes : List UInt8) (i : Nat) :
    i ∈ placesOf p bytes ↔ ∃ byte, p byte = true ∧ bytes[i]? = some byte := by
  rw [placesOf, List.mem_filter, List.mem_range, Option.any_eq_true]
  constructor
  · rintro ⟨-, byte, hat, hbyte⟩
    exact ⟨byte, hbyte, hat⟩
  · rintro ⟨byte, hbyte, hat⟩
    exact ⟨(List.getElem?_eq_some_iff.1 hat).1, byte, hat, hbyte⟩

lemma plainSearch_exact : plainSearch.Exact := by
  constructor
  · intro marks bytes position
    rw [plainSearch, List.min?_eq_some_iff]
    simp only [mem_placesOf_iff, List.contains_eq_mem, decide_eq_true_eq]
    rfl
  · intro mark bytes position
    rw [plainSearch, List.max?_eq_some_iff]
    simp only [mem_placesOf_iff, beq_iff_eq, exists_eq_left]
    rfl

/-- A text holds no character of some kind, or it has a first one. -/
lemma first_cases (p : Char → Bool) (text : List Char) :
    (∀ c ∈ text, p c = false) ∨ ∃ plain c rest, text = plain ++ c :: rest ∧
      (∀ d ∈ plain, p d = false) ∧ p c = true := by
  cases hfind : text.find? p with
  | none =>
    left
    simpa using hfind
  | some c =>
    obtain ⟨hc, plain, rest, htext, hplain⟩ := List.find?_eq_some_iff_append.1 hfind
    right
    exact ⟨plain, c, rest, htext, by simpa using hplain, hc⟩

section Exact

variable {search : ByteSearch} {marks : List Char}

lemma ByteSearch.Exact.first_eq_none (hsearch : search.Exact)
    (hmarks : ∀ mark ∈ marks, mark.utf8Size = 1) {text : List Char}
    (hnone : ∀ c ∈ text, c ∉ marks) :
    search.first (marks.map Char.toUInt8) (bytes text) = none := by
  rw [Option.eq_none_iff_forall_ne_some]
  intro position hfound
  rw [hsearch.first_iff] at hfound
  obtain ⟨byte, hbyte, hat⟩ := hfound.1
  obtain ⟨mark, hmark, rfl⟩ := List.mem_map.1 hbyte
  obtain ⟨front, back, rfl, -⟩ := (getElem?_bytes_iff (hmarks mark hmark) text position).1 hat
  exact hnone mark (by simp) hmark

lemma ByteSearch.Exact.first_eq_some (hsearch : search.Exact)
    (hmarks : ∀ mark ∈ marks, mark.utf8Size = 1) {plain : List Char} {c : Char}
    (hplain : ∀ d ∈ plain, d ∉ marks) (hc : c ∈ marks) (rest : List Char) :
    search.first (marks.map Char.toUInt8) (bytes (plain ++ c :: rest)) =
      some (bytes plain).length := by
  rw [hsearch.first_iff]
  refine ⟨⟨c.toUInt8, List.mem_map_of_mem hc, ?_⟩, ?_⟩
  · rw [getElem?_bytes_iff (hmarks c hc)]
    exact ⟨plain, rest, rfl, rfl⟩
  · rintro position ⟨byte, hbyte, hat⟩
    obtain ⟨mark, hmark, rfl⟩ := List.mem_map.1 hbyte
    obtain ⟨front, back, htext, rfl⟩ := (getElem?_bytes_iff (hmarks mark hmark) _ position).1 hat
    -- The mark that was found does not stand in `plain`, so all of `plain` stands before it.
    obtain ⟨between, rfl, -⟩ | ⟨between, rfl, hrest⟩ := List.append_eq_append_iff.1 htext
    · exact length_bytes_le_append _ _
    · cases between with
      | nil => rw [List.append_nil]
      | cons d between =>
        obtain ⟨rfl, -⟩ := List.cons.inj hrest
        exact absurd hmark (hplain mark (by simp))

lemma ByteSearch.Exact.last_eq (hsearch : search.Exact) {mark : Char} (hmark : mark.utf8Size = 1)
    (text : List Char) :
    search.last mark.toUInt8 (bytes text) = (last? mark text).map (byteOffset text) := by
  cases hlast : last? mark text with
  | none =>
    rw [last?_eq_none_iff] at hlast
    rw [Option.map_none, Option.eq_none_iff_forall_ne_some]
    intro position hfound
    rw [hsearch.last_iff] at hfound
    obtain ⟨front, back, rfl, -⟩ := (getElem?_bytes_iff hmark text position).1 hfound.1
    exact hlast (by simp)
  | some place =>
    rw [last?_eq_some_iff] at hlast
    obtain ⟨hlt, hat⟩ := List.getElem?_eq_some_iff.1 hlast.1
    have htext : text = text.take place ++ mark :: text.drop (place + 1) := by
      rw [← hat, List.getElem_cons_drop, List.take_append_drop]
    rw [Option.map_some, hsearch.last_iff]
    constructor
    · change (bytes text)[byteOffset text place]? = some mark.toUInt8
      rw [getElem?_bytes_iff hmark]
      exact ⟨_, _, htext, rfl⟩
    · intro position hposition
      obtain ⟨front, back, hsplit, rfl⟩ := (getElem?_bytes_iff hmark text position).1 hposition
      have hle : front.length ≤ place := hlast.2 (by simp [hsplit])
      have hfront : (bytes front).length = byteOffset text front.length := by
        rw [byteOffset, hsplit, List.take_left]
      rw [hfront]
      exact byteOffset_mono text hle

end Exact

/-! ### Backslashes before an offset -/

/-- Backslashes are counted back over bytes as over characters. -/
lemma length_takeWhile_bytes (text : List Char) :
    ((bytes text).reverse.takeWhile fun byte => byte == '\\'.toUInt8).length = slashes text := by
  induction text using List.reverseRecOn with
  | nil => rfl
  | append_singleton text c ih =>
    rw [bytes_append, bytes_cons, bytes_nil, List.append_nil, List.reverse_append]
    by_cases hslash : c = '\\'
    · subst hslash
      have hencoded : String.utf8EncodeChar '\\' = ['\\'.toUInt8] := rfl
      rw [slashes_append_slash, hencoded, ← ih]
      simp
    · cases hencoded : (String.utf8EncodeChar c).reverse with
      | nil =>
        rw [List.reverse_eq_nil_iff] at hencoded
        exact absurd hencoded String.utf8EncodeChar_ne_nil
      | cons byte others =>
        have hbyte : byte ≠ '\\'.toUInt8 := by
          rintro rfl
          have hmem : '\\'.toUInt8 ∈ (String.utf8EncodeChar c).reverse := by simp [hencoded]
          rw [List.mem_reverse] at hmem
          exact hslash (eq_of_mem_utf8EncodeChar rfl hmem)
        rw [slashes_append_plain hslash]
        simp [hbyte]

end LineScript.Proofs
