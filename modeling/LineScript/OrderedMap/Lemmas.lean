import LineScript.OrderedMap.Basic
import Std.Data.String.ToNat

/-!
# Ordered maps are lawful

The empty map is lawful, `insert` keeps a map lawful, and hence so is every map that is built by
these operations. In a lawful map, what was stored last under a key is what `get?` finds there.
The positional map of a list holds its values under the numerals from zero on, in order.
-/

namespace LineScript.OrderedMap

variable {α : Type}

/-- The key at a position is the first component of the entry there. -/
theorem getElem?_keys (map : OrderedMap α) (position : Nat) :
    map.keys[position]? = map.entries[position]?.map Prod.fst := by
  simp [keys, toList]

/-- An index lookup in a lawful map stays within the entries. -/
theorem Lawful.lt_size {map : OrderedMap α} (lawful : map.Lawful) {key : String} {position : Nat}
    (h : map.index[key]? = some position) : position < map.entries.size := by
  have hkey := (lawful key position).1 h
  rw [getElem?_keys, Option.map_eq_some_iff] at hkey
  obtain ⟨entry, hentry, _⟩ := hkey
  exact (Array.getElem?_eq_some_iff.1 hentry).1

/-- The empty map is lawful. -/
theorem lawful_empty : (empty : OrderedMap α).Lawful := by
  intro key position
  simp [empty, keys, toList]

/-- An insertion returns what is found under the key before it. -/
theorem exchange_eq (map : OrderedMap α) (key : String) (value : α) :
    map.exchange key value = (map.get? key, map.insert key value) := by
  apply Prod.ext
  · cases h : map.index[key]? with
    | none => simp [exchange, get?, h]
    | some position => cases hentry : map.entries[position]? <;> simp [exchange, get?, h, hentry]
  · rfl

/-- Storing under a present key leaves the keys as they are. -/
theorem keys_insert_of_some {map : OrderedMap α} (lawful : map.Lawful) {key : String} {value : α}
    {position : Nat} (h : map.index[key]? = some position) :
    (map.insert key value).keys = map.keys := by
  have hkey := (lawful key position).1 h
  apply List.ext_getElem?
  intro i
  rw [getElem?_keys, getElem?_keys]
  simp only [insert, exchange, h, Array.getElem?_setIfInBounds]
  split
  · rename_i hi
    subst hi
    rw [getElem?_keys] at hkey
    split
    · simp [hkey]
    · rename_i hlt
      exact absurd (lawful.lt_size h) hlt
  · rfl

/-- Storing under an absent key appends it to the keys. -/
theorem keys_insert_of_none {map : OrderedMap α} {key : String} {value : α}
    (h : map.index[key]? = none) : (map.insert key value).keys = map.keys ++ [key] := by
  simp [insert, exchange, h, keys, toList]

/-- Storing keeps a map lawful. -/
theorem lawful_insert {map : OrderedMap α} (lawful : map.Lawful) (key : String) (value : α) :
    (map.insert key value).Lawful := by
  intro other position
  cases h : map.index[key]? with
  | some old =>
    rw [keys_insert_of_some lawful h, ← lawful other position]
    simp [insert, exchange, h]
  | none =>
    have hsize : map.keys.length = map.entries.size := by simp [keys, toList]
    rw [keys_insert_of_none h]
    simp only [insert, exchange, h, Std.TreeMap.getElem?_insert, Std.LawfulEqCmp.compare_eq_iff_eq]
    split
    · rename_i hother
      subst hother
      have habsent : ∀ i, map.keys[i]? ≠ some key := fun i hi => by
        have := (lawful key i).2 hi
        simp [h] at this
      rw [List.getElem?_append]
      split
      · rename_i hlt
        simp only [Option.some.injEq, habsent, iff_false]
        omega
      · rename_i hge
        simp only [Option.some.injEq, List.getElem?_singleton]
        split <;> simp <;> omega
    · rename_i hother
      rw [lawful other position, List.getElem?_append]
      split
      · rfl
      · rename_i hge
        rw [List.getElem?_eq_none (by omega)]
        simp only [List.getElem?_singleton]
        split <;> simp [hother]

/-- Storing a list of values keeps a map lawful. -/
theorem lawful_insertFrom {map : OrderedMap α} (lawful : map.Lawful) (position : Nat)
    (values : List α) : (map.insertFrom position values).Lawful := by
  induction values generalizing map position with
  | nil => exact lawful
  | cons value rest ih => exact ih (lawful_insert lawful _ _) _

/-- The positional map of a list is lawful. -/
theorem lawful_ofList (values : List α) : (ofList values).Lawful :=
  lawful_insertFrom lawful_empty 0 values

/-- A key is present in a lawful map exactly when a value is stored under it. -/
theorem contains_eq_isSome_get? {map : OrderedMap α} (lawful : map.Lawful) (key : String) :
    map.contains key = (map.get? key).isSome := by
  have hcontains : map.contains key = map.index[key]?.isSome := by
    simp [contains]
  rw [hcontains]
  cases h : map.index[key]? with
  | none => simp [get?, h]
  | some position => simp [get?, h, lawful.lt_size h]

/-- What was stored under a key is found there. -/
theorem get?_insert_self {map : OrderedMap α} (lawful : map.Lawful) (key : String) (value : α) :
    (map.insert key value).get? key = some value := by
  cases h : map.index[key]? with
  | none => simp [insert, exchange, get?, h]
  | some position => simp [insert, exchange, get?, h, lawful.lt_size h]

/-- Storing under a key leaves the values of the others. -/
theorem get?_insert_of_ne {map : OrderedMap α} (lawful : map.Lawful) {key other : String}
    (value : α) (hne : key ≠ other) : (map.insert key value).get? other = map.get? other := by
  cases hother : map.index[other]? with
  | none =>
    cases h : map.index[key]? with
    | none => simp [insert, exchange, get?, h, hother, Std.TreeMap.getElem?_insert, hne]
    | some position => simp [insert, exchange, get?, h, hother]
  | some place =>
    have hplace := lawful.lt_size hother
    cases h : map.index[key]? with
    | none =>
      simp [insert, exchange, get?, h, hother, Std.TreeMap.getElem?_insert, hne, Array.getElem?_push,
        Nat.ne_of_lt hplace]
    | some position =>
      have hposition : position ≠ place := by
        intro heq
        subst heq
        have hkey := (lawful key position).1 h
        rw [(lawful other position).1 hother] at hkey
        exact hne (Option.some.inj hkey).symm
      simp [insert, exchange, get?, h, hother, Array.getElem?_setIfInBounds, hposition]

theorem get?_insert {map : OrderedMap α} (lawful : map.Lawful) (key other : String) (value : α) :
    (map.insert key value).get? other = if key = other then some value else map.get? other := by
  by_cases h : key = other
  · subst h
    rw [if_pos rfl, get?_insert_self lawful]
  · rw [if_neg h, get?_insert_of_ne lawful value h]

/-! ### Positional maps -/

theorem index_eq_none_of_not_mem_keys {map : OrderedMap α} (lawful : map.Lawful) {key : String}
    (h : key ∉ map.keys) : map.index[key]? = none := by
  cases hindex : map.index[key]? with
  | none => rfl
  | some position => exact absurd (List.mem_of_getElem? ((lawful key position).1 hindex)) h

/-- Storing under an absent key appends an entry. -/
theorem toList_insert_of_none {map : OrderedMap α} {key : String} {value : α}
    (h : map.index[key]? = none) : (map.insert key value).toList = map.toList ++ [(key, value)] := by
  simp [insert, exchange, h, toList]

/-- Storing values under numerals none of which is present appends an entry for each. -/
theorem toList_insertFrom {map : OrderedMap α} (lawful : map.Lawful) (position : Nat)
    (values : List α) (hfresh : ∀ i, position ≤ i → i.repr ∉ map.keys) :
    (map.insertFrom position values).toList =
      map.toList ++ (values.zipIdx position).map fun entry => (entry.2.repr, entry.1) := by
  induction values generalizing map position with
  | nil => simp [insertFrom]
  | cons value rest ih =>
    have hnone := index_eq_none_of_not_mem_keys lawful (hfresh position (Nat.le_refl _))
    -- Numerals differ, so the entry that is added is none of those still to come.
    have hfresh' : ∀ i, position + 1 ≤ i → i.repr ∉ (map.insert position.repr value).keys := by
      intro i hi
      rw [keys_insert_of_none hnone, List.mem_append, List.mem_singleton, Nat.repr_inj]
      rintro (hmem | heq)
      · exact hfresh i (by omega) hmem
      · omega
    rw [insertFrom, ih (lawful_insert lawful _ _) (position + 1) hfresh',
      toList_insert_of_none hnone, List.zipIdx_cons, List.map_cons, List.append_assoc,
      List.singleton_append]

/-- The positional map of a list has an entry for each value, under the numeral of its position. -/
theorem toList_ofList (values : List α) :
    (ofList values).toList = values.zipIdx.map fun entry => (entry.2.repr, entry.1) := by
  have hempty : (empty : OrderedMap α).keys = [] := rfl
  exact toList_insertFrom lawful_empty 0 values (by simp [hempty])

theorem keys_ofList (values : List α) :
    (ofList values).keys = (List.range values.length).map Nat.repr := by
  rw [keys, toList_ofList, List.map_map]
  change values.zipIdx.map (Nat.repr ∘ Prod.snd) = _
  rw [← List.map_map, List.zipIdx_map_snd, List.range_eq_range']

theorem values_ofList (values : List α) : (ofList values).values = values := by
  rw [OrderedMap.values, toList_ofList, List.map_map]
  exact List.zipIdx_map_fst 0 values

theorem size_ofList (values : List α) : (ofList values).size = values.length := by
  have h := congrArg List.length (values_ofList values)
  simpa [OrderedMap.values, toList, size] using h

end LineScript.OrderedMap
