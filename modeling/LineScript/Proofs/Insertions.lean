import LineScript.OrderedMap.Lemmas
import Mathlib.Data.Finset.Card
import Mathlib.Tactic

/-!
# Ordered maps are ordered association lists

A history of insertions has an association list: each key once, in order of first insertion, with
the value that was stored last under it. `Refines` relates a map to a history whose keys and
lookups it shares. It holds of the empty map, one more insertion keeps it, and everything that can
be seen of a map follows from it.
-/

namespace LineScript.Proofs

variable {α : Type}

/-! ### Histories -/

/-- The value that was stored last under a key. -/
def latest? (history : List (String × α)) (key : String) : Option α :=
  history.reverse.lookup key

/-- Each key once, in order of first insertion, with the value that was stored last under it. -/
def association (history : List (String × α)) : List (String × α) :=
  (history.map Prod.fst).eraseDups.filterMap fun key => (latest? history key).map (Prod.mk key)

lemma latest?_append (first second : List (String × α)) (key : String) :
    latest? (first ++ second) key = (latest? second key).or (latest? first key) := by
  rw [latest?, List.reverse_append, List.lookup_append, latest?, latest?]

lemma latest?_append_singleton (history : List (String × α)) (key other : String) (value : α) :
    latest? (history ++ [(key, value)]) other =
      if key = other then some value else latest? history other := by
  rw [latest?_append]
  by_cases h : key = other
  · have hlast : latest? [(key, value)] other = some value := by simp [latest?, h]
    rw [hlast, if_pos h, Option.some_or]
  · have hother : (other == key) = false := by simpa using Ne.symm h
    have hlast : latest? [(key, value)] other = none := by simp [latest?, List.lookup_cons, hother]
    rw [hlast, if_neg h, Option.none_or]

lemma latest?_eq_none {history : List (String × α)} {key : String}
    (hnone : key ∉ history.map Prod.fst) : latest? history key = none := by
  rw [latest?, List.lookup_eq_none_iff]
  intro entry hmem
  rw [List.mem_reverse] at hmem
  have hne : key ≠ entry.1 := fun heq => hnone (heq ▸ List.mem_map_of_mem hmem)
  simpa using hne

lemma latest?_of_mem {history : List (String × α)} (hnodup : (history.map Prod.fst).Nodup)
    {entry : String × α} (hmem : entry ∈ history) : latest? history entry.1 = some entry.2 := by
  obtain ⟨before, after, rfl⟩ := List.append_of_mem hmem
  have hafter : entry.1 ∉ after.map Prod.fst := by
    rw [List.map_append, List.map_cons, List.nodup_append] at hnodup
    exact (List.nodup_cons.1 hnodup.2.1).1
  rw [List.append_cons, latest?_append, latest?_eq_none hafter, Option.none_or,
    latest?_append_singleton, if_pos rfl]

lemma eraseDups_of_nodup {keys : List String} (hnodup : keys.Nodup) : keys.eraseDups = keys := by
  induction keys with
  | nil => rfl
  | cons key rest ih =>
    have hrest := List.nodup_cons.1 hnodup
    have hfilter : rest.filter (fun other => !other == key) = rest := by
      rw [List.filter_eq_self]
      intro other hmem
      have hne : other ≠ key := fun heq => hrest.1 (heq ▸ hmem)
      simpa using hne
    rw [List.eraseDups_cons, hfilter, ih hrest.2]

/-- Entries are made of their keys and of a lookup that finds them all. -/
lemma filterMap_keys {entries : List (String × α)} {find : String → Option α}
    (hfind : ∀ entry ∈ entries, find entry.1 = some entry.2) :
    (entries.map Prod.fst).filterMap (fun key => (find key).map (Prod.mk key)) = entries := by
  have hself : ∀ entry ∈ entries,
      ((fun key => (find key).map (Prod.mk key)) ∘ Prod.fst) entry = some entry := by
    intro entry hmem
    rw [Function.comp_apply, hfind entry hmem, Option.map_some]
  rw [List.filterMap_map, List.filterMap_congr hself, List.filterMap_some]

lemma association_of_nodup {history : List (String × α)} (hnodup : (history.map Prod.fst).Nodup) :
    association history = history := by
  rw [association, eraseDups_of_nodup hnodup]
  apply filterMap_keys
  intro entry hmem
  exact latest?_of_mem hnodup hmem

lemma eraseDups_append_singleton (keys : List String) (key : String) :
    (keys ++ [key]).eraseDups =
      if key ∈ keys then keys.eraseDups else keys.eraseDups ++ [key] := by
  rw [List.eraseDups_append]
  by_cases h : key ∈ keys
  · simp [List.removeAll, h]
  · simp [List.removeAll, h, List.eraseDups_cons]

/-! ### Lawful maps -/

variable {map : OrderedMap α} {history : List (String × α)}

lemma nodup_keys (lawful : map.Lawful) : map.keys.Nodup := by
  rw [List.nodup_iff_getElem?_ne_getElem?]
  intro i j hij hj heq
  -- The index gives one position to the key that stands at both.
  have hsome : map.keys[j]? = some map.keys[j] := List.getElem?_eq_getElem hj
  have hi := (lawful _ i).2 (heq.trans hsome)
  have hj := (lawful _ j).2 hsome
  rw [hi, Option.some.injEq] at hj
  omega

lemma mem_keys_iff (lawful : map.Lawful) (key : String) :
    key ∈ map.keys ↔ ∃ position, map.index[key]? = some position := by
  rw [List.mem_iff_getElem?]
  simp only [lawful key]

lemma keys_insert (lawful : map.Lawful) (key : String) (value : α) :
    (map.insert key value).keys = if key ∈ map.keys then map.keys else map.keys ++ [key] := by
  by_cases h : key ∈ map.keys
  · obtain ⟨position, hindex⟩ := (mem_keys_iff lawful key).1 h
    rw [if_pos h, OrderedMap.keys_insert_of_some lawful hindex]
  · have hindex := OrderedMap.index_eq_none_of_not_mem_keys lawful h
    rw [if_neg h, OrderedMap.keys_insert_of_none hindex]

lemma get?_of_mem (lawful : map.Lawful) {entry : String × α}
    (hmem : entry ∈ map.toList) : map.get? entry.1 = some entry.2 := by
  obtain ⟨position, hentry⟩ := List.mem_iff_getElem?.1 hmem
  have hkey : map.keys[position]? = some entry.1 := by
    rw [OrderedMap.keys, List.getElem?_map, hentry, Option.map_some]
  have hindex := (lawful entry.1 position).2 hkey
  have harray : map.entries[position]? = some entry := by
    rw [← Array.getElem?_toList]
    exact hentry
  simp [OrderedMap.get?, hindex, harray]

/-! ### Maps and their histories -/

/-- The map has the keys of the history, in order of first insertion, and finds what was stored
last. -/
structure Refines (map : OrderedMap α) (history : List (String × α)) : Prop where
  lawful : map.Lawful
  keys : map.keys = (history.map Prod.fst).eraseDups
  get? : ∀ key, map.get? key = latest? history key

lemma refines_empty : Refines (OrderedMap.empty : OrderedMap α) [] := by
  constructor
  · exact OrderedMap.lawful_empty
  · rfl
  · intro key
    simp [OrderedMap.get?, OrderedMap.empty, latest?]

lemma Refines.insert (hrefines : Refines map history) (key : String) (value : α) :
    Refines (map.insert key value) (history ++ [(key, value)]) := by
  constructor
  · exact OrderedMap.lawful_insert hrefines.lawful key value
  · have hmem : key ∈ map.keys ↔ key ∈ history.map Prod.fst := by
      rw [hrefines.keys, List.mem_eraseDups]
    rw [keys_insert hrefines.lawful, List.map_append, List.map_singleton,
      eraseDups_append_singleton, ← hrefines.keys]
    simp only [hmem]
  · intro other
    rw [OrderedMap.get?_insert hrefines.lawful, latest?_append_singleton, hrefines.get?]

/-- The map after insertions, one after the other. -/
def insertAll (map : OrderedMap α) (entries : List (String × α)) : OrderedMap α :=
  entries.foldl (fun map entry => map.insert entry.1 entry.2) map

lemma Refines.insertAll (hrefines : Refines map history) (entries : List (String × α)) :
    Refines (insertAll map entries) (history ++ entries) := by
  induction entries generalizing map history with
  | nil => simpa [Proofs.insertAll] using hrefines
  | cons entry rest ih =>
    have hnext := ih (hrefines.insert entry.1 entry.2)
    rw [List.append_assoc] at hnext
    exact hnext

/-- A map refines the insertion of its own entries. -/
lemma refines_toList (lawful : map.Lawful) : Refines map map.toList := by
  have hnodup : (map.toList.map Prod.fst).Nodup := nodup_keys lawful
  constructor
  · exact lawful
  · exact (eraseDups_of_nodup hnodup).symm
  · intro key
    by_cases h : key ∈ map.keys
    · obtain ⟨entry, hmem, rfl⟩ := List.mem_map.1 h
      rw [get?_of_mem lawful hmem, latest?_of_mem hnodup hmem]
    · have hindex := OrderedMap.index_eq_none_of_not_mem_keys lawful h
      rw [latest?_eq_none h]
      simp [OrderedMap.get?, hindex]

/-- The insertions that make a positional map. -/
def numbered (values : List α) : List (String × α) :=
  values.zipIdx.map fun entry => (entry.2.repr, entry.1)

lemma insertFrom_eq_insertAll (map : OrderedMap α) (position : Nat) (values : List α) :
    map.insertFrom position values =
      insertAll map ((values.zipIdx position).map fun entry => (entry.2.repr, entry.1)) := by
  induction values generalizing map position with
  | nil => rfl
  | cons value rest ih =>
    rw [OrderedMap.insertFrom, ih, List.zipIdx_cons, List.map_cons]
    rfl

lemma refines_ofList (values : List α) : Refines (OrderedMap.ofList values) (numbered values) := by
  have hrefines := refines_empty.insertAll (numbered values)
  rw [List.nil_append] at hrefines
  rw [OrderedMap.ofList, insertFrom_eq_insertAll]
  exact hrefines

/-! ### What can be seen of a map -/

lemma Refines.toList (hrefines : Refines map history) : map.toList = association history := by
  have hfind : ∀ entry ∈ map.toList, map.get? entry.1 = some entry.2 :=
    fun entry hmem => get?_of_mem hrefines.lawful hmem
  rw [association, ← hrefines.keys]
  simp only [← hrefines.get?]
  exact (filterMap_keys hfind).symm

lemma Refines.values (hrefines : Refines map history) :
    map.values.map some = map.keys.map (latest? history) := by
  rw [OrderedMap.values, OrderedMap.keys, List.map_map, List.map_map]
  apply List.map_congr_left
  intro entry hmem
  rw [Function.comp_apply, Function.comp_apply, ← hrefines.get?, get?_of_mem hrefines.lawful hmem]

lemma Refines.size (hrefines : Refines map history) :
    map.size = (history.map Prod.fst).toFinset.card := by
  have hsame : (history.map Prod.fst).toFinset = map.keys.toFinset := by
    ext key
    rw [List.mem_toFinset, List.mem_toFinset, hrefines.keys, List.mem_eraseDups]
  rw [hsame, List.toFinset_card_of_nodup (nodup_keys hrefines.lawful)]
  simp [OrderedMap.size, OrderedMap.keys, OrderedMap.toList]

/-- The entry that a lookup reads, or that an insertion replaces, is there and has the key. -/
def AccessesInRange (map : OrderedMap α) : Prop :=
  ∀ (key : String) (position : Nat), map.index[key]? = some position →
    ∃ _ : position < map.entries.size, map.entries[position].1 = key ∧
      map.get? key = some map.entries[position].2 ∧
      ∀ value, (map.insert key value).entries = map.entries.set position (key, value)

lemma accessesInRange (lawful : map.Lawful) : AccessesInRange map := by
  intro key position hindex
  have hlt := lawful.lt_size hindex
  refine ⟨hlt, ?_, ?_, ?_⟩
  · have hkey := (lawful key position).1 hindex
    rw [OrderedMap.getElem?_keys, Array.getElem?_eq_getElem hlt, Option.map_some] at hkey
    exact Option.some.inj hkey
  · simp [OrderedMap.get?, hindex, hlt]
  · intro value
    simp [OrderedMap.insert, OrderedMap.exchange, hindex, Array.setIfInBounds, hlt]

/-- A map that was made from the empty map or from a positional map by insertions, with all the
insertions that made it. -/
inductive Built : OrderedMap α → List (String × α) → Prop
  | empty : Built .empty []
  | ofList (values : List α) : Built (.ofList values) (numbered values)
  | insert {map : OrderedMap α} {history : List (String × α)} (hbuilt : Built map history)
      (key : String) (value : α) : Built (map.insert key value) (history ++ [(key, value)])

lemma Built.refines (hbuilt : Built map history) : Refines map history := by
  induction hbuilt with
  | empty => exact refines_empty
  | ofList values => exact refines_ofList values
  | insert _ key value ih => exact ih.insert key value

/-- Whatever insertions made a map, its index has exactly the keys of its entries, each at its
position, no key stands twice, and every access to an entry is in range. So the map is the
association list of its history: an insertion returns what was stored last, a lookup finds it, a key
is present if something is found there, the size counts the distinct keys, and the keys, values and
entries are listed in order of first insertion, each key once and with its latest value. -/
theorem insertions_refine_association_list {map : OrderedMap α} {history : List (String × α)}
    (hbuilt : Built map history) :
    ((∀ (key : String) (position : Nat),
        map.index[key]? = some position ↔ map.keys[position]? = some key) ∧
      map.keys.Nodup ∧ AccessesInRange map) ∧
    (∀ key value, map.exchange key value = (latest? history key, map.insert key value)) ∧
    (∀ key, map.get? key = latest? history key) ∧
    (∀ key, map.contains key = true ↔ ∃ value, map.get? key = some value) ∧
    map.size = (history.map Prod.fst).toFinset.card ∧
    map.keys = (history.map Prod.fst).eraseDups ∧
    map.values.map some = map.keys.map (latest? history) ∧
    map.toList = association history := by
  have hrefines := hbuilt.refines
  have lawful := hrefines.lawful
  refine ⟨⟨lawful, nodup_keys lawful, accessesInRange lawful⟩, ?_, hrefines.get?, ?_,
    hrefines.size, hrefines.keys, hrefines.values, hrefines.toList⟩
  · intro key value
    rw [OrderedMap.exchange_eq, hrefines.get?]
  · intro key
    rw [OrderedMap.contains_eq_isSome_get? lawful, Option.isSome_iff_exists]

theorem insertions_refine_association_list_overwriting :
    ∃ map, Built map [("0", "x"), ("1", "y"), ("b", "p"), ("1", "q"), ("a", "r")] ∧
      AccessesInRange map ∧
      map.exchange "b" "s" = (some "p", map.insert "b" "s") ∧
      map.get? "1" = some "q" ∧ map.get? "2" = none ∧ map.contains "2" = false ∧ map.size = 4 ∧
      map.toList = [("0", "x"), ("1", "q"), ("b", "p"), ("a", "r")] := by
  have hbuilt := (((Built.ofList ["x", "y"]).insert "b" "p").insert "1" "q").insert "a" "r"
  obtain ⟨⟨-, -, haccess⟩, hexchange, hget, hcontains, hsize, -, -, hlist⟩ :=
    insertions_refine_association_list hbuilt
  have hnone := hget "2"
  refine ⟨_, hbuilt, haccess, hexchange "b" "s", hget "1", hnone, ?_, hsize, hlist⟩
  rw [← Bool.not_eq_true, hcontains, hnone]
  rintro ⟨value, hvalue⟩
  cases hvalue

end LineScript.Proofs
