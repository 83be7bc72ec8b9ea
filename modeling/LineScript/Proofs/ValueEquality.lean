import LineScript.Proofs.Insertions
import LineScript.Services

/-!
# Equality of values is structural

Mappings are compared with their indexes, and an index has a shape that depends on how the mapping
was made. It decides nothing: the index of a lawful map is determined by the keys. So values that
were made by the constructors are equal exactly if they match (`Matching`), a relation that knows of
entries and their order only.
-/

namespace LineScript.Proofs

/-! ### Values and their constructors -/

/-- A value that is made by the constructors: a text, a procedure, a primitive, or a mapping that
any insertions of such values made. -/
inductive Constructed : Value → Prop
  | atom {value : Value} (htype : value.type ≠ .mapping) : Constructed value
  | mapping {map : OrderedMap Value} {history : List (String × Value)} (hbuilt : Built map history)
      (hvalues : ∀ entry ∈ history, Constructed entry.2) : Constructed (.mapping map)

/-- Values of the same structure: mappings have the same keys in the same order and matching values
under them, and all other values are the same. -/
inductive Matching : Value → Value → Prop
  | atom {value : Value} (htype : value.type ≠ .mapping) : Matching value value
  | mapping {map map' : OrderedMap Value} (hkeys : map.keys = map'.keys)
      (hvalues : ∀ (position : Nat) (value value' : Value), map.values[position]? = some value →
        map'.values[position]? = some value' → Matching value value') :
      Matching (.mapping map) (.mapping map')

lemma Refines.exists_mem_of_mem_values {α : Type} {map : OrderedMap α} {history : List (String × α)}
    (hrefines : Refines map history) {value : α} (hmem : value ∈ map.values) :
    ∃ entry ∈ history, entry.2 = value := by
  have hsome : some value ∈ map.keys.map (latest? history) := by
    rw [← hrefines.values]
    exact List.mem_map_of_mem hmem
  obtain ⟨key, -, hlatest⟩ := List.mem_map.1 hsome
  obtain ⟨later, earlier, hhistory, -⟩ := List.lookup_eq_some_iff.1 hlatest
  refine ⟨(key, value), ?_, rfl⟩
  rw [← List.mem_reverse, hhistory]
  simp

/-! ### Comparing mappings -/

lemma index_toList_eq {α : Type} {map map' : OrderedMap α} (lawful : map.Lawful)
    (lawful' : map'.Lawful) (hkeys : map.keys = map'.keys) :
    map.index.toList = map'.index.toList := by
  apply Std.TreeMap.equiv_iff_toList_eq.1
  apply Std.TreeMap.Equiv.of_forall_constGet?_eq
  intro key
  apply Option.ext
  intro position
  rw [lawful, lawful', hkeys]

lemma sameEntries_iff (entries entries' : List (String × Value)) :
    Value.sameEntries entries entries' = true ↔
      entries.map Prod.fst = entries'.map Prod.fst ∧
      ∀ (position : Nat) (value value' : Value), (entries.map Prod.snd)[position]? = some value →
        (entries'.map Prod.snd)[position]? = some value' → (value == value') = true := by
  induction entries generalizing entries' with
  | nil => cases entries' <;> simp [Value.sameEntries]
  | cons entry rest ih =>
    cases entries' with
    | nil => simp [Value.sameEntries]
    | cons entry' rest' =>
      simp only [Value.sameEntries, Bool.and_eq_true, beq_iff_eq, ih, List.map_cons,
        List.cons.injEq]
      constructor
      · rintro ⟨⟨hkey, hvalue⟩, hkeys, hvalues⟩
        refine ⟨⟨hkey, hkeys⟩, fun position => ?_⟩
        cases position with
        | zero =>
          rintro value value' ⟨⟩ ⟨⟩
          exact hvalue
        | succ position => exact hvalues position
      · rintro ⟨⟨hkey, hkeys⟩, hvalues⟩
        exact ⟨⟨hkey, hvalues 0 _ _ rfl rfl⟩, hkeys, fun position => hvalues (position + 1)⟩

lemma mapping_beq_iff {map map' : OrderedMap Value} (lawful : map.Lawful) (lawful' : map'.Lawful) :
    (Value.mapping map == .mapping map') = true ↔
      map.keys = map'.keys ∧
      ∀ (position : Nat) (value value' : Value), map.values[position]? = some value →
        map'.values[position]? = some value' → (value == value') = true := by
  have hentries : (Value.mapping map == .mapping map') =
      (Value.sameEntries map.toList map'.toList && map.index.toList == map'.index.toList) := rfl
  rw [hentries, Bool.and_eq_true, beq_iff_eq, sameEntries_iff]
  constructor
  · rintro ⟨hsame, -⟩
    exact hsame
  · rintro ⟨hkeys, hvalues⟩
    exact ⟨⟨hkeys, hvalues⟩, index_toList_eq lawful lawful' hkeys⟩

/-! ### Equality and structure -/

lemma Constructed.of_mem_values {map : OrderedMap Value} (hconstructed : Constructed (.mapping map))
    {value : Value} (hmem : value ∈ map.values) : Constructed value := by
  cases hconstructed with
  | atom htype => exact absurd rfl htype
  | mapping hbuilt hvalues =>
    obtain ⟨entry, hentry, rfl⟩ := hbuilt.refines.exists_mem_of_mem_values hmem
    exact hvalues entry hentry

lemma Constructed.lawful {map : OrderedMap Value} (hconstructed : Constructed (.mapping map)) :
    map.Lawful := by
  cases hconstructed with
  | atom htype => exact absurd rfl htype
  | mapping hbuilt => exact hbuilt.refines.lawful

lemma beq_iff_eq_of_type_ne {value : Value} (htype : value.type ≠ .mapping) (value' : Value) :
    (value == value') = true ↔ value = value' := by
  constructor
  · intro h
    cases value with
    | string text =>
      cases value' with
      | string text' => exact congrArg Value.string (eq_of_beq h)
      | _ => cases h
    | mapping map => exact absurd rfl htype
    | procedure procedure =>
      cases value' with
      | procedure procedure' => exact congrArg Value.procedure (eq_of_beq h)
      | _ => cases h
    | primitive primitive =>
      cases value' with
      | primitive primitive' => exact congrArg Value.primitive (eq_of_beq h)
      | _ => cases h
  · rintro rfl
    cases value with
    | string text => exact beq_self_eq_true text
    | mapping map => exact absurd rfl htype
    | procedure procedure => exact beq_self_eq_true procedure
    | primitive primitive => exact beq_self_eq_true primitive

/-- Values are equal exactly if they match. -/
theorem beq_iff_matching {value value' : Value} (hvalue : Constructed value)
    (hvalue' : Constructed value') : (value == value') = true ↔ Matching value value' := by
  induction hvalue generalizing value' with
  | @atom value htype =>
    rw [beq_iff_eq_of_type_ne htype]
    constructor
    · rintro rfl
      exact .atom htype
    · intro hmatching
      cases hmatching with
      | atom => rfl
      | mapping => exact absurd rfl htype
  | @mapping map history hbuilt hvalues ih =>
    have hinner : ∀ value ∈ map.values, ∀ {other : Value}, Constructed other →
        ((value == other) = true ↔ Matching value other) := by
      intro value hmem
      obtain ⟨entry, hentry, rfl⟩ := hbuilt.refines.exists_mem_of_mem_values hmem
      exact ih entry hentry
    constructor
    · intro h
      cases value' with
      | mapping map' =>
        obtain ⟨hkeys, hsame⟩ := (mapping_beq_iff hbuilt.refines.lawful hvalue'.lawful).1 h
        refine .mapping hkeys fun position value other hget hget' => ?_
        have hother := hvalue'.of_mem_values (List.mem_of_getElem? hget')
        exact (hinner value (List.mem_of_getElem? hget) hother).1
          (hsame position value other hget hget')
      | _ => cases h
    · intro hmatching
      cases hmatching with
      | atom htype => exact absurd rfl htype
      | mapping hkeys hmatch =>
        rw [mapping_beq_iff hbuilt.refines.lawful hvalue'.lawful]
        refine ⟨hkeys, fun position value other hget hget' => ?_⟩
        have hother := hvalue'.of_mem_values (List.mem_of_getElem? hget')
        exact (hinner value (List.mem_of_getElem? hget) hother).2
          (hmatch position value other hget hget')

lemma Constructed.matching_self {value : Value} (hvalue : Constructed value) :
    Matching value value := by
  induction hvalue with
  | atom htype => exact .atom htype
  | mapping hbuilt hvalues ih =>
    refine .mapping rfl fun position value value' hget hget' => ?_
    obtain rfl : value = value' := Option.some.inj (hget.symm.trans hget')
    obtain ⟨entry, hentry, rfl⟩ :=
      hbuilt.refines.exists_mem_of_mem_values (List.mem_of_getElem? hget)
    exact ih entry hentry

lemma Matching.symm {value value' : Value} (h : Matching value value') : Matching value' value := by
  induction h with
  | atom htype => exact .atom htype
  | mapping hkeys _ ih =>
    exact .mapping hkeys.symm fun position value value' hget hget' =>
      ih position value' value hget' hget

lemma Matching.trans {first second third : Value} (h : Matching first second)
    (h' : Matching second third) : Matching first third := by
  induction h generalizing third with
  | atom => exact h'
  | @mapping map map' hkeys hvalues ih =>
    cases h' with
    | atom htype => exact absurd rfl htype
    | @mapping _ map'' hkeys' hvalues' =>
      refine .mapping (hkeys.trans hkeys') fun position value value'' hget hget'' => ?_
      -- The mapping between the two has as many keys, so it has a value at the position.
      have hlength : map.values.length = map'.values.length := by
        simpa [OrderedMap.keys, OrderedMap.values] using congrArg List.length hkeys
      obtain ⟨hlt, -⟩ := List.getElem?_eq_some_iff.1 hget
      have hget' : map'.values[position]? = some map'.values[position] :=
        List.getElem?_eq_getElem (by omega)
      exact ih position value _ hget hget' (hvalues' position _ value'' hget' hget'')

/-! ### Registrations -/

/-- A registration with one of several tables. -/
structure Registration where
  table : Nat
  name : String
  behavior : Behavior

/-- The primitives that registrations give, one after the other, where the table of a registration
takes up the number at which the table of the last one stopped. -/
def registerAll {δ : Type} (tables : Nat → Services δ) (next : Nat) :
    List Registration → List Primitive
  | [] => []
  | ⟨table, name, behavior⟩ :: rest =>
    match { tables table with next }.register name behavior with
    | (primitive, services) =>
      primitive :: registerAll (Function.update tables table services) services.next rest

section Registrations

variable {δ : Type} {tables : Nat → Services δ} {next position position' : Nat}
  {registrations : List Registration} {primitive primitive' : Primitive}

lemma id_of_registerAll (h : (registerAll tables next registrations)[position]? = some primitive) :
    primitive.id = next + position := by
  induction registrations generalizing tables next position with
  | nil => simp [registerAll] at h
  | cons registration rest ih =>
    cases position with
    | zero =>
      cases h
      rfl
    | succ position =>
      rw [registerAll, List.getElem?_cons_succ] at h
      have hid : primitive.id = next + 1 + position := ih h
      rw [hid]
      omega

lemma primitive_beq_iff (h : (registerAll tables next registrations)[position]? = some primitive)
    (h' : (registerAll tables next registrations)[position']? = some primitive') :
    (Value.primitive primitive == .primitive primitive') = true ↔ position = position' := by
  rw [beq_iff_eq_of_type_ne (by simp [Value.type])]
  constructor
  · rintro ⟨⟩
    have hid := id_of_registerAll h
    rw [id_of_registerAll h'] at hid
    omega
  · rintro rfl
    rw [Option.some.inj (h.symm.trans h')]

end Registrations

/-- Equality of values is structural. On values that were made by the constructors it is an
equivalence, so that a copy is equal to what it is a copy of, and values are equal exactly if they
match. Two mappings are equal exactly if they have the same keys and equal values under them,
position by position, whatever insertions made the one and the other; and two primitives are equal
exactly if they are of the same registration, whichever tables they were registered with. -/
theorem equality_is_structural :
    (∀ value, Constructed value → (value == value) = true) ∧
    (∀ value value', Constructed value → Constructed value' →
      (value == value') = true → (value' == value) = true) ∧
    (∀ first second third, Constructed first → Constructed second → Constructed third →
      (first == second) = true → (second == third) = true → (first == third) = true) ∧
    (∀ value value', Constructed value → Constructed value' →
      ((value == value') = true ↔ Matching value value')) ∧
    (∀ (map map' : OrderedMap Value) (history history' : List (String × Value)),
      Built map history → Built map' history' →
      ((Value.mapping map == .mapping map') = true ↔
        map.keys = map'.keys ∧
        ∀ (position : Nat) (value value' : Value), map.values[position]? = some value →
          map'.values[position]? = some value' → (value == value') = true)) ∧
    (∀ (δ : Type) (tables : Nat → Services δ) (next : Nat) (registrations : List Registration)
      (position position' : Nat) (primitive primitive' : Primitive),
      (registerAll tables next registrations)[position]? = some primitive →
      (registerAll tables next registrations)[position']? = some primitive' →
      ((Value.primitive primitive == .primitive primitive') = true ↔ position = position')) := by
  refine ⟨?_, ?_, ?_, ?_, ?_, ?_⟩
  · intro value hvalue
    rw [beq_iff_matching hvalue hvalue]
    exact hvalue.matching_self
  · intro value value' hvalue hvalue'
    rw [beq_iff_matching hvalue hvalue', beq_iff_matching hvalue' hvalue]
    exact Matching.symm
  · intro first second third hfirst hsecond hthird
    rw [beq_iff_matching hfirst hsecond, beq_iff_matching hsecond hthird,
      beq_iff_matching hfirst hthird]
    exact Matching.trans
  · intro value value' hvalue hvalue'
    exact beq_iff_matching hvalue hvalue'
  · intro map map' history history' hbuilt hbuilt'
    exact mapping_beq_iff hbuilt.refines.lawful hbuilt'.refines.lawful
  · intro δ tables next registrations position position' primitive primitive' h h'
    exact primitive_beq_iff h h'

def listOfY : Value :=
  .mapping (.ofList [.string "y"])

/-- A mapping with a list in it, where `a` is stored twice. -/
def overwritten : OrderedMap Value :=
  ((OrderedMap.empty.insert "a" (.string "x")).insert "b" listOfY).insert "a" (.string "z")

/-- The same entries, each stored once, and the list entry by entry. -/
def written : OrderedMap Value :=
  (OrderedMap.empty.insert "a" (.string "z")).insert "b"
    (.mapping (OrderedMap.empty.insert "0" (.string "y")))

/-- The same entries in the other order. -/
def swapped : OrderedMap Value :=
  (OrderedMap.empty.insert "b" listOfY).insert "a" (.string "z")

def freshTables : Nat → Services :=
  fun _ => {}

/-- The same primitive, twice with one table and once with another. -/
def threeNoops : List Registration :=
  [⟨0, "noop", .noop⟩, ⟨0, "noop", .noop⟩, ⟨1, "noop", .noop⟩]

theorem equality_is_structural_overwritten :
    Matching (.mapping overwritten) (.mapping written) ∧
    (Value.mapping written == .mapping overwritten) = true ∧
    (Value.mapping overwritten == .mapping swapped) = false ∧
    ∃ first second third, registerAll freshTables 0 threeNoops = [first, second, third] ∧
      first.name = second.name ∧ first.name = third.name ∧
      (Value.primitive first == .primitive second) = false ∧
      (Value.primitive first == .primitive third) = false ∧
      (Value.primitive third == .primitive third) = true := by
  obtain ⟨hself, hsymm, -, hmatching, hmappings, hprimitives⟩ := equality_is_structural
  have htext : ∀ text, Constructed (.string text) := fun text => .atom nofun
  have hlist : Constructed listOfY := by
    apply Constructed.mapping (Built.ofList _)
    simp [numbered, htext]
  have hover : Built overwritten _ := ((Built.empty.insert "a" _).insert "b" _).insert "a" _
  have hswapped : Built swapped _ := (Built.empty.insert "b" _).insert "a" _
  have hfirst : Constructed (.mapping overwritten) := by
    apply Constructed.mapping hover
    simp [htext, hlist]
  have hentry : Constructed (.mapping (OrderedMap.empty.insert "0" (.string "y"))) := by
    apply Constructed.mapping (Built.empty.insert "0" _)
    simp [htext]
  have hsecond : Constructed (.mapping written) := by
    apply Constructed.mapping ((Built.empty.insert "a" _).insert "b" _)
    simp [htext, hentry]
  have hequal : (Value.mapping overwritten == .mapping written) = true := by decide +kernel
  have hkeys : overwritten.keys ≠ swapped.keys := by decide +kernel
  refine ⟨(hmatching _ _ hfirst hsecond).1 hequal, hsymm _ _ hfirst hsecond hequal, ?_,
    ⟨"noop", 0⟩, ⟨"noop", 1⟩, ⟨"noop", 2⟩, rfl, rfl, rfl, ?_, ?_, hself _ (.atom nofun)⟩
  · rw [← Bool.not_eq_true, hmappings _ _ _ _ hover hswapped]
    exact fun h => hkeys h.1
  · rw [← Bool.not_eq_true, hprimitives Writer freshTables 0 threeNoops 0 1 ⟨"noop", 0⟩ ⟨"noop", 1⟩
      rfl rfl]
    omega
  · rw [← Bool.not_eq_true, hprimitives Writer freshTables 0 threeNoops 0 2 ⟨"noop", 0⟩ ⟨"noop", 2⟩
      rfl rfl]
    omega

end LineScript.Proofs
