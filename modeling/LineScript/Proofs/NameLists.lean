import LineScript.Proofs.Assignments

/-!
# Lists of names

A positional map keeps the values of a list under the decimal numerals from zero on. Different
numbers have different numerals, so no value takes the place of another while the map is built, and
the list that `vars` stores has all the names there are. The names are those from before the store,
whatever the target is: a name that is not there yet, the variable that the argument refers to, or
`vars` itself.
-/

namespace LineScript.Proofs

/-! ### Positional maps -/

variable {α : Type}

/-- The map has these values and no others, each under the numeral of its position. -/
structure Positional (map : OrderedMap α) (list : List α) : Prop where
  size : map.size = list.length
  keys : map.keys = (List.range list.length).map Nat.repr
  values : map.values = list
  found : ∀ i < list.length, map.get? i.repr = list[i]?
  absent : ∀ key, (∀ i < list.length, key ≠ i.repr) → map.get? key = none

lemma get?_ofList_of_lt {values : List α} {i : Nat} (hi : i < values.length) :
    (OrderedMap.ofList values).get? i.repr = some values[i] := by
  have hmem : (i.repr, values[i]) ∈ (OrderedMap.ofList values).toList := by
    rw [OrderedMap.toList_ofList, List.mem_map]
    refine ⟨(values[i], i), ?_, rfl⟩
    rw [List.mk_mem_zipIdx_iff_getElem?]
    exact List.getElem?_eq_getElem hi
  exact get?_of_mem (OrderedMap.lawful_ofList values) hmem

lemma get?_ofList_eq_none {values : List α} {key : String}
    (hkey : ∀ i < values.length, key ≠ i.repr) : (OrderedMap.ofList values).get? key = none := by
  have hmem : key ∉ (OrderedMap.ofList values).keys := by
    rw [OrderedMap.keys_ofList, List.mem_map]
    rintro ⟨i, hi, rfl⟩
    exact hkey i (List.mem_range.1 hi) rfl
  have hindex := OrderedMap.index_eq_none_of_not_mem_keys (OrderedMap.lawful_ofList values) hmem
  simp [OrderedMap.get?, hindex]

lemma positional_ofList (values : List α) : Positional (OrderedMap.ofList values) values where
  size := OrderedMap.size_ofList values
  keys := OrderedMap.keys_ofList values
  values := OrderedMap.values_ofList values
  found i hi := by rw [get?_ofList_of_lt hi, List.getElem?_eq_getElem hi]
  absent _ := get?_ofList_eq_none

lemma insertFrom_append_singleton (map : OrderedMap α) (position : Nat) (values : List α)
    (value : α) :
    map.insertFrom position (values ++ [value]) =
      (map.insertFrom position values).insert (position + values.length).repr value := by
  induction values generalizing map position with
  | nil => rfl
  | cons first rest ih =>
    have hlast : position + 1 + rest.length = position + (first :: rest).length := by
      rw [List.length_cons]
      omega
    rw [List.cons_append, OrderedMap.insertFrom, ih, hlast, OrderedMap.insertFrom]

/-- A list is built value by value, and the numeral of the next one is free. -/
lemma exchange_ofList (values : List α) (value : α) :
    (OrderedMap.ofList values).exchange values.length.repr value =
      (none, OrderedMap.ofList (values ++ [value])) := by
  have hfree : (OrderedMap.ofList values).get? values.length.repr = none := by
    apply get?_ofList_eq_none
    intro i hi heq
    rw [Nat.repr_inj] at heq
    omega
  rw [OrderedMap.exchange_eq, hfree, OrderedMap.ofList, OrderedMap.ofList,
    insertFrom_append_singleton, Nat.zero_add]

/-! ### Storing the names -/

variable {δ : Type} [Device δ]

lemma reply_vars {primitive : Primitive} {services : Services δ}
    (hvars : services.behaviors[primitive.id]? = some .vars) (arguments : List Expression)
    (env : Environment) :
    Services.reply primitive arguments env services =
      Services.update (Services.storeNames arguments env) env services := by
  simp only [Services.reply, hvars, Services.respond]

lemma storeNames_of_evalName {target : Expression} {env : Environment} {name : String}
    (hname : target.evalName env = .ok name) :
    Services.storeNames [target] env = .ok (env.assign name (Services.nameList env)) := by
  simp only [Services.storeNames, hname]
  rfl

lemma storeNames_of_length_ne {arguments : List Expression} (hlength : arguments.length ≠ 1)
    (env : Environment) :
    Services.storeNames arguments env = .error (.wrongArity "vars" 1 arguments.length) := by
  unfold Services.storeNames
  split
  · exact absurd rfl hlength
  · rfl

lemma string_mem_names_iff (env : Environment) (name : String) :
    Value.string name ∈ env.names.map Value.string ↔ (env.get? name).isSome := by
  rw [List.mem_map_of_injective fun _ _ => Value.string.inj, mem_names_iff]

/-- `vars` takes an exact snapshot. A list of values becomes a map with just these values, each
under the numeral of its position, and none replaces another on the way. With one argument that
gives a name, `vars` ends well and stores under this name the list of the names from before. The
name is in its own list exactly if it was there before; it then keeps its place, and else it comes
last. Nothing else changes. With another number of arguments `vars` fails and changes nothing. -/
theorem vars_takes_exact_snapshot {primitive : Primitive} {services : Services δ}
    (hvars : services.behaviors[primitive.id]? = some .vars) (env : Environment) :
    (∀ values : List Value, Positional (OrderedMap.ofList values) values ∧
      ∀ value, (OrderedMap.ofList values).exchange values.length.repr value =
        (none, OrderedMap.ofList (values ++ [value]))) ∧
    (∀ target name, Expression.evalName target env = .ok name →
      ∃ after list,
        Services.reply primitive [target] env services = .finish (.ok ()) after services ∧
        Stores env after name (.mapping list) ∧
        Positional list (env.names.map Value.string) ∧
        (Value.string name ∈ list.values ↔ (env.get? name).isSome)) ∧
    ∀ arguments : List Expression, arguments.length ≠ 1 →
      Services.reply primitive arguments env services =
        .finish (.error { fault := .wrongArity "vars" 1 arguments.length }) env services := by
  refine ⟨?_, ?_, ?_⟩
  · intro values
    exact ⟨positional_ofList values, exchange_ofList values⟩
  · intro target name hname
    have hlist := positional_ofList (env.names.map Value.string)
    refine ⟨env.assign name (Services.nameList env), _, ?_, stores_assign _ _ _, hlist, ?_⟩
    · rw [reply_vars hvars, storeNames_of_evalName hname]
      rfl
    · rw [hlist.values]
      exact string_mem_names_iff env name
  · intro arguments hlength
    rw [reply_vars hvars, storeNames_of_length_ne hlength]
    rfl

/-- The standard library, and a variable that holds the name of `vars`. -/
def namingVars : Machine Services :=
  let machine := (Session.new (.buffer "")).defineStandard.machine
  { machine with env := machine.env.assign "slot" (.string "vars") }

/-- By way of `slot` the list takes the place of `vars`, which is in it all the same. -/
theorem vars_takes_exact_snapshot_own_name :
    (∃ after list,
      Services.reply ⟨"vars", 3⟩ [.reference "$slot" "slot"] namingVars.env namingVars.host =
        .finish (.ok ()) after namingVars.host ∧
      after.get? "vars" = some (.mapping list) ∧
      after.get? "slot" = some (.string "vars") ∧
      after.names = ["noop", "println", "print", "vars", "slot"] ∧
      list.keys = ["0", "1", "2", "3", "4"] ∧
      list.get? "3" = some (.string "vars") ∧ list.get? "03" = none) ∧
    Services.reply ⟨"vars", 3⟩ [] namingVars.env namingVars.host =
      .finish (.error { fault := .wrongArity "vars" 1 0 }) namingVars.env namingVars.host := by
  have hvars : namingVars.host.behaviors[(⟨"vars", 3⟩ : Primitive).id]? = some .vars := rfl
  obtain ⟨-, hlists, hfails⟩ := vars_takes_exact_snapshot hvars namingVars.env
  obtain ⟨after, list, hreply, hstores, hlist, -⟩ :=
    hlists (.reference "$slot" "slot") "vars" rfl
  refine ⟨⟨after, list, hreply, hstores.stored, ?_, ?_, ?_, ?_, ?_⟩, hfails [] (by simp)⟩
  · rw [hstores.others "slot" (by decide)]
    rfl
  · rw [hstores.names]
    rfl
  · rw [hlist.keys]
    rfl
  · exact hlist.found 3 (by decide +kernel)
  · apply hlist.absent
    decide +kernel

end LineScript.Proofs
