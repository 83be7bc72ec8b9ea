import LineScript.Proofs.StandardLibrary

/-!
# Where values come from

On the standard library a program makes no values but texts and lists of names. `Derived` says this
of what a variable holds, every action keeps it, and so no run leaves a function that it was not
given, or a mapping that is neither given nor a flat list of texts.
-/

namespace LineScript.Proofs

/-- `part` is the value itself, or stands in one of the values of the mapping that it is. -/
inductive Occurs (part : Value) : Value → Prop
  | self : Occurs part part
  | within {map : OrderedMap Value} {value : Value} (hmem : value ∈ map.values)
      (hoccurs : Occurs part value) : Occurs part (.mapping map)

/-- A variable holds the value, or a mapping that it stands in, at whatever nesting. -/
def OccursIn (env : Environment) (part : Value) : Prop :=
  ∃ name value, env.get? name = some value ∧ Occurs part value

/-- A list of texts: the keys are the numerals from zero on, in order, and every value is a
text. -/
def TextList (map : OrderedMap Value) : Prop :=
  map.keys = (List.range map.size).map Nat.repr ∧ ∀ value ∈ map.values, value.type = .string

lemma textList_ofList (texts : List String) :
    TextList (OrderedMap.ofList (texts.map Value.string)) := by
  constructor
  · rw [OrderedMap.keys_ofList, OrderedMap.size_ofList]
  · intro value hmem
    rw [OrderedMap.values_ofList] at hmem
    obtain ⟨text, -, rfl⟩ := List.mem_map.1 hmem
    rfl

/-- What a variable can come to hold in a run that starts with the variables of `initial`. -/
inductive Derived (initial : Environment) : Value → Prop
  | text (text : String) : Derived initial (.string text)
  | given {name : String} {value : Value} (hget : initial.get? name = some value) :
      Derived initial value
  | list {map : OrderedMap Value} (hlist : TextList map) : Derived initial (.mapping map)

lemma Derived.mapping {initial : Environment} {map : OrderedMap Value}
    (hderived : Derived initial (.mapping map)) :
    OccursIn initial (.mapping map) ∨ TextList map := by
  cases hderived with
  | given hget => exact .inl ⟨_, _, hget, .self⟩
  | list hlist => exact .inr hlist

/-- Neither texts nor lists of texts hold a function. -/
lemma Derived.occursIn {initial : Environment} {value part : Value}
    (hderived : Derived initial value) (hoccurs : Occurs part value)
    (hpart : part.type = .procedure ∨ part.type = .primitive) : OccursIn initial part := by
  cases hderived with
  | text text =>
    cases hoccurs
    simp [Value.type] at hpart
  | given hget => exact ⟨_, _, hget, hoccurs⟩
  | list hlist =>
    cases hoccurs with
    | self => simp [Value.type] at hpart
    | within hmem hinner =>
      have htext := hlist.2 _ hmem
      -- A text has no parts, so the part would have to be a text.
      cases hinner with
      | self => simp [htext] at hpart
      | within => simp [Value.type] at htext

variable {δ : Type} [Device δ]

/-- Every variable of the machine holds what can be derived from `initial`. -/
structure DerivedFrom (initial : Environment) (machine : Machine (Services δ)) : Prop where
  standard : StandardPrimitives machine
  derived : ∀ name value, machine.env.get? name = some value → Derived initial value

lemma Act.derivedFrom {initial : Environment} {statement : Statement}
    {machine : Machine (Services δ)} {seen : List (Event (Services δ))}
    {outcome : Outcome Failure (Machine (Services δ))}
    (hact : Act Services.reply statement machine seen outcome)
    (hfrom : DerivedFrom initial machine) :
    ∀ after, final? outcome = some after → DerivedFrom initial after := by
  intro after hafter
  have heffect := hact.effect hfrom.standard
  have hlist : Derived initial (Services.nameList machine.env) :=
    .list (textList_ofList machine.env.names)
  exact ⟨heffect.standardPrimitives hfrom.standard after hafter,
    heffect.forall_values Derived.text hlist hfrom.derived after hafter⟩

/-- A program on the standard library forges nothing, whether it ends well or fails: every function
that occurs in the variables at the end, in mappings at whatever nesting, occurs in them at the
start; and a mapping that a variable holds at the end occurs at the start or is a list of texts. -/
theorem programs_forge_nothing (depth : Nat) (statements : List Statement)
    (machine final : Machine (Services δ)) (hstandard : StandardPrimitives machine)
    (hfinal : final? (execute Services.reply depth statements machine) = some final) :
    (∀ part, part.type = .procedure ∨ part.type = .primitive →
      OccursIn final.env part → OccursIn machine.env part) ∧
    (∀ name map, final.env.get? name = some (.mapping map) →
      OccursIn machine.env (.mapping map) ∨ TextList map) := by
  have hends : execute Services.reply depth statements machine ≠ .exhausted := by
    intro hexhausted
    rw [hexhausted] at hfinal
    cases hfinal
  have hstart : DerivedFrom machine.env machine := ⟨hstandard, fun _ _ hget => .given hget⟩
  have hrun := run_of_execute Services.reply depth statements machine hends
  have hend : DerivedFrom machine.env final :=
    hrun.preserves_final (fun _ _ h => ⟨h.standard, h.derived⟩) Act.derivedFrom hstart final hfinal
  constructor
  · rintro part hpart ⟨name, value, hget, hoccurs⟩
    exact (hend.derived name value hget).occursIn hoccurs hpart
  · intro name map hget
    exact (hend.derived name _ hget).mapping

def heldProcedure : Procedure :=
  ⟨"f", [callOf "f"]⟩

def holdingMapping : OrderedMap Value :=
  OrderedMap.empty.insert "k" (.procedure heldProcedure)

/-- The standard library, and a variable `m` with a mapping that holds a procedure. -/
def mappedProcedure : Machine Services :=
  let machine := (Session.new (.buffer "")).defineStandard.machine
  { machine with env := machine.env.assign "m" (.mapping holdingMapping) }

/-- Copies the mapping, stores a list of names, and fails at a call of the mapping. -/
def copyingStatements : List Statement :=
  [⟨.assignment, "var c $m", [.literal "c" "c", .reference "$m" "m"]⟩,
    ⟨.call, "vars l", [.literal "vars" "vars", .literal "l" "l"]⟩, callOf "m"]

theorem programs_forge_nothing_copying :
    ∃ final list, execute Services.reply 1 copyingStatements mappedProcedure =
        .failed ⟨.notCallable "m", some "m"⟩ final ∧
      final.env.get? "l" = some (.mapping list) ∧
      (OccursIn mappedProcedure.env (.mapping list) ∨ TextList list) ∧
      OccursIn final.env (.procedure heldProcedure) ∧
      OccursIn mappedProcedure.env (.procedure heldProcedure) := by
  have hstandard : StandardPrimitives mappedProcedure :=
    (standardPrimitives_defineStandard (.buffer "")).assign "m" nofun
  have hfail : ∃ final list, execute Services.reply 1 copyingStatements mappedProcedure =
      .failed ⟨.notCallable "m", some "m"⟩ final ∧
      final.env.get? "l" = some (.mapping list) ∧
      final.env.get? "c" = some (.mapping holdingMapping) :=
    ⟨_, _, rfl, rfl, rfl⟩
  obtain ⟨final, list, hfail, hlist, hcopy⟩ := hfail
  obtain ⟨hfunctions, hmappings⟩ := programs_forge_nothing 1 copyingStatements mappedProcedure final
    hstandard (congrArg final? hfail)
  have hheld : OccursIn final.env (.procedure heldProcedure) :=
    ⟨"c", _, hcopy, .within (List.mem_singleton_self _) .self⟩
  exact ⟨final, list, hfail, hlist, hmappings "l" list hlist, hheld,
    hfunctions _ (.inl rfl) hheld⟩

end LineScript.Proofs
