import LineScript.Proofs.Names

/-!
# What an assignment does

An assignment takes a target and a value, and both are read in the environment before it. The target
is a name as such, or a variable that holds a name, or a variable that does not exist yet and names
itself. `Targets`, `Supplies` and `AssignmentFault` say this without evaluation, and in which order
faults count; the lemmas say that evaluation follows them.
-/

namespace LineScript.Proofs

variable {env : Environment}

/-! ### Targets and values -/

/-- The expression, as a target, stands for this name. -/
inductive Targets (env : Environment) : Expression → String → Prop
  | literal (source text : String) : Targets env (.literal source text) text
  | unbound {source name : String} (hnone : env.get? name = none) :
      Targets env (.reference source name) name
  | held {source name text : String} (hheld : env.get? name = some (.string text)) :
      Targets env (.reference source name) text

/-- The expression stands for this value. -/
inductive Supplies (env : Environment) : Expression → Value → Prop
  | literal (source text : String) : Supplies env (.literal source text) (.string text)
  | bound {source name : String} {value : Value} (hbound : env.get? name = some value) :
      Supplies env (.reference source name) value

lemma contains_eq_isSome (env : Environment) (name : String) :
    env.contains name = (env.get? name).isSome :=
  OrderedMap.contains_eq_isSome_get? env.lawful name

lemma eval_eq_ok_iff (expression : Expression) (value : Value) :
    expression.eval env = .ok value ↔ Supplies env expression value := by
  constructor
  · intro h
    cases expression with
    | literal source text =>
      cases h
      exact .literal source text
    | reference source name =>
      cases hget : env.get? name with
      | none => simp [Expression.eval, hget] at h
      | some held =>
        simp only [Expression.eval, hget, Except.ok.injEq] at h
        exact .bound (hget.trans (congrArg some h))
  · intro hsupplies
    cases hsupplies with
    | literal => rfl
    | bound hbound => simp only [Expression.eval, hbound]

lemma eval_eq_error_iff (expression : Expression) (fault : Fault) :
    expression.eval env = .error fault ↔ ∃ source name, expression = .reference source name ∧
      env.get? name = none ∧ fault = .unboundVariable name := by
  constructor
  · intro h
    cases expression with
    | literal source text => cases h
    | reference source name =>
      cases hget : env.get? name with
      | some held => simp [Expression.eval, hget] at h
      | none =>
        simp only [Expression.eval, hget, Except.error.injEq] at h
        exact ⟨source, name, rfl, hget, h.symm⟩
  · rintro ⟨source, name, rfl, hnone, rfl⟩
    simp only [Expression.eval, hnone]

/-- A reference to no variable names itself, and what a variable holds is to be a name. -/
lemma evalTarget_reference (env : Environment) (source name : String) :
    (Expression.reference source name).evalTarget env =
      match env.get? name with
      | none => .ok name
      | some (.string text) => .ok text
      | some value => .error (.notAName value.type) := by
  rw [Expression.evalTarget, contains_eq_isSome]
  cases hget : env.get? name with
  | none => simp
  | some value => cases value <;> simp [Expression.evalName, Expression.eval, hget]

lemma evalTarget_eq_ok_iff (expression : Expression) (name : String) :
    expression.evalTarget env = .ok name ↔ Targets env expression name := by
  constructor
  · intro h
    cases expression with
    | literal source text =>
      cases h
      exact .literal source name
    | reference source reference =>
      rw [evalTarget_reference] at h
      split at h <;> cases h
      · exact .unbound ‹_›
      · exact .held ‹_›
  · intro htargets
    cases htargets with
    | literal => rfl
    | unbound hnone => rw [evalTarget_reference, hnone]
    | held hheld => rw [evalTarget_reference, hheld]

lemma evalTarget_eq_error_iff (expression : Expression) (fault : Fault) :
    expression.evalTarget env = .error fault ↔ ∃ source name value,
      expression = .reference source name ∧ env.get? name = some value ∧ value.type ≠ .string ∧
      fault = .notAName value.type := by
  constructor
  · intro h
    cases expression with
    | literal source text => cases h
    | reference source name =>
      rw [evalTarget_reference] at h
      split at h <;> cases h
      rename_i value hstring hget
      refine ⟨source, name, value, rfl, hget, ?_, rfl⟩
      cases value with
      | string text => exact (hstring text rfl).elim
      | _ => simp [Value.type]
  · rintro ⟨source, name, value, rfl, hget, htype, rfl⟩
    rw [evalTarget_reference, hget]
    cases value with
    | string text => exact absurd rfl htype
    | _ => rfl

/-! ### Assignments that end well, and assignments that fail -/

/-- Why an assignment with these expressions fails. A wrong number of expressions counts first, then
a target that holds no name, then a value that does not exist. -/
inductive AssignmentFault (expressions : List Expression) (env : Environment) : Fault → Prop
  | missing (hlength : expressions.length < 2) :
      AssignmentFault expressions env (.missingOperands expressions.length)
  | extra (hlength : 2 < expressions.length) :
      AssignmentFault expressions env (.extraOperands expressions.length)
  | target {source name : String} {value : Expression} {held : Value}
      (hexpressions : expressions = [.reference source name, value])
      (hheld : env.get? name = some held) (htype : held.type ≠ .string) :
      AssignmentFault expressions env (.notAName held.type)
  | value {source name stored : String} {target : Expression}
      (hexpressions : expressions = [target, .reference source name])
      (htarget : Targets env target stored) (hnone : env.get? name = none) :
      AssignmentFault expressions env (.unboundVariable name)

lemma assignment_eq_ok_iff (expressions : List Expression) (after : Environment) :
    assignment expressions env = .ok after ↔ ∃ target value name held,
      expressions = [target, value] ∧ Targets env target name ∧ Supplies env value held ∧
      after = env.assign name held := by
  constructor
  · intro h
    unfold assignment at h
    split at h
    · rename_i target value
      obtain ⟨name, hname, hrest⟩ := bind_eq_ok h
      obtain ⟨held, hvalue, hdone⟩ := bind_eq_ok hrest
      cases hdone
      exact ⟨target, value, name, held, rfl, (evalTarget_eq_ok_iff target name).1 hname,
        (eval_eq_ok_iff value held).1 hvalue, rfl⟩
    · split at h <;> cases h
  · rintro ⟨target, value, name, held, rfl, htarget, hvalue, rfl⟩
    rw [← evalTarget_eq_ok_iff] at htarget
    rw [← eval_eq_ok_iff] at hvalue
    simp only [assignment, htarget, hvalue]
    rfl

lemma assignment_eq_error_iff (expressions : List Expression) (fault : Fault) :
    assignment expressions env = .error fault ↔ AssignmentFault expressions env fault := by
  constructor
  · intro h
    unfold assignment at h
    split at h
    · rename_i target value
      obtain htarget | ⟨name, hname, hrest⟩ := bind_eq_error h
      · obtain ⟨source, name, held, rfl, hheld, htype, rfl⟩ :=
          (evalTarget_eq_error_iff target fault).1 htarget
        exact .target rfl hheld htype
      · obtain hvalue | ⟨held, -, hdone⟩ := bind_eq_error hrest
        · obtain ⟨source, reference, rfl, hnone, rfl⟩ := (eval_eq_error_iff value fault).1 hvalue
          exact .value rfl ((evalTarget_eq_ok_iff target name).1 hname) hnone
        · cases hdone
    · rename_i hpair
      split at h
      · rename_i hlength
        cases h
        exact .missing hlength
      · rename_i hlength
        cases h
        have htwo : expressions.length ≠ 2 := by
          intro heq
          obtain ⟨target, value, rfl⟩ := List.length_eq_two.1 heq
          exact hpair target value rfl
        exact .extra (by omega)
  · intro hfault
    cases hfault with
    | missing hlength =>
      unfold assignment
      split
      · simp at hlength
      · rw [if_pos hlength]
    | extra hlength =>
      unfold assignment
      split
      · simp at hlength
      · rw [if_neg (by omega)]
    | @target source name value held hexpressions hheld htype =>
      subst hexpressions
      have htarget := (evalTarget_eq_error_iff _ _).2 ⟨source, name, held, rfl, hheld, htype, rfl⟩
      simp only [assignment, htarget]
      rfl
    | @value source name stored target hexpressions htarget hnone =>
      subst hexpressions
      rw [← evalTarget_eq_ok_iff] at htarget
      have hvalue := (eval_eq_error_iff _ _).2 ⟨source, name, rfl, hnone, rfl⟩
      simp only [assignment, htarget, hvalue]
      rfl

/-! ### Assignments as statements -/

/-- In `after` the variable holds this value, and nothing else is changed. A variable that was not
there before comes last. -/
structure Stores (before after : Environment) (name : String) (value : Value) : Prop where
  stored : after.get? name = some value
  others : ∀ other, other ≠ name → after.get? other = before.get? other
  names : after.names =
    if (before.get? name).isSome then before.names else before.names ++ [name]

lemma mem_names_iff (env : Environment) (name : String) :
    name ∈ env.names ↔ (env.get? name).isSome := by
  rw [← contains_eq_isSome, Environment.names, mem_keys_iff env.lawful, ← Option.isSome_iff_exists]
  simp [Environment.contains, OrderedMap.contains]

lemma stores_assign (env : Environment) (name : String) (value : Value) :
    Stores env (env.assign name value) name value where
  stored := by rw [get?_assign, if_pos rfl]
  others other hother := by rw [get?_assign, if_neg hother.symm]
  names := by simp only [names_assign, mem_names_iff]

section Statements

variable {σ : Type} {host : Host σ} {depth : Nat} {source : String}
  {expressions : List Expression} {machine : Machine σ}

lemma executeStatement_assignment :
    executeStatement host depth ⟨.assignment, source, expressions⟩ machine =
      match assignment expressions machine.env with
      | .ok env => .done { machine with env }
      | .error fault => .failed { fault } machine := rfl

lemma executeStatement_of_stores {target value : Expression} {name : String} {held : Value}
    (htarget : Targets machine.env target name) (hvalue : Supplies machine.env value held) :
    executeStatement host depth ⟨.assignment, source, [target, value]⟩ machine =
      .done { machine with env := machine.env.assign name held } := by
  have hok := (assignment_eq_ok_iff _ _).2 ⟨target, value, name, held, rfl, htarget, hvalue, rfl⟩
  rw [executeStatement_assignment, hok]

lemma executeStatement_eq_failed_iff (failure : Failure) (after : Machine σ) :
    executeStatement host depth ⟨.assignment, source, expressions⟩ machine =
        .failed failure after ↔
      after = machine ∧ ∃ fault, failure = { fault } ∧
        AssignmentFault expressions machine.env fault := by
  simp only [← assignment_eq_error_iff]
  rw [executeStatement_assignment]
  cases hassignment : assignment expressions machine.env with
  | ok env => simp
  | error fault =>
    constructor
    · intro h
      cases h
      exact ⟨rfl, fault, rfl, rfl⟩
    · rintro ⟨rfl, fault', rfl, h⟩
      cases h
      rfl

/-- An assignment ends well exactly when it has two expressions, of which the first is a target and
the second has a value. It then stores the value that the second had before under the name that the
first stood for before, and changes nothing else. Otherwise it fails for the first fault that there
is, and changes nothing. -/
theorem assignment_is_characterised (host : Host σ) (depth : Nat) (source : String)
    (expressions : List Expression) (machine : Machine σ) :
    ((∃ after, executeStatement host depth ⟨.assignment, source, expressions⟩ machine =
        .done after) ↔
      ∃ target value name held, expressions = [target, value] ∧
        Targets machine.env target name ∧ Supplies machine.env value held) ∧
    (∀ target value name held, expressions = [target, value] →
      Targets machine.env target name → Supplies machine.env value held →
      ∃ env, executeStatement host depth ⟨.assignment, source, expressions⟩ machine =
          .done { machine with env } ∧ Stores machine.env env name held) ∧
    (∀ failure after, executeStatement host depth ⟨.assignment, source, expressions⟩ machine =
        .failed failure after ↔
      after = machine ∧ ∃ fault, failure = { fault } ∧
        AssignmentFault expressions machine.env fault) ∧
    executeStatement host depth ⟨.assignment, source, expressions⟩ machine ≠ .exhausted := by
  refine ⟨⟨?_, ?_⟩, ?_, executeStatement_eq_failed_iff, ?_⟩
  · rintro ⟨after, hdone⟩
    rw [executeStatement_assignment] at hdone
    split at hdone
    · rename_i hok
      obtain ⟨target, value, name, held, hpair, htarget, hvalue, -⟩ :=
        (assignment_eq_ok_iff _ _).1 hok
      exact ⟨target, value, name, held, hpair, htarget, hvalue⟩
    · cases hdone
  · rintro ⟨target, value, name, held, rfl, htarget, hvalue⟩
    exact ⟨_, executeStatement_of_stores htarget hvalue⟩
  · rintro target value name held rfl htarget hvalue
    exact ⟨_, executeStatement_of_stores htarget hvalue, stores_assign _ _ _⟩
  · rw [executeStatement_assignment]
    split <;> nofun

end Statements

/-- A variable that holds a name, and one that holds a procedure. -/
def slotAndProcedure : Machine Services :=
  let machine := (Session.new (.buffer "")).machine
  { machine with
    env := (machine.env.assign "slot" (.string "x")).assign "f" (.procedure ⟨"f", []⟩) }

/-- By way of `slot`, the value of `slot` goes into a new variable `x`. A target that holds a
procedure counts before a value that does not exist. -/
theorem assignment_is_characterised_slot :
    (∃ env, executeStatement Services.reply 0 ⟨.assignment, "var $slot $slot",
        [.reference "$slot" "slot", .reference "$slot" "slot"]⟩ slotAndProcedure =
          .done { slotAndProcedure with env } ∧
      env.get? "x" = some (.string "x") ∧ env.get? "slot" = some (.string "x") ∧
      env.names = ["slot", "f", "x"]) ∧
    executeStatement Services.reply 0 ⟨.assignment, "var $f $u",
      [.reference "$f" "f", .reference "$u" "u"]⟩ slotAndProcedure =
        .failed { fault := .notAName .procedure } slotAndProcedure := by
  obtain ⟨-, hstores, -, -⟩ := assignment_is_characterised Services.reply 0 "var $slot $slot"
    [.reference "$slot" "slot", .reference "$slot" "slot"] slotAndProcedure
  obtain ⟨-, -, hfails, -⟩ := assignment_is_characterised Services.reply 0 "var $f $u"
    [.reference "$f" "f", .reference "$u" "u"] slotAndProcedure
  constructor
  · obtain ⟨env, hdone, hslot⟩ := hstores _ _ "x" (.string "x") rfl (.held rfl) (.bound rfl)
    refine ⟨env, hdone, hslot.stored, ?_, ?_⟩
    · rw [hslot.others "slot" (by decide)]
      rfl
    · rw [hslot.names]
      rfl
  · rw [hfails]
    refine ⟨rfl, _, rfl, ?_⟩
    have hheld : slotAndProcedure.env.get? "f" = some (.procedure ⟨"f", []⟩) := rfl
    exact .target rfl hheld nofun

end LineScript.Proofs
