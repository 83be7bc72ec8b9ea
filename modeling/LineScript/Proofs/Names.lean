import LineScript.Proofs.Insertions
import LineScript.Proofs.StandardLibrary

/-!
# Names are never lost

On the standard library a variable is made by an assignment or by a call of `vars`, at most one by
each, and it comes behind the variables that there are. `Act.grows` says this of one action, and
`Run.grows` adds it up over a run, bodies of procedures and failing statements included.
-/

namespace LineScript.Proofs

variable {δ : Type}

/-! ### Stores in a history -/

/-- Whether a statement that is started in this machine is an assignment or calls `vars`. -/
def isStore (statement : Statement) (machine : Machine (Services δ)) : Bool :=
  match statement.kind, callee statement.expressions machine.env with
  | .assignment, _ => true
  | .call, .ok (.primitive primitive _) =>
    match machine.host.behaviors[primitive.id]? with
    | some .vars => true
    | _ => false
  | _, _ => false

/-- How many assignments and calls of `vars` ended well, in procedures at whatever depth. -/
def storeCount (history : List (Event (Services δ))) : Nat :=
  history.countP fun event =>
    match event with
    | .finish statement before _ => isStore statement before
    | _ => false

@[simp] lemma storeCount_nil : storeCount ([] : List (Event (Services δ))) = 0 := rfl

@[simp] lemma storeCount_start (statement : Statement) (machine : Machine (Services δ))
    (history : List (Event (Services δ))) :
    storeCount (.start statement machine :: history) = storeCount history := rfl

@[simp] lemma storeCount_enter (calls : ActiveCalls) (history : List (Event (Services δ))) :
    storeCount (.enter calls :: history) = storeCount history := rfl

@[simp] lemma storeCount_leave (calls : ActiveCalls) (history : List (Event (Services δ))) :
    storeCount (.leave calls :: history) = storeCount history := rfl

@[simp] lemma storeCount_finish (statement : Statement) (before after : Machine (Services δ))
    (history : List (Event (Services δ))) :
    storeCount (.finish statement before after :: history) =
      (isStore statement before).toNat + storeCount history := by
  by_cases hstore : isStore statement before = true
  · simp [storeCount, hstore, Nat.add_comm]
  · simp [storeCount, hstore]

@[simp] lemma storeCount_append (first second : List (Event (Services δ))) :
    storeCount (first ++ second) = storeCount first + storeCount second :=
  List.countP_append ..

lemma isStore_of_enters {statement : Statement} {machine : Machine (Services δ)}
    {procedure : Procedure} (h : Enters statement machine.env procedure) :
    isStore statement machine = false := by
  simp only [isStore, h.1, h.2]

variable [Device δ]

lemma Act.storeCount_seen {statement : Statement} {machine : Machine (Services δ)}
    {seen : List (Event (Services δ))} {outcome : Outcome Failure (Machine (Services δ))}
    (hact : Act Services.reply statement machine seen outcome) : storeCount seen = 0 := by
  cases hact with
  | primitive => cases ‹Outcome Failure (Machine (Services δ))› <;> rfl
  | _ => rfl

/-! ### Growing environments -/

lemma names_assign (env : Environment) (name : String) (value : Value) :
    (env.assign name value).names = if name ∈ env.names then env.names else env.names ++ [name] :=
  keys_insert env.lawful name value

/-- The names of `after` are those of `before`, in their order, and at most `count` more behind
them. -/
def Grows (count : Nat) (before after : Environment) : Prop :=
  ∃ added, after.names = before.names ++ added ∧ added.length ≤ count

lemma Grows.refl (count : Nat) (env : Environment) : Grows count env env := by
  refine ⟨[], ?_, ?_⟩
  · rw [List.append_nil]
  · exact Nat.zero_le _

lemma Grows.trans {first second : Nat} {before middle after : Environment}
    (hfirst : Grows first before middle) (hsecond : Grows second middle after) :
    Grows (first + second) before after := by
  obtain ⟨early, hearly, hfew⟩ := hfirst
  obtain ⟨late, hlate, hfew'⟩ := hsecond
  refine ⟨early ++ late, ?_, ?_⟩
  · rw [hlate, hearly, List.append_assoc]
  · rw [List.length_append]
    omega

lemma grows_assign (env : Environment) (name : String) (value : Value) :
    Grows 1 env (env.assign name value) := by
  by_cases h : name ∈ env.names
  · refine ⟨[], ?_, by simp⟩
    rw [names_assign, if_pos h, List.append_nil]
  · refine ⟨[name], ?_, by simp⟩
    rw [names_assign, if_neg h]

/-! ### Growing runs -/

omit [Device δ] in
lemma env_of_emit {run : Runner (Services δ)} {calls : ActiveCalls} {arguments : List Expression}
    {env : Environment} {services : Services δ} {after : Machine (Services δ)}
    {deliver : Sink δ → String → Attempt (Sink δ)}
    (h : settle run calls (Services.emit deliver arguments env services) = .done after) :
    after.env = env := by
  unfold Services.emit at h
  split at h
  · cases h
  · split at h
    · cases h
      rfl
    · cases h

/-- An action that is no store leaves the variables alone. -/
lemma Act.env_of_not_store {statement : Statement} {machine after : Machine (Services δ)}
    {seen : List (Event (Services δ))}
    (hact : Act Services.reply statement machine seen (.done after))
    (hstandard : StandardPrimitives machine) (hstore : isStore statement machine = false) :
    after.env = machine.env := by
  cases hact with
  | assign hkind =>
    simp [isStore, hkind] at hstore
  | primitive hkind hcallee hsettle =>
    obtain ⟨name, hbound⟩ := bound_of_callee hcallee
    obtain ⟨behavior, hbehavior, hmem⟩ := hstandard name _ hbound
    simp only [Services.reply, hbehavior] at hsettle
    simp only [Services.standardLibrary, List.map_cons, List.map_nil, List.mem_cons,
      List.not_mem_nil, or_false] at hmem
    rcases hmem with rfl | rfl | rfl | rfl
    · cases hsettle
      rfl
    · exact env_of_emit hsettle
    · exact env_of_emit hsettle
    · simp [isStore, hkind, hcallee, hbehavior] at hstore

lemma Effect.grows {machine after : Machine (Services δ)} (heffect : Effect machine (.done after)) :
    Grows 1 machine.env after.env := by
  cases heffect with
  | nothing => exact Grows.refl 1 _
  | store => exact grows_assign _ _ _
  | print => exact Grows.refl 1 _

lemma Act.grows {statement : Statement} {machine after : Machine (Services δ)}
    {seen : List (Event (Services δ))}
    (hact : Act Services.reply statement machine seen (.done after))
    (hstandard : StandardPrimitives machine) :
    Grows (isStore statement machine).toNat machine.env after.env := by
  cases hstore : isStore statement machine with
  | true => exact (hact.effect hstandard).grows
  | false =>
    rw [hact.env_of_not_store hstandard hstore]
    exact Grows.refl _ _

/-- A run keeps the names and adds no more of them than stores end well in it. -/
theorem Run.grows {statements : List Statement} {machine : Machine (Services δ)}
    {history : List (Event (Services δ))} {outcome : Outcome Failure (Machine (Services δ))}
    (hrun : Run Services.reply statements machine history outcome)
    (hstandard : StandardPrimitives machine) :
    ∀ final, final? outcome = some final → Grows (storeCount history) machine.env final.env := by
  induction hrun with
  | nil =>
    rintro final ⟨⟩
    exact Grows.refl _ _
  | act hact _ ih =>
    intro final hfinal
    have hstep := hact.grows hstandard
    have htail := ih (hact.standardPrimitives hstandard) final hfinal
    simpa [hact.storeCount_seen] using hstep.trans htail
  | actFail hact =>
    rintro final ⟨⟩
    rw [(hact.effect hstandard).env_of_failed]
    exact Grows.refl _ _
  | @call statement rest machine after procedure calls inner history outcome henters _ hbody _
      ihbody ihtail =>
    intro final hfinal
    have hinner : Grows (storeCount inner) machine.env after.env := ihbody hstandard _ rfl
    have hafter : StandardPrimitives after :=
      (hbody.preserves (fun _ _ h => h) Act.standardPrimitives hstandard).2 _ rfl
    have htail := ihtail hafter final hfinal
    -- The call is no store itself, so that only what its body stored counts.
    simpa [isStore_of_enters henters] using hinner.trans htail
  | callFail _ _ _ ihbody =>
    rintro final ⟨⟩
    simpa using ihbody hstandard _ rfl

/-- A run on the standard library loses no name and moves none, whether it ends well or fails: the
names at the start are the first names at the end, no name is there twice, and there are at most as
many new ones as assignments and calls of `vars` ended well, in procedures at whatever depth. -/
theorem names_are_never_lost (depth : Nat) (statements : List Statement)
    (machine final : Machine (Services δ)) (hstandard : StandardPrimitives machine)
    (hfinal : final? (execute Services.reply depth statements machine) = some final) :
    machine.env.names <+: final.env.names ∧ final.env.names.Nodup ∧
      final.env.names.length - machine.env.names.length ≤
        storeCount (events Services.reply depth statements machine) := by
  have hends : execute Services.reply depth statements machine ≠ .exhausted := by
    intro hexhausted
    rw [hexhausted] at hfinal
    cases hfinal
  have hrun := run_of_execute Services.reply depth statements machine hends
  obtain ⟨added, hnames, hfew⟩ := hrun.grows hstandard final hfinal
  refine ⟨?_, nodup_keys final.env.lawful, ?_⟩
  · rw [hnames]
    exact List.prefix_append _ _
  · rw [hnames, List.length_append]
    omega

/-- The standard library with a procedure `f` that makes `slot`, makes `x` by way of it, overwrites
`noop`, lists the names, and then fails. -/
def namingProcedure : Machine Services :=
  let machine := (Session.new (.buffer "")).defineStandard.machine
  { machine with env := machine.env.assign "f" (.procedure ⟨"f",
    [⟨.assignment, "var slot x", [.literal "slot" "slot", .literal "x" "x"]⟩,
      ⟨.assignment, "var $slot 1", [.reference "$slot" "slot", .literal "1" "1"]⟩,
      ⟨.assignment, "var noop $x", [.literal "noop" "noop", .reference "$x" "x"]⟩,
      ⟨.call, "vars all", [.literal "vars" "vars", .literal "all" "all"]⟩,
      ⟨.assignment, "var y", [.literal "y" "y"]⟩]⟩) }

theorem names_are_never_lost_indirect :
    ∃ final, execute Services.reply 2 [callOf "f"] namingProcedure =
        .failed ⟨.missingOperands 1, some "var y"⟩ final ∧
      final.env.names = ["noop", "println", "print", "vars", "f", "slot", "x", "all"] ∧
      namingProcedure.env.names <+: final.env.names ∧ final.env.names.Nodup ∧
      final.env.names.length - namingProcedure.env.names.length ≤
        storeCount (events Services.reply 2 [callOf "f"] namingProcedure) ∧
      storeCount (events Services.reply 2 [callOf "f"] namingProcedure) = 4 := by
  have hstandard : StandardPrimitives namingProcedure :=
    (standardPrimitives_defineStandard (.buffer "")).assign "f" nofun
  have hfail : ∃ final, execute Services.reply 2 [callOf "f"] namingProcedure =
      .failed ⟨.missingOperands 1, some "var y"⟩ final ∧
      final.env.names = ["noop", "println", "print", "vars", "f", "slot", "x", "all"] :=
    ⟨_, rfl, rfl⟩
  obtain ⟨final, hfail, hnames⟩ := hfail
  obtain ⟨hkept, hnodup, hfew⟩ := names_are_never_lost 2 [callOf "f"] namingProcedure final
    hstandard (congrArg final? hfail)
  exact ⟨final, hfail, hnames, hkept, hnodup, hfew, by decide +kernel⟩

end LineScript.Proofs
