import LineScript.Proofs.Insertions
import LineScript.Proofs.LineByLine
import LineScript.Proofs.SourceRuns

/-!
# Variables can be written out and read back

A variable that holds a text is written as an assignment of one quoted text to another. Quoting
loses nothing and a literal names what it says, so running these lines stores exactly the texts that
were written, whatever they look like: no reference is followed, no comment starts and no function
is called.
-/

namespace LineScript.Proofs

open Text

/-! ### One assignment -/

/-- The line that assigns a text to a name. -/
def assignmentLine (name value : String) : String :=
  "var " ++ quoted name ++ " " ++ quoted value

/-- The statement that the line stands for. -/
def assignmentOf (name value : String) : Statement :=
  ⟨.assignment, assignmentLine name value,
    [name, value].map fun text => .literal (quoted text) text⟩

lemma toList_assignmentLine (name value : String) :
    (assignmentLine name value).toList =
      'v' :: 'a' :: 'r' :: ' ' :: (quote name.toList ++ ' ' :: quote value.toList) := by
  simp [assignmentLine, quoted]

lemma scan_assignmentLine (name value : String) :
    Token.scan (assignmentLine name value).toList =
      .bare ['v', 'a', 'r'] :: [name, value].map fun text => .quoted (escape text.toList) := by
  have hspace : isBlank ' ' = true := by decide
  have hword : ∀ rest, Token.leading 'v' ('a' :: 'r' :: ' ' :: rest) = .bare ['v', 'a', 'r'] := by
    intro rest
    rw [leading_bare fun h => absurd h (by decide)]
    rfl
  have hvalue := scan_quote value.toList []
  rw [List.append_nil] at hvalue
  rw [toList_assignmentLine, scan_cons_token (by decide), hword]
  change _ :: Token.scan (' ' :: (quote name.toList ++ ' ' :: quote value.toList)) = _
  rw [scan_cons_blank hspace, scan_quote, scan_cons_blank hspace, hvalue]
  rfl

lemma ofTrimmed_assignmentLine (name value : String) :
    Statement.ofTrimmed (assignmentLine name value).toList =
      .ok (some (assignmentOf name value)) := by
  have hhead : (assignmentLine name value).toList.head? ≠ some ':' := by
    rw [toList_assignmentLine]
    simp
  have hliterals := ofTokens_quoted (assignmentLine name value) [name, value]
  have hread := ofTrimmed_of_scan hhead (scan_assignmentLine name value)
    (by rw [String.ofList_toList]; exact hliterals)
  rw [String.ofList_toList] at hread
  exact hread

lemma trim_assignmentLine (name value : String) :
    trim (assignmentLine name value).toList = (assignmentLine name value).toList := by
  have hend : (assignmentLine name value).toList =
      ('v' :: 'a' :: 'r' :: ' ' :: (quote name.toList ++ ' ' :: '"' :: escape value.toList)) ++
        ['"'] := by
    rw [toList_assignmentLine]
    simp [quote]
  exact trim_of_ends (by decide) (by decide) (toList_assignmentLine name value) hend

lemma parseAll_assignmentLine {name value : String}
    (hnone : ∀ c ∈ name.toList ++ value.toList, isTerminator c = false) :
    Statement.parseAll (assignmentLine name value) = .ok [assignmentOf name value] := by
  rw [List.forall_mem_append] at hnone
  have hline : ∀ c ∈ (assignmentLine name value).toList, isTerminator c = false := by
    rw [toList_assignmentLine]
    simp only [List.forall_mem_cons, List.forall_mem_append]
    exact ⟨by decide, by decide, by decide, by decide, isTerminator_quote hnone.1, by decide,
      isTerminator_quote hnone.2⟩
  have hparse : Statement.parse (assignmentLine name value) =
      .ok (some (assignmentOf name value)) := by
    rw [Statement.parse, trim_assignmentLine, ofTrimmed_assignmentLine]
  exact parseAll_of_parse hline hparse

/-! ### Runs of assignments -/

/-- The environment in which each name holds its text. -/
def store (env : Environment) (bindings : List (String × String)) : Environment :=
  bindings.foldl (fun env binding => env.assign binding.1 (.string binding.2)) env

lemma step_assignmentOf {σ : Type} (host : Host σ) (run : Runner σ) (name value : String)
    (machine : Machine σ) :
    step host run (assignmentOf name value) machine =
      .done { machine with env := machine.env.assign name (.string value) } := rfl

lemma sequence_assignments {σ : Type} (host : Host σ) (run : Runner σ)
    (bindings : List (String × String)) (machine : Machine σ) :
    sequence (step host run) (bindings.map fun binding => assignmentOf binding.1 binding.2)
        machine =
      .done { machine with env := store machine.env bindings } := by
  induction bindings generalizing machine with
  | nil => rfl
  | cons binding rest ih =>
    rw [List.map_cons, sequence, step_assignmentOf]
    exact ih _

/-- The line of a name and its text in a program. -/
def bindingLine (binding : (String × String) × Terminator) : String × Terminator :=
  (assignmentLine binding.1.1 binding.1.2, binding.2)

/-- Texts under their names, written as a program with an assignment on each line. -/
def stateProgram (bindings : List ((String × String) × Terminator)) : String :=
  joinLines (bindings.map bindingLine)

lemma parseAll_stateProgram {bindings : List ((String × String) × Terminator)}
    (hlines : ∀ binding ∈ bindings, ∀ c ∈ binding.1.1.toList ++ binding.1.2.toList,
      isTerminator c = false) :
    Statement.parseAll (stateProgram bindings) =
      .ok ((bindings.map Prod.fst).map fun binding => assignmentOf binding.1 binding.2) := by
  have hread : ∀ binding ∈ bindings, Statement.parseAll (bindingLine binding).1 =
      .ok [assignmentOf binding.1.1 binding.1.2] :=
    fun binding hmem => parseAll_assignmentLine (hlines binding hmem)
  rw [stateProgram, parseAll_joinLines hread, List.map_map, List.map_eq_flatMap]
  simp only [Function.comp_apply]

lemma run_stateProgram {δ σ : Type} [Device δ] (host : PrintingHost δ σ) (depth : Nat)
    {bindings : List ((String × String) × Terminator)}
    (hlines : ∀ binding ∈ bindings, ∀ c ∈ binding.1.1.toList ++ binding.1.2.toList,
      isTerminator c = false) (machine : Machine σ) :
    host.run false (depth + 1) (stateProgram bindings) machine =
      .done { machine with env := store machine.env (bindings.map Prod.fst) } := by
  rw [host.run_quiet _ (parseAll_stateProgram hlines), execute, sequence_assignments]
  rfl

/-! ### What is stored -/

/-- The values that bindings store. -/
def textEntries (bindings : List (String × String)) : List (String × Value) :=
  bindings.map fun binding => (binding.1, .string binding.2)

lemma names_textEntries (bindings : List (String × String)) :
    (textEntries bindings).map Prod.fst = bindings.map Prod.fst := by
  simp [textEntries]

lemma latest?_textEntries (bindings : List (String × String)) (name : String) :
    latest? (textEntries bindings) name = (latest? bindings name).map .string := by
  induction bindings using List.reverseRecOn with
  | nil => rfl
  | append_singleton rest binding ih =>
    have hlast : textEntries (rest ++ [binding]) =
        textEntries rest ++ [(binding.1, .string binding.2)] := by
      simp [textEntries]
    rw [hlast, latest?_append_singleton, latest?_append_singleton, ih]
    by_cases h : binding.1 = name
    · rw [if_pos h, if_pos h, Option.map_some]
    · rw [if_neg h, if_neg h]

lemma table_store (env : Environment) (bindings : List (String × String)) :
    (store env bindings).table = insertAll env.table (textEntries bindings) := by
  induction bindings generalizing env with
  | nil => rfl
  | cons binding rest ih => exact ih (env.assign binding.1 (.string binding.2))

lemma refines_store (env : Environment) (bindings : List (String × String)) :
    Refines (store env bindings).table (env.toList ++ textEntries bindings) := by
  rw [table_store]
  exact (refines_toList env.lawful).insertAll (textEntries bindings)

lemma get?_store (env : Environment) (bindings : List (String × String)) (name : String) :
    (store env bindings).get? name =
      ((latest? bindings name).map Value.string).or (env.get? name) := by
  have hnew := (refines_store env bindings).get? name
  have hold := (refines_toList env.lawful).get? name
  rw [latest?_append, latest?_textEntries] at hnew
  rw [Environment.get?, hnew, Environment.get?, hold]
  rfl

lemma names_store (env : Environment) (bindings : List (String × String)) :
    (store env bindings).names =
      env.names ++ ((bindings.map Prod.fst).filter (· ∉ env.names)).eraseDups := by
  have hkeys := (refines_store env bindings).keys
  have hold : (env.toList.map Prod.fst).eraseDups = env.names :=
    eraseDups_of_nodup (nodup_keys env.lawful)
  have hnew : (bindings.map Prod.fst).removeAll (env.toList.map Prod.fst) =
      (bindings.map Prod.fst).filter (· ∉ env.names) := by
    rw [List.removeAll]
    apply List.filter_congr
    intro name _
    have hnames : env.toList.map Prod.fst = env.names := rfl
    simp [hnames]
  rw [List.map_append, names_textEntries, List.eraseDups_append, hold, hnew] at hkeys
  exact hkeys

lemma toList_store_empty {bindings : List (String × String)} {env : Environment}
    (hentries : env.toList = textEntries bindings) :
    (store .empty bindings).toList = env.toList := by
  have hlist := (refines_store .empty bindings).toList
  have hnodup : ((textEntries bindings).map Prod.fst).Nodup := by
    rw [← hentries]
    exact nodup_keys env.lawful
  rw [hentries]
  exact hlist.trans (association_of_nodup hnodup)

/-- Variables that hold texts can be written out as a program and read back. Whatever the texts are,
if no terminator is in them, the program ends well on every session and every other host, at every
depth and under every limit on calls; it prints nothing and changes nothing but the variables, which
hold the texts as if they had been assigned one after the other. So the last text for a name counts,
old names keep their places, new names come after them in the order in which they first occur, and
the texts of an environment, run without variables, give that environment back. -/
theorem written_state_is_read_back (bindings : List ((String × String) × Terminator))
    (hlines : ∀ binding ∈ bindings, ∀ c ∈ binding.1.1.toList ++ binding.1.2.toList,
      isTerminator c = false) (depth : Nat) :
    (∀ (δ : Type) [Device δ] (session : Session δ), session.debug = false →
      session.run (depth + 1) (stateProgram bindings) =
        .done { session with env := store session.env (bindings.map Prod.fst) }) ∧
    (∀ (δ σ : Type) [Device δ] (host : PrintingHost δ σ) (machine : Machine σ),
      host.run false (depth + 1) (stateProgram bindings) machine =
        .done { machine with env := store machine.env (bindings.map Prod.fst) }) ∧
    (∀ env name, (store env (bindings.map Prod.fst)).get? name =
      ((latest? (bindings.map Prod.fst) name).map Value.string).or (env.get? name)) ∧
    (∀ env, (store env (bindings.map Prod.fst)).names = env.names ++
      (((bindings.map Prod.fst).map Prod.fst).filter (· ∉ env.names)).eraseDups) ∧
    (∀ env : Environment, env.toList = textEntries (bindings.map Prod.fst) →
      (store .empty (bindings.map Prod.fst)).toList = env.toList) := by
  refine ⟨?_, ?_, ?_, ?_, ?_⟩
  · intro δ _ session hquiet
    have hrun := session_run session (depth + 1) (stateProgram bindings)
    rw [hquiet, run_stateProgram services depth hlines] at hrun
    exact hrun
  · intro δ σ _ host machine
    exact run_stateProgram host depth hlines machine
  · intro env name
    exact get?_store env (bindings.map Prod.fst) name
  · intro env
    exact names_store env (bindings.map Prod.fst)
  · intro env hentries
    exact toList_store_empty hentries

/-- A reference, a function, a comment and a keyword as names and texts; one name comes twice. -/
def awkwardBindings : List ((String × String) × Terminator) :=
  [(("println", "$x"), .newline), (("", ":"), .semicolon), (("$x", "var \"\\"), .newline),
    (("println", "\\"), .semicolon)]

/-- The standard library, with no calls allowed. -/
def withoutCalls : Session :=
  (Session.new (.buffer "")).defineStandard.withLimit (some 0)

/-- A variable that was assigned twice, around another one. -/
def reassigned : Environment :=
  ((Environment.empty.assign "b" (.string "$a")).assign "a" (.string ":")).assign "b" (.string "")

theorem written_state_is_read_back_shadowing :
    stateProgram awkwardBindings = "var \"println\" \"$x\"\nvar \"\" \":\";" ++
      "var \"$x\" \"var \\\"\\\\\"\nvar \"println\" \"\\\\\"" ∧
    withoutCalls.run 1 (stateProgram awkwardBindings) =
      .done { withoutCalls with env := store withoutCalls.env (awkwardBindings.map Prod.fst) } ∧
    services.run false 1 (stateProgram awkwardBindings) withoutCalls.machine =
      .done { withoutCalls.machine with
        env := store withoutCalls.machine.env (awkwardBindings.map Prod.fst) } ∧
    (store withoutCalls.env (awkwardBindings.map Prod.fst)).get? "println" =
      some (.string "\\") ∧
    (store withoutCalls.env (awkwardBindings.map Prod.fst)).names =
      ["noop", "println", "print", "vars", "", "$x"] ∧
    (store .empty [("b", ""), ("a", ":")]).toList = reassigned.toList := by
  have hlines : awkwardBindings.all (fun binding =>
      (binding.1.1.toList ++ binding.1.2.toList).all fun c => !isTerminator c) = true := by
    decide
  simp only [List.all_eq_true, Bool.not_eq_true'] at hlines
  obtain ⟨hsession, hhost, hget, hnames, -⟩ := written_state_is_read_back awkwardBindings hlines 0
  have htext := hget withoutCalls.env "println"
  have horder := hnames withoutCalls.env
  obtain ⟨-, -, -, -, hrestored⟩ := written_state_is_read_back
    [(("b", ""), .newline), (("a", ":"), .newline)] (by simp [isTerminator]) 0
  exact ⟨by decide +kernel, hsession Writer withoutCalls rfl,
    hhost Writer Services services withoutCalls.machine,
    htext, horder.trans (by decide +kernel), hrestored reassigned rfl⟩

end LineScript.Proofs
