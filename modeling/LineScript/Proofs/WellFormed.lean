import LineScript.Proofs.LineByLine
import LineScript.Proofs.Spacing
import LineScript.Proofs.StandardLibrary

/-!
# Statements read from texts are well-formed

The reader rejects an empty text where an expression is needed, and a call without a name fails.
Neither happens to a source text: no token is empty, a comment that would leave nothing of a token
drops it, and a line whose first token is such a comment is no statement. So every line is read, a
call has an expression that names its function, and each expression is written in one of four forms.
-/

namespace LineScript.Proofs

open Text

/-! ### The forms of expressions -/

/-- How an expression can be written in a text: its source is in one of four forms, which
determines what it stands for. -/
inductive Written : Expression → Prop
  | reference (name : String) : Written (.reference ("$" ++ name) name)
  | escaped (value : String) : Written (.literal ("\\" ++ value) value)
  | quoted (body : String) :
    Written (.literal ("\"" ++ body ++ "\"") (String.ofList (unescape body.toList)))
  | plain (text : String) (hfirst : ∃ c, text.toList.head? = some c ∧ c ≠ '$' ∧ c ≠ '\\') :
    Written (.literal text text)

lemma Written.source_ne_empty {expression : Expression} (hwritten : Written expression) :
    expression.source ≠ "" := by
  intro hsource
  have hnil : expression.source.toList = [] := by rw [hsource]; rfl
  cases hwritten with
  | reference name => simp [Expression.source] at hnil
  | escaped value => simp [Expression.source] at hnil
  | quoted body => simp [Expression.source] at hnil
  | plain text hfirst =>
    obtain ⟨c, hc, -⟩ := hfirst
    rw [Expression.source] at hnil
    rw [hnil] at hc
    cases hc

lemma written_ofQuoted (body : List Char) : Written (Expression.ofQuoted body) := by
  have hsource : String.ofList (Token.quoted body).text = "\"" ++ String.ofList body ++ "\"" := by
    simp [← String.toList_inj, Token.text]
  have hvalue : unescape body = unescape (String.ofList body).toList := by
    rw [String.toList_ofList]
  rw [Expression.ofQuoted, hsource, hvalue]
  exact .quoted (String.ofList body)

lemma written_of_ofBare {line : String} {text : List Char} {expression : Expression}
    (hbare : Expression.ofBare line text = .ok expression) : Written expression := by
  cases text with
  | nil => cases hbare
  | cons c rest =>
    by_cases hdollar : c = '$'
    · subst hdollar
      cases hbare
      rw [String.ofList_cons]
      exact .reference _
    by_cases hslash : c = '\\'
    · subst hslash
      cases hbare
      rw [String.ofList_cons]
      exact .escaped _
    have hplain : Expression.ofBare? (c :: rest) =
        some (.literal (String.ofList (c :: rest)) (String.ofList (c :: rest))) := by
      simp [Expression.ofBare?, hdollar, hslash]
    rw [Expression.ofBare, hplain] at hbare
    cases hbare
    exact .plain _ ⟨c, by simp, hdollar, hslash⟩

lemma head?_of_comment? {text : List Char} (hcomment : comment? text = some 0) :
    text.head? = some ':' := by
  obtain ⟨i, hi, hget⟩ := getElem?_of_commentFrom hcomment
  have hzero : i = 0 := by omega
  rw [List.head?_eq_getElem?, ← hzero, hget]

/-- A token stands for an expression, after which the line goes on or ends, unless it is a comment
from its start. -/
lemma ofTokens_cons_cases {line : String} {token : Token} {rest : List Token}
    {expressions : List Expression}
    (hread : Expression.ofTokens line (token :: rest) = .ok expressions) :
    (token.text.head? = some ':' ∧ expressions = []) ∨
    ∃ expression later, expressions = expression :: later ∧ Written expression ∧
      (later = [] ∨ Expression.ofTokens line rest = .ok later) := by
  cases token with
  | quoted body =>
    obtain ⟨later, hlater, hdone⟩ := bind_eq_ok hread
    cases hdone
    exact .inr ⟨_, later, rfl, written_ofQuoted body, .inr hlater⟩
  | bare text =>
    rw [Expression.ofTokens] at hread
    split at hread
    · rename_i hcomment
      cases hread
      exact .inl ⟨head?_of_comment? hcomment, rfl⟩
    · obtain ⟨expression, hbare, hdone⟩ := bind_eq_ok hread
      cases hdone
      exact .inr ⟨expression, [], rfl, written_of_ofBare hbare, .inl rfl⟩
    · obtain ⟨expression, hbare, hrest⟩ := bind_eq_ok hread
      obtain ⟨later, hlater, hdone⟩ := bind_eq_ok hrest
      cases hdone
      exact .inr ⟨expression, later, rfl, written_of_ofBare hbare, .inr hlater⟩

lemma written_of_ofTokens {line : String} {tokens : List Token} {expressions : List Expression}
    (hread : Expression.ofTokens line tokens = .ok expressions) :
    ∀ expression ∈ expressions, Written expression := by
  induction tokens generalizing expressions with
  | nil =>
    cases hread
    simp
  | cons token rest ih =>
    obtain ⟨-, rfl⟩ | ⟨expression, later, rfl, hwritten, hlater⟩ := ofTokens_cons_cases hread
    · simp
    · rw [List.forall_mem_cons]
      refine ⟨hwritten, ?_⟩
      obtain rfl | hlater := hlater
      · simp
      · exact ih hlater

lemma ofTokens_ne_nil {line : String} {first : Token} {rest : List Token}
    {expressions : List Expression} (hcolon : first.text.head? ≠ some ':')
    (hread : Expression.ofTokens line (first :: rest) = .ok expressions) : expressions ≠ [] := by
  obtain ⟨hcomment, -⟩ | ⟨expression, later, rfl, -⟩ := ofTokens_cons_cases hread
  · exact absurd hcomment hcolon
  · exact List.cons_ne_nil _ _

/-! ### Well-formed statements -/

/-- What every statement read from a text satisfies. A call has a first expression: if it fails for
an unknown function without a name, then this expression gives the empty name, which is not bound. -/
structure WellFormed (statement : Statement) : Prop where
  called : statement.kind = .call → statement.expressions ≠ []
  sources : ∀ expression ∈ statement.expressions, expression.source ≠ ""
  written : ∀ expression ∈ statement.expressions, Written expression
  named : statement.kind = .call → ∀ env,
    callee statement.expressions env = .error (.unknownFunction "") →
      ∃ first ∈ statement.expressions.head?, first.evalName env = .ok "" ∧ env.get? "" = none

lemma evalName_ne_unknownFunction {expression : Expression} {env : Environment} {fault : Fault}
    (h : expression.evalName env = .error fault) (name : String) :
    fault ≠ .unknownFunction name := by
  unfold Expression.evalName at h
  split at h
  · cases h
  · cases h
    simp
  · rename_i heval
    cases h
    unfold Expression.eval at heval
    split at heval
    · cases heval
    · split at heval <;> cases heval
      simp

lemma named_of_unknownFunction {first : Expression} {arguments : List Expression}
    {env : Environment} {name : String}
    (hcallee : callee (first :: arguments) env = .error (.unknownFunction name)) :
    first.evalName env = .ok name ∧ env.get? name = none := by
  obtain hfault | ⟨found, hfound, hget⟩ := bind_eq_error hcallee
  · exact absurd rfl (evalName_ne_unknownFunction hfault name)
  · split at hget <;> cases hget
    rename_i hnone
    exact ⟨hfound, hnone⟩

lemma wellFormed_of_ofTrimmed {text : List Char} {statement : Statement}
    (hread : Statement.ofTrimmed (trim text) = .ok (some statement)) : WellFormed statement := by
  unfold Statement.ofTrimmed at hread
  split at hread
  · cases hread
  rename_i hhead
  cases hscan : Token.scan (trim text) with
  | nil =>
    rw [hscan] at hread
    cases hread
  | cons first rest =>
    rw [hscan] at hread
    obtain ⟨found, htokens, hsome⟩ := bind_eq_ok hread
    obtain ⟨expressions, hexpressions, hfound⟩ := bind_eq_ok htokens
    cases hfound
    cases hsome
    have hwritten := written_of_ofTokens hexpressions
    rw [scan_trim] at hscan
    rw [head?_trim hscan] at hhead
    have hcalled : StatementKind.ofKeyword (String.ofList first.text) = .call →
        expressions ≠ [] := by
      intro hkind
      rw [hkind] at hexpressions
      exact ofTokens_ne_nil hhead hexpressions
    refine ⟨hcalled, fun expression hmem => (hwritten expression hmem).source_ne_empty, hwritten,
      fun hkind env hcallee => ?_⟩
    obtain ⟨name, arguments, rfl⟩ := List.exists_cons_of_ne_nil (hcalled hkind)
    exact ⟨name, rfl, named_of_unknownFunction hcallee⟩

/-- Every text is read, as one line and as a program, and as well-formed statements only. -/
theorem every_text_reads_well_formed (text : String) :
    (∃ statement, Statement.parse text = .ok statement ∧
      ∀ found ∈ statement, WellFormed found) ∧
    ∃ statements, Statement.parseAll text = .ok statements ∧
      ∀ statement ∈ statements, WellFormed statement := by
  constructor
  · obtain ⟨statement, hread⟩ := exists_ofTrimmed (trim text.toList)
    refine ⟨statement, hread, fun found hfound => ?_⟩
    rw [Option.mem_def.1 hfound] at hread
    exact wellFormed_of_ofTrimmed hread
  · obtain ⟨statements, hread⟩ := exists_parseAll text
    refine ⟨statements, hread, fun statement hmem => ?_⟩
    obtain ⟨line, -, hline⟩ := exists_line_of_mem hread hmem
    exact wellFormed_of_ofTrimmed hline

-- Only a call needs an expression: a comment can leave an assignment with none.
example : Statement.parse "var :x" = .ok (some ⟨.assignment, "var :x", []⟩) := by decide +kernel

end LineScript.Proofs
