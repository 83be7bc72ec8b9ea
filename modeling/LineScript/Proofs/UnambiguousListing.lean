import LineScript.Proofs.LineByLine
import LineScript.Proofs.TokenGrammar
import LineScript.Statement.Listing

/-!
# Listings are unambiguous

Sources and values stand in a listing as they are, and they may look like any part of one. Still a
listing can be read: its first line is the source of the first statement with the name of its kind
behind it, since no source goes over a line. The source is a line of its own and is read as the
statement, so the whole block of the statement is known and the next one starts behind it.
-/

namespace LineScript.Proofs

open Text

/-! ### The first line of a block -/

/-- The first line of a statement in a listing. -/
def heading (statement : Statement) : List Char :=
  statement.source.toList ++ (": " ++ statement.kind.name).toList

lemma toList_listing (statement : Statement) :
    statement.listing.toList =
      heading statement ++
        '\n' :: (String.join (statement.expressions.map Expression.listing)).toList := by
  simp [Statement.listing, heading]

lemma heading_ne_nil (statement : Statement) : heading statement ≠ [] := by
  simp [heading]

lemma newline_notMem_heading {statement : Statement} (hline : IsLine statement.source.toList) :
    '\n' ∉ heading statement := by
  rw [heading, List.mem_append, not_or]
  constructor
  · intro hmem
    exact absurd (hline.unbroken '\n' hmem) (by decide)
  · cases statement.kind <;> decide

/-- The names of the kinds end in different letters, so what stands before them does not matter. -/
lemma heading_inj {statement other : Statement} (h : heading statement = heading other) :
    statement.kind = other.kind ∧ statement.source = other.source := by
  have hlast := congrArg List.getLast? h
  have hkind : statement.kind = other.kind := by
    cases hk : statement.kind <;> cases hk' : other.kind <;>
      simp [heading, hk, hk', StatementKind.name] at hlast ⊢
  refine ⟨hkind, ?_⟩
  rw [heading, heading, hkind] at h
  rw [← String.toList_inj]
  exact List.append_cancel_right h

lemma line_append_inj {first second rest rest' : List Char} (hfirst : '\n' ∉ first)
    (hsecond : '\n' ∉ second) (h : first ++ '\n' :: rest = second ++ '\n' :: rest') :
    first = second ∧ rest = rest' := by
  have htake : ∀ {line : List Char}, '\n' ∉ line → ∀ tail,
      (line ++ '\n' :: tail).takeWhile (· != '\n') = line := by
    intro line hline tail
    apply takeWhile_append_of_stop
    · intro c hmem
      have hne : c ≠ '\n' := fun heq => hline (heq ▸ hmem)
      simpa using hne
    · simp
  have hsame : first = second := by
    rw [← htake hfirst rest, h, htake hsecond rest']
  subst hsame
  exact ⟨rfl, (List.cons.inj (List.append_cancel_left h)).2⟩

/-! ### Blocks one after the other -/

/-- The source of the statement is a line, which is read as this statement. -/
def IsOwnLine (statement : Statement) : Prop :=
  IsLine statement.source.toList ∧
    Statement.ofTrimmed statement.source.toList = .ok (some statement)

lemma IsOwnLine.eq_of_source_eq {statement other : Statement} (hown : IsOwnLine statement)
    (hother : IsOwnLine other) (h : statement.source = other.source) : statement = other := by
  have hread := hown.2
  rw [h, hother.2] at hread
  exact (Option.some.inj (Except.ok.inj hread)).symm

lemma toList_listAll_cons (statement : Statement) (statements : List Statement)
    (rest : List Char) :
    (Statement.listAll (statement :: statements)).toList ++ rest = heading statement ++ '\n' ::
      ((String.join (statement.expressions.map Expression.listing)).toList ++
        ((Statement.listAll statements).toList ++ rest)) := by
  have hblock : Statement.listAll (statement :: statements) =
      statement.listing ++ Statement.listAll statements := by
    simp [Statement.listAll, String.append_assoc]
  rw [hblock, String.toList_append, toList_listing]
  simp

/-- A listing determines its statements and where it ends, whatever stands behind it. -/
theorem listAll_append_inj {before after : List Statement}
    (hbefore : ∀ statement ∈ before, IsOwnLine statement)
    (hafter : ∀ statement ∈ after, IsOwnLine statement) {rest rest' : List Char}
    (h : (Statement.listAll before).toList ++ rest = (Statement.listAll after).toList ++ rest') :
    before = after ∧ rest = rest' := by
  have hnil : (Statement.listAll []).toList = ['\n'] := rfl
  induction before generalizing after with
  | nil =>
    cases after with
    | nil =>
      rw [hnil] at h
      exact ⟨rfl, List.append_cancel_left h⟩
    | cons other others =>
      rw [hnil, toList_listAll_cons] at h
      have hnone := newline_notMem_heading (hafter other List.mem_cons_self).1
      have hempty := (line_append_inj List.not_mem_nil hnone h).1
      exact absurd hempty.symm (heading_ne_nil other)
  | cons statement statements ih =>
    rw [List.forall_mem_cons] at hbefore
    have hnone := newline_notMem_heading hbefore.1.1
    cases after with
    | nil =>
      rw [hnil, toList_listAll_cons] at h
      have hempty := (line_append_inj hnone List.not_mem_nil h).1
      exact absurd hempty (heading_ne_nil statement)
    | cons other others =>
      rw [List.forall_mem_cons] at hafter
      have hnone' := newline_notMem_heading hafter.1.1
      rw [toList_listAll_cons, toList_listAll_cons] at h
      obtain ⟨hheading, hbelow⟩ := line_append_inj hnone hnone' h
      have hsource : statement.source = other.source := (heading_inj hheading).2
      -- One source is read as one statement, so the lines below the heading are the same too.
      obtain rfl : statement = other := hbefore.1.eq_of_source_eq hafter.1 hsource
      obtain ⟨rfl, hrest⟩ := ih hbefore.2 hafter.2 (List.append_cancel_left hbelow)
      exact ⟨rfl, hrest⟩

/-- The listing of a program is unambiguous: programs with the same listing are read as the same
statements, with the same kinds, sources and expressions. Nor can the end of a listing be mistaken,
whatever is printed behind it. -/
theorem listing_is_unambiguous (first second : String) :
    ∃ before after, Statement.parseAll first = .ok before ∧ Statement.parseAll second = .ok after ∧
      (Statement.listAll before = Statement.listAll after → before = after) ∧
      ∀ printed printed' : String,
        Statement.listAll before ++ printed = Statement.listAll after ++ printed' →
        before = after ∧ printed = printed' := by
  obtain ⟨before, hfirst⟩ := exists_parseAll first
  obtain ⟨after, hsecond⟩ := exists_parseAll second
  have hbefore : ∀ statement ∈ before, IsOwnLine statement :=
    fun statement hmem => isLine_source hfirst hmem
  have hafter : ∀ statement ∈ after, IsOwnLine statement :=
    fun statement hmem => isLine_source hsecond hmem
  refine ⟨before, after, hfirst, hsecond, ?_, ?_⟩
  · intro h
    have hlists : (Statement.listAll before).toList ++ [] =
        (Statement.listAll after).toList ++ [] := by
      rw [h]
    exact (listAll_append_inj hbefore hafter hlists).1
  · intro printed printed' h
    rw [← String.toList_inj, String.toList_append, String.toList_append] at h
    obtain ⟨hsame, hprinted⟩ := listAll_append_inj hbefore hafter h
    exact ⟨hsame, String.toList_inj.1 hprinted⟩

/-- The second line of this program is what stands below its first line in its listing. -/
def lookalike : String :=
  "f\n|  f: Constant (f)"

theorem listing_is_unambiguous_lookalike :
    ∃ before after, Statement.parseAll "f" = .ok before ∧ Statement.parseAll lookalike = .ok after ∧
      Statement.listAll before = "f: FunctionCall\n|  f: Constant (f)\n\n" ∧
      Statement.listAll before ≠ Statement.listAll after ∧
      ∀ printed printed' : String,
        Statement.listAll before ++ printed ≠ Statement.listAll after ++ printed' := by
  obtain ⟨before, after, hfirst, hsecond, hsame, hprinted⟩ := listing_is_unambiguous "f" lookalike
  have hone : Statement.parseAll "f" = .ok [⟨.call, "f", [.literal "f" "f"]⟩] := by decide +kernel
  have hbefore : before = [⟨.call, "f", [.literal "f" "f"]⟩] := by
    rw [hone] at hfirst
    exact (Except.ok.inj hfirst).symm
  have htwo : (Statement.parseAll lookalike).map List.length = .ok 2 := by decide +kernel
  have hne : before ≠ after := by
    rintro rfl
    rw [hsecond, hbefore] at htwo
    cases htwo
  refine ⟨before, after, hfirst, hsecond, ?_, fun h => hne (hsame h),
    fun printed printed' h => hne (hprinted printed printed' h).1⟩
  rw [hbefore]
  decide

end LineScript.Proofs
