import PlZero.Proofs.Identifier
import PlZero.Proofs.Resolver.Specification
import PlZero.Proofs.Tree.Wording

/-! The text of a resolved tree. A variable is written like the identifier it stood for, and an
entry is not written, so a tree whose identifiers all name variables is rendered as before.
Nothing else does that: a constant is written without a letter and an error with a bracket that
is in no identifier, and such a change cannot be made good anywhere else in the text. -/

namespace PlZero

/-! ### Names that stand for variables -/

namespace ScopeTable

variable (table : ScopeTable) (s : ScopeId)

/-- Whether a name stands for a variable when it is looked up from the scope `s`. -/
def namesVariable (name : String) : Bool :=
  match table.lookup s name with
  | .ok (some ⟨.var, _, _⟩) => true
  | _ => false

theorem text_bound_of_namesVariable {o : Occurrence} (h : table.namesVariable s o.name = true) :
    (table.bound s o).text = o.name := by
  obtain ⟨role, loc, name⟩ := o
  rw [namesVariable, lookup_eq] at h
  rw [bound]
  split_ifs at h with hs
  cases hf : table.found? s name with
  | none => simp [hf] at h
  | some found =>
    obtain ⟨d, meaning, line, level⟩ := found
    cases meaning with
    | var => cases role <;> rfl
    | constant value => simp [hf] at h
    | procedure id => simp [hf] at h

/-- Any other identifier becomes an error or a constant. -/
theorem bound_of_not_namesVariable {o : Occurrence} (h : table.namesVariable s o.name = false) :
    table.bound s o = .error o.loc ∨ ∃ value, table.bound s o = .const o.loc value := by
  obtain ⟨role, loc, name⟩ := o
  rw [namesVariable, lookup_eq] at h
  rw [bound]
  cases hf : table.found? s name with
  | none => exact .inl rfl
  | some found =>
    obtain ⟨d, meaning, line, level⟩ := found
    have hs : s.index < table.scopeCount := by
      by_contra hs
      rw [found?_of_unknown hs] at hf
      cases hf
    cases meaning with
    | var => simp [hs, hf] at h
    | constant value =>
      cases role with
      | target => exact .inl rfl
      | value => exact .inr ⟨value, rfl⟩
    | procedure id => cases role <;> exact .inl rfl

end ScopeTable

/-! ### Expressions -/

namespace Expr

variable {f : Occurrence → Expr} {role : Role}

theorem text_substituted {e : Expr} (hf : ∀ o ∈ e.occurrences role, (f o).text = o.name) :
    (e.substituted f role).text = e.text := by
  induction e generalizing role with
  | error _ | const _ _ | var _ _ _ => rfl
  | identifier loc name => exact hf ⟨role, loc, name⟩ List.mem_cons_self
  | unary loc op e ih =>
    have he := ih hf
    cases op <;> simp only [substituted_unary, text, he]
  | binary loc op l r ihl ihr =>
    have hl := ihl fun o ho => hf o (List.mem_append_left _ ho)
    have hr := ihr fun o ho => hf o (List.mem_append_right _ ho)
    simp only [substituted_binary, text, hl, hr]
  | coerce loc c e ih =>
    rw [substituted_coerce]
    split_ifs
    · simp only [coerced, text, ih hf]
    · rfl

/-- A substitution takes the characters of the names away and brings those of what is put in. -/
theorem countIn_text_substituted (p : Char → Bool) (f : Occurrence → Expr) (role : Role)
    (e : Expr) :
    countIn p (e.substituted f role).text +
        countIn p (.join ((e.occurrences role).map Occurrence.name)) =
      countIn p e.text + countIn p (.join ((e.occurrences role).map fun o => (f o).text)) := by
  induction e generalizing role with
  | error _ | const _ _ | var _ _ _ => rfl
  | identifier loc name => simp [occurrences, text, Nat.add_comm]
  | unary loc op e ih =>
    have he := ih .value
    cases op <;> simp only [substituted_unary, text, occurrences, countIn_append] <;> omega
  | binary loc op l r ihl ihr =>
    have hl := ihl .value
    have hr := ihr .value
    simp only [substituted_binary, text, occurrences, countIn_append, List.map_append,
      String.join_append]
    omega
  | coerce loc c e ih =>
    have he := ih role
    rw [substituted_coerce]
    split_ifs with hsome
    · simp only [coerced, text, occurrences, countIn_append]
      omega
    · have hnil := (substitute?_eq_none_iff f role).1 (Option.not_isSome_iff_eq_none.1 hsome)
      rw [occurrences, hnil]
      rfl

end Expr

/-! ### Sites -/

/-- The identifiers of a site, each with the scope it is looked up from. -/
def Site.identifiers : Site → List (ScopeId × Occurrence)
  | expr s role e => (e.occurrences role).map (s, ·)
  | call _ _ _ _ => []

namespace ScopeTable

variable (table : ScopeTable)

/-- What an identifier is written as once it is resolved. -/
def boundText (x : ScopeId × Occurrence) : String := (table.bound x.1 x.2).text

end ScopeTable

namespace Site

variable {table : ScopeTable}

theorem labelled_text_resolved {site : Site}
    (h : ∀ x ∈ site.identifiers, table.namesVariable x.1 x.2.name = true) :
    (site.resolved table).labelled Expr.text = site.labelled Expr.text := by
  cases site with
  | call s loc name entry => rfl
  | expr s role e =>
    have htext : (e.substituted (table.bound s) role).text = e.text := by
      apply Expr.text_substituted
      intro o ho
      exact table.text_bound_of_namesVariable s (h (s, o) (List.mem_map_of_mem ho))
    simp only [resolved, labelled, htext]

theorem labelled_empty_resolved (site : Site) :
    (site.resolved table).labelled (fun _ => "") = site.labelled fun _ => "" := by
  cases site <;> rfl

theorem countIn_contents_resolved (table : ScopeTable) (p : Char → Bool) (site : Site) :
    countIn p (.join ((site.resolved table).contents.map Expr.text)) +
        countIn p (.join (site.identifiers.map (·.2.name))) =
      countIn p (.join (site.contents.map Expr.text)) +
        countIn p (.join (site.identifiers.map table.boundText)) := by
  cases site with
  | call s loc name entry => rfl
  | expr s role e =>
    have h := Expr.countIn_text_substituted p (table.bound s) role e
    simp only [resolved, contents, identifiers, List.map_map, List.map_cons, List.map_nil,
      String.join_cons, String.join_nil, String.append_empty]
    exact h

/-- The same for many sites: each of them is resolved by itself. -/
theorem countIn_flatMap_resolved (table : ScopeTable) (p : Char → Bool) (sites : List Site) :
    countIn p (.join (((sites.map (resolved table)).flatMap contents).map Expr.text)) +
        countIn p (.join ((sites.flatMap identifiers).map (·.2.name))) =
      countIn p (.join ((sites.flatMap contents).map Expr.text)) +
        countIn p (.join ((sites.flatMap identifiers).map table.boundText)) := by
  induction sites with
  | nil => rfl
  | cons site rest ih =>
    have hsite := countIn_contents_resolved table p site
    simp only [List.map_cons, List.flatMap_cons, List.map_append, String.join_append,
      countIn_append]
    omega

end Site

/-! ### Characters that give a change away -/

section CountIn

variable {α : Type} {p : Char → Bool} {f g : α → String} {xs : List α}

theorem countIn_join_le (h : ∀ x ∈ xs, countIn p (f x) ≤ countIn p (g x)) :
    countIn p (.join (xs.map f)) ≤ countIn p (.join (xs.map g)) := by
  induction xs with
  | nil => exact Nat.le_refl 0
  | cons x xs ih =>
    have hx := h x List.mem_cons_self
    have hxs := ih fun y hy => h y (List.mem_cons_of_mem x hy)
    simp only [List.map_cons, String.join_cons, countIn_append]
    omega

theorem countIn_join_lt {x : α} (h : ∀ x ∈ xs, countIn p (f x) ≤ countIn p (g x)) (hx : x ∈ xs)
    (hlt : countIn p (f x) < countIn p (g x)) :
    countIn p (.join (xs.map f)) < countIn p (.join (xs.map g)) := by
  obtain ⟨before, after, rfl⟩ := List.append_of_mem hx
  have hbefore := countIn_join_le fun y hy => h y (List.mem_append_left _ hy)
  have hafter := countIn_join_le fun y hy =>
    h y (List.mem_append_right _ (List.mem_cons_of_mem x hy))
  simp only [List.map_append, List.map_cons, String.join_append, String.join_cons, countIn_append]
  omega

end CountIn

theorem countIn_bracket_of_matches {name : String} (h : MatchesIdentifier name) :
    countIn (· == '<') name = 0 := by
  obtain ⟨c, cs, hname, -, hcontinues⟩ := exists_chars_of_matches h
  rw [countIn, hname, List.countP_eq_zero]
  intro d hd hbracket
  have hcontinue := hcontinues d hd
  rw [beq_iff_eq.1 hbracket] at hcontinue
  exact absurd hcontinue (by decide)

theorem countIn_starts_of_matches {name : String} (h : MatchesIdentifier name) :
    0 < countIn startsIdentifier name := by
  obtain ⟨c, cs, hname, hstarts, -⟩ := exists_chars_of_matches h
  rw [countIn, hname, List.countP_pos_iff]
  exact ⟨c, List.mem_cons_self, hstarts⟩

theorem countIn_starts_repr (n : Nat) : countIn startsIdentifier (Nat.repr n) = 0 := by
  rw [countIn, List.countP_eq_zero]
  intro c hmem hstarts
  rw [Nat.toList_repr] at hmem
  have hdigit := Nat.isDigit_of_mem_toDigits (by decide) (by decide) hmem
  rw [not_digit_of_starts hstarts] at hdigit
  cases hdigit

theorem countIn_starts_const (loc : Location) (value : Int64) :
    countIn startsIdentifier (Expr.const loc value).text = 0 := by
  rw [Expr.text]
  cases value.toInt with
  | ofNat n => exact countIn_starts_repr n
  | negSucc n => exact (countIn_append _ "-" _).trans (by simp only [countIn_starts_repr]; rfl)

namespace ScopeTable

variable {table : ScopeTable} {identifiers : List (ScopeId × Occurrence)}

/-- Names that are written with the same characters as before all stand for variables. -/
theorem namesVariable_of_countIn
    (hnames : ∀ x ∈ identifiers, MatchesIdentifier x.2.name)
    (hcount : ∀ p, countIn p (.join (identifiers.map (·.2.name))) =
      countIn p (.join (identifiers.map table.boundText))) :
    ∀ x ∈ identifiers, table.namesVariable x.1 x.2.name = true := by
  -- an error adds a bracket, and no name has one that could go away for it
  have noError : ∀ x ∈ identifiers, table.bound x.1 x.2 ≠ .error x.2.loc := by
    intro x hx herror
    refine absurd (hcount (· == '<')) (Nat.ne_of_lt (countIn_join_lt ?_ hx ?_))
    · intro y hy
      rw [countIn_bracket_of_matches (hnames y hy)]
      exact Nat.zero_le _
    · rw [countIn_bracket_of_matches (hnames x hx), boundText, herror]
      exact (by decide : 0 < countIn (· == '<') Expr.errorMark)
  have noLetter : ∀ x ∈ identifiers, table.namesVariable x.1 x.2.name = false →
      countIn startsIdentifier (table.boundText x) = 0 := by
    intro x hx hvar
    rcases table.bound_of_not_namesVariable x.1 hvar with herror | ⟨value, hconst⟩
    · exact absurd herror (noError x hx)
    · rw [boundText, hconst, countIn_starts_const]
  intro x hx
  by_contra hvar
  -- a constant takes a first letter away, and nothing brings one
  refine absurd (hcount startsIdentifier).symm (Nat.ne_of_lt (countIn_join_lt ?_ hx ?_))
  · intro y hy
    cases hy' : table.namesVariable y.1 y.2.name with
    | true => rw [boundText, table.text_bound_of_namesVariable y.1 hy']
    | false =>
      rw [noLetter y hy hy']
      exact Nat.zero_le _
  · rw [noLetter x hx (Bool.eq_false_iff.2 hvar)]
    exact countIn_starts_of_matches (hnames x hx)

end ScopeTable

/-! ### Whole trees -/

namespace Tree

variable {c : Category}

/-- Every identifier of the tree, with the scope it is looked up from. -/
def identifiers (t : Tree c) (s : ScopeId) : List (ScopeId × Occurrence) :=
  (t.sites s).flatMap Site.identifiers

/-- Every identifier of the tree stands for a variable. -/
def AllVariables (table : ScopeTable) (s : ScopeId) (t : Tree c) : Prop :=
  ∀ x ∈ t.identifiers s, table.namesVariable x.1 x.2.name = true

instance (table : ScopeTable) (s : ScopeId) (t : Tree c) : Decidable (t.AllVariables table s) :=
  inferInstanceAs (Decidable (∀ x ∈ t.identifiers s, table.namesVariable x.1 x.2.name = true))

theorem wording_eq (t : Tree c) (s : ScopeId) :
    t.wording = .join (((t.sites s).flatMap Site.contents).map Expr.text) := by
  rw [flatMap_contents_sites, wording]

end Tree

namespace Resolver

variable {table : ScopeTable} {c : Category} {r r' : Resolver} {t t' : Tree c}

theorem labelled_text_of_allVariables (h : (resolve table r t).2.1 = .ok ())
    (hvars : t.AllVariables table r.current) :
    (resolve table r t).1.labelled Expr.text = t.labelled Expr.text := by
  apply Tree.labelled_eq (skeleton_resolve table r t)
  rw [sites_resolve_of_ok table h, List.map_map]
  apply List.map_congr_left
  intro site hsite
  apply Site.labelled_text_resolved
  intro x hx
  exact hvars x (List.mem_flatMap.2 ⟨site, hsite, hx⟩)

theorem labelled_empty_resolve (h : (resolve table r t).2.1 = .ok ()) :
    ((resolve table r t).1.labelled fun _ => "") = t.labelled fun _ => "" := by
  apply Tree.labelled_eq (skeleton_resolve table r t)
  rw [sites_resolve_of_ok table h, List.map_map]
  exact List.map_congr_left fun site _ => site.labelled_empty_resolved

/-- Resolution takes the characters of the names away and brings those of what they become. -/
theorem countIn_render_resolve (h : (resolve table r t).2.1 = .ok ()) (p : Char → Bool)
    (level : Nat) :
    countIn p ((resolve table r t).1.render level) +
        countIn p (.join ((t.identifiers r.current).map (·.2.name))) =
      countIn p (t.render level) +
        countIn p (.join ((t.identifiers r.current).map table.boundText)) := by
  have hsites := Site.countIn_flatMap_resolved table p (t.sites r.current)
  rw [← sites_resolve_of_ok table h, ← Tree.wording_eq, ← Tree.wording_eq] at hsites
  rw [Tree.countIn_render, Tree.countIn_render p t, labelled_empty_resolve h]
  unfold Tree.identifiers
  omega

theorem allVariables_of_render_eq (h : (resolve table r t).2.1 = .ok ())
    (hnames : ∀ x ∈ t.identifiers r.current, MatchesIdentifier x.2.name) {level : Nat}
    (hrender : (resolve table r t).1.render level = t.render level) :
    t.AllVariables table r.current := by
  apply ScopeTable.namesVariable_of_countIn hnames
  intro p
  have hcount := countIn_render_resolve h p level
  rw [hrender] at hcount
  omega

/-- A tree whose identifiers all stand for variables is rendered after its resolution as before,
whatever becomes of its calls, and at a level with no room for it then as little as before. Of
trees with well-formed names no other is, at any level. -/
theorem rendering_kept_iff_variables (h : resolve table r t = (t', .ok (), r')) :
    (t.AllVariables table r.current → (∀ level, t'.render level = t.render level) ∧
      ∀ overflow level, t'.render? overflow level = t.render? overflow level) ∧
      ((∀ x ∈ t.identifiers r.current, MatchesIdentifier x.2.name) →
        ∀ level, t'.render level = t.render level → t.AllVariables table r.current) := by
  have hok : (resolve table r t).2.1 = .ok () := by rw [h]
  have htree : (resolve table r t).1 = t' := by rw [h]
  rw [← htree]
  constructor
  · intro hvars
    exact Tree.render_congr (labelled_text_of_allVariables hok hvars)
  · intro hnames level hrender
    exact allVariables_of_render_eq hok hnames hrender

/-- The procedure doubles its own variable; the main block reads the outer one, calls the
procedure, writes the negated variable and calls what is not declared. -/
def variableProgram : Tree .block :=
  .block ⟨1, 1⟩ .root
    (.procedure ⟨2, 1⟩ "p" ⟨0⟩
      (.block ⟨2, 3⟩ ⟨1⟩ .noProcedures
        (.assign ⟨⟨2, 9⟩, [(.identifier ⟨2, 9⟩ "n", .coerce ⟨2, 14⟩ .narrow
          (.binary ⟨2, 25⟩ .add (.identifier ⟨2, 23⟩ "n") (.identifier ⟨2, 27⟩ "n")))]⟩))
      .noProcedures)
    (.list ⟨3, 1⟩
      (.sequence [.read ⟨3, 1⟩ (.identifier ⟨3, 6⟩ "n"), .call ⟨4, 1⟩ "p" none,
        .write ⟨5, 1⟩ (.unary ⟨5, 7⟩ .neg (.identifier ⟨5, 8⟩ "n")), .call ⟨6, 1⟩ "q" none]))

def variableProgramResolved : Tree .block :=
  .block ⟨1, 1⟩ .root
    (.procedure ⟨2, 1⟩ "p" ⟨0⟩
      (.block ⟨2, 3⟩ ⟨1⟩ .noProcedures
        (.assign ⟨⟨2, 9⟩, [(.var ⟨2, 9⟩ "n" ⟨1⟩, .coerce ⟨2, 25⟩ .narrow
          (.binary ⟨2, 25⟩ .add (.var ⟨2, 23⟩ "n" ⟨1⟩) (.var ⟨2, 27⟩ "n" ⟨1⟩)))]⟩))
      .noProcedures)
    (.list ⟨3, 1⟩
      (.sequence [.read ⟨3, 1⟩ (.var ⟨3, 6⟩ "n" .root), .call ⟨4, 1⟩ "p" (some ⟨0⟩),
        .write ⟨5, 1⟩ (.unary ⟨5, 7⟩ .neg (.var ⟨5, 8⟩ "n" .root)), .call ⟨6, 1⟩ "q" none]))

theorem renderings_of_hiding :
    variableProgram.AllVariables hidingTable .root ∧
      (∀ level, variableProgramResolved.render level = variableProgram.render level) ∧
      (∀ overflow level, variableProgramResolved.render? overflow level =
        variableProgram.render? overflow level) ∧
      ∀ level, hidingProgramResolved.render level ≠ hidingProgram.render level := by
  have hvars : variableProgram.AllVariables hidingTable .root := by decide
  have run : resolve hidingTable {} variableProgram = (variableProgramResolved, .ok (),
      { diagnostics := [.undefinedSymbol "q" 6], resolvedCalls := 1 }) := by rfl
  have hidingRun : resolve hidingTable {} hidingProgram = (hidingProgramResolved, .ok (),
      { diagnostics := [.typeMismatch "Variable" "Constant" "limit" 3, .undefinedSymbol "q" 6],
        resolvedCalls := 1 }) := by rfl
  have hnames : ∀ x ∈ hidingProgram.identifiers .root, isIdentifier x.2.name = true := by decide
  obtain ⟨hkeeps, hkeeps?⟩ := (rendering_kept_iff_variables run).1 hvars
  refine ⟨hvars, hkeeps, hkeeps?, fun level hrender => ?_⟩
  have hkept := (rendering_kept_iff_variables hidingRun).2
    (fun x hx => (isIdentifier_iff x.2.name).1 (hnames x hx)) level hrender
  exact absurd hkept (by decide)

end Resolver

end PlZero
