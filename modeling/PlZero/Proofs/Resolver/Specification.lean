import PlZero.Proofs.Resolver.Sweep

/-! What resolution should do, said without it: what each name stands for by the nearest
declaration, what is reported where it stands for nothing fit, and that all else stays. The
main statement is that a resolution that is not stopped does just that. -/

namespace PlZero

/-! ### Single names -/

/-- What an identifier in the scope `s` has to become, and what has to be reported. A target
must be a variable; a value may be a constant as well. -/
inductive Binding (table : ScopeTable) (s : ScopeId) :
    Occurrence → Expr → List Fault → Prop where
  | var {role : Role} {loc : Location} {name : String} {d : ScopeId} {line level : Nat}
      (h : table.Nearest s name d ⟨.var, line, level⟩) :
      Binding table s ⟨role, loc, name⟩ (.var loc name d) []
  | constant {loc : Location} {name : String} {d : ScopeId} {value : Int64} {line level : Nat}
      (h : table.Nearest s name d ⟨.constant value, line, level⟩) :
      Binding table s ⟨.value, loc, name⟩ (.const loc value) []
  | constantTarget {loc : Location} {name : String} {d : ScopeId} {value : Int64}
      {line level : Nat} (h : table.Nearest s name d ⟨.constant value, line, level⟩) :
      Binding table s ⟨.target, loc, name⟩ (.error loc)
        [.typeMismatch "Variable" "Constant" name loc.line]
  | procedureTarget {loc : Location} {name : String} {d : ScopeId} {id : ProcedureId}
      {line level : Nat} (h : table.Nearest s name d ⟨.procedure id, line, level⟩) :
      Binding table s ⟨.target, loc, name⟩ (.error loc)
        [.typeMismatch "Variable" "Procedure" name loc.line]
  | procedureValue {loc : Location} {name : String} {d : ScopeId} {id : ProcedureId}
      {line level : Nat} (h : table.Nearest s name d ⟨.procedure id, line, level⟩) :
      Binding table s ⟨.value, loc, name⟩ (.error loc)
        [.typeMismatch "Variable or Constant" "Procedure" name loc.line]
  | undeclared {role : Role} {loc : Location} {name : String} (h : table.Undeclared s name) :
      Binding table s ⟨role, loc, name⟩ (.error loc) [.undefinedSymbol name loc.line]

/-- What the entry of a call in the scope `s` has to become, what has to be reported, and by
how much the count of resolved calls grows. -/
inductive CallBinding (table : ScopeTable) (s : ScopeId) (loc : Location) (name : String)
    (old : Option ProcedureId) : Option ProcedureId → List Fault → Nat → Prop where
  | procedure {d : ScopeId} {id : ProcedureId} {line level : Nat}
      (h : table.Nearest s name d ⟨.procedure id, line, level⟩) :
      CallBinding table s loc name old (some id) [] 1
  | constant {d : ScopeId} {value : Int64} {line level : Nat}
      (h : table.Nearest s name d ⟨.constant value, line, level⟩) :
      CallBinding table s loc name old old
        [.typeMismatch "Procedure" "Constant" name loc.line] 0
  | var {d : ScopeId} {line level : Nat} (h : table.Nearest s name d ⟨.var, line, level⟩) :
      CallBinding table s loc name old old
        [.typeMismatch "Procedure" "Variable" name loc.line] 0
  | undeclared (h : table.Undeclared s name) :
      CallBinding table s loc name old old [.undefinedSymbol name loc.line] 0

namespace ScopeTable.WellFormed

variable {table : ScopeTable} {s : ScopeId}

theorem binding_bound (h : table.WellFormed) (hs : s.index < table.scopeCount)
    (o : Occurrence) : Binding table s o (table.bound s o) (table.fault? s o).toList := by
  obtain ⟨role, loc, name⟩ := o
  have hspec := h.found?_spec hs name
  unfold bound fault?
  cases hf : table.found? s name with
  | none =>
    rw [hf] at hspec
    exact .undeclared hspec
  | some found =>
    obtain ⟨d, meaning, line, level⟩ := found
    rw [hf] at hspec
    cases meaning with
    | var => cases role <;> exact .var hspec
    | constant value =>
      cases role with
      | target => exact .constantTarget hspec
      | value => exact .constant hspec
    | procedure id =>
      cases role with
      | target => exact .procedureTarget hspec
      | value => exact .procedureValue hspec

theorem callBinding_callee (h : table.WellFormed) (hs : s.index < table.scopeCount)
    (loc : Location) (name : String) (old : Option ProcedureId) :
    CallBinding table s loc name old ((table.callee? s name).or old)
      (table.callFault? s loc name).toList (table.callee? s name).toList.length := by
  have hspec := h.found?_spec hs name
  unfold callee? callFault?
  cases hf : table.found? s name with
  | none =>
    rw [hf] at hspec
    simpa using .undeclared hspec
  | some found =>
    obtain ⟨d, meaning, line, level⟩ := found
    rw [hf] at hspec
    cases meaning with
    | var => simpa using .var hspec
    | constant value => simpa using .constant hspec
    | procedure id => exact .procedure hspec

end ScopeTable.WellFormed

/-! ### Expressions -/

/-- A node by itself: without its operands, and without the place of a coercion. -/
def Expr.label : Expr → Expr
  | unary loc op _ => unary loc op default
  | binary loc op _ _ => binary loc op default default
  | coerce _ c _ => coerce default c default
  | e => e

/-- `new` is `old`, an expression in the scope `s`, with every name resolved. -/
structure Resolution (table : ScopeTable) (s : ScopeId) (role : Role) (old new : Expr) :
    Prop where
  /-- Each identifier has become what it stands for in the role it has. -/
  names : ∀ (path : List Nat) (ρ : Role) (loc : Location) (name : String),
    old.nodeAt? role path = some (ρ, .identifier loc name) →
    ∃ x faults, new.nodeAt? role path = some (ρ, x) ∧ Binding table s ⟨ρ, loc, name⟩ x faults
  /-- No identifier is left. -/
  no_names : ∀ (path : List Nat) (ρ : Role) (loc : Location) (name : String),
    new.nodeAt? role path ≠ some (ρ, .identifier loc name)
  /-- Any other node is still there, and a part without names is the same throughout. -/
  others : ∀ (path : List Nat) (ρ : Role) (x : Expr), old.nodeAt? role path = some (ρ, x) →
    (∀ loc name, x ≠ .identifier loc name) →
    ∃ x', new.nodeAt? role path = some (ρ, x') ∧ x'.label = x.label ∧
      (x.occurrences ρ = [] → x' = x)
  /-- A coercion of something with names stands where its new operand stands. -/
  coercions : ∀ (path : List Nat) (ρ : Role) (loc : Location) (c : Coercion) (e : Expr),
    old.nodeAt? role path = some (ρ, .coerce loc c e) → e.occurrences ρ ≠ [] →
    ∃ e', new.nodeAt? role path = some (ρ, .coerced c e')

/-- What has to be reported for names in their order. -/
inductive Reports (table : ScopeTable) (s : ScopeId) : List Occurrence → List Fault → Prop where
  | nil : Reports table s [] []
  | cons {o : Occurrence} {os : List Occurrence} {x : Expr} {faults more : List Fault}
      (h : Binding table s o x faults) (rest : Reports table s os more) :
      Reports table s (o :: os) (faults ++ more)

namespace ScopeTable.WellFormed

variable {table : ScopeTable} {s : ScopeId}

theorem reports (h : table.WellFormed) (hs : s.index < table.scopeCount)
    (os : List Occurrence) : Reports table s os (os.filterMap (table.fault? s)) := by
  induction os with
  | nil => exact .nil
  | cons o os ih =>
    have hcons : (o :: os).filterMap (table.fault? s) =
        (table.fault? s o).toList ++ os.filterMap (table.fault? s) := by
      rw [List.filterMap_cons]
      cases table.fault? s o <;> rfl
    rw [hcons]
    exact .cons (h.binding_bound hs o) ih

end ScopeTable.WellFormed

theorem Expr.label_substituted (f : Occurrence → Expr) (role : Role) {x : Expr}
    (hx : ∀ loc name, x ≠ identifier loc name) : (x.substituted f role).label = x.label := by
  cases x with
  | error _ | const _ _ | var _ _ _ => rfl
  | identifier loc name => exact absurd rfl (hx loc name)
  | unary loc op e => rw [substituted_unary]; rfl
  | binary loc op l r => rw [substituted_binary]; rfl
  | coerce loc c e =>
    rw [substituted_coerce]
    split <;> rfl

/-- A substitution by what the names stand for is a resolution. -/
theorem resolution_substituted {table : ScopeTable} {s : ScopeId} {role : Role} {e : Expr}
    {f : Occurrence → Expr} (hf : ∀ o ρ, (f o).occurrences ρ = [])
    (hb : ∀ o ∈ e.occurrences role, ∃ faults, Binding table s o (f o) faults) :
    Resolution table s role e (e.substituted f role) where
  names path ρ loc name h := by
    obtain ⟨faults, hbinding⟩ := hb _ (Expr.mem_occurrences_of_nodeAt? role h)
    exact ⟨f ⟨ρ, loc, name⟩, faults, Expr.nodeAt?_substituted f role h, hbinding⟩
  no_names path ρ loc name h := by
    have hmem := Expr.mem_occurrences_of_nodeAt? role h
    rw [Expr.occurrences_substituted] at hmem
    obtain ⟨o, -, ho⟩ := List.mem_flatMap.1 hmem
    rw [hf] at ho
    exact nomatch ho
  others path ρ x h hx := by
    refine ⟨x.substituted f ρ, Expr.nodeAt?_substituted f role h, x.label_substituted f ρ hx, ?_⟩
    intro hnil
    exact Expr.substituted_of_occurrences_eq_nil f ρ hnil
  coercions path ρ loc c x h hne := by
    refine ⟨x.substituted f ρ, ?_⟩
    have hsome : (x.substitute? f ρ).isSome = true := by
      rw [Option.isSome_iff_ne_none, ne_eq, Expr.substitute?_eq_none_iff]
      exact hne
    rw [Expr.nodeAt?_substituted f role h, Expr.substituted_coerce, if_pos hsome]

/-! ### Sites -/

namespace Site

/-- What resolution has to do at a site: the new content, what to report, and how many calls
it resolves. -/
inductive Resolves (table : ScopeTable) : Site → Site → List Fault → Nat → Prop where
  | expr {s : ScopeId} {role : Role} {old new : Expr} {faults : List Fault}
      (h : Resolution table s role old new)
      (reports : Reports table s (old.occurrences role) faults) :
      Resolves table (expr s role old) (expr s role new) faults 0
  | call {s : ScopeId} {loc : Location} {name : String} {old new : Option ProcedureId}
      {faults : List Fault} {calls : Nat}
      (h : CallBinding table s loc name old new faults calls) :
      Resolves table (call s loc name old) (call s loc name new) faults calls

/-- What resolution has to do at sites in their order. -/
inductive AllResolve (table : ScopeTable) : List Site → List Site → List Fault → Nat → Prop where
  | nil : AllResolve table [] [] [] 0
  | cons {old new : Site} {olds news : List Site} {faults more : List Fault} {calls n : Nat}
      (h : Resolves table old new faults calls) (rest : AllResolve table olds news more n) :
      AllResolve table (old :: olds) (new :: news) (faults ++ more) (calls + n)

variable {table : ScopeTable}

theorem resolves_resolved (h : table.WellFormed) {site : Site}
    (hgoing : site.stuck table = false) :
    Resolves table site (site.resolved table) (site.faults table)
      (site.callees table).length := by
  cases site with
  | expr s role e =>
    by_cases hnil : e.occurrences role = []
    · have hfaults : (expr s role e).faults table = [] := by rw [faults, hnil, List.filterMap_nil]
      rw [hfaults]
      refine .expr (resolution_substituted (table.occurrences_bound s) ?_) ?_
      · rw [hnil]
        exact fun o ho => absurd ho List.not_mem_nil
      · rw [hnil]
        exact .nil
    · have hs : s.index < table.scopeCount := known_of_hasName hgoing (by simp [hasName, hnil])
      refine .expr (resolution_substituted (table.occurrences_bound s) ?_) (h.reports hs _)
      exact fun o _ => ⟨_, h.binding_bound hs o⟩
  | call s loc name old =>
    have hs : s.index < table.scopeCount := known_of_hasName hgoing rfl
    exact .call (h.callBinding_callee hs loc name old)

theorem allResolve_map (h : table.WellFormed) {sites : List Site}
    (hgoing : ∀ site ∈ sites, site.stuck table = false) :
    AllResolve table sites (sites.map (resolved table)) (sites.flatMap (faults table))
      (sites.flatMap (callees table)).length := by
  induction sites with
  | nil => exact .nil
  | cons site rest ih =>
    rw [List.map_cons, List.flatMap_cons, List.flatMap_cons, List.length_append]
    exact .cons (resolves_resolved h (hgoing site List.mem_cons_self))
      (ih fun other hmem => hgoing other (List.mem_cons_of_mem _ hmem))

end Site

namespace Resolver

/-- A resolution that is not stopped resolves every name from the scope of the innermost block
around it, reports in order what is wrong, counts the calls it binds, and changes nothing
else. -/
theorem resolve_meets_specification {table : ScopeTable} (reachable : table.Reachable)
    {r r' : Resolver} (idle : r.enclosing = []) {c : Category} {t t' : Tree c}
    (h : resolve table r t = (t', .ok (), r')) :
    t'.skeleton = t.skeleton ∧ ∃ faults calls,
      Site.AllResolve table (t.sites .root) (t'.sites .root) faults calls ∧
      r' = { enclosing := [], diagnostics := r.diagnostics ++ faults,
             resolvedCalls := r.resolvedCalls + calls } := by
  have hroot : r.current = .root := by rw [current, idle]; rfl
  have hok : (resolve table r t).2.1 = .ok () := by rw [h]
  have hgoing := (result_eq_ok_iff table r t).1 hok
  have hskeleton := skeleton_resolve table r t
  have hsites := sites_resolve_of_ok table hok
  have hresolver := resolver_resolve_of_ok table hok
  rw [hroot] at hgoing hsites hresolver
  rw [h] at hskeleton hsites hresolver
  refine ⟨hskeleton, (t.sites .root).flatMap (Site.faults table),
    ((t.sites .root).flatMap (Site.callees table)).length, ?_, ?_⟩
  · rw [show t'.sites .root = _ from hsites]
    exact Site.allResolve_map reachable.wellFormed hgoing
  · rw [show r' = _ from hresolver, through, report, countCalls, idle]

/-- A constant, and a variable that is hidden in the scope of a procedure. -/
def hidingTable : ScopeTable :=
  ScopeTable.empty.after [.defineConstant .root "limit" 3 1, .defineVariable .root "n" 1,
    .defineProcedure .root "p" 2, .defineVariable ⟨1⟩ "n" 2]

/-- The procedure adds the constant to its own variable; the main block reads into the
constant, calls the procedure, writes the outer variable and calls what is not declared. -/
def hidingProgram : Tree .block :=
  .block ⟨1, 1⟩ .root
    (.procedure ⟨2, 1⟩ "p" ⟨0⟩
      (.block ⟨2, 3⟩ ⟨1⟩ .noProcedures
        (.assign ⟨⟨2, 9⟩, [(.identifier ⟨2, 9⟩ "n", .coerce ⟨2, 14⟩ .narrow
          (.binary ⟨2, 25⟩ .add (.identifier ⟨2, 23⟩ "n") (.identifier ⟨2, 27⟩ "limit")))]⟩))
      .noProcedures)
    (.list ⟨3, 1⟩
      (.sequence [.read ⟨3, 1⟩ (.identifier ⟨3, 6⟩ "limit"), .call ⟨4, 1⟩ "p" none,
        .write ⟨5, 1⟩ (.identifier ⟨5, 7⟩ "n"), .call ⟨6, 1⟩ "q" none]))

def hidingProgramResolved : Tree .block :=
  .block ⟨1, 1⟩ .root
    (.procedure ⟨2, 1⟩ "p" ⟨0⟩
      (.block ⟨2, 3⟩ ⟨1⟩ .noProcedures
        (.assign ⟨⟨2, 9⟩, [(.var ⟨2, 9⟩ "n" ⟨1⟩, .coerce ⟨2, 25⟩ .narrow
          (.binary ⟨2, 25⟩ .add (.var ⟨2, 23⟩ "n" ⟨1⟩) (.const ⟨2, 27⟩ 3)))]⟩))
      .noProcedures)
    (.list ⟨3, 1⟩
      (.sequence [.read ⟨3, 1⟩ (.error ⟨3, 6⟩), .call ⟨4, 1⟩ "p" (some ⟨0⟩),
        .write ⟨5, 1⟩ (.var ⟨5, 7⟩ "n" .root), .call ⟨6, 1⟩ "q" none]))

theorem resolve_hidingProgram :
    hidingProgramResolved.skeleton = hidingProgram.skeleton ∧ ∃ faults calls,
      Site.AllResolve hidingTable (hidingProgram.sites .root) (hidingProgramResolved.sites .root)
        faults calls ∧
      ({ enclosing := [],
         diagnostics := [.typeMismatch "Variable" "Constant" "limit" 3, .undefinedSymbol "q" 6],
         resolvedCalls := 1 } : Resolver) =
        { enclosing := [], diagnostics := [] ++ faults, resolvedCalls := 0 + calls } := by
  have run : resolve hidingTable {} hidingProgram = (hidingProgramResolved, .ok (),
      { diagnostics := [.typeMismatch "Variable" "Constant" "limit" 3, .undefinedSymbol "q" 6],
        resolvedCalls := 1 }) := by rfl
  exact resolve_meets_specification ⟨_, rfl⟩ rfl run

end Resolver

end PlZero
