import PlZero.Proofs.Expr.Substitute
import PlZero.Proofs.ScopeTable.Search
import PlZero.Resolver

/-! What resolution does to a single expression or call. From a scope that exists it is a
substitution with a list of faults; from a scope that does not exist the first name stops
it and nothing is recorded. -/

namespace PlZero

/-! ### What a name stands for -/

namespace ScopeTable

/-- What is put in the place of an identifier that stands in the scope `s`. -/
def bound (table : ScopeTable) (s : ScopeId) (o : Occurrence) : Expr :=
  match table.found? s o.name with
  | none => .error o.loc
  | some (d, symbol) =>
    match o.role, symbol.meaning with
    | _, .var => .var o.loc o.name d
    | .value, .constant value => .const o.loc value
    | _, _ => .error o.loc

/-- What is wrong with an identifier, if something is. -/
def fault? (table : ScopeTable) (s : ScopeId) (o : Occurrence) : Option Fault :=
  match table.found? s o.name with
  | none => some (.undefinedSymbol o.name o.loc.line)
  | some (_, symbol) =>
    match o.role, symbol.meaning with
    | _, .var => none
    | .value, .constant _ => none
    | _, other => some (.typeMismatch (Resolver.admitted o.role) other.kindName o.name o.loc.line)

/-- The procedure that a called name stands for. -/
def callee? (table : ScopeTable) (s : ScopeId) (name : String) : Option ProcedureId :=
  match table.found? s name with
  | some (_, ⟨.procedure id, _, _⟩) => some id
  | _ => none

/-- What is wrong with a called name, if something is. -/
def callFault? (table : ScopeTable) (s : ScopeId) (loc : Location) (name : String) :
    Option Fault :=
  match table.found? s name with
  | none => some (.undefinedSymbol name loc.line)
  | some (_, symbol) =>
    match symbol.meaning with
    | .procedure _ => none
    | other => some (.typeMismatch "Procedure" other.kindName name loc.line)

theorem occurrences_bound (table : ScopeTable) (s : ScopeId) (o : Occurrence) (role : Role) :
    (table.bound s o).occurrences role = [] := by
  unfold bound
  split
  · rfl
  · split <;> rfl

end ScopeTable

/-! ### Steps of resolution -/

namespace Resolver

variable {table : ScopeTable} {r : Resolver}

theorem step_bind_apply {α β : Type} (x : Step α) (f : α → Step β) (r : Resolver) :
    (x >>= f) r = match x r with
      | .ok a r => f a r
      | .error fault r => .error fault r := by
  simp only [bind, EStateM.bind]
  cases x r <;> rfl

theorem step_pure_apply {α : Type} (a : α) (r : Resolver) : (pure a : Step α) r = .ok a r := rfl

theorem step_get_apply (r : Resolver) : (get : Step Resolver) r = .ok r r := rfl

/-- The resolver with some more diagnostics. -/
def report (r : Resolver) (faults : List Fault) : Resolver :=
  { r with diagnostics := r.diagnostics ++ faults }

@[simp] theorem current_fresh : current {} = .root := rfl

@[simp] theorem current_report (faults : List Fault) : (r.report faults).current = r.current := rfl

theorem report_nil : r.report [] = r := by
  rw [report, List.append_nil]

theorem report_report (faults more : List Fault) :
    (r.report faults).report more = r.report (faults ++ more) := by
  rw [report, report, report, List.append_assoc]

theorem record_apply (fault : Fault) (r : Resolver) :
    record fault r = .ok () (r.report [fault]) := rfl

theorem bindName_known (hs : r.current.index < table.scopeCount) (role : Role) (loc : Location)
    (name : String) : bindName table role loc name r =
      .ok (table.bound r.current ⟨role, loc, name⟩)
        (r.report (table.fault? r.current ⟨role, loc, name⟩).toList) := by
  have hn := table.nearest_eq r.current name
  rw [if_pos hs] at hn
  unfold bindName ScopeTable.bound ScopeTable.fault?
  simp only [step_bind_apply, step_get_apply, hn]
  cases hf : table.found? r.current name with
  | none => rfl
  | some found =>
    obtain ⟨d, meaning, line, level⟩ := found
    cases role <;> cases meaning <;>
      simp [step_bind_apply, step_pure_apply, record_apply, report_nil]

theorem bindName_unknown (hs : ¬ r.current.index < table.scopeCount) (role : Role)
    (loc : Location) (name : String) :
    bindName table role loc name r = .error (.unknownScope r.current) r := by
  have hn := table.nearest_eq r.current name
  rw [if_neg hs] at hn
  unfold bindName
  simp only [step_bind_apply, step_get_apply, hn]
  rfl

/-- From a scope that exists, every name is replaced and every fault recorded. -/
theorem bindExpr_known (hs : r.current.index < table.scopeCount) (role : Role) (e : Expr) :
    bindExpr table role e r =
      .ok (e.substitute? (table.bound r.current) role)
        (r.report ((e.occurrences role).filterMap (table.fault? r.current))) := by
  induction e generalizing role r with
  | error _ | const _ _ | var _ _ _ =>
    rw [bindExpr, step_pure_apply, Expr.substitute?, Expr.occurrences, List.filterMap_nil,
      report_nil]
  | identifier loc n =>
    rw [bindExpr, step_bind_apply, bindName_known hs]
    simp only [step_pure_apply, Expr.substitute?, Expr.occurrences, List.filterMap_cons,
      List.filterMap_nil]
    cases table.fault? r.current ⟨role, loc, n⟩ <;> rfl
  | unary loc op e ih =>
    rw [bindExpr, step_bind_apply, ih hs]
    rfl
  | binary loc op a b iha ihb =>
    rw [bindExpr, step_bind_apply, iha hs]
    simp only [step_bind_apply, ihb (r := r.report _) hs, current_report, report_report,
      Expr.substitute?, Expr.occurrences, List.filterMap_append]
    split <;> rfl
  | coerce loc c e ih =>
    rw [bindExpr, step_bind_apply, ih hs]
    rfl

/-- From a scope that does not exist, the first name is a fault that stops the step. -/
theorem bindExpr_unknown (hs : ¬ r.current.index < table.scopeCount) (role : Role) (e : Expr) :
    bindExpr table role e r =
      if e.occurrences role = [] then .ok none r else .error (.unknownScope r.current) r := by
  induction e generalizing role with
  | error _ | const _ _ | var _ _ _ => rfl
  | identifier loc n =>
    rw [bindExpr, step_bind_apply, bindName_unknown hs]
    rfl
  | unary loc op e ih =>
    rw [bindExpr, step_bind_apply, ih, Expr.occurrences]
    split_ifs <;> rfl
  | binary loc op a b iha ihb =>
    rw [bindExpr, step_bind_apply, iha, Expr.occurrences]
    by_cases ha : a.occurrences .value = []
    · simp only [ha, if_pos, List.nil_append, step_bind_apply, ihb]
      split_ifs <;> rfl
    · rw [if_neg ha, if_neg (by simp [ha])]
  | coerce loc c e ih =>
    rw [bindExpr, step_bind_apply, ih, Expr.occurrences]
    split_ifs <;> rfl

/-! ### Calls -/

/-- The resolver with some more resolved calls. -/
def countCalls (r : Resolver) (calls : Nat) : Resolver :=
  { r with resolvedCalls := r.resolvedCalls + calls }

theorem bindCall_known (hs : r.current.index < table.scopeCount) (loc : Location)
    (name : String) : bindCall table loc name r =
      .ok (table.callee? r.current name)
        ((r.report (table.callFault? r.current loc name).toList).countCalls
          (table.callee? r.current name).toList.length) := by
  have he := table.expect_eq r.current name "Procedure" loc.line
  rw [if_pos hs] at he
  unfold bindCall ScopeTable.callee? ScopeTable.callFault?
  simp only [step_bind_apply, step_get_apply, he]
  cases table.found? r.current name with
  | none => rfl
  | some found =>
    obtain ⟨d, meaning, line, level⟩ := found
    cases meaning with
    | constant value => rfl
    | var => rfl
    | procedure id =>
      simp only [Meaning.kindName, if_pos, Option.toList_none, report_nil]
      rfl

theorem bindCall_unknown (hs : ¬ r.current.index < table.scopeCount) (loc : Location)
    (name : String) : bindCall table loc name r = .error (.unknownScope r.current) r := by
  have he := table.expect_eq r.current name "Procedure" loc.line
  rw [if_neg hs] at he
  unfold bindCall
  simp only [step_bind_apply, step_get_apply, he]
  rfl

end Resolver

end PlZero
