import Mathlib.Data.List.TakeWhile
import PlZero.Proofs.Resolver.Names
import PlZero.Proofs.Tree.Sweep

/-! Resolution of a whole tree as a sweep over its sites. Up to the first site that has a name
but no scope to look it up from, every site is resolved by itself; from there on all stays
as it was. -/

namespace PlZero

namespace Site

def scope : Site → ScopeId
  | expr s _ _ => s
  | call s _ _ _ => s

/-- Whether there is a name to look up. -/
def hasName : Site → Bool
  | expr _ role e => !(e.occurrences role).isEmpty
  | call _ _ _ _ => true

variable (table : ScopeTable)

/-- Resolution cannot go past a name in a scope that the table does not have. -/
def stuck (site : Site) : Bool := table.scopeCount ≤ site.scope.index && site.hasName

theorem known_of_hasName {table : ScopeTable} {site : Site} (h : site.stuck table = false)
    (hn : site.hasName = true) : site.scope.index < table.scopeCount := by
  rw [stuck, hn, Bool.and_true, decide_eq_false_iff_not, Nat.not_le] at h
  exact h

theorem known_of_mem_occurrences {table : ScopeTable} {s : ScopeId} {role : Role} {e : Expr}
    {o : Occurrence} (h : (expr s role e).stuck table = false) (ho : o ∈ e.occurrences role) :
    s.index < table.scopeCount := by
  have hname : (expr s role e).hasName = true := by simp [hasName, List.ne_nil_of_mem ho]
  exact known_of_hasName h hname

def resolved : Site → Site
  | expr s role e => expr s role (e.substituted (table.bound s) role)
  | call s loc name entry => call s loc name ((table.callee? s name).or entry)

def faults : Site → List Fault
  | expr s role e => (e.occurrences role).filterMap (table.fault? s)
  | call s loc name _ => (table.callFault? s loc name).toList

/-- The procedure that is called at the site, if it is known. -/
def callees : Site → List ProcedureId
  | expr _ _ _ => []
  | call s _ name _ => (table.callee? s name).toList

end Site

namespace Resolver

variable (table : ScopeTable)

/-- The resolver after it has gone through some sites. -/
def through (sites : List Site) (r : Resolver) : Resolver :=
  (r.report (sites.flatMap (Site.faults table))).countCalls
    (sites.flatMap (Site.callees table)).length

def visit (site : Site) (p : Progress) : Site × Progress :=
  if p.fault.isSome then (site, p)
  else if site.stuck table then (site, { p with fault := some (.unknownScope site.scope) })
  else (site.resolved table, { p with resolver := p.resolver.through table [site] })

theorem through_nil (r : Resolver) : r.through table [] = r := by
  simp [through, report, countCalls]

theorem through_singleton (site : Site) (r : Resolver) :
    r.through table [site] =
      (r.report (site.faults table)).countCalls (site.callees table).length := by
  simp [through]

theorem through_append (first second : List Site) (r : Resolver) :
    r.through table (first ++ second) = (r.through table first).through table second := by
  simp [through, report, countCalls, Nat.add_assoc]

variable {table}

theorem visit_stopped {p : Progress} {fault : Fault} (h : p.fault = some fault) (site : Site) :
    visit table site p = (site, p) := by
  rw [visit, h, Option.isSome_some, if_pos rfl]

theorem visit_going {site : Site} (h : site.stuck table = false) (r : Resolver) :
    visit table site { resolver := r } =
      (site.resolved table, { resolver := r.through table [site] }) := by
  simp [visit, h]

theorem visit_stuck {site : Site} (h : site.stuck table = true) (r : Resolver) :
    visit table site { resolver := r } =
      (site, { resolver := r, fault := some (.unknownScope site.scope) }) := by
  simp [visit, h]

theorem stuck_of_known {site : Site} (hs : site.scope.index < table.scopeCount) :
    site.stuck table = false := by
  simp [Site.stuck, Nat.not_le.2 hs]

theorem attempt_bindExpr (r : Resolver) (role : Role) (e : Expr) :
    visit table (.expr r.current role e) { resolver := r } =
      (.expr r.current role (attempt (bindExpr table role e) e { resolver := r }).1,
        (attempt (bindExpr table role e) e { resolver := r }).2) := by
  by_cases hs : r.current.index < table.scopeCount
  · have hgoing : (Site.expr r.current role e).stuck table = false := stuck_of_known hs
    rw [visit_going hgoing, through_singleton]
    simp only [attempt, bindExpr_known hs]
    rfl
  · by_cases hnil : e.occurrences role = []
    · have hgoing : (Site.expr r.current role e).stuck table = false := by
        simp [Site.stuck, Site.hasName, hnil]
      rw [visit_going hgoing, through_singleton]
      simp only [attempt, bindExpr_unknown hs, Site.resolved, Site.faults, hnil,
        Expr.substituted_of_occurrences_eq_nil _ _ hnil, List.filterMap_nil, report_nil]
      rfl
    · have hstuck : (Site.expr r.current role e).stuck table = true := by
        simp [Site.stuck, Site.hasName, Site.scope, hnil, Nat.le_of_not_lt hs]
      rw [visit_stuck hstuck]
      simp only [attempt, bindExpr_unknown hs, if_neg hnil]
      rfl

theorem attempt_bindCall (r : Resolver) (loc : Location) (name : String)
    (old : Option ProcedureId) :
    visit table (.call r.current loc name old) { resolver := r } =
      (.call r.current loc name
        (attempt (return (← bindCall table loc name).map some) old { resolver := r }).1,
        (attempt (return (← bindCall table loc name).map some) old { resolver := r }).2) := by
  by_cases hs : r.current.index < table.scopeCount
  · have hgoing : (Site.call r.current loc name old).stuck table = false := stuck_of_known hs
    rw [visit_going hgoing, through_singleton]
    simp only [attempt, step_bind_apply, bindCall_known hs, step_pure_apply, Site.resolved,
      Site.callees]
    cases table.callee? r.current name <;> rfl
  · have hstuck : (Site.call r.current loc name old).stuck table = true := by
      simp [Site.stuck, Site.hasName, Site.scope, Nat.le_of_not_lt hs]
    rw [visit_stuck hstuck]
    simp only [attempt, step_bind_apply, bindCall_unknown hs]
    rfl

variable (table)

theorem pass_follows : (pass table).Follows (visit table) fun p s => p.resolver.current = s where
  expr {p s} hs role e := by
    obtain ⟨r, fault⟩ := p
    subst hs
    cases fault with
    | some fault => exact visit_stopped rfl _
    | none => exact attempt_bindExpr r role e
  entry {p s} hs loc name old := by
    obtain ⟨r, fault⟩ := p
    subst hs
    cases fault with
    | some fault => exact visit_stopped rfl _
    | none => exact attempt_bindCall r loc name old
  stays {p s} hs site := by
    unfold visit
    split_ifs <;> exact hs
  enters p inner := rfl
  visit_enter site p inner := by
    obtain ⟨r, fault⟩ := p
    cases fault with
    | some fault => rfl
    | none =>
      cases hstuck : site.stuck table with
      | true => rw [visit_stuck hstuck]; exact visit_stuck hstuck _
      | false => rw [visit_going hstuck]; exact visit_going hstuck _
  leave_enter p inner := rfl

/-- The sites before the first one where resolution is stuck. -/
def reached (sites : List Site) : List Site := sites.takeWhile fun site => !site.stuck table

def unreached (sites : List Site) : List Site := sites.dropWhile fun site => !site.stuck table

theorem reached_append_unreached (sites : List Site) :
    reached table sites ++ unreached table sites = sites := List.takeWhile_append_dropWhile

theorem unreached_eq_nil_iff (sites : List Site) :
    unreached table sites = [] ↔ ∀ site ∈ sites, site.stuck table = false := by
  simp [unreached]

theorem sweep_stopped {p : Progress} {fault : Fault} (h : p.fault = some fault)
    (sites : List Site) : Site.sweep (visit table) sites p = (sites, p) := by
  induction sites with
  | nil => rfl
  | cons site rest ih => rw [Site.sweep, visit_stopped h, ih]

theorem sweep_visit (sites : List Site) (r : Resolver) :
    Site.sweep (visit table) sites { resolver := r } =
      ((reached table sites).map (Site.resolved table) ++ unreached table sites,
        { resolver := r.through table (reached table sites)
          fault := (unreached table sites).head?.map fun site => .unknownScope site.scope }) := by
  induction sites generalizing r with
  | nil => simp [Site.sweep, reached, unreached, through_nil]
  | cons site rest ih =>
    cases hstuck : site.stuck table with
    | true =>
      rw [Site.sweep, visit_stuck hstuck, sweep_stopped table rfl]
      simp [reached, unreached, hstuck, through_nil]
    | false =>
      have hreached : reached table (site :: rest) = [site] ++ reached table rest := by
        simp [reached, hstuck]
      have hunreached : unreached table (site :: rest) = unreached table rest := by
        simp [unreached, hstuck]
      rw [Site.sweep, visit_going hstuck, ih, hreached, hunreached, through_append]
      rfl

/-! ### Whole trees -/

variable {c : Category} (r : Resolver) (t : Tree c)

theorem skeleton_resolve : (resolve table r t).1.skeleton = t.skeleton :=
  t.skeleton_traverse (pass table) { resolver := r }

theorem traverse_pass : ((t.traverse (pass table) { resolver := r }).1.sites r.current,
    (t.traverse (pass table) { resolver := r }).2) =
      ((reached table (t.sites r.current)).map (Site.resolved table) ++
        unreached table (t.sites r.current),
      { resolver := r.through table (reached table (t.sites r.current))
        fault := (unreached table (t.sites r.current)).head?.map
          fun site => .unknownScope site.scope }) := by
  rw [← sweep_visit]
  exact (t.sites_traverse (pass_follows table) rfl).symm

theorem sites_resolve : (resolve table r t).1.sites r.current =
    (reached table (t.sites r.current)).map (Site.resolved table) ++
      unreached table (t.sites r.current) :=
  congrArg Prod.fst (traverse_pass table r t)

theorem result_resolve : (resolve table r t).2.1 =
    match unreached table (t.sites r.current) with
    | [] => .ok ()
    | site :: _ => .error (.unknownScope site.scope) := by
  have h := congrArg (fun x => x.2.fault.elim (Except.ok ()) Except.error) (traverse_pass table r t)
  refine h.trans ?_
  cases unreached table (t.sites r.current) <;> rfl

theorem resolver_resolve : (resolve table r t).2.2 =
    r.through table (reached table (t.sites r.current)) :=
  congrArg (fun x => x.2.resolver) (traverse_pass table r t)

/-- Nothing stops a resolution that is stuck nowhere, and anything else does. -/
theorem result_eq_ok_iff : (resolve table r t).2.1 = .ok () ↔
    ∀ site ∈ t.sites r.current, site.stuck table = false := by
  rw [result_resolve, ← unreached_eq_nil_iff]
  cases unreached table (t.sites r.current) <;> simp

variable {r t}

theorem reached_of_ok (h : (resolve table r t).2.1 = .ok ()) :
    reached table (t.sites r.current) = t.sites r.current := by
  rw [reached, List.takeWhile_eq_self_iff]
  intro site hmem
  simp [(result_eq_ok_iff table r t).1 h site hmem]

theorem sites_resolve_of_ok (h : (resolve table r t).2.1 = .ok ()) :
    (resolve table r t).1.sites r.current = (t.sites r.current).map (Site.resolved table) := by
  have hnil : unreached table (t.sites r.current) = [] :=
    (unreached_eq_nil_iff table _).2 ((result_eq_ok_iff table r t).1 h)
  rw [sites_resolve, reached_of_ok table h, hnil, List.append_nil]

theorem resolver_resolve_of_ok (h : (resolve table r t).2.1 = .ok ()) :
    (resolve table r t).2.2 = r.through table (t.sites r.current) := by
  rw [resolver_resolve, reached_of_ok table h]

end Resolver

end PlZero
