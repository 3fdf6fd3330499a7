import PlZero.Proofs.Resolver.Specification

/-! Resolving a second time. A resolved expression has no name left, so there is nothing to look
up in it; a call keeps its name and is looked up again from the same scope, with the same
result. So a second resolution changes nothing, and repeats what the first one reported for
calls. -/

namespace PlZero

namespace Site

variable (table : ScopeTable)

theorem occurrences_bound_substituted (s : ScopeId) (role : Role) (e : Expr) :
    (e.substituted (table.bound s) role).occurrences role = [] := by
  rw [Expr.occurrences_substituted, List.flatMap_eq_nil_iff]
  intro o _
  exact table.occurrences_bound s o o.role

theorem stuck_resolved {site : Site} (h : site.stuck table = false) :
    (site.resolved table).stuck table = false := by
  cases site with
  | expr s role e =>
    have hname : (resolved table (expr s role e)).hasName = false := by
      rw [resolved, hasName, occurrences_bound_substituted]
      rfl
    rw [stuck, hname, Bool.and_false]
  | call s loc name entry => exact h

theorem resolved_resolved (site : Site) :
    (site.resolved table).resolved table = site.resolved table := by
  cases site with
  | expr s role e =>
    have hnil := occurrences_bound_substituted table s role e
    rw [resolved, resolved, Expr.substituted_of_occurrences_eq_nil _ _ hnil]
  | call s loc name entry =>
    rw [resolved, resolved]
    cases table.callee? s name <;> rfl

theorem callees_resolved (site : Site) :
    (site.resolved table).callees table = site.callees table := by
  cases site <;> rfl

theorem faults_resolved (site : Site) :
    (site.resolved table).faults table = if site.isCall then site.faults table else [] := by
  cases site with
  | expr s role e =>
    have hnil := occurrences_bound_substituted table s role e
    rw [resolved, faults, hnil, List.filterMap_nil]
    rfl
  | call s loc name entry => rfl

/-- Of the faults at some sites, those at calls are what is left at the resolved sites. -/
theorem flatMap_faults_resolved (sites : List Site) :
    (sites.map (resolved table)).flatMap (faults table) =
      (sites.filter isCall).flatMap (faults table) := by
  induction sites with
  | nil => rfl
  | cons site rest ih =>
    rw [List.map_cons, List.flatMap_cons, ih, faults_resolved, List.filter_cons]
    cases site.isCall with
    | false => rfl
    | true => rw [if_pos rfl, if_pos rfl, List.flatMap_cons]

end Site

namespace Resolver

variable {table : ScopeTable}

theorem through_map_resolved (sites : List Site) (r : Resolver) :
    r.through table (sites.map (Site.resolved table)) =
      (r.report ((sites.filter Site.isCall).flatMap (Site.faults table))).countCalls
        (sites.flatMap (Site.callees table)).length := by
  rw [through, Site.flatMap_faults_resolved, List.flatMap_map]
  simp only [Site.callees_resolved]

theorem resolve_resolved {c : Category} {r again : Resolver} {t : Tree c}
    (hok : (resolve table r t).2.1 = .ok ()) (hscope : again.current = r.current) :
    resolve table again (resolve table r t).1 = ((resolve table r t).1, .ok (),
      again.through table ((t.sites r.current).map (Site.resolved table))) := by
  have hsites := sites_resolve_of_ok table hok
  have hagain : (resolve table again (resolve table r t).1).2.1 = .ok () := by
    rw [result_eq_ok_iff, hscope, hsites]
    intro site hmem
    obtain ⟨old, hold, rfl⟩ := List.mem_map.1 hmem
    exact Site.stuck_resolved table ((result_eq_ok_iff table r t).1 hok old hold)
  have hsame := sites_resolve_of_ok table hagain
  have hresolver := resolver_resolve_of_ok table hagain
  rw [hscope, hsites] at hsame hresolver
  refine Prod.ext ?_ (Prod.ext hagain hresolver)
  refine Tree.eq_of_sites_eq (s := r.current) (skeleton_resolve table again _) ?_
  rw [hsame, hsites, List.map_map]
  apply List.map_congr_left
  intro site _
  exact site.resolved_resolved table

/-- After a resolution that is not stopped, a second one from the same scope is not stopped
either. It leaves the tree as it is, counts as many calls, and reports what the first one
reported at calls, in the same order, and nothing at expressions. -/
theorem resolve_idempotent {table : ScopeTable} (reachable : table.Reachable)
    {r r' again : Resolver} {c : Category} {t t' : Tree c}
    (h : resolve table r t = (t', .ok (), r')) (hscope : again.current = r.current) :
    ∃ (reports : Site → List Fault) (calls : Nat),
      (∀ site ∈ t.sites r.current, ∃ new n, site.Resolves table new (reports site) n) ∧
      r' = { r with diagnostics := r.diagnostics ++ (t.sites r.current).flatMap reports
                    resolvedCalls := r.resolvedCalls + calls } ∧
      resolve table again t' = (t', .ok (),
        { again with
          diagnostics := again.diagnostics ++
            ((t.sites r.current).filter Site.isCall).flatMap reports
          resolvedCalls := again.resolvedCalls + calls }) := by
  have hok : (resolve table r t).2.1 = .ok () := by rw [h]
  have hfirst := resolver_resolve_of_ok table hok
  have hsecond := resolve_resolved hok hscope
  rw [h] at hfirst
  rw [h, through_map_resolved] at hsecond
  refine ⟨Site.faults table, ((t.sites r.current).flatMap (Site.callees table)).length, ?_,
    hfirst, hsecond⟩
  intro site hmem
  exact ⟨_, _, Site.resolves_resolved reachable.wellFormed
    ((result_eq_ok_iff table r t).1 hok site hmem)⟩

/-- What the resolver has recorded after its visit of the program. -/
def hidingRecord : Resolver :=
  { diagnostics := [.typeMismatch "Variable" "Constant" "limit" 3, .undefinedSymbol "q" 6],
    resolvedCalls := 1 }

theorem resolve_hidingProgram_again :
    resolve hidingTable {} hidingProgram = (hidingProgramResolved, .ok (), hidingRecord) ∧
    ∃ (reports : Site → List Fault) (calls : Nat),
      (∀ site ∈ hidingProgram.sites .root,
        ∃ new n, site.Resolves hidingTable new (reports site) n) ∧
      hidingRecord = { diagnostics := [] ++ (hidingProgram.sites .root).flatMap reports,
                       resolvedCalls := 0 + calls } ∧
      resolve hidingTable hidingRecord hidingProgramResolved = (hidingProgramResolved, .ok (),
        { hidingRecord with
          diagnostics := hidingRecord.diagnostics ++
            ((hidingProgram.sites .root).filter Site.isCall).flatMap reports
          resolvedCalls := 1 + calls }) := by
  have run : resolve hidingTable {} hidingProgram =
      (hidingProgramResolved, .ok (), hidingRecord) := by rfl
  exact ⟨run, resolve_idempotent ⟨_, rfl⟩ run rfl⟩

end Resolver

end PlZero
