import PlZero.Proofs.Resolver.Sweep
import PlZero.Proofs.Tree.Fold

/-! Folding before resolution. Folding moves no name and takes none away, so resolution of the
folded tree goes the same way; and what it leaves to fold is folded afterwards, so a folding
before resolution is not seen after one that follows it. -/

namespace PlZero

namespace Site

variable (table : ScopeTable)

theorem scope_folded (site : Site) : site.folded.scope = site.scope := by
  match site with
  | expr _ .value _ | expr _ .target _ | call _ _ _ _ => rfl

theorem hasName_folded (site : Site) : site.folded.hasName = site.hasName := by
  match site with
  | expr s .value e => rw [folded, hasName, e.occurrences_folded, hasName]
  | expr _ .target _ | call _ _ _ _ => rfl

theorem stuck_folded (site : Site) : site.folded.stuck table = site.stuck table := by
  rw [stuck, scope_folded, hasName_folded, stuck]

theorem faults_folded (site : Site) : site.folded.faults table = site.faults table := by
  match site with
  | expr s .value e => simp only [folded, faults, e.occurrences_folded]
  | expr _ .target _ | call _ _ _ _ => rfl

theorem callees_folded (site : Site) : site.folded.callees table = site.callees table := by
  match site with
  | expr _ .value _ | expr _ .target _ | call _ _ _ _ => rfl

theorem folded_resolved_folded (site : Site) :
    (site.folded.resolved table).folded = (site.resolved table).folded := by
  match site with
  | expr s .value e => simp only [folded, resolved, Expr.folded_substituted_folded]
  | expr _ .target _ | call _ _ _ _ => rfl

end Site

namespace Resolver

variable (table : ScopeTable)

theorem reached_map_folded (sites : List Site) :
    reached table (sites.map Site.folded) = (reached table sites).map Site.folded := by
  simp only [reached, List.takeWhile_map, Function.comp_def, Site.stuck_folded]

theorem unreached_map_folded (sites : List Site) :
    unreached table (sites.map Site.folded) = (unreached table sites).map Site.folded := by
  simp only [unreached, List.dropWhile_map, Function.comp_def, Site.stuck_folded]

theorem through_map_folded (sites : List Site) (r : Resolver) :
    r.through table (sites.map Site.folded) = r.through table sites := by
  simp only [through, List.flatMap_map, Site.faults_folded, Site.callees_folded]

/-- Resolution of a folded tree ends as that of the tree itself, with the same fault or with
none, and records the same; if nothing stops it, both trees are the same once folded. -/
theorem folding_first_unobservable (r : Resolver) {c : Category} (t : Tree c) (n m k : Nat) :
    (resolve table r (t.foldConstants n).1).2.1 = (resolve table r t).2.1 ∧
    (resolve table r (t.foldConstants n).1).2.2 = (resolve table r t).2.2 ∧
    ((resolve table r t).2.1 = .ok () →
      ((resolve table r (t.foldConstants n).1).1.foldConstants m).1 =
        ((resolve table r t).1.foldConstants k).1) := by
  have hsites : (t.foldConstants n).1.sites r.current = (t.sites r.current).map Site.folded :=
    t.sites_foldConstants n r.current
  have hresult : (resolve table r (t.foldConstants n).1).2.1 = (resolve table r t).2.1 := by
    rw [result_resolve, result_resolve, hsites, unreached_map_folded]
    cases unreached table (t.sites r.current) with
    | nil => rfl
    | cons site rest => simp only [List.map_cons, Site.scope_folded]
  refine ⟨hresult, ?_, ?_⟩
  · rw [resolver_resolve, resolver_resolve, hsites, reached_map_folded, through_map_folded]
  · intro hok
    refine Tree.eq_of_sites_eq (s := r.current) ?_ ?_
    · rw [Tree.skeleton_foldConstants, Tree.skeleton_foldConstants, skeleton_resolve,
        skeleton_resolve, Tree.skeleton_foldConstants]
    · rw [Tree.sites_foldConstants, Tree.sites_foldConstants, sites_resolve_of_ok table hok,
        sites_resolve_of_ok table (hresult.trans hok), hsites]
      simp only [List.map_map, Function.comp_def, Site.folded_resolved_folded]

end Resolver

end PlZero
