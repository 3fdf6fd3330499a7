import PlZero.Proofs.Resolver.Specification

/-! What stops a resolution. The one thing that does is a name to be looked up from a scope
that the table does not have. The sites before the first such place are resolved as they
should be; that place and all after it are left alone, and nothing is recorded for them. -/

namespace PlZero

namespace Site

/-- A name stands at the site, and the table does not have the scope to look it up from. -/
inductive Dangling (table : ScopeTable) : Site → Prop where
  | expr {s : ScopeId} {role ρ : Role} {e : Expr} {path : List Nat} {loc : Location}
      {name : String} (hs : table.scopeCount ≤ s.index)
      (h : e.nodeAt? role path = some (ρ, .identifier loc name)) : Dangling table (expr s role e)
  | call {s : ScopeId} {loc : Location} {name : String} {entry : Option ProcedureId}
      (hs : table.scopeCount ≤ s.index) : Dangling table (call s loc name entry)

variable {table : ScopeTable}

theorem stuck_iff_dangling {site : Site} : site.stuck table = true ↔ site.Dangling table := by
  rw [stuck, Bool.and_eq_true, decide_eq_true_iff]
  constructor
  · rintro ⟨hs, hname⟩
    cases site with
    | call s loc name entry => exact .call hs
    | expr s role e =>
      rw [hasName, Bool.not_eq_true', List.isEmpty_eq_false_iff_exists_mem] at hname
      obtain ⟨o, ho⟩ := hname
      obtain ⟨path, hpath⟩ := Expr.exists_nodeAt?_of_mem_occurrences role ho
      exact .expr hs hpath
  · intro h
    cases h with
    | call hs => exact ⟨hs, rfl⟩
    | expr hs hpath =>
      refine ⟨hs, ?_⟩
      rw [hasName, Bool.not_eq_true', List.isEmpty_eq_false_iff_exists_mem]
      exact ⟨_, Expr.mem_occurrences_of_nodeAt? _ hpath⟩

theorem not_dangling_iff {site : Site} : ¬ site.Dangling table ↔ site.stuck table = false := by
  rw [← stuck_iff_dangling, Bool.not_eq_true]

instance (site : Site) : Decidable (site.Dangling table) :=
  decidable_of_iff _ stuck_iff_dangling

/-- The sites fall into those before the first dangling one, that one, and the rest. -/
structure FirstDangling (table : ScopeTable) (sites before : List Site) (site : Site)
    (rest : List Site) : Prop where
  split : sites = before ++ site :: rest
  clear : ∀ x ∈ before, ¬ x.Dangling table
  dangling : site.Dangling table

end Site

namespace Resolver

variable {table : ScopeTable}

theorem reached_append_of_clear {before : List Site} (h : ∀ x ∈ before, x.stuck table = false)
    (rest : List Site) : reached table (before ++ rest) = before ++ reached table rest := by
  apply List.takeWhile_append_of_pos
  intro x hx
  rw [h x hx, Bool.not_false]

theorem unreached_append_of_clear {before : List Site} (h : ∀ x ∈ before, x.stuck table = false)
    (rest : List Site) : unreached table (before ++ rest) = unreached table rest := by
  apply List.dropWhile_append_of_pos
  intro x hx
  rw [h x hx, Bool.not_false]

variable {sites before rest : List Site} {site : Site}

theorem reached_of_firstDangling (h : Site.FirstDangling table sites before site rest) :
    reached table sites = before := by
  have hstuck := Site.stuck_iff_dangling.2 h.dangling
  rw [h.split, reached_append_of_clear fun x hx => Site.not_dangling_iff.1 (h.clear x hx)]
  simp [reached, hstuck]

theorem unreached_of_firstDangling (h : Site.FirstDangling table sites before site rest) :
    unreached table sites = site :: rest := by
  have hstuck := Site.stuck_iff_dangling.2 h.dangling
  rw [h.split, unreached_append_of_clear fun x hx => Site.not_dangling_iff.1 (h.clear x hx)]
  simp [unreached, hstuck]

theorem firstDangling_of_unreached (h : unreached table sites = site :: rest) :
    Site.FirstDangling table sites (reached table sites) site rest where
  split := by rw [← h, reached_append_unreached]
  clear x hx := by
    have hgoing := List.mem_takeWhile_imp hx
    rw [Site.not_dangling_iff]
    simpa using hgoing
  dangling := by
    have hfind : sites.find? (Site.stuck table) = some site := by
      rw [List.find?_eq_head?_dropWhile_not]
      exact congrArg List.head? h
    exact Site.stuck_iff_dangling.1 (List.find?_some hfind)

theorem resolve_of_firstDangling {c : Category} (r : Resolver) (t : Tree c)
    (h : Site.FirstDangling table (t.sites r.current) before site rest) :
    (resolve table r t).1.sites r.current = before.map (Site.resolved table) ++ site :: rest ∧
    (resolve table r t).2 = (.error (.unknownScope site.scope), r.through table before) := by
  have hsites := sites_resolve table r t
  have hresult := result_resolve table r t
  have hresolver := resolver_resolve table r t
  rw [reached_of_firstDangling h, unreached_of_firstDangling h] at hsites
  rw [unreached_of_firstDangling h] at hresult
  rw [reached_of_firstDangling h] at hresolver
  exact ⟨hsites, Prod.ext hresult hresolver⟩

theorem exists_firstDangling_of_error {c : Category} {r : Resolver} {t : Tree c} {fault : Fault}
    (h : (resolve table r t).2.1 = .error fault) :
    ∃ before site rest, Site.FirstDangling table (t.sites r.current) before site rest := by
  rw [result_resolve] at h
  cases hun : unreached table (t.sites r.current) with
  | nil => rw [hun] at h; exact nomatch h
  | cons site rest => exact ⟨_, site, rest, firstDangling_of_unreached hun⟩

/-- A resolution fails if and only if some site dangles, and then at the first such site with
its scope as the fault. What comes before is resolved, reported and counted as it should be;
the site itself and all that comes after stay as they were. -/
theorem resolve_stops_at_first_dangling {table : ScopeTable} (reachable : table.Reachable)
    {c : Category} (t : Tree c) :
    ((∃ fault, (resolve table {} t).2.1 = .error fault) ↔
      ∃ before site rest, Site.FirstDangling table (t.sites .root) before site rest) ∧
    ∀ before site rest, Site.FirstDangling table (t.sites .root) before site rest →
      ∃ t' news faults calls,
        resolve table {} t = (t', .error (.unknownScope site.scope),
          { diagnostics := faults, resolvedCalls := calls }) ∧
        t'.skeleton = t.skeleton ∧ t'.sites .root = news ++ site :: rest ∧
        Site.AllResolve table before news faults calls := by
  constructor
  · constructor
    · rintro ⟨fault, hfault⟩
      exact exists_firstDangling_of_error hfault
    · rintro ⟨before, site, rest, h⟩
      exact ⟨_, congrArg Prod.fst (resolve_of_firstDangling {} t h).2⟩
  · intro before site rest h
    obtain ⟨hsites, hresult⟩ := resolve_of_firstDangling {} t h
    have hgoing : ∀ x ∈ before, x.stuck table = false := fun x hx =>
      Site.not_dangling_iff.1 (h.clear x hx)
    refine ⟨(resolve table {} t).1, before.map (Site.resolved table),
      before.flatMap (Site.faults table), (before.flatMap (Site.callees table)).length,
      Prod.ext rfl ?_, skeleton_resolve table {} t, hsites,
      Site.allResolve_map reachable.wellFormed hgoing⟩
    rw [hresult, through, report, countCalls]
    simp

/-- One variable, and no scope but the root. -/
def strayTable : ScopeTable := ScopeTable.empty.after [.defineVariable .root "n" 1]

/-- A block whose scope is not in the table. Its first value has no name in it; the call after
that cannot be looked up. -/
def strayBlock : Tree .block :=
  .block ⟨3, 1⟩ ⟨7⟩ .noProcedures
    (.list ⟨3, 3⟩ (.sequence [.write ⟨3, 3⟩ (.const ⟨3, 9⟩ 1), .call ⟨4, 3⟩ "p" none,
      .write ⟨5, 3⟩ (.identifier ⟨5, 9⟩ "n")]))

def strayProgram : Tree .block :=
  .block ⟨1, 1⟩ .root .noProcedures
    (.list ⟨1, 1⟩
      (.sequence [.write ⟨1, 1⟩ (.identifier ⟨1, 7⟩ "n"), .write ⟨2, 1⟩ (.identifier ⟨2, 7⟩ "m"),
        .ofBlock strayBlock, .write ⟨6, 1⟩ (.identifier ⟨6, 7⟩ "n")]))

theorem resolve_strayProgram : ∃ t' news faults calls,
    resolve strayTable {} strayProgram = (t', .error (.unknownScope ⟨7⟩),
      { diagnostics := faults, resolvedCalls := calls }) ∧
    t'.skeleton = strayProgram.skeleton ∧
    t'.sites .root = news ++ [.call ⟨7⟩ ⟨4, 3⟩ "p" none,
      .expr ⟨7⟩ .value (.identifier ⟨5, 9⟩ "n"), .expr .root .value (.identifier ⟨6, 7⟩ "n")] ∧
    Site.AllResolve strayTable
      [.expr .root .value (.identifier ⟨1, 7⟩ "n"), .expr .root .value (.identifier ⟨2, 7⟩ "m"),
        .expr ⟨7⟩ .value (.const ⟨3, 9⟩ 1)] news faults calls := by
  have first : Site.FirstDangling strayTable (strayProgram.sites .root)
      [.expr .root .value (.identifier ⟨1, 7⟩ "n"), .expr .root .value (.identifier ⟨2, 7⟩ "m"),
        .expr ⟨7⟩ .value (.const ⟨3, 9⟩ 1)]
      (.call ⟨7⟩ ⟨4, 3⟩ "p" none)
      [.expr ⟨7⟩ .value (.identifier ⟨5, 9⟩ "n"), .expr .root .value (.identifier ⟨6, 7⟩ "n")] :=
    ⟨rfl, by decide, .call (by decide)⟩
  exact (resolve_stops_at_first_dangling ⟨_, rfl⟩ strayProgram).2 _ _ _ first

end Resolver

end PlZero
