import PlZero.Proofs.ScopeTable.Search

/-! How far out a name is declared. A lookup with distance follows the parents to the scope that
declares the name but does not count them: it subtracts the level of that scope from the level it
started from. Every link goes up by exactly one level, so the difference is the number of links.
The levels are those of the scopes; what a symbol has for its own level has no part in it. -/

namespace PlZero.ScopeTable

variable {t : ScopeTable} {s d p : ScopeId} {name : String} {symbol : Symbol} {j k : Nat}

/-! ### Levels along the parents -/

theorem WellFormed.level_of_parent (h : t.WellFormed) (hp : t.parent s = .ok (some p)) :
    ∃ i, t.level p = .ok i ∧ t.level s = .ok (i + 1) := by
  have hroot : s ≠ .root := by
    rintro rfl
    rw [h.root_parent] at hp
    cases hp
  obtain ⟨q, i, hq, -, hi, hs⟩ := h.nested s hroot (lt_of_parent hp)
  rw [hp] at hq
  obtain rfl := Option.some.inj (Except.ok.inj hq)
  exact ⟨i, hi, hs⟩

/-- After `k` links the level is `k` less, so there is no need to cut the difference off at zero. -/
theorem WellFormed.level_of_ancestor (h : t.WellFormed) (hs : s.index < t.scopeCount)
    (hd : t.ancestor? k s = some d) : ∃ i, t.level d = .ok i ∧ t.level s = .ok (i + k) := by
  induction k generalizing s with
  | zero =>
    obtain rfl := Option.some.inj hd
    obtain ⟨i, hi⟩ := exists_level_iff.2 hs
    exact ⟨i, hi, hi⟩
  | succ k ih =>
    obtain ⟨outer, hp⟩ := exists_parent hs
    rw [ancestor?_succ hp] at hd
    obtain ⟨p, rfl, hpd⟩ := Option.bind_eq_some_iff.1 hd
    obtain ⟨i, hi, hpi⟩ := ih (h.parent_lt hp).2 hpd
    obtain ⟨m, hm, hsm⟩ := h.level_of_parent hp
    have hlevel : m = i + k := Except.ok.inj (hm.symm.trans hpi)
    exact ⟨i, hi, by rw [hsm, hlevel, Nat.add_assoc]⟩

/-! ### The distance of a declaration -/

/-- The scope `d` is `k` links outward from `s`, by the parents and by the levels, and no scope
on the way to it declares the name. -/
structure Away (t : ScopeTable) (s : ScopeId) (name : String) (d : ScopeId) (k : Nat) :
    Prop where
  known : d.index < t.scopeCount
  links : t.ancestor? k s = some d
  levels : ∃ i, t.level d = .ok i ∧ t.level s = .ok (i + k)
  first : ∀ j < k, ∀ x, t.ancestor? j s = some x → t.declared? x name = none

theorem WellFormed.exists_away (h : t.WellFormed) (hs : s.index < t.scopeCount)
    (hn : t.Nearest s name d symbol) : ∃ k, t.Away s name d k := by
  obtain ⟨k, hk, hd, hfirst⟩ := hn
  exact ⟨k, lt_of_declared hd, hk, h.level_of_ancestor hs hk, hfirst⟩

/-- The levels tell how many links there are. -/
theorem Away.sub_levels (h : t.Away s name d k) :
    (t.level s).toOption.getD 0 - (t.level d).toOption.getD 0 = k := by
  obtain ⟨i, hi, hs⟩ := h.levels
  rw [hi, hs]
  exact Nat.add_sub_cancel_left i k

theorem Away.lookupWithDistance_eq (h : t.Away s name d k) (hs : s.index < t.scopeCount)
    (hf : t.found? s name = some (d, symbol)) :
    t.lookupWithDistance s name = .ok (some (symbol, k)) := by
  rw [ScopeTable.lookupWithDistance_eq, if_pos hs, hf]
  simp only [Option.map_some, h.sub_levels]

/-- In a table that any run of operations arrives at, raw declarations with whatever level in
their symbols among them, a lookup with distance finds a symbol exactly if the lookup with its
scope does, and the distance is then the number of links to that scope. -/
theorem distance_counts_links {t : ScopeTable} (reachable : t.Reachable) {s : ScopeId}
    (hs : s.index < t.scopeCount) (name : String) :
    (∀ symbol, (∃ k, t.lookupWithDistance s name = .ok (some (symbol, k))) ↔
      ∃ d, t.nearest s name = .ok (some (d, symbol))) ∧
    (∀ symbol k d, t.lookupWithDistance s name = .ok (some (symbol, k)) →
      t.nearest s name = .ok (some (d, symbol)) → t.Away s name d k) ∧
    (t.lookupWithDistance s name = .ok none ↔ t.nearest s name = .ok none) := by
  have hwf := reachable.wellFormed
  have hnearest : t.nearest s name = .ok (t.found? s name) := by rw [nearest_eq, if_pos hs]
  rw [hnearest]
  cases hf : t.found? s name with
  | none =>
    have hnone : t.lookupWithDistance s name = .ok none := by
      rw [lookupWithDistance_eq, if_pos hs, hf, Option.map_none]
    simp [hnone]
  | some found =>
    obtain ⟨d, symbol⟩ := found
    obtain ⟨k, haway⟩ := hwf.exists_away hs ((hwf.found?_eq_some_iff hs).1 hf)
    rw [haway.lookupWithDistance_eq hs hf]
    refine ⟨?_, ?_, by simp⟩
    · intro symbol'
      simp
    · intro symbol' k' d' hk hd
      obtain ⟨-, rfl⟩ := Prod.mk.inj (Option.some.inj (Except.ok.inj hk))
      obtain ⟨rfl, -⟩ := Prod.mk.inj (Option.some.inj (Except.ok.inj hd))
      exact haway

/-- Scopes two deep beside another one, and raw declarations whose symbols claim levels that no
scope has. -/
def strayLevels : List Operation :=
  [.openScope .root, .openScope .root, .openScope ⟨1⟩, .declare .root "n" ⟨.var, 1, 40⟩,
    .declare ⟨2⟩ "n" ⟨.constant 3, 2, 7⟩, .openScope ⟨3⟩]

theorem distance_after_strayLevels :
    (empty.after strayLevels).Reachable ∧ 4 < (empty.after strayLevels).scopeCount ∧
    (empty.after strayLevels).lookupWithDistance ⟨4⟩ "n" = .ok (some (⟨.var, 1, 40⟩, 3)) ∧
    (empty.after strayLevels).Away ⟨4⟩ "n" .root 3 := by
  have reachable : (empty.after strayLevels).Reachable := ⟨strayLevels, rfl⟩
  obtain ⟨-, haway, -⟩ := distance_counts_links reachable (s := ⟨4⟩) (by decide) "n"
  exact ⟨reachable, by decide, rfl, haway ⟨.var, 1, 40⟩ 3 .root rfl rfl⟩

end PlZero.ScopeTable
