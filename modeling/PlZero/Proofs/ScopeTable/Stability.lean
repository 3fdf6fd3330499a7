import PlZero.Proofs.ScopeTable.Log

/-! What later operations do to a table and to its lookups. Nothing that a table shows is taken
back, so a scope keeps its way outward and what is declared on it. A lookup can only be caught
earlier, by a declaration that was made since and stands nearer; and a single declaration catches
exactly the lookups of its name that come to its scope without having found anything. -/

namespace PlZero.ScopeTable

variable {t t' t'' : ScopeTable} {s d x : ScopeId} {name m : String} {symbol : Symbol}
  {entry : LogEntry} {k : Nat}

/-! ### Nothing is taken back -/

/-- What the first table has for its scopes and procedures, the second one has as well. -/
structure Extends (t t' : ScopeTable) : Prop where
  parent : ∀ s outer, t.parent s = .ok outer → t'.parent s = .ok outer
  level : ∀ s k, t.level s = .ok k → t'.level s = .ok k
  procedure : ∀ p entry, t.procedure p = .ok entry → t'.procedure p = .ok entry
  declared : ∀ s name symbol, t.declared? s name = some symbol → t'.declared? s name = some symbol

namespace Extends

theorem refl (t : ScopeTable) : t.Extends t :=
  ⟨fun _ _ h => h, fun _ _ h => h, fun _ _ h => h, fun _ _ _ h => h⟩

theorem trans (h : t.Extends t') (h' : t'.Extends t'') : t.Extends t'' where
  parent s outer hp := h'.parent s outer (h.parent s outer hp)
  level s k hk := h'.level s k (h.level s k hk)
  procedure p entry hp := h'.procedure p entry (h.procedure p entry hp)
  declared s name symbol hd := h'.declared s name symbol (h.declared s name symbol hd)

theorem opened (t : ScopeTable) (s : ScopeId) (k : Nat) : t.Extends (t.opened s k) where
  parent _ _ := parent_opened_of_parent
  level _ _ := level_opened_of_level
  procedure _ _ h := h
  declared _ _ _ h := by rwa [declared?_opened]

theorem holding (hs : s.index < t.scopeCount) (fresh : t.declared? s name = none) :
    t.Extends (t.holding s name symbol) where
  parent _ _ h := by rwa [parent_holding]
  level _ _ h := by rwa [level_holding]
  procedure _ _ h := h
  declared x m held h := by
    rw [declared?_holding hs, if_neg, h]
    rintro ⟨rfl, rfl⟩
    rw [fresh] at h
    exact nomatch h

theorem listing (t : ScopeTable) (entry : ProcedureEntry) : t.Extends (t.listing entry) where
  parent _ _ h := h
  level _ _ h := h
  procedure p old h := by rwa [procedure_listing, if_neg (Nat.ne_of_lt (lt_of_procedure h))]
  declared _ _ _ h := h

theorem of_growth {raw : Bool} (g : Growth t raw t') : t.Extends t' := by
  cases g with
  | opening hk => exact opened t _ _
  | declaring hv hs fresh _ => exact holding hs fresh
  | procedure hv hk fresh =>
    exact ((holding (lt_of_level hk) fresh).trans (opened _ _ _)).trans (listing _ _)

end Extends

theorem extends_after (t : ScopeTable) (ops : List Operation) : t.Extends (t.after ops) :=
  after_invariant true (fun h g => h.trans (.of_growth g)) (.refl t) ops (by simp)

/-! ### The way outward -/

theorem Extends.scope_lt (h : t.Extends t') (hs : s.index < t.scopeCount) :
    s.index < t'.scopeCount := by
  obtain ⟨k, hk⟩ := exists_level_iff.2 hs
  exact lt_of_level (h.level s k hk)

theorem Extends.ancestor?_eq (h : t.Extends t') (hwf : t.WellFormed)
    (hs : s.index < t.scopeCount) (k : Nat) : t'.ancestor? k s = t.ancestor? k s := by
  induction k generalizing s with
  | zero => rfl
  | succ k ih =>
    obtain ⟨outer, hp⟩ := exists_parent hs
    rw [ancestor?_succ hp, ancestor?_succ (h.parent s outer hp)]
    cases outer with
    | none => rfl
    | some p => exact ih (hwf.parent_lt hp).2

/-- Going outward from `s`, one comes to `near` before one comes to `far`. -/
def Nearer (t : ScopeTable) (s near far : ScopeId) : Prop :=
  ∃ j k, j < k ∧ t.ancestor? j s = some near ∧ t.ancestor? k s = some far

/-- The scope `b` is `x` or encloses it, and none of the scopes from `x` outward that come before
`b` declares the name. -/
def Unhidden (t : ScopeTable) (x b : ScopeId) (name : String) : Prop :=
  ∃ k, t.ancestor? k x = some b ∧
    ∀ j < k, ∀ y, t.ancestor? j x = some y → t.declared? y name = none

/-- From a scope inside one that declares the name, a declaration is found there or before. -/
theorem WellFormed.exists_nearest (hwf : t.WellFormed) (hs : s.index < t.scopeCount)
    (hk : t.ancestor? k s = some d) (hd : t.declared? d name = some symbol) :
    ∃ d' symbol', t.Nearest s name d' symbol' ∧ (d' = d ∧ symbol' = symbol ∨
      ∃ j < k, t.ancestor? j s = some d') := by
  have hspec := hwf.found?_spec hs name
  cases hf : t.found? s name with
  | none =>
    rw [hf] at hspec
    rw [hspec k d hk] at hd
    exact nomatch hd
  | some found =>
    obtain ⟨d', symbol'⟩ := found
    rw [hf] at hspec
    refine ⟨d', symbol', hspec, ?_⟩
    obtain ⟨j, hj, hd', hfirst⟩ := hspec
    rcases Nat.lt_trichotomy j k with hlt | rfl | hlt
    · exact .inr ⟨j, hlt, hj⟩
    · obtain rfl := Option.some.inj (hj.symm.trans hk)
      exact .inl ⟨rfl, Option.some.inj (hd'.symm.trans hd)⟩
    · rw [hfirst k hlt d hk] at hd
      exact nomatch hd

/-! ### Lookups after a run -/

/-- A name keeps its nearest declaration, or gets a nearer one that was not there. -/
theorem Extends.nearest (h : t.Extends t') (hwf : t.WellFormed) (hwf' : t'.WellFormed)
    (hs : s.index < t.scopeCount) (hn : t.Nearest s name d symbol) :
    t'.Nearest s name d symbol ∨ ∃ d' symbol', t'.Nearest s name d' symbol' ∧
      t.Nearer s d' d ∧ t.declared? d' name = none := by
  obtain ⟨k, hk, hd, hfirst⟩ := hn
  have hk' : t'.ancestor? k s = some d := by rw [h.ancestor?_eq hwf hs, hk]
  obtain ⟨d', symbol', hn', hwhere⟩ :=
    hwf'.exists_nearest (h.scope_lt hs) hk' (h.declared d name symbol hd)
  rcases hwhere with ⟨rfl, rfl⟩ | ⟨j, hj, hnear⟩
  · exact .inl hn'
  · rw [h.ancestor?_eq hwf hs] at hnear
    exact .inr ⟨d', symbol', hn', ⟨j, k, hj, hnear, hk⟩, hfirst j hj d' hnear⟩

/-- What is declared after a run, and was not before it, is in the run's log. -/
theorem mem_log_of_declared (ops : List Operation) (hnone : t.declared? x name = none)
    (hsome : (t.after ops).declared? x name = some symbol) : ⟨x, name, symbol⟩ ∈ t.log ops := by
  have h := filter_log t ops x name
  rw [hnone, hsome, Option.toList_some, List.map_singleton] at h
  have hmem : (⟨x, name, symbol⟩ : LogEntry) ∈ (t.log ops).filter (·.isFor x name) := by
    rw [h]
    exact List.mem_singleton_self _
  exact List.mem_of_mem_filter hmem

/-- What a lookup finds is found again after every run, or else a declaration that the run made
nearer by. -/
theorem WellFormed.nearest_after (hwf : t.WellFormed) (ops : List Operation)
    (h : t.nearest s name = .ok (some (d, symbol))) :
    (t.after ops).nearest s name = .ok (some (d, symbol)) ∨
      ∃ d' symbol', (t.after ops).nearest s name = .ok (some (d', symbol')) ∧
        t.Nearer s d' d ∧ t.declared? d' name = none ∧ ⟨d', name, symbol'⟩ ∈ t.log ops := by
  obtain ⟨hs, hn⟩ := hwf.nearest_eq_some_iff.1 h
  have hext := t.extends_after ops
  have hwf' := hwf.after ops
  have hs' := hext.scope_lt hs
  rcases hext.nearest hwf hwf' hs hn with hn' | ⟨d', symbol', hn', hnearer, hnone⟩
  · exact .inl (hwf'.nearest_eq_some_iff.2 ⟨hs', hn'⟩)
  · exact .inr ⟨d', symbol', hwf'.nearest_eq_some_iff.2 ⟨hs', hn'⟩, hnearer, hnone,
      mem_log_of_declared ops hnone hn'.declared⟩

/-! ### Lookups after one declaration -/

/-- Where nothing changes for a name, its lookups stay the same. -/
theorem Extends.found?_eq (h : t.Extends t') (hwf : t.WellFormed) (hwf' : t'.WellFormed)
    (hs : s.index < t.scopeCount) (hsame : ∀ y, t'.declared? y m = t.declared? y m) :
    t'.found? s m = t.found? s m := by
  apply Option.ext
  rintro ⟨d, symbol⟩
  rw [hwf.found?_eq_some_iff hs, hwf'.found?_eq_some_iff (h.scope_lt hs)]
  simp only [Nearest, h.ancestor?_eq hwf hs, hsame]

/-- A symbol that is there now was there before or is the one that was added. -/
theorem Adds.declared_cases (hadds : t.Adds entry t') (h : t'.declared? x m = some symbol) :
    t.declared? x m = some symbol ∨
      x = entry.scope ∧ m = entry.name ∧ symbol = entry.symbol := by
  cases hfor : entry.isFor x m with
  | false => exact .inl (by rw [← hadds.elsewhere x m hfor, h])
  | true =>
    obtain ⟨rfl, rfl⟩ := LogEntry.isFor_iff.1 hfor
    rw [hadds.here] at h
    exact .inr ⟨rfl, rfl, (Option.some.inj h).symm⟩

/-- A declaration is found from where nothing hides it. -/
theorem Adds.nearest_of_unhidden (hadds : t.Adds entry t') (h : t.Extends t')
    (hwf : t.WellFormed) (hwf' : t'.WellFormed) (hx : x.index < t.scopeCount)
    (hu : t.Unhidden x entry.scope entry.name) :
    t'.Nearest x entry.name entry.scope entry.symbol := by
  obtain ⟨k, hk, hfirst⟩ := hu
  have hk' : t'.ancestor? k x = some entry.scope := by rw [h.ancestor?_eq hwf hx, hk]
  obtain ⟨d, symbol, hn, hwhere⟩ := hwf'.exists_nearest (h.scope_lt hx) hk' hadds.here
  rcases hwhere with ⟨rfl, rfl⟩ | ⟨j, hj, hnear⟩
  · exact hn
  · -- before the scope of the entry nothing was declared, so what is found is the entry itself
    rw [h.ancestor?_eq hwf hx] at hnear
    rcases hadds.declared_cases hn.declared with hold | ⟨rfl, -, rfl⟩
    · rw [hfirst j hj d hnear] at hold
      exact nomatch hold
    · exact hn

/-- A declaration is not seen from anywhere else, nor under another name. -/
theorem Adds.found?_eq (hadds : t.Adds entry t') (h : t.Extends t') (hwf : t.WellFormed)
    (hwf' : t'.WellFormed) (hx : x.index < t.scopeCount)
    (hno : ¬ (m = entry.name ∧ t.Unhidden x entry.scope entry.name)) :
    t'.found? x m = t.found? x m := by
  apply Option.ext
  rintro ⟨d, symbol⟩
  rw [hwf.found?_eq_some_iff hx, hwf'.found?_eq_some_iff (h.scope_lt hx)]
  simp only [Nearest, h.ancestor?_eq hwf hx]
  constructor
  · rintro ⟨k, hk, hd, hfirst⟩
    have hclear : ∀ j < k, ∀ y, t.ancestor? j x = some y → t.declared? y m = none := by
      intro j hj y hy
      cases hold : t.declared? y m with
      | none => rfl
      | some held => exact (h.declared y m held hold).symm.trans (hfirst j hj y hy)
    rcases hadds.declared_cases hd with hold | ⟨rfl, rfl, -⟩
    · exact ⟨k, hk, hold, hclear⟩
    · exact absurd ⟨rfl, k, hk, hclear⟩ hno
  · rintro ⟨k, hk, hd, hfirst⟩
    refine ⟨k, hk, h.declared d m symbol hd, ?_⟩
    intro j hj y hy
    cases hnew : t'.declared? y m with
    | none => rfl
    | some held =>
      rcases hadds.declared_cases hnew with hold | ⟨rfl, rfl, -⟩
      · exact hold.symm.trans (hfirst j hj y hy)
      · exact absurd ⟨rfl, j, hy, fun i hi => hfirst i (Nat.lt_trans hi hj)⟩ hno

theorem Adds.found?_ne_iff (hadds : t.Adds entry t') (h : t.Extends t') (hwf : t.WellFormed)
    (hwf' : t'.WellFormed) (hx : x.index < t.scopeCount) : t'.found? x m ≠ t.found? x m ↔
      m = entry.name ∧ t.Unhidden x entry.scope entry.name := by
  constructor
  · intro hne
    by_contra hno
    exact hne (hadds.found?_eq h hwf hwf' hx hno)
  · rintro ⟨rfl, hu⟩ heq
    have hn := hadds.nearest_of_unhidden h hwf hwf' hx hu
    rw [← hwf'.found?_eq_some_iff (h.scope_lt hx), heq, hwf.found?_eq_some_iff hx] at hn
    exact nomatch hadds.fresh.symm.trans hn.declared

/-! ### Operations -/

/-- From every scope of `t`, every name is found in `t'` where it is found in `t`. -/
def SameLookups (t t' : ScopeTable) : Prop :=
  ∀ (x : ScopeId) (m : String), x.index < t.scopeCount → t'.nearest x m = t.nearest x m

/-- From the scopes of `t`, the lookups that give another answer in `t'` are those of the entry's
name that nothing hides its scope from, and they find the entry. -/
def Redirects (t : ScopeTable) (entry : LogEntry) (t' : ScopeTable) : Prop :=
  ∀ (x : ScopeId) (m : String), x.index < t.scopeCount →
    (t'.nearest x m ≠ t.nearest x m ↔ m = entry.name ∧ t.Unhidden x entry.scope entry.name) ∧
    (t'.nearest x m ≠ t.nearest x m → t'.nearest x m = .ok (some (entry.scope, entry.symbol)))

theorem Extends.nearest_eq (h : t.Extends t') (hs : s.index < t.scopeCount) :
    t'.nearest s m = .ok (t'.found? s m) ∧ t.nearest s m = .ok (t.found? s m) := by
  rw [ScopeTable.nearest_eq, ScopeTable.nearest_eq, if_pos hs, if_pos (h.scope_lt hs)]
  exact ⟨rfl, rfl⟩

theorem Extends.sameLookups (h : t.Extends t') (hwf : t.WellFormed) (hwf' : t'.WellFormed)
    (hsame : ∀ y m, t'.declared? y m = t.declared? y m) : t.SameLookups t' := by
  intro x m hx
  obtain ⟨hnew, hold⟩ := h.nearest_eq (m := m) hx
  rw [hnew, hold, h.found?_eq hwf hwf' hx fun y => hsame y m]

theorem Adds.redirects (hadds : t.Adds entry t') (h : t.Extends t') (hwf : t.WellFormed)
    (hwf' : t'.WellFormed) : t.Redirects entry t' := by
  intro x m hx
  obtain ⟨hnew, hold⟩ := h.nearest_eq (m := m) hx
  have hiff : t'.nearest x m ≠ t.nearest x m ↔
      m = entry.name ∧ t.Unhidden x entry.scope entry.name := by
    rw [hnew, hold, ne_eq, Except.ok.injEq]
    exact hadds.found?_ne_iff h hwf hwf' hx
  refine ⟨hiff, ?_⟩
  intro hne
  obtain ⟨rfl, hu⟩ := hiff.1 hne
  rw [hnew, (hwf'.found?_eq_some_iff (h.scope_lt hx)).2
    (hadds.nearest_of_unhidden h hwf hwf' hx hu)]

theorem Operation.redirects {op : Operation} (hwf : t.WellFormed) (hop : op.perform t = .ok t')
    (hentry : op.declares? t = some entry) : t.Redirects entry t' := by
  have hgrowth : Growth t true t' := growth_of_perform (by simp) hop
  rcases declared?_perform hop with ⟨hnone, -⟩ | ⟨made, hmade, hadds⟩
  · exact nomatch hnone.symm.trans hentry
  · obtain rfl := Option.some.inj (hmade.symm.trans hentry)
    exact hadds.redirects (.of_growth hgrowth) hwf (hwf.growth hgrowth)

theorem sameLookups_openScope {inner : ScopeId} (hwf : t.WellFormed)
    (h : t.openScope s = .ok (inner, t')) : t.SameLookups t' := by
  rw [openScope_eq] at h
  cases hk : t.level s with
  | error fault => simp [hk, Except.map] at h
  | ok k =>
    simp only [hk, Except.map, Except.ok.injEq, Prod.mk.injEq] at h
    obtain ⟨-, rfl⟩ := h
    exact (Extends.opened t s k).sameLookups hwf (hwf.opened hk) fun y m => declared?_opened

/-- The scope for the locals and the procedure's entry come on top of the declaration. -/
theorem sameLookups_defineProcedure {line : Nat} {id : ProcedureId} (hwf : t.WellFormed)
    (h : t.defineProcedure s name line = .ok (id, t')) :
    ∃ k declared, t.level s = .ok k ∧
      t.declare s name ⟨.procedure id, line, k⟩ = .ok declared ∧ declared.SameLookups t' := by
  have hop : (Operation.defineProcedure s name line).perform t = .ok t' := by
    rw [Operation.perform, h]
    rfl
  have hgrowth : Growth t true t' := Operation.growth_of_perform (by simp) hop
  have hwf' := hwf.growth hgrowth
  obtain ⟨k, hk, hv, fresh, rfl, rfl⟩ := defineProcedure_eq_ok_iff.1 h
  have hs := lt_of_level hk
  refine ⟨k, _, hk, declare_eq_ok_iff.2 ⟨hv, hs, fresh, rfl⟩, ?_⟩
  apply ((Extends.opened _ s k).trans (.listing _ _)).sameLookups (hwf.holding hv hs fresh) hwf'
  intro y m
  rw [declared?_listing, declared?_opened]

/-- Whatever operations follow, a table keeps the parents and levels of its scopes, its procedure
entries and its declarations, and what a lookup finds is found again unless a declaration made
since stands nearer. A single declaration redirects to itself the lookups of its name that
nothing stops before, and no others; a new scope redirects none, and a procedure those that its
name does. -/
theorem declarations_stable (reachable : t.Reachable) :
    (∀ ops : List Operation, t.Extends (t.after ops) ∧
      ∀ s name d symbol, t.nearest s name = .ok (some (d, symbol)) →
        (t.after ops).nearest s name = .ok (some (d, symbol)) ∨
        ∃ d' symbol', (t.after ops).nearest s name = .ok (some (d', symbol')) ∧
          t.Nearer s d' d ∧ t.declared? d' name = none ∧ ⟨d', name, symbol'⟩ ∈ t.log ops) ∧
    (∀ (op : Operation) (t' : ScopeTable) (entry : LogEntry), op.perform t = .ok t' →
      op.declares? t = some entry → t.Redirects entry t') ∧
    (∀ s inner t', t.openScope s = .ok (inner, t') → t.SameLookups t') ∧
    ∀ s name line id t', t.defineProcedure s name line = .ok (id, t') →
      ∃ k declared, t.level s = .ok k ∧
        t.declare s name ⟨.procedure id, line, k⟩ = .ok declared ∧ declared.SameLookups t' := by
  have hwf := reachable.wellFormed
  refine ⟨?_, ?_, ?_, ?_⟩
  · intro ops
    exact ⟨t.extends_after ops, fun s name d symbol => hwf.nearest_after ops⟩
  · intro op t' entry
    exact Operation.redirects hwf
  · intro s inner t'
    exact sameLookups_openScope hwf
  · intro s name line id t'
    exact sameLookups_defineProcedure hwf

/-- A variable of the root, seen from two scopes further in. -/
def innerTable : ScopeTable :=
  empty.after [.defineVariable .root "n" 1, .openScope .root, .openScope ⟨1⟩]

/-- A constant of the scope in between. -/
def hidingConstant : Operation := .defineConstant ⟨1⟩ "n" 7 2

theorem hidingConstant_redirects :
    innerTable.nearest ⟨2⟩ "n" = .ok (some (.root, ⟨.var, 1, 0⟩)) ∧
    (∃ d' symbol', (innerTable.after [hidingConstant]).nearest ⟨2⟩ "n" =
        .ok (some (d', symbol')) ∧
      innerTable.Nearer ⟨2⟩ d' .root ∧ innerTable.declared? d' "n" = none ∧
      ⟨d', "n", symbol'⟩ ∈ innerTable.log [hidingConstant]) ∧
    innerTable.Redirects ⟨⟨1⟩, "n", ⟨.constant 7, 2, 1⟩⟩ (innerTable.after [hidingConstant]) := by
  obtain ⟨hrun, hstep, -, -⟩ := declarations_stable (t := innerTable) ⟨_, rfl⟩
  have hfound : innerTable.nearest ⟨2⟩ "n" = .ok (some (.root, ⟨.var, 1, 0⟩)) := by rfl
  have hhidden : (innerTable.after [hidingConstant]).nearest ⟨2⟩ "n" =
      .ok (some (⟨1⟩, ⟨.constant 7, 2, 1⟩)) := by rfl
  refine ⟨hfound, ?_, hstep hidingConstant _ _ rfl rfl⟩
  rcases (hrun [hidingConstant]).2 _ _ _ _ hfound with hsame | hnearer
  · exact absurd (Except.ok.inj (hhidden.symm.trans hsame)) (by decide)
  · exact hnearer

end PlZero.ScopeTable
