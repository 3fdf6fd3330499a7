import PlZero.Proofs.ScopeTable.WellFormed

/-! Lookup along the parents. In a well-formed table a scope's chain is the scope itself
followed by its parent's chain, so a bounded walk is the whole walk. `Nearest` says what a
lookup should find, `Search` how an unbounded loop would look for it, and both agree with
`nearest`. -/

namespace PlZero.ScopeTable

variable {t : ScopeTable} {s d p : ScopeId} {name : String} {symbol : Symbol} {j k : Nat}

theorem WellFormed.parent_lt (h : t.WellFormed) (hp : t.parent s = .ok (some p)) :
    p.index < s.index ∧ p.index < t.scopeCount := by
  have hs := lt_of_parent hp
  by_cases hroot : s = .root
  · rw [hroot, h.root_parent] at hp
    exact nomatch hp
  · obtain ⟨q, j, hq, hlt, -, -⟩ := h.nested s hroot hs
    rw [hp] at hq
    obtain rfl := Option.some.inj (Except.ok.inj hq)
    exact ⟨hlt, Nat.lt_trans hlt hs⟩

/-! ### Chains -/

theorem chainOf_succ {outer : Option ScopeId} (hp : t.parent s = .ok outer) :
    t.chainOf (k + 1) s = s :: outer.elim [] (t.chainOf k) := by
  rw [parent_eq] at hp
  rw [chainOf]
  cases hs : t.scopes[s.index]? with
  | none => simp [hs] at hp
  | some scope =>
    simp only [hs, Except.ok.injEq] at hp
    simp only [hp]

theorem exists_parent (hs : s.index < t.scopeCount) : ∃ outer, t.parent s = .ok outer := by
  rw [parent_eq, Array.getElem?_eq_getElem hs]
  exact ⟨_, rfl⟩

/-- A walk that may take more steps than the scope has index is not cut short. -/
theorem WellFormed.chainOf_eq (h : t.WellFormed) (hs : s.index < t.scopeCount)
    (hj : s.index < j) (hk : s.index < k) : t.chainOf j s = t.chainOf k s := by
  induction j generalizing k s with
  | zero => omega
  | succ j ih =>
    obtain ⟨k, rfl⟩ : ∃ k', k = k' + 1 := ⟨k - 1, by omega⟩
    obtain ⟨outer, hp⟩ := exists_parent hs
    rw [chainOf_succ hp, chainOf_succ hp]
    cases outer with
    | none => rfl
    | some p =>
      obtain ⟨hlt, hcount⟩ := h.parent_lt hp
      rw [Option.elim_some, Option.elim_some,
        ih hcount (by omega) (by omega : p.index < k)]

theorem WellFormed.chain_eq (h : t.WellFormed) {outer : Option ScopeId}
    (hp : t.parent s = .ok outer) : t.chain s = s :: outer.elim [] t.chain := by
  have hs := lt_of_parent hp
  have hsize : t.scopes.size = t.scopes.size - 1 + 1 := by
    have : s.index < t.scopes.size := hs
    omega
  unfold chain
  rw [hsize, chainOf_succ hp, ← hsize]
  cases outer with
  | none => rfl
  | some p =>
    obtain ⟨hlt, hcount⟩ := h.parent_lt hp
    have hlast : p.index < t.scopes.size - 1 := by
      have : s.index < t.scopes.size := hs
      omega
    rw [Option.elim_some, Option.elim_some, h.chainOf_eq hcount hlast hcount]
    rfl

/-! ### What is found -/

/-- The nearest declaration from a scope that exists. -/
def found? (t : ScopeTable) (s : ScopeId) (name : String) : Option (ScopeId × Symbol) :=
  (t.chain s).findSome? fun d => (t.declared? d name).map (d, ·)

theorem nearest_eq (t : ScopeTable) (s : ScopeId) (name : String) : t.nearest s name =
    if s.index < t.scopeCount then .ok (t.found? s name) else .error (.unknownScope s) := by
  unfold nearest
  rw [scope_eq]
  by_cases hs : s.index < t.scopeCount
  · rw [if_pos hs, Array.getElem?_eq_getElem hs]
    rfl
  · rw [if_neg hs, Array.getElem?_eq_none (Nat.le_of_not_lt hs)]
    rfl

theorem found?_of_unknown (hs : ¬ s.index < t.scopeCount) (name : String) :
    t.found? s name = none := by
  have hnone : t.scopes[s.index]? = none := Array.getElem?_eq_none (Nat.le_of_not_lt hs)
  unfold found? chain
  cases t.scopes.size <;> simp [chainOf, hnone]

theorem WellFormed.found?_eq (h : t.WellFormed) {outer : Option ScopeId}
    (hp : t.parent s = .ok outer) (name : String) : t.found? s name =
      match t.declared? s name with
      | some symbol => some (s, symbol)
      | none => outer.bind (t.found? · name) := by
  unfold found?
  rw [h.chain_eq hp, List.findSome?_cons]
  cases t.declared? s name with
  | some symbol => rfl
  | none => cases outer <;> rfl

/-- The scope reached after that many steps to the parent. -/
def ancestor? (t : ScopeTable) : Nat → ScopeId → Option ScopeId
  | 0, s => some s
  | k + 1, s => (t.scopes[s.index]?.bind (·.parent)).bind (t.ancestor? k)

theorem ancestor?_succ {outer : Option ScopeId} (hp : t.parent s = .ok outer) :
    t.ancestor? (k + 1) s = outer.bind (t.ancestor? k) := by
  rw [parent_eq] at hp
  rw [ancestor?]
  cases hs : t.scopes[s.index]? with
  | none => simp [hs] at hp
  | some scope =>
    simp only [hs, Except.ok.injEq] at hp
    rw [Option.bind_some, hp]

/-- Of the scopes from `s` outward, `d` is the first to declare the name. -/
def Nearest (t : ScopeTable) (s : ScopeId) (name : String) (d : ScopeId) (symbol : Symbol) :
    Prop :=
  ∃ k, t.ancestor? k s = some d ∧ t.declared? d name = some symbol ∧
    ∀ j < k, ∀ x, t.ancestor? j s = some x → t.declared? x name = none

/-- No scope from `s` outward declares the name. -/
def Undeclared (t : ScopeTable) (s : ScopeId) (name : String) : Prop :=
  ∀ k x, t.ancestor? k s = some x → t.declared? x name = none

theorem nearest_here (hd : t.declared? s name = some symbol) : t.Nearest s name s symbol :=
  ⟨0, rfl, hd, by simp⟩

theorem Nearest.outward (hs : t.declared? s name = none) (hp : t.parent s = .ok (some p))
    (h : t.Nearest p name d symbol) : t.Nearest s name d symbol := by
  obtain ⟨k, hk, hd, hfirst⟩ := h
  refine ⟨k + 1, by rw [ancestor?_succ hp]; exact hk, hd, ?_⟩
  intro j hj x hx
  cases j with
  | zero => obtain rfl := Option.some.inj hx; exact hs
  | succ j =>
    rw [ancestor?_succ hp] at hx
    exact hfirst j (by omega) x hx

theorem undeclared_iff {outer : Option ScopeId} (hp : t.parent s = .ok outer) :
    t.Undeclared s name ↔
      t.declared? s name = none ∧ ∀ p, outer = some p → t.Undeclared p name := by
  constructor
  · intro h
    refine ⟨h 0 s rfl, ?_⟩
    rintro p rfl k x hx
    exact h (k + 1) x (by rw [ancestor?_succ hp]; exact hx)
  · rintro ⟨hs, houter⟩ k x hx
    cases k with
    | zero => obtain rfl := Option.some.inj hx; exact hs
    | succ k =>
      rw [ancestor?_succ hp] at hx
      obtain ⟨p, rfl, hpx⟩ := Option.bind_eq_some_iff.1 hx
      exact houter p rfl k x hpx

/-- A lookup finds the nearest declaration, and nothing only if there is none. -/
theorem WellFormed.found?_spec (h : t.WellFormed) (hs : s.index < t.scopeCount) (name : String) :
    match t.found? s name with
    | some (d, symbol) => t.Nearest s name d symbol
    | none => t.Undeclared s name := by
  -- parents are older, so the induction is on the index of the scope
  induction hi : s.index using Nat.strongRecOn generalizing s with
  | _ i ih =>
    obtain ⟨outer, hp⟩ := exists_parent hs
    rw [h.found?_eq hp]
    cases hd : t.declared? s name with
    | some symbol => exact nearest_here hd
    | none =>
      cases outer with
      | none => exact (undeclared_iff hp).2 ⟨hd, by simp⟩
      | some p =>
        obtain ⟨hlt, hcount⟩ := h.parent_lt hp
        have hrest := ih p.index (hi ▸ hlt) hcount rfl
        simp only [Option.bind_some]
        cases hf : t.found? p name with
        | some found =>
          rw [hf] at hrest
          exact hrest.outward hd hp
        | none =>
          rw [hf] at hrest
          refine (undeclared_iff hp).2 ⟨hd, ?_⟩
          rintro q hq
          obtain rfl := Option.some.inj hq
          exact hrest

theorem Nearest.unique {d' : ScopeId} {symbol' : Symbol} (h : t.Nearest s name d symbol)
    (h' : t.Nearest s name d' symbol') : d = d' ∧ symbol = symbol' := by
  obtain ⟨k, hk, hd, hfirst⟩ := h
  obtain ⟨k', hk', hd', hfirst'⟩ := h'
  rcases Nat.lt_trichotomy k k' with hlt | rfl | hlt
  · rw [hfirst' k hlt d hk] at hd
    exact nomatch hd
  · obtain rfl := Option.some.inj (hk.symm.trans hk')
    exact ⟨rfl, Option.some.inj (hd.symm.trans hd')⟩
  · rw [hfirst k' hlt d' hk'] at hd'
    exact nomatch hd'

theorem Nearest.declared (h : t.Nearest s name d symbol) : t.declared? d name = some symbol := by
  obtain ⟨k, -, hd, -⟩ := h
  exact hd

theorem Nearest.not_undeclared (h : t.Nearest s name d symbol) : ¬ t.Undeclared s name := by
  obtain ⟨k, hk, hd, -⟩ := h
  intro hu
  rw [hu k d hk] at hd
  exact nomatch hd

theorem WellFormed.found?_eq_some_iff (h : t.WellFormed) (hs : s.index < t.scopeCount) :
    t.found? s name = some (d, symbol) ↔ t.Nearest s name d symbol := by
  have hspec := h.found?_spec hs name
  constructor
  · intro hf
    rwa [hf] at hspec
  · intro hn
    cases hf : t.found? s name with
    | some found =>
      rw [hf] at hspec
      obtain ⟨rfl, rfl⟩ := hn.unique hspec
      rfl
    | none =>
      rw [hf] at hspec
      exact absurd hspec hn.not_undeclared

theorem WellFormed.found?_eq_none_iff (h : t.WellFormed) (hs : s.index < t.scopeCount) :
    t.found? s name = none ↔ t.Undeclared s name := by
  have hspec := h.found?_spec hs name
  constructor
  · intro hf
    rwa [hf] at hspec
  · intro hu
    cases hf : t.found? s name with
    | some found =>
      rw [hf] at hspec
      exact absurd hu hspec.not_undeclared
    | none => rfl

theorem WellFormed.nearest_eq_some_iff (h : t.WellFormed) :
    t.nearest s name = .ok (some (d, symbol)) ↔
      s.index < t.scopeCount ∧ t.Nearest s name d symbol := by
  rw [nearest_eq]
  split_ifs with hs
  · simp [hs, h.found?_eq_some_iff hs]
  · simp [hs]

/-! ### The search as a loop -/

/-- The runs of an unbounded search, from the scope it looks at next to its result. A
search that went round in circles would have no run. -/
inductive Search (t : ScopeTable) (name : String) :
    Option ScopeId → Except Fault (Option (ScopeId × Symbol)) → Prop where
  | outside : Search t name none (.ok none)
  | unknown {s : ScopeId} {fault : Fault} (hs : t.scope s = .error fault) :
      Search t name (some s) (.error fault)
  | here {s : ScopeId} {scope : Scope} {symbol : Symbol} (hs : t.scope s = .ok scope)
      (hd : scope.symbols.lookup name = some symbol) :
      Search t name (some s) (.ok (some (s, symbol)))
  | outward {s : ScopeId} {scope : Scope} {result : Except Fault (Option (ScopeId × Symbol))}
      (hs : t.scope s = .ok scope) (hd : scope.symbols.lookup name = none)
      (rest : Search t name scope.parent result) : Search t name (some s) result

theorem Search.unique {cursor : Option ScopeId}
    {result result' : Except Fault (Option (ScopeId × Symbol))}
    (h : t.Search name cursor result) (h' : t.Search name cursor result') : result = result' := by
  induction h with
  | outside => cases h'; rfl
  | unknown hs =>
    cases h' with
    | unknown hs' => rw [Except.error.inj (hs.symm.trans hs')]
    | here hs' _ | outward hs' _ _ => exact nomatch hs.symm.trans hs'
  | here hs hd =>
    cases h' with
    | unknown hs' => exact nomatch hs.symm.trans hs'
    | here hs' hd' =>
      obtain rfl := Except.ok.inj (hs.symm.trans hs')
      rw [Option.some.inj (hd.symm.trans hd')]
    | outward hs' hd' _ =>
      obtain rfl := Except.ok.inj (hs.symm.trans hs')
      exact nomatch hd.symm.trans hd'
  | outward hs hd _ ih =>
    cases h' with
    | unknown hs' => exact nomatch hs.symm.trans hs'
    | here hs' hd' =>
      obtain rfl := Except.ok.inj (hs.symm.trans hs')
      exact nomatch hd.symm.trans hd'
    | outward hs' hd' rest' =>
      obtain rfl := Except.ok.inj (hs.symm.trans hs')
      exact ih rest'

theorem WellFormed.search_found? (h : t.WellFormed) (hs : s.index < t.scopeCount)
    (name : String) : t.Search name (some s) (.ok (t.found? s name)) := by
  induction hi : s.index using Nat.strongRecOn generalizing s with
  | _ i ih =>
    have hget : t.scopes[s.index]? = some t.scopes[s.index] := Array.getElem?_eq_getElem hs
    have hscope : t.scope s = .ok t.scopes[s.index] := by rw [scope_eq, hget]
    have hp : t.parent s = .ok t.scopes[s.index].parent := by rw [parent_eq, hget]
    rw [h.found?_eq hp, declared?_eq hget]
    cases hl : t.scopes[s.index].symbols.lookup name with
    | some symbol => exact .here hscope hl
    | none =>
      refine .outward hscope hl ?_
      cases hparent : t.scopes[s.index].parent with
      | none => exact .outside
      | some p =>
        obtain ⟨hlt, hcount⟩ := h.parent_lt (hp.trans (congrArg _ hparent))
        exact ih p.index (hi ▸ hlt) hcount rfl

theorem WellFormed.search_nearest (h : t.WellFormed) (s : ScopeId) (name : String) :
    t.Search name (some s) (t.nearest s name) := by
  rw [nearest_eq]
  split_ifs with hs
  · exact h.search_found? hs name
  · apply Search.unknown
    rw [scope_eq, Array.getElem?_eq_none (Nat.le_of_not_lt hs)]

/-! ### When a lookup fails -/

theorem lookup_eq (t : ScopeTable) (s : ScopeId) (name : String) : t.lookup s name =
    if s.index < t.scopeCount then .ok ((t.found? s name).map (·.2))
    else .error (.unknownScope s) := by
  unfold lookup
  rw [nearest_eq]
  split_ifs <;> rfl

theorem contains_eq (t : ScopeTable) (s : ScopeId) (name : String) : t.contains s name =
    if s.index < t.scopeCount then (t.found? s name).isSome else false := by
  unfold contains
  rw [nearest_eq]
  split_ifs <;> rfl

theorem expect_eq (t : ScopeTable) (s : ScopeId) (name kind : String) (line : Nat) :
    t.expect s name kind line =
      if s.index < t.scopeCount then
        match t.found? s name with
        | none => .error (.undefinedSymbol name line)
        | some (_, symbol) =>
          if symbol.meaning.kindName = kind then .ok symbol
          else .error (.typeMismatch kind symbol.meaning.kindName name line)
      else .error (.unknownScope s) := by
  unfold expect
  rw [lookup_eq]
  split_ifs
  · cases t.found? s name <;> rfl
  · rfl

/-- A scope that is found holds a symbol, so it exists and its level can be read. -/
theorem lookupWithDistance_eq (t : ScopeTable) (s : ScopeId) (name : String) :
    t.lookupWithDistance s name =
      if s.index < t.scopeCount then
        .ok ((t.found? s name).map fun (d, symbol) =>
          (symbol, (t.level s).toOption.getD 0 - (t.level d).toOption.getD 0))
      else .error (.unknownScope s) := by
  unfold lookupWithDistance
  rw [nearest_eq]
  split_ifs with hs
  · obtain ⟨i, hi⟩ := exists_level_iff.2 hs
    rw [hi]
    cases hf : t.found? s name with
    | none => rfl
    | some found =>
      obtain ⟨d, symbol⟩ := found
      obtain ⟨x, -, hx⟩ := List.exists_of_findSome?_eq_some hf
      obtain ⟨held, hheld, heq⟩ := Option.map_eq_some_iff.1 hx
      obtain ⟨rfl, rfl⟩ := Prod.mk.inj heq
      obtain ⟨j, hj⟩ := exists_level_iff.2 (lt_of_declared hheld)
      simp only [bind, Except.bind, hj, pure, Except.pure, Option.map_some, Except.toOption,
        Option.getD_some]
  · rw [level_eq, Array.getElem?_eq_none (Nat.le_of_not_lt hs)]
    rfl

/-- Every run of operations arrives at a table whose scopes and entries fit together, where
an unbounded search from any scope ends and gives what the lookups give, and where a lookup
fails only at a scope that does not exist. Without raw declarations every procedure symbol
belongs to the entry it names. -/
theorem wellFormed_after_any_run (ops : List Operation) :
    (empty.after ops).WellFormed ∧
    (∀ s name result, (empty.after ops).Search name (some s) result ↔
      result = (empty.after ops).nearest s name) ∧
    (∀ s name fault,
      ((empty.after ops).nearest s name = .error fault ↔
        (empty.after ops).scopeCount ≤ s.index ∧ fault = .unknownScope s) ∧
      ((empty.after ops).lookup s name = .error fault ↔
        (empty.after ops).scopeCount ≤ s.index ∧ fault = .unknownScope s) ∧
      ((empty.after ops).lookupWithDistance s name = .error fault ↔
        (empty.after ops).scopeCount ≤ s.index ∧ fault = .unknownScope s)) ∧
    ((∀ op ∈ ops, op.isRaw = false) → (empty.after ops).Owned) := by
  have hwf : (empty.after ops).WellFormed := Reachable.wellFormed ⟨ops, rfl⟩
  refine ⟨hwf, ?_, ?_, owned_after⟩
  · intro s name result
    constructor
    · intro h
      exact h.unique (hwf.search_nearest s name)
    · rintro rfl
      exact hwf.search_nearest s name
  · intro s name fault
    rw [nearest_eq, lookup_eq, lookupWithDistance_eq]
    by_cases hs : s.index < (empty.after ops).scopeCount
    · simp [hs, Nat.not_le.2 hs]
    · simp [hs, Nat.le_of_not_lt hs, eq_comm]

end PlZero.ScopeTable
