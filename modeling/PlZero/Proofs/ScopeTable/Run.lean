import Mathlib.Tactic.SplitIfs
import PlZero.ScopeTable.Lookup

/-! Runs of table operations. A run starts from the empty table and takes any operations
in any order; one that fails leaves the table alone. Each operation is described through
what a table shows: the parents and levels of its scopes, the symbols they hold, and the
procedure entries. `Growth` says all that a single operation can do. -/

namespace PlZero.ScopeTable

variable {t t' : ScopeTable} {s x : ScopeId} {name n : String} {symbol : Symbol} {k : Nat}

/-! ### What a table shows -/

theorem scope_eq (t : ScopeTable) (s : ScopeId) : t.scope s =
    match t.scopes[s.index]? with
    | some scope => .ok scope
    | none => .error (.unknownScope s) := rfl

theorem parent_eq (t : ScopeTable) (s : ScopeId) : t.parent s =
    match t.scopes[s.index]? with
    | some scope => .ok scope.parent
    | none => .error (.unknownScope s) := by
  unfold parent scope
  cases t.scopes[s.index]? <;> rfl

theorem level_eq (t : ScopeTable) (s : ScopeId) : t.level s =
    match t.scopes[s.index]? with
    | some scope => .ok scope.level
    | none => .error (.unknownScope s) := by
  unfold level scope
  cases t.scopes[s.index]? <;> rfl

theorem level_eq_ok_iff : t.level s = .ok k ↔
    ∃ scope, t.scopes[s.index]? = some scope ∧ scope.level = k := by
  rw [level_eq]
  cases t.scopes[s.index]? <;> simp

theorem exists_level_iff : (∃ k, t.level s = .ok k) ↔ s.index < t.scopeCount := by
  simp only [level_eq_ok_iff]
  constructor
  · rintro ⟨k, scope, h, -⟩
    exact (Array.getElem?_eq_some_iff.1 h).1
  · intro h
    exact ⟨_, t.scopes[s.index], Array.getElem?_eq_getElem h, rfl⟩

theorem lt_of_level (h : t.level s = .ok k) : s.index < t.scopeCount :=
  exists_level_iff.1 ⟨k, h⟩

theorem lt_of_parent {p : Option ScopeId} (h : t.parent s = .ok p) : s.index < t.scopeCount := by
  rcases Nat.lt_or_ge s.index t.scopeCount with hs | hs
  · exact hs
  · rw [parent_eq, Array.getElem?_eq_none hs] at h
    exact nomatch h

theorem declared?_eq {scope : Scope} (hs : t.scopes[s.index]? = some scope) (name : String) :
    t.declared? s name = scope.symbols.lookup name := by
  rw [declared?, hs, Option.bind_some]

theorem lt_of_declared (h : t.declared? s name = some symbol) : s.index < t.scopeCount := by
  rcases Nat.lt_or_ge s.index t.scopeCount with hs | hs
  · exact hs
  · rw [declared?, Array.getElem?_eq_none hs] at h
    exact nomatch h

theorem lt_of_procedure {p : ProcedureId} {entry : ProcedureEntry}
    (h : t.procedure p = .ok entry) : p.index < t.procedureCount := by
  rcases Nat.lt_or_ge p.index t.procedureCount with hp | hp
  · exact hp
  · rw [procedure, Array.getElem?_eq_none hp] at h
    exact nomatch h

theorem declared?_empty (s : ScopeId) (name : String) : empty.declared? s name = none := by
  cases h : empty.declared? s name with
  | none => rfl
  | some symbol =>
    have hs : s.index < 1 := lt_of_declared h
    obtain ⟨i⟩ := s
    obtain rfl : i = 0 := by simpa using hs
    exact nomatch h

/-! ### One scope more -/

/-- The table with one scope more, empty and inside `s`, whose level is `level`. -/
def opened (t : ScopeTable) (s : ScopeId) (level : Nat) : ScopeTable :=
  { t with scopes := t.scopes.push { parent := some s, level := level + 1 } }

@[simp] theorem scopeCount_opened : (t.opened s k).scopeCount = t.scopeCount + 1 := by
  simp [opened, scopeCount]

@[simp] theorem procedure_opened (p : ProcedureId) :
    (t.opened s k).procedure p = t.procedure p := rfl

@[simp] theorem procedureCount_opened : (t.opened s k).procedureCount = t.procedureCount := rfl

theorem parent_opened : (t.opened s k).parent x =
    if x.index = t.scopeCount then .ok (some s) else t.parent x := by
  simp only [parent_eq, opened, scopeCount, Array.getElem?_push]
  by_cases hx : x.index = t.scopes.size <;> simp [hx]

theorem level_opened : (t.opened s k).level x =
    if x.index = t.scopeCount then .ok (k + 1) else t.level x := by
  simp only [level_eq, opened, scopeCount, Array.getElem?_push]
  by_cases hx : x.index = t.scopes.size <;> simp [hx]

theorem parent_opened_of_parent {p : Option ScopeId} (h : t.parent x = .ok p) :
    (t.opened s k).parent x = .ok p := by
  rw [parent_opened, if_neg (Nat.ne_of_lt (lt_of_parent h)), h]

theorem level_opened_of_level {j : Nat} (h : t.level x = .ok j) :
    (t.opened s k).level x = .ok j := by
  rw [level_opened, if_neg (Nat.ne_of_lt (lt_of_level h)), h]

@[simp] theorem declared?_opened : (t.opened s k).declared? x n = t.declared? x n := by
  simp only [declared?, opened, Array.getElem?_push]
  by_cases hx : x.index = t.scopes.size <;> simp [hx]

/-! ### One symbol more -/

/-- The table whose scope `s` holds one symbol more. -/
def holding (t : ScopeTable) (s : ScopeId) (name : String) (symbol : Symbol) : ScopeTable :=
  { t with scopes := t.scopes.modify s.index fun scope =>
      { scope with symbols := (name, symbol) :: scope.symbols } }

@[simp] theorem scopeCount_holding : (t.holding s name symbol).scopeCount = t.scopeCount := by
  simp [holding, scopeCount]

@[simp] theorem procedure_holding (p : ProcedureId) :
    (t.holding s name symbol).procedure p = t.procedure p := rfl

@[simp] theorem procedureCount_holding :
    (t.holding s name symbol).procedureCount = t.procedureCount := rfl

@[simp] theorem parent_holding : (t.holding s name symbol).parent x = t.parent x := by
  simp only [parent_eq, holding, Array.getElem?_modify]
  cases t.scopes[x.index]? <;> by_cases hx : s.index = x.index <;> simp [hx]

@[simp] theorem level_holding : (t.holding s name symbol).level x = t.level x := by
  simp only [level_eq, holding, Array.getElem?_modify]
  cases t.scopes[x.index]? <;> by_cases hx : s.index = x.index <;> simp [hx]

theorem declared?_holding (hs : s.index < t.scopeCount) :
    (t.holding s name symbol).declared? x n =
      if x = s ∧ n = name then some symbol else t.declared? x n := by
  obtain ⟨i⟩ := x
  obtain ⟨j⟩ := s
  simp only [declared?, holding, Array.getElem?_modify, ScopeId.mk.injEq]
  by_cases hij : j = i
  · subst hij
    rw [Array.getElem?_eq_getElem hs]
    by_cases hn : n = name
    · simp [hn]
    · have hb : (n == name) = false := by simpa using hn
      simp [hn, List.lookup_cons, hb]
  · simp [hij, Ne.symm hij]

/-! ### One entry more -/

/-- The table with one procedure entry more. -/
def listing (t : ScopeTable) (entry : ProcedureEntry) : ScopeTable :=
  { t with procedures := t.procedures.push entry }

@[simp] theorem scopeCount_listing (entry : ProcedureEntry) :
    (t.listing entry).scopeCount = t.scopeCount := rfl

@[simp] theorem parent_listing (entry : ProcedureEntry) :
    (t.listing entry).parent x = t.parent x := rfl

@[simp] theorem level_listing (entry : ProcedureEntry) :
    (t.listing entry).level x = t.level x := rfl

@[simp] theorem declared?_listing (entry : ProcedureEntry) :
    (t.listing entry).declared? x n = t.declared? x n := rfl

@[simp] theorem procedureCount_listing (entry : ProcedureEntry) :
    (t.listing entry).procedureCount = t.procedureCount + 1 := by
  simp [listing, procedureCount]

theorem procedure_listing (entry : ProcedureEntry) (p : ProcedureId) :
    (t.listing entry).procedure p =
      if p.index = t.procedureCount then .ok entry else t.procedure p := by
  simp only [procedure, listing, procedureCount, Array.getElem?_push]
  by_cases hp : p.index = t.procedures.size <;> simp [hp]

/-! ### The operations -/

theorem openScope_eq (t : ScopeTable) (s : ScopeId) :
    t.openScope s = (t.level s).map fun k => (⟨t.scopeCount⟩, t.opened s k) := by
  unfold openScope level scope
  cases t.scopes[s.index]? <;> rfl

theorem holding_eq {scope : Scope} (hs : t.scopes[s.index]? = some scope) :
    t.holding s name symbol =
      ⟨t.scopes.setIfInBounds s.index { scope with symbols := (name, symbol) :: scope.symbols },
        t.procedures⟩ := by
  unfold holding
  congr 1
  apply Array.ext_getElem?
  intro i
  have hlt := (Array.getElem?_eq_some_iff.1 hs).1
  rw [Array.getElem?_modify, Array.getElem?_setIfInBounds]
  by_cases hi : s.index = i
  · subst hi
    rw [if_pos rfl, if_pos rfl, hs, if_pos hlt, Option.map_some]
  · rw [if_neg hi, if_neg hi]

theorem declare_eq (t : ScopeTable) (s : ScopeId) (name : String) (symbol : Symbol) :
    t.declare s name symbol =
      if isIdentifier name = false then .error (.invalidIdentifier name symbol.line)
      else if t.scopeCount ≤ s.index then .error (.unknownScope s)
      else if (t.declared? s name).isSome then .error (.symbolAlreadyDefined name symbol.line)
      else .ok (t.holding s name symbol) := by
  unfold declare
  cases hv : isIdentifier name with
  | false => rfl
  | true =>
    rcases Nat.lt_or_ge s.index t.scopeCount with hs | hs
    · have hget : t.scopes[s.index]? = some t.scopes[s.index] := Array.getElem?_eq_getElem hs
      rw [declared?_eq hget, holding_eq hget, scope_eq, hget]
      cases hl : t.scopes[s.index].symbols.lookup name with
      | none => simp [hl, Nat.not_le.2 hs, bind, Except.bind, pure, Except.pure]
      | some held =>
        simp [hl, Nat.not_le.2 hs, bind, Except.bind, throw, throwThe, MonadExceptOf.throw]
    · rw [scope_eq, Array.getElem?_eq_none hs]
      simp [hs, bind, Except.bind]

theorem declare_eq_ok_iff : t.declare s name symbol = .ok t' ↔
    isIdentifier name = true ∧ s.index < t.scopeCount ∧ t.declared? s name = none ∧
      t' = t.holding s name symbol := by
  rw [declare_eq]
  split_ifs with hv hs hd
  · simp [hv]
  · simp [Nat.not_lt.2 hs]
  · simp [Option.isSome_iff_ne_none.1 hd]
  · rw [Bool.not_eq_false] at hv
    rw [Nat.not_le] at hs
    rw [Bool.not_eq_true, Option.isSome_eq_false_iff, Option.isNone_iff_eq_none] at hd
    simp [hv, hs, hd, eq_comm]

theorem define_eq_ok_iff {meaning : Meaning} {line : Nat} :
    t.define s name meaning line = .ok t' ↔
      ∃ k, t.level s = .ok k ∧ isIdentifier name = true ∧ t.declared? s name = none ∧
        t' = t.holding s name ⟨meaning, line, k⟩ := by
  unfold define
  cases hk : t.level s with
  | error fault => simp [bind, Except.bind]
  | ok k =>
    have hs := lt_of_level hk
    simp only [bind, Except.bind, declare_eq_ok_iff, hs, true_and, Except.ok.injEq, exists_eq_left']

/-- Only the declaration of the name can fail: once it is made, the scope for the locals
can be opened, so no half-made procedure is left behind. -/
theorem defineProcedure_eq (t : ScopeTable) (s : ScopeId) (name : String) (line : Nat) :
    t.defineProcedure s name line = do
      let k ← t.level s
      let declared ← t.declare s name ⟨.procedure ⟨t.procedureCount⟩, line, k⟩
      return (⟨t.procedureCount⟩,
        (declared.opened s k).listing ⟨name, line, s, ⟨t.scopeCount⟩⟩) := by
  unfold defineProcedure define
  cases hk : t.level s with
  | error fault => rfl
  | ok k =>
    simp only [bind, Except.bind, procedureCount]
    cases h : t.declare s name ⟨.procedure ⟨t.procedures.size⟩, line, k⟩ with
    | error fault => rfl
    | ok declared =>
      obtain ⟨-, -, -, rfl⟩ := declare_eq_ok_iff.1 h
      simp only [openScope_eq, level_holding, hk, Except.map, scopeCount_holding]
      rfl

theorem defineProcedure_eq_ok_iff {line : Nat} {id : ProcedureId} :
    t.defineProcedure s name line = .ok (id, t') ↔
      ∃ k, t.level s = .ok k ∧ isIdentifier name = true ∧ t.declared? s name = none ∧
        id = ⟨t.procedureCount⟩ ∧
        t' = ((t.holding s name ⟨.procedure ⟨t.procedureCount⟩, line, k⟩).opened s k).listing
          ⟨name, line, s, ⟨t.scopeCount⟩⟩ := by
  rw [defineProcedure_eq]
  cases hk : t.level s with
  | error fault => simp [bind, Except.bind]
  | ok k =>
    simp only [bind, Except.bind, Except.ok.injEq, exists_eq_left']
    cases hd : t.declare s name ⟨.procedure ⟨t.procedureCount⟩, line, k⟩ with
    | error fault =>
      have hfail : ¬ (isIdentifier name = true ∧ t.declared? s name = none) := by
        rintro ⟨hv, fresh⟩
        exact nomatch hd.symm.trans (declare_eq_ok_iff.2 ⟨hv, lt_of_level hk, fresh, rfl⟩)
      simp only [reduceCtorEq, false_iff]
      exact fun h => hfail ⟨h.1, h.2.1⟩
    | ok declared =>
      obtain ⟨hv, -, fresh, rfl⟩ := declare_eq_ok_iff.1 hd
      simp [hv, fresh, pure, Except.pure, eq_comm]

/-! ### Runs -/

/-- An operation with its arguments, which need not make sense. -/
inductive Operation where
  | openScope (s : ScopeId)
  | declare (s : ScopeId) (name : String) (symbol : Symbol)
  | defineConstant (s : ScopeId) (name : String) (value : Int64) (line : Nat)
  | defineVariable (s : ScopeId) (name : String) (line : Nat)
  | defineProcedure (s : ScopeId) (name : String) (line : Nat)
  deriving DecidableEq, Repr

namespace Operation

def perform : Operation → ScopeTable → Except Fault ScopeTable
  | openScope s, t => (t.openScope s).map (·.2)
  | declare s name symbol, t => t.declare s name symbol
  | defineConstant s name value line, t => t.defineConstant s name value line
  | defineVariable s name line, t => t.defineVariable s name line
  | defineProcedure s name line, t => (t.defineProcedure s name line).map (·.2)

/-- The table after an operation, which is the old one when the operation fails. -/
def apply (op : Operation) (t : ScopeTable) : ScopeTable :=
  match op.perform t with
  | .ok t' => t'
  | .error _ => t

/-- Only `declare` takes a symbol as it comes, with any meaning and level. -/
def isRaw : Operation → Bool
  | declare _ _ _ => true
  | _ => false

theorem perform_openScope_eq_ok_iff : (openScope s).perform t = .ok t' ↔
    ∃ k, t.level s = .ok k ∧ t' = t.opened s k := by
  rw [perform, openScope_eq]
  cases t.level s <;> simp [Except.map, eq_comm]

theorem perform_defineProcedure_eq_ok_iff {line : Nat} :
    (defineProcedure s name line).perform t = .ok t' ↔
      ∃ k, t.level s = .ok k ∧ isIdentifier name = true ∧ t.declared? s name = none ∧
        t' = ((t.holding s name ⟨.procedure ⟨t.procedureCount⟩, line, k⟩).opened s k).listing
          ⟨name, line, s, ⟨t.scopeCount⟩⟩ := by
  constructor
  · intro h
    cases hd : t.defineProcedure s name line with
    | error fault => simp [perform, hd, Except.map] at h
    | ok made =>
      obtain ⟨k, hk, hv, fresh, -, ht⟩ := defineProcedure_eq_ok_iff.1 hd
      simp only [perform, hd, Except.map, Except.ok.injEq] at h
      exact ⟨k, hk, hv, fresh, h ▸ ht⟩
  · rintro ⟨k, hk, hv, fresh, rfl⟩
    rw [perform, defineProcedure_eq_ok_iff.2 ⟨k, hk, hv, fresh, rfl, rfl⟩]
    rfl

end Operation

/-- The table after some more operations. -/
def after (t : ScopeTable) (ops : List Operation) : ScopeTable :=
  ops.foldl (fun t op => op.apply t) t

@[simp] theorem after_nil (t : ScopeTable) : t.after [] = t := rfl

@[simp] theorem after_cons (t : ScopeTable) (op : Operation) (ops : List Operation) :
    t.after (op :: ops) = (op.apply t).after ops := rfl

/-- The tables that runs arrive at. -/
def Reachable (t : ScopeTable) : Prop := ∃ ops, t = empty.after ops

/-- What a successful operation makes of a table. Where raw declarations are not allowed,
a symbol that means a procedure comes with the procedure's entry. -/
inductive Growth (t : ScopeTable) (raw : Bool) : ScopeTable → Prop where
  | opening {s : ScopeId} {k : Nat} (hk : t.level s = .ok k) : Growth t raw (t.opened s k)
  | declaring {s : ScopeId} {name : String} {symbol : Symbol} (hv : isIdentifier name = true)
      (hs : s.index < t.scopeCount) (fresh : t.declared? s name = none)
      (plain : raw = false → ∀ id, symbol.meaning ≠ .procedure id) :
      Growth t raw (t.holding s name symbol)
  | procedure {s : ScopeId} {name : String} {k line : Nat} (hv : isIdentifier name = true)
      (hk : t.level s = .ok k) (fresh : t.declared? s name = none) :
      Growth t raw (((t.holding s name ⟨.procedure ⟨t.procedureCount⟩, line, k⟩).opened s k).listing
        ⟨name, line, s, ⟨t.scopeCount⟩⟩)

theorem growth_of_define {raw : Bool} {meaning : Meaning} {line : Nat}
    (plain : ∀ id, meaning ≠ .procedure id) (h : t.define s name meaning line = .ok t') :
    Growth t raw t' := by
  obtain ⟨k, hk, hv, fresh, rfl⟩ := define_eq_ok_iff.1 h
  exact .declaring hv (lt_of_level hk) fresh fun _ => plain

theorem Operation.growth_of_perform {op : Operation} {raw : Bool}
    (hraw : raw = false → op.isRaw = false) (h : op.perform t = .ok t') : Growth t raw t' := by
  cases op with
  | openScope s =>
    obtain ⟨k, hk, rfl⟩ := perform_openScope_eq_ok_iff.1 h
    exact .opening hk
  | declare s name symbol =>
    obtain ⟨hv, hs, fresh, rfl⟩ := declare_eq_ok_iff.1 h
    exact .declaring hv hs fresh fun hr => nomatch hraw hr
  | defineConstant s name value line => exact growth_of_define (by simp) h
  | defineVariable s name line => exact growth_of_define (by simp) h
  | defineProcedure s name line =>
    obtain ⟨k, hk, hv, fresh, rfl⟩ := perform_defineProcedure_eq_ok_iff.1 h
    exact .procedure hv hk fresh

theorem Operation.apply_eq_or_growth {op : Operation} {raw : Bool}
    (hraw : raw = false → op.isRaw = false) (t : ScopeTable) :
    op.apply t = t ∨ Growth t raw (op.apply t) := by
  unfold apply
  cases h : op.perform t with
  | error fault => exact .inl rfl
  | ok t' => exact .inr (growth_of_perform hraw h)

/-- What every growth keeps is kept by every run. -/
theorem after_invariant {P : ScopeTable → Prop} (raw : Bool)
    (step : ∀ {t t'}, P t → Growth t raw t' → P t') {t : ScopeTable} (start : P t)
    (ops : List Operation) (hops : raw = false → ∀ op ∈ ops, op.isRaw = false) :
    P (t.after ops) := by
  induction ops generalizing t with
  | nil => exact start
  | cons op ops ih =>
    rw [after_cons]
    apply ih
    · rcases op.apply_eq_or_growth (fun hr => hops hr op List.mem_cons_self) t with h | h
      · rw [h]; exact start
      · exact step start h
    · exact fun hr o ho => hops hr o (List.mem_cons_of_mem _ ho)

end PlZero.ScopeTable
