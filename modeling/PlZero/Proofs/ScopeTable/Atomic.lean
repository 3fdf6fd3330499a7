import PlZero.Proofs.ScopeTable.Log

/-! Operations as wholes. An operation is refused for the first thing that is wrong with its
arguments, in a fixed order, and then the table is as it was; otherwise it adds what it is there to
add and nothing else. The declaration of a procedure makes three changes one after another, and
would leave half of them behind if a later one could fail; so the operations are also written as
programs that change a table in place, and these are shown to keep what they have written only if
they come to their end. -/

namespace PlZero.ScopeTable

variable {t t' : ScopeTable} {s : ScopeId} {name : String} {line : Nat} {fault : Fault}

/-! ### What an operation is refused for -/

instance (name : String) : Decidable (MatchesIdentifier name) :=
  decidable_of_iff _ (isIdentifier_iff name)

/-- The table does not have the scope. -/
def unknown? (t : ScopeTable) (s : ScopeId) : Option Fault :=
  if s.index < t.scopeCount then none else some (.unknownScope s)

/-- The name is none that can be declared. -/
def malformed? (name : String) (line : Nat) : Option Fault :=
  if MatchesIdentifier name then none else some (.invalidIdentifier name line)

/-- The scope itself, enclosing ones aside, has the name already. -/
def taken? (t : ScopeTable) (s : ScopeId) (name : String) (line : Nat) : Option Fault :=
  if (t.declared? s name).isSome then some (.symbolAlreadyDefined name line) else none

/-- A symbol as it comes has its name looked at before the scope. -/
def declareFault? (t : ScopeTable) (s : ScopeId) (name : String) (line : Nat) : Option Fault :=
  malformed? name line <|> t.unknown? s <|> t.taken? s name line

/-- A constant, variable or procedure has its scope looked at before the name. -/
def defineFault? (t : ScopeTable) (s : ScopeId) (name : String) (line : Nat) : Option Fault :=
  t.unknown? s <|> malformed? name line <|> t.taken? s name line

/-- What is wrong with the operation on this table, if something is; of several faults the first
one counts. -/
def Operation.fault? (t : ScopeTable) : Operation → Option Fault
  | openScope s => t.unknown? s
  | declare s name symbol => t.declareFault? s name symbol.line
  | defineConstant s name _ line | defineVariable s name line | defineProcedure s name line =>
    t.defineFault? s name line

/-! ### What an operation adds -/

/-- At most one of each. -/
structure Addition where
  symbol : Option LogEntry := none
  /-- A new scope, by the one it is opened in. -/
  scopeIn : Option ScopeId := none
  procedure : Option ProcedureEntry := none

/-- What the operation has to add to the table. -/
def Operation.addition (t : ScopeTable) : Operation → Addition
  | openScope s => { scopeIn := some s }
  | defineProcedure s name line =>
    { symbol := (defineProcedure s name line).declares? t
      scopeIn := some s
      procedure := some ⟨name, line, s, ⟨t.scopeCount⟩⟩ }
  | op => { symbol := op.declares? t }

/-- The table `t'` is `t` with the addition, and shows nothing else that `t` does not show. New
scopes and procedures come after all others, and a new scope is empty. -/
structure Extended (t : ScopeTable) (new : Addition) (t' : ScopeTable) : Prop where
  scopeCount : t'.scopeCount = t.scopeCount + new.scopeIn.toList.length
  procedureCount : t'.procedureCount = t.procedureCount + new.procedure.toList.length
  oldScopes : ∀ x : ScopeId, x.index < t.scopeCount →
    t'.parent x = t.parent x ∧ t'.level x = t.level x
  newScope : ∀ s ∈ new.scopeIn, t'.parent ⟨t.scopeCount⟩ = .ok (some s) ∧
    (∃ k, t.level s = .ok k ∧ t'.level ⟨t.scopeCount⟩ = .ok (k + 1)) ∧
    ∀ n, t'.declared? ⟨t.scopeCount⟩ n = none
  oldProcedures : ∀ p : ProcedureId, p.index < t.procedureCount → t'.procedure p = t.procedure p
  newProcedure : ∀ entry ∈ new.procedure, t'.procedure ⟨t.procedureCount⟩ = .ok entry
  newSymbol : ∀ entry ∈ new.symbol, t.Adds entry t'
  oldSymbols : new.symbol = none → ∀ x n, t'.declared? x n = t.declared? x n

/-! ### Operations with their answers -/

/-- What an operation gives back besides the table. -/
inductive Answer where
  | nothing
  | scope (s : ScopeId)
  | procedure (p : ProcedureId)
  deriving DecidableEq, Repr

namespace Operation

def outcome : Operation → ScopeTable → Except Fault (Answer × ScopeTable)
  | openScope s, t => (t.openScope s).map fun (inner, t') => (.scope inner, t')
  | declare s name symbol, t => (t.declare s name symbol).map fun t' => (.nothing, t')
  | defineConstant s name value line, t =>
    (t.defineConstant s name value line).map fun t' => (.nothing, t')
  | defineVariable s name line, t => (t.defineVariable s name line).map fun t' => (.nothing, t')
  | defineProcedure s name line, t =>
    (t.defineProcedure s name line).map fun (id, t') => (.procedure id, t')

/-- The handle of what comes new, where there is one. -/
def answer (t : ScopeTable) : Operation → Answer
  | openScope _ => .scope ⟨t.scopeCount⟩
  | defineProcedure _ _ _ => .procedure ⟨t.procedureCount⟩
  | _ => .nothing

end Operation

/-! ### Operations in place -/

/-- A program that changes a table where it stands. What it has written when it fails stays. -/
abbrev InPlace := EStateM Fault ScopeTable

namespace InPlace

/-- Asks the table as it is at the moment. -/
def ask {α : Type} (question : ScopeTable → Except Fault α) : InPlace α := do
  match question (← get) with
  | .ok a => return a
  | .error fault => throw fault

def openScope (s : ScopeId) : InPlace ScopeId := do
  let level ← ask (·.level s)
  modify (·.opened s level)
  return ⟨(← get).scopeCount - 1⟩

def declare (s : ScopeId) (name : String) (symbol : Symbol) : InPlace Unit := do
  if isIdentifier name then
    let scope ← ask (·.scope s)
    if (scope.symbols.lookup name).isSome then throw (.symbolAlreadyDefined name symbol.line)
    else modify (·.holding s name symbol)
  else throw (.invalidIdentifier name symbol.line)

def define (s : ScopeId) (name : String) (meaning : Meaning) (line : Nat) : InPlace Unit := do
  let level ← ask (·.level s)
  declare s name { meaning, line, level }

def defineProcedure (s : ScopeId) (name : String) (line : Nat) : InPlace ProcedureId := do
  let level ← ask (·.level s)
  let id : ProcedureId := ⟨(← get).procedureCount⟩
  declare s name { meaning := .procedure id, line, level }
  let localScope ← openScope s
  modify (·.listing { name, line, definingScope := s, localScope })
  return id

/-- How a program ends that does all of its work or none. -/
def whole {α : Type} (t : ScopeTable) :
    Except Fault (α × ScopeTable) → EStateM.Result Fault ScopeTable α
  | .ok (a, t') => .ok a t'
  | .error fault => .error fault t

theorem run_ask {α : Type} (question : ScopeTable → Except Fault α) (t : ScopeTable) :
    (ask question).run t = whole t ((question t).map (·, t)) := by
  unfold ask
  rw [EStateM.run_bind]
  change (match question t with
    | .ok a => (pure a : InPlace α)
    | .error fault => throw fault).run t = _
  cases question t <;> rfl

theorem run_openScope (s : ScopeId) (t : ScopeTable) :
    (openScope s).run t = whole t (t.openScope s) := by
  unfold openScope
  rw [EStateM.run_bind, run_ask, openScope_eq]
  cases t.level s with
  | error fault => rfl
  | ok k =>
    change EStateM.Result.ok (⟨(t.opened s k).scopeCount - 1⟩ : ScopeId) (t.opened s k) = _
    rw [scopeCount_opened, Nat.add_sub_cancel]
    rfl

theorem run_declare (s : ScopeId) (name : String) (symbol : Symbol) (t : ScopeTable) :
    (declare s name symbol).run t = whole t ((t.declare s name symbol).map ((), ·)) := by
  unfold declare
  rw [declare_eq]
  cases hv : isIdentifier name with
  | false => rfl
  | true =>
    rw [if_pos rfl, if_neg Bool.noConfusion, EStateM.run_bind, run_ask, scope_eq]
    rcases Nat.lt_or_ge s.index t.scopeCount with hs | hs
    · have hget : t.scopes[s.index]? = some t.scopes[s.index] := Array.getElem?_eq_getElem hs
      rw [if_neg (Nat.not_le.2 hs), declared?_eq hget, hget]
      cases hl : t.scopes[s.index].symbols.lookup name with
      | none => simp only [Except.map, whole, hl]; rfl
      | some held => simp only [Except.map, whole, hl]; rfl
    · rw [if_pos hs, Array.getElem?_eq_none hs]
      rfl

theorem run_define (s : ScopeId) (name : String) (meaning : Meaning) (line : Nat)
    (t : ScopeTable) :
    (define s name meaning line).run t = whole t ((t.define s name meaning line).map ((), ·)) := by
  unfold define ScopeTable.define
  rw [EStateM.run_bind, run_ask]
  cases t.level s with
  | error fault => rfl
  | ok k => exact run_declare s name ⟨meaning, line, k⟩ t

/-- Once the name is declared, the other two changes cannot fail. -/
theorem run_defineProcedure (s : ScopeId) (name : String) (line : Nat) (t : ScopeTable) :
    (defineProcedure s name line).run t = whole t (t.defineProcedure s name line) := by
  unfold defineProcedure
  rw [EStateM.run_bind, run_ask, defineProcedure_eq]
  cases hk : t.level s with
  | error fault => rfl
  | ok k =>
    change ((do
      declare s name ⟨.procedure ⟨t.procedureCount⟩, line, k⟩
      let localScope ← openScope s
      modify (·.listing { name, line, definingScope := s, localScope })
      return ⟨t.procedureCount⟩) : InPlace ProcedureId).run t = _
    rw [EStateM.run_bind, run_declare]
    cases hd : t.declare s name ⟨.procedure ⟨t.procedureCount⟩, line, k⟩ with
    | error fault => simp only [bind, Except.bind, hd]; rfl
    | ok declared =>
      obtain ⟨-, -, -, rfl⟩ := declare_eq_ok_iff.1 hd
      have hopen : (openScope s).run (t.holding s name ⟨.procedure ⟨t.procedureCount⟩, line, k⟩) =
          .ok ⟨t.scopeCount⟩
            ((t.holding s name ⟨.procedure ⟨t.procedureCount⟩, line, k⟩).opened s k) := by
        rw [run_openScope, openScope_eq, level_holding, hk, scopeCount_holding]
        rfl
      change (openScope s >>= fun localScope => (do
        modify (·.listing { name, line, definingScope := s, localScope })
        return ⟨t.procedureCount⟩ : InPlace ProcedureId)).run _ = _
      rw [EStateM.run_bind, hopen]
      simp only [bind, Except.bind, hd]
      rfl

theorem run_map {α β : Type} {x : InPlace α} {t : ScopeTable}
    {result : Except Fault (α × ScopeTable)} (h : x.run t = whole t result) (f : α → β) :
    (do return f (← x) : InPlace β).run t = whole t (result.map fun (a, t') => (f a, t')) := by
  rw [EStateM.run_bind, h]
  cases result <;> rfl

end InPlace

namespace Operation

/-- The operation as a program that changes the table in place. -/
def inPlace : Operation → InPlace Answer
  | openScope s => return .scope (← InPlace.openScope s)
  | declare s name symbol => return (fun _ => .nothing) (← InPlace.declare s name symbol)
  | defineConstant s name value line =>
    return (fun _ => .nothing) (← InPlace.define s name (.constant value) line)
  | defineVariable s name line => return (fun _ => .nothing) (← InPlace.define s name .var line)
  | defineProcedure s name line => return .procedure (← InPlace.defineProcedure s name line)

theorem run_inPlace (op : Operation) (t : ScopeTable) :
    op.inPlace.run t = InPlace.whole t (op.outcome t) := by
  cases op with
  | openScope s => exact InPlace.run_map (InPlace.run_openScope s t) _
  | declare s name symbol =>
    rw [inPlace, InPlace.run_map (InPlace.run_declare s name symbol t), outcome]
    cases t.declare s name symbol <;> rfl
  | defineConstant s name value line =>
    rw [inPlace, InPlace.run_map (InPlace.run_define s name _ line t), outcome,
      ScopeTable.defineConstant]
    cases t.define s name (.constant value) line <;> rfl
  | defineVariable s name line =>
    rw [inPlace, InPlace.run_map (InPlace.run_define s name _ line t), outcome,
      ScopeTable.defineVariable]
    cases t.define s name .var line <;> rfl
  | defineProcedure s name line =>
    exact InPlace.run_map (InPlace.run_defineProcedure s name line t) _

end Operation

/-! ### Refusals -/

theorem unknown?_eq_none_iff : t.unknown? s = none ↔ s.index < t.scopeCount := by
  simp [unknown?]

theorem malformed?_eq_none_iff : malformed? name line = none ↔ isIdentifier name = true := by
  simp [malformed?, isIdentifier_iff]

theorem taken?_eq_none_iff : t.taken? s name line = none ↔ t.declared? s name = none := by
  simp [taken?]

theorem declareFault?_eq_none_iff : t.declareFault? s name line = none ↔
    isIdentifier name = true ∧ s.index < t.scopeCount ∧ t.declared? s name = none := by
  simp only [declareFault?, Option.orElse_eq_orElse, Option.orElse_eq_or, Option.or_eq_none_iff,
    malformed?_eq_none_iff, unknown?_eq_none_iff, taken?_eq_none_iff]

theorem defineFault?_eq_none_iff : t.defineFault? s name line = none ↔
    ∃ k, t.level s = .ok k ∧ isIdentifier name = true ∧ t.declared? s name = none := by
  simp only [defineFault?, Option.orElse_eq_orElse, Option.orElse_eq_or, Option.or_eq_none_iff,
    malformed?_eq_none_iff, unknown?_eq_none_iff, taken?_eq_none_iff, ← exists_level_iff,
    exists_and_right]

theorem declare_eq_fault (t : ScopeTable) (s : ScopeId) (name : String) (symbol : Symbol) :
    t.declare s name symbol =
      match t.declareFault? s name symbol.line with
      | some fault => .error fault
      | none => .ok (t.holding s name symbol) := by
  rw [declare_eq, declareFault?, malformed?, unknown?, taken?]
  simp only [← isIdentifier_iff]
  by_cases hv : isIdentifier name = true
  · by_cases hs : s.index < t.scopeCount
    · by_cases hd : (t.declared? s name).isSome = true
      · simp [hv, hs, Nat.not_le.2 hs, hd]
      · simp [hv, hs, Nat.not_le.2 hs, hd]
    · simp [hv, hs, Nat.le_of_not_lt hs]
  · simp [hv]

theorem level_eq_error (hs : ¬ s.index < t.scopeCount) :
    t.level s = .error (.unknownScope s) := by
  rw [level_eq, Array.getElem?_eq_none (Nat.le_of_not_lt hs)]

theorem openScope_refused (h : t.unknown? s = some fault) : t.openScope s = .error fault := by
  have hs : ¬ s.index < t.scopeCount := by
    intro hs
    exact Option.some_ne_none fault (h.symm.trans (unknown?_eq_none_iff.2 hs))
  have hfault : .unknownScope s = fault := by simpa [unknown?, hs] using h
  rw [openScope_eq, level_eq_error hs, hfault]
  rfl

/-- Where the scope exists, the name is looked at first in either case. -/
theorem define_refused {meaning : Meaning} (h : t.defineFault? s name line = some fault) :
    t.define s name meaning line = .error fault := by
  unfold define
  by_cases hs : s.index < t.scopeCount
  · obtain ⟨k, hk⟩ := exists_level_iff.2 hs
    have hknown : t.unknown? s = none := unknown?_eq_none_iff.2 hs
    have hsame : t.declareFault? s name line = t.defineFault? s name line := by
      simp [declareFault?, defineFault?, hknown]
    rw [hk]
    change t.declare s name ⟨meaning, line, k⟩ = _
    rw [declare_eq_fault, hsame, h]
  · have hfault : .unknownScope s = fault := by simpa [defineFault?, unknown?, hs] using h
    rw [level_eq_error hs, hfault]
    rfl

theorem defineProcedure_refused (h : t.defineFault? s name line = some fault) :
    t.defineProcedure s name line = .error fault := by
  unfold defineProcedure
  change (t.define s name (.procedure ⟨t.procedureCount⟩) line >>= _) = _
  rw [define_refused h]
  rfl

theorem Operation.outcome_refused {op : Operation} (h : op.fault? t = some fault) :
    op.outcome t = .error fault := by
  cases op with
  | openScope s => rw [outcome, openScope_refused h]; rfl
  | declare s name symbol =>
    have hfault : t.declareFault? s name symbol.line = some fault := h
    rw [outcome, declare_eq_fault, hfault]; rfl
  | defineConstant s name value line =>
    rw [outcome, ScopeTable.defineConstant, define_refused h]; rfl
  | defineVariable s name line => rw [outcome, ScopeTable.defineVariable, define_refused h]; rfl
  | defineProcedure s name line => rw [outcome, defineProcedure_refused h]; rfl

/-! ### Additions -/

variable {symbol : Symbol} {k : Nat}

theorem declared?_last (t : ScopeTable) (n : String) : t.declared? ⟨t.scopeCount⟩ n = none := by
  rw [declared?, scopeCount, Array.getElem?_size]
  rfl

theorem Extended.opened (hk : t.level s = .ok k) :
    t.Extended { scopeIn := some s } (t.opened s k) where
  scopeCount := by simp
  procedureCount := rfl
  oldScopes x hx := by
    rw [parent_opened, level_opened, if_neg (Nat.ne_of_lt hx), if_neg (Nat.ne_of_lt hx)]
    exact ⟨rfl, rfl⟩
  newScope x hx := by
    obtain rfl : s = x := by simpa using hx
    refine ⟨?_, ⟨k, hk, ?_⟩, fun n => ?_⟩
    · rw [parent_opened, if_pos rfl]
    · rw [level_opened, if_pos rfl]
    · rw [declared?_opened, declared?_last]
  oldProcedures _ _ := rfl
  newProcedure _ h := by simp at h
  newSymbol _ h := by simp at h
  oldSymbols _ _ _ := declared?_opened

theorem Extended.holding (hs : s.index < t.scopeCount) (fresh : t.declared? s name = none) :
    t.Extended { symbol := some ⟨s, name, symbol⟩ } (t.holding s name symbol) where
  scopeCount := by simp
  procedureCount := rfl
  oldScopes x _ := ⟨parent_holding, level_holding⟩
  newScope _ h := by simp at h
  oldProcedures _ _ := rfl
  newProcedure _ h := by simp at h
  newSymbol entry h := by
    obtain rfl : ⟨s, name, symbol⟩ = entry := by simpa using h
    exact adds_holding hs fresh
  oldSymbols h := by simp at h

theorem Extended.procedure {entry : ProcedureEntry} (hk : t.level s = .ok k)
    (fresh : t.declared? s name = none) :
    t.Extended { symbol := some ⟨s, name, symbol⟩, scopeIn := some s, procedure := some entry }
      (((t.holding s name symbol).opened s k).listing entry) where
  scopeCount := by simp
  procedureCount := by simp
  oldScopes x hx := by
    rw [parent_listing, level_listing, parent_opened, level_opened, scopeCount_holding,
      if_neg (Nat.ne_of_lt hx), if_neg (Nat.ne_of_lt hx)]
    exact ⟨parent_holding, level_holding⟩
  newScope x hx := by
    obtain rfl : s = x := by simpa using hx
    refine ⟨?_, ⟨k, hk, ?_⟩, fun n => ?_⟩
    · rw [parent_listing, parent_opened, scopeCount_holding, if_pos rfl]
    · rw [level_listing, level_opened, scopeCount_holding, if_pos rfl]
    · rw [declared?_listing, declared?_opened, ← scopeCount_holding, declared?_last]
  oldProcedures p hp := by
    rw [procedure_listing, procedureCount_opened, procedureCount_holding,
      if_neg (Nat.ne_of_lt hp), procedure_opened, procedure_holding]
  newProcedure made h := by
    obtain rfl : entry = made := by simpa using h
    rw [procedure_listing, procedureCount_opened, procedureCount_holding, if_pos rfl]
  newSymbol made h := by
    obtain rfl : ⟨s, name, symbol⟩ = made := by simpa using h
    exact adds_procedure (lt_of_level hk) fresh
  oldSymbols h := by simp at h

theorem Extended.define (meaning : Meaning) (h : t.defineFault? s name line = none) :
    ∃ t', t.define s name meaning line = .ok t' ∧
      t.Extended { symbol := t.entryAt? s name meaning line } t' := by
  obtain ⟨k, hk, hv, fresh⟩ := defineFault?_eq_none_iff.1 h
  rw [entryAt?_eq hk]
  exact ⟨_, define_eq_ok_iff.2 ⟨k, hk, hv, fresh, rfl⟩, .holding (lt_of_level hk) fresh⟩

theorem Operation.outcome_performed {op : Operation} (h : op.fault? t = none) :
    ∃ t', op.outcome t = .ok (op.answer t, t') ∧ t.Extended (op.addition t) t' := by
  cases op with
  | openScope s =>
    obtain ⟨k, hk⟩ := exists_level_iff.2 (unknown?_eq_none_iff.1 h)
    refine ⟨t.opened s k, ?_, .opened hk⟩
    rw [outcome, openScope_eq, hk]
    rfl
  | declare s name symbol =>
    obtain ⟨hv, hs, fresh⟩ := declareFault?_eq_none_iff.1 h
    refine ⟨t.holding s name symbol, ?_, .holding hs fresh⟩
    rw [outcome, declare_eq_ok_iff.2 ⟨hv, hs, fresh, rfl⟩]
    rfl
  | defineConstant s name value line =>
    obtain ⟨t', hdone, hnew⟩ := Extended.define (.constant value) h
    exact ⟨t', by rw [outcome, ScopeTable.defineConstant, hdone]; rfl, hnew⟩
  | defineVariable s name line =>
    obtain ⟨t', hdone, hnew⟩ := Extended.define .var h
    exact ⟨t', by rw [outcome, ScopeTable.defineVariable, hdone]; rfl, hnew⟩
  | defineProcedure s name line =>
    obtain ⟨k, hk, hv, fresh⟩ := defineFault?_eq_none_iff.1 h
    have hdone : t.defineProcedure s name line = .ok (⟨t.procedureCount⟩, _) :=
      defineProcedure_eq_ok_iff.2 ⟨k, hk, hv, fresh, rfl, rfl⟩
    refine ⟨_, by rw [outcome, hdone]; rfl, ?_⟩
    rw [addition, declares?, entryAt?_eq hk]
    exact .procedure hk fresh

/-! ### All or nothing -/

/-- An operation with something wrong fails with the first fault and leaves the table as it was,
also when it changes the table in place; any other gives the next free handle and adds exactly what
it is there to add. -/
theorem operation_all_or_nothing (t : ScopeTable) (op : Operation) :
    match op.fault? t with
    | some fault => op.outcome t = .error fault ∧ op.inPlace.run t = .error fault t
    | none => ∃ t', op.outcome t = .ok (op.answer t, t') ∧ op.inPlace.run t = .ok (op.answer t) t' ∧
        t.Extended (op.addition t) t' := by
  rw [op.run_inPlace]
  cases h : op.fault? t with
  | some fault =>
    have hrefused := Operation.outcome_refused h
    exact ⟨hrefused, by rw [hrefused]; rfl⟩
  | none =>
    obtain ⟨t', hdone, hnew⟩ := Operation.outcome_performed h
    exact ⟨t', hdone, by rw [hdone]; rfl, hnew⟩

-- With two things wrong, a symbol is refused for its name and a variable for its scope.
example :
    (Operation.declare ⟨7⟩ "9" ⟨.var, 1, 0⟩).outcome empty = .error (.invalidIdentifier "9" 1) ∧
      (Operation.defineVariable ⟨7⟩ "9" 1).outcome empty = .error (.unknownScope ⟨7⟩) := by
  cbv

end PlZero.ScopeTable
