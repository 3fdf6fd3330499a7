import Mathlib.Data.List.Nodup
import PlZero.Proofs.ScopeTable.Search

/-! The log of a run: the declarations that its operations made, in their order. A scope takes
a name once, so the first entry for a name in a scope is the only one, and every lookup can
be read off the log and the parents of the scopes. -/

namespace PlZero.ScopeTable

/-- A declaration that was made. -/
structure LogEntry where
  scope : ScopeId
  name : String
  symbol : Symbol
  deriving DecidableEq, Repr

/-- Whether the entry is for this name in this scope. -/
def LogEntry.isFor (entry : LogEntry) (s : ScopeId) (name : String) : Bool :=
  entry.scope = s && entry.name = name

/-- The entry for a name that is declared at the level of its scope. -/
def entryAt? (t : ScopeTable) (s : ScopeId) (name : String) (meaning : Meaning) (line : Nat) :
    Option LogEntry :=
  (t.level s).toOption.map fun level => ⟨s, name, ⟨meaning, line, level⟩⟩

/-- What an operation declares when it succeeds on the table. -/
def Operation.declares? (t : ScopeTable) : Operation → Option LogEntry
  | openScope _ => none
  | declare s name symbol => some ⟨s, name, symbol⟩
  | defineConstant s name value line => t.entryAt? s name (.constant value) line
  | defineVariable s name line => t.entryAt? s name .var line
  | defineProcedure s name line => t.entryAt? s name (.procedure ⟨t.procedureCount⟩) line

/-- The declarations that the operations make, one after another from the table `t`. -/
def log : ScopeTable → List Operation → List LogEntry
  | _, [] => []
  | t, op :: ops =>
    match op.perform t with
    | .ok t' => (op.declares? t).toList ++ t'.log ops
    | .error _ => t.log ops

variable {t t' : ScopeTable} {s d x : ScopeId} {name n : String} {symbol : Symbol}

theorem LogEntry.isFor_iff {entry : LogEntry} :
    entry.isFor x n = true ↔ entry.scope = x ∧ entry.name = n := by
  simp [isFor]

/-! ### One operation -/

/-- What the entry of a successful operation means for the table. -/
structure Adds (t : ScopeTable) (entry : LogEntry) (t' : ScopeTable) : Prop where
  fresh : t.declared? entry.scope entry.name = none
  here : t'.declared? entry.scope entry.name = some entry.symbol
  elsewhere : ∀ x n, entry.isFor x n = false → t'.declared? x n = t.declared? x n

theorem adds_holding (hs : s.index < t.scopeCount) (fresh : t.declared? s name = none) :
    t.Adds ⟨s, name, symbol⟩ (t.holding s name symbol) where
  fresh := fresh
  here := by rw [declared?_holding hs, if_pos ⟨rfl, rfl⟩]
  elsewhere x n h := by
    rw [declared?_holding hs, if_neg]
    rintro ⟨rfl, rfl⟩
    simp [LogEntry.isFor] at h

theorem Adds.of_declared?_eq {t'' : ScopeTable} {entry : LogEntry} (h : t.Adds entry t')
    (hsame : ∀ x n, t''.declared? x n = t'.declared? x n) : t.Adds entry t'' where
  fresh := h.fresh
  here := by rw [hsame, h.here]
  elsewhere x n hx := by rw [hsame, h.elsewhere x n hx]

/-- The new scope is empty and the new procedure entry declares nothing. -/
theorem adds_procedure {k : Nat} {p : ProcedureEntry} (hs : s.index < t.scopeCount)
    (fresh : t.declared? s name = none) :
    t.Adds ⟨s, name, symbol⟩ (((t.holding s name symbol).opened s k).listing p) :=
  (adds_holding hs fresh).of_declared?_eq fun x n => by rw [declared?_listing, declared?_opened]

theorem entryAt?_eq {k line : Nat} (hk : t.level s = .ok k) (meaning : Meaning) :
    t.entryAt? s name meaning line = some ⟨s, name, ⟨meaning, line, k⟩⟩ := by
  rw [entryAt?, hk]
  rfl

theorem adds_define {meaning : Meaning} {line : Nat} (h : t.define s name meaning line = .ok t') :
    ∃ entry, t.entryAt? s name meaning line = some entry ∧ t.Adds entry t' := by
  obtain ⟨k, hk, -, fresh, rfl⟩ := define_eq_ok_iff.1 h
  exact ⟨_, entryAt?_eq hk meaning, adds_holding (lt_of_level hk) fresh⟩

/-- A successful operation makes the declaration of its entry and no other. -/
theorem Operation.declared?_perform {op : Operation} (h : op.perform t = .ok t') :
    (op.declares? t = none ∧ ∀ x n, t'.declared? x n = t.declared? x n) ∨
      ∃ entry, op.declares? t = some entry ∧ t.Adds entry t' := by
  cases op with
  | openScope s =>
    obtain ⟨k, -, rfl⟩ := perform_openScope_eq_ok_iff.1 h
    exact .inl ⟨rfl, fun x n => declared?_opened⟩
  | declare s name symbol =>
    obtain ⟨-, hs, fresh, rfl⟩ := declare_eq_ok_iff.1 h
    exact .inr ⟨_, rfl, adds_holding hs fresh⟩
  | defineConstant s name value line => exact .inr (adds_define h)
  | defineVariable s name line => exact .inr (adds_define h)
  | defineProcedure s name line =>
    obtain ⟨k, hk, -, fresh, rfl⟩ := perform_defineProcedure_eq_ok_iff.1 h
    exact .inr ⟨_, entryAt?_eq hk _, adds_procedure (lt_of_level hk) fresh⟩

/-! ### Runs -/

theorem log_cons_of_ok {op : Operation} (h : op.perform t = .ok t') (ops : List Operation) :
    t.log (op :: ops) = (op.declares? t).toList ++ t'.log ops := by
  rw [log, h]

theorem log_cons_of_error {op : Operation} {fault : Fault} (h : op.perform t = .error fault)
    (ops : List Operation) : t.log (op :: ops) = t.log ops := by
  rw [log, h]

theorem Operation.apply_of_ok {op : Operation} (h : op.perform t = .ok t') : op.apply t = t' := by
  rw [apply, h]

theorem Operation.apply_of_error {op : Operation} {fault : Fault}
    (h : op.perform t = .error fault) : op.apply t = t := by
  rw [apply, h]

/-- What a scope holds for a name after a run is what it held before, and else what the log
has for it; and the log has nothing for a name that was held before. -/
theorem filter_log (t : ScopeTable) (ops : List Operation) (x : ScopeId) (n : String) :
    match t.declared? x n with
    | some symbol =>
      (t.after ops).declared? x n = some symbol ∧ (t.log ops).filter (·.isFor x n) = []
    | none =>
      (t.log ops).filter (·.isFor x n) = ((t.after ops).declared? x n).toList.map (⟨x, n, ·⟩) := by
  induction ops generalizing t with
  | nil => cases h : t.declared? x n <;> simp [log, h]
  | cons op ops ih =>
    rw [after_cons]
    cases hop : op.perform t with
    | error fault =>
      rw [log_cons_of_error hop, Operation.apply_of_error hop]
      exact ih t
    | ok t' =>
      rw [log_cons_of_ok hop, Operation.apply_of_ok hop]
      rcases Operation.declared?_perform hop with ⟨hnone, hsame⟩ | ⟨entry, hentry, hadds⟩
      · rw [hnone, ← hsame x n]
        exact ih t'
      · have hrest := ih t'
        rw [hentry, Option.toList_some, List.singleton_append, List.filter_cons]
        cases hfor : entry.isFor x n with
        | false =>
          rw [if_neg Bool.false_ne_true, ← hadds.elsewhere x n hfor]
          exact hrest
        | true =>
          obtain ⟨rfl, rfl⟩ := LogEntry.isFor_iff.1 hfor
          rw [hadds.here] at hrest
          rw [hadds.fresh, if_pos rfl, hrest.2, hrest.1]
          rfl

theorem filter_log_empty (ops : List Operation) (x : ScopeId) (n : String) :
    (empty.log ops).filter (·.isFor x n) =
      ((empty.after ops).declared? x n).toList.map (⟨x, n, ·⟩) := by
  have h := filter_log empty ops x n
  rwa [declared?_empty] at h

/-- A scope holds for a name what the first entry for it says. -/
theorem declared?_after_empty (ops : List Operation) (x : ScopeId) (n : String)
    (symbol : Symbol) : (empty.after ops).declared? x n = some symbol ↔
      (empty.log ops).find? (·.isFor x n) = some ⟨x, n, symbol⟩ := by
  rw [← List.head?_filter, filter_log_empty]
  cases (empty.after ops).declared? x n <;> simp

theorem declared?_after_empty_eq_none (ops : List Operation) (x : ScopeId) (n : String) :
    (empty.after ops).declared? x n = none ↔
      ∀ entry ∈ empty.log ops, entry.isFor x n = false := by
  have h := filter_log_empty ops x n
  constructor
  · intro hnone entry hmem
    rw [hnone, Option.toList_none, List.map_nil, List.filter_eq_nil_iff] at h
    exact Bool.eq_false_iff.2 (h entry hmem)
  · intro hall
    have hnil : (empty.log ops).filter (·.isFor x n) = [] := by
      rw [List.filter_eq_nil_iff]
      intro entry hmem
      rw [hall entry hmem]
      exact Bool.false_ne_true
    rw [hnil] at h
    cases hd : (empty.after ops).declared? x n with
    | none => rfl
    | some symbol => rw [hd] at h; exact nomatch h

/-- No name is declared twice in a scope. -/
theorem nodup_log (ops : List Operation) :
    ((empty.log ops).map fun entry => (entry.scope, entry.name)).Nodup := by
  rw [List.nodup_iff_count_le_one]
  rintro ⟨x, n⟩
  have hcount : ((empty.log ops).map fun entry => (entry.scope, entry.name)).count (x, n) =
      ((empty.log ops).filter (·.isFor x n)).length := by
    rw [List.count, List.countP_map, List.countP_eq_length_filter]
    congr 2
  rw [hcount, filter_log_empty]
  cases (empty.after ops).declared? x n <;> simp

/-! ### Lookups -/

/-- Of the scopes from `s` outward, `d` is the first that the log has an entry for, and the
first of its entries gives the symbol. -/
def FirstLogged (t : ScopeTable) (log : List LogEntry) (s : ScopeId) (name : String)
    (d : ScopeId) (symbol : Symbol) : Prop :=
  ∃ k, t.ancestor? k s = some d ∧ log.find? (·.isFor d name) = some ⟨d, name, symbol⟩ ∧
    ∀ j < k, ∀ x, t.ancestor? j s = some x → ∀ entry ∈ log, entry.isFor x name = false

/-- The log has no entry for any scope from `s` outward. -/
def NeverLogged (t : ScopeTable) (log : List LogEntry) (s : ScopeId) (name : String) : Prop :=
  ∀ k x, t.ancestor? k s = some x → ∀ entry ∈ log, entry.isFor x name = false

theorem nearest_iff_firstLogged (ops : List Operation) : (empty.after ops).Nearest s name d symbol ↔
    (empty.after ops).FirstLogged (empty.log ops) s name d symbol := by
  simp only [Nearest, FirstLogged, declared?_after_empty, declared?_after_empty_eq_none]

theorem undeclared_iff_neverLogged (ops : List Operation) : (empty.after ops).Undeclared s name ↔
    (empty.after ops).NeverLogged (empty.log ops) s name := by
  simp only [Undeclared, NeverLogged, declared?_after_empty_eq_none]

/-- All lookups from the scope find a symbol for the name, and it is this one. -/
structure Finds (t : ScopeTable) (s : ScopeId) (name : String) (symbol : Symbol) : Prop where
  lookup : t.lookup s name = .ok (some symbol)
  distance : ∃ k, t.lookupWithDistance s name = .ok (some (symbol, k))
  contains : t.contains s name = true
  expect : ∀ kind line, t.expect s name kind line =
    if symbol.meaning.kindName = kind then .ok symbol
    else .error (.typeMismatch kind symbol.meaning.kindName name line)

/-- No lookup from the scope finds a symbol for the name. -/
structure Misses (t : ScopeTable) (s : ScopeId) (name : String) : Prop where
  lookup : t.lookup s name = .ok none
  distance : t.lookupWithDistance s name = .ok none
  contains : t.contains s name = false
  expect : ∀ kind line, t.expect s name kind line = .error (.undefinedSymbol name line)

theorem finds_of_found? (hs : s.index < t.scopeCount) (h : t.found? s name = some (d, symbol)) :
    t.Finds s name symbol where
  lookup := by rw [lookup_eq, if_pos hs, h, Option.map_some]
  distance := by
    rw [lookupWithDistance_eq, if_pos hs, h]
    exact ⟨_, rfl⟩
  contains := by rw [contains_eq, if_pos hs, h, Option.isSome_some]
  expect kind line := by rw [expect_eq, if_pos hs, h]

theorem misses_of_found? (hs : s.index < t.scopeCount) (h : t.found? s name = none) :
    t.Misses s name where
  lookup := by rw [lookup_eq, if_pos hs, h, Option.map_none]
  distance := by rw [lookupWithDistance_eq, if_pos hs, h, Option.map_none]
  contains := by rw [contains_eq, if_pos hs, h, Option.isSome_none]
  expect kind line := by rw [expect_eq, if_pos hs, h]

/-- After every run, a search from a scope that exists finds what the log has for the first
scope outward with an entry, and nothing only if there is none; the other lookups give the
same symbol. -/
theorem lookups_refine_log (ops : List Operation) (s : ScopeId)
    (hs : s.index < (empty.after ops).scopeCount) (name : String) :
    ((empty.log ops).map fun entry => (entry.scope, entry.name)).Nodup ∧
    (∀ d symbol, (empty.after ops).nearest s name = .ok (some (d, symbol)) ↔
      (empty.after ops).FirstLogged (empty.log ops) s name d symbol) ∧
    ((empty.after ops).nearest s name = .ok none ↔
      (empty.after ops).NeverLogged (empty.log ops) s name) ∧
    (∀ d symbol, (empty.after ops).FirstLogged (empty.log ops) s name d symbol →
      (empty.after ops).Finds s name symbol) ∧
    ((empty.after ops).NeverLogged (empty.log ops) s name → (empty.after ops).Misses s name) := by
  have hwf : (empty.after ops).WellFormed := Reachable.wellFormed ⟨ops, rfl⟩
  have hsome (d : ScopeId) (symbol : Symbol) :
      (empty.after ops).found? s name = some (d, symbol) ↔
        (empty.after ops).FirstLogged (empty.log ops) s name d symbol :=
    (hwf.found?_eq_some_iff hs).trans (nearest_iff_firstLogged ops)
  have hnone : (empty.after ops).found? s name = none ↔
      (empty.after ops).NeverLogged (empty.log ops) s name :=
    (hwf.found?_eq_none_iff hs).trans (undeclared_iff_neverLogged ops)
  refine ⟨nodup_log ops, ?_, ?_, ?_, ?_⟩
  · intro d symbol
    rw [nearest_eq, if_pos hs, Except.ok.injEq, hsome]
  · rw [nearest_eq, if_pos hs, Except.ok.injEq, hnone]
  · intro d symbol hfirst
    exact finds_of_found? hs ((hsome d symbol).2 hfirst)
  · intro hnever
    exact misses_of_found? hs (hnone.2 hnever)

/-- A variable that is hidden by a constant of an inner scope. The inner name cannot be
declared again. -/
def hidingRun : List Operation :=
  [.defineVariable .root "n" 1, .openScope .root, .defineConstant ⟨1⟩ "n" 7 2,
    .defineVariable ⟨1⟩ "n" 3, .openScope ⟨1⟩]

theorem lookups_after_hidingRun :
    empty.log hidingRun = [⟨.root, "n", ⟨.var, 1, 0⟩⟩, ⟨⟨1⟩, "n", ⟨.constant 7, 2, 1⟩⟩] ∧
    (empty.after hidingRun).FirstLogged (empty.log hidingRun) ⟨2⟩ "n" ⟨1⟩
      ⟨.constant 7, 2, 1⟩ ∧
    (empty.after hidingRun).Finds ⟨2⟩ "n" ⟨.constant 7, 2, 1⟩ ∧
    (empty.after hidingRun).Misses ⟨2⟩ "m" := by
  obtain ⟨-, hfirst, -, hfinds, -⟩ := lookups_refine_log hidingRun ⟨2⟩ (by decide) "n"
  obtain ⟨-, -, hnever, -, hmisses⟩ := lookups_refine_log hidingRun ⟨2⟩ (by decide) "m"
  have hn := (hfirst ⟨1⟩ ⟨.constant 7, 2, 1⟩).1 rfl
  exact ⟨rfl, hn, hfinds _ _ hn, hmisses (hnever.1 rfl)⟩

end PlZero.ScopeTable
