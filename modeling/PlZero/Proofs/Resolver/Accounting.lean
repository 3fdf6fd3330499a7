import PlZero.CommandLine.Run
import PlZero.Proofs.Expr.Normal
import PlZero.Proofs.Resolver.Specification
import PlZero.Proofs.Tree.Fold
import PlZero.Proofs.Tree.Inventory
import PlZero.Proofs.Tree.Room

/-! Every name that is not resolved is reported once and leaves one trace: an identifier becomes an
error, and a call is not counted. So diagnostics, errors and calls balance, and the number that the
command line program prints at its end is the number of unresolved names. -/

namespace PlZero

/-! ### Names that are not resolved -/

namespace ScopeTable

variable (table : ScopeTable) (s : ScopeId)

/-- Whether an identifier in the scope `s` stands for something that can be used as it is used. -/
def fits (o : Occurrence) : Bool :=
  match table.lookup s o.name with
  | .ok (some ⟨.var, _, _⟩) => true
  | .ok (some ⟨.constant _, _, _⟩) => o.role = .value
  | _ => false

def callable (name : String) : Bool :=
  match table.lookup s name with
  | .ok (some ⟨.procedure _, _, _⟩) => true
  | _ => false

end ScopeTable

/-- The names at a site that stand for nothing fit. -/
def Site.unresolved (table : ScopeTable) : Site → List String
  | expr s role e => ((e.occurrences role).filter fun o => !table.fits s o).map Occurrence.name
  | call s _ name _ => if table.callable s name then [] else [name]

/-- The unresolved names of a tree that stands in the scope `s`. -/
def Tree.unresolved {c : Category} (table : ScopeTable) (s : ScopeId) (t : Tree c) : List String :=
  (t.sites s).flatMap (Site.unresolved table)

namespace ScopeTable

variable (table : ScopeTable) (s : ScopeId)

theorem isSome_fault? (o : Occurrence) : (table.fault? s o).isSome = !table.fits s o := by
  obtain ⟨role, loc, name⟩ := o
  rw [fits, lookup_eq, fault?]
  split_ifs with hs
  · cases table.found? s name with
    | none => rfl
    | some found =>
      obtain ⟨d, meaning, line, level⟩ := found
      cases meaning <;> cases role <;> rfl
  · rw [found?_of_unknown hs]
    rfl

theorem isSome_callFault? (loc : Location) (name : String) :
    (table.callFault? s loc name).isSome = !table.callable s name := by
  rw [callable, lookup_eq, callFault?]
  split_ifs with hs
  · cases table.found? s name with
    | none => rfl
    | some found =>
      obtain ⟨d, meaning, line, level⟩ := found
      cases meaning <;> rfl
  · rw [found?_of_unknown hs]
    rfl

/-- An error is put in for an identifier exactly if there is something to report. -/
theorem countP_isError_bound (o : Occurrence) :
    (table.bound s o).nodes.countP Expr.isError = (table.fault? s o).toList.length := by
  obtain ⟨role, loc, name⟩ := o
  unfold bound fault?
  cases table.found? s name with
  | none => rfl
  | some found =>
    obtain ⟨d, meaning, line, level⟩ := found
    cases meaning <;> cases role <;> rfl

/-- A call is either bound or reported. -/
theorem length_callFault?_add_callee? (loc : Location) (name : String) :
    (table.callFault? s loc name).toList.length + (table.callee? s name).toList.length = 1 := by
  unfold callFault? callee?
  cases table.found? s name with
  | none => rfl
  | some found =>
    obtain ⟨d, meaning, line, level⟩ := found
    cases meaning <;> rfl

end ScopeTable

/-! ### Errors -/

/-- The number of errors in some expressions, at whatever depth. -/
def errorsIn (es : List Expr) : Nat := (es.flatMap Expr.nodes).countP Expr.isError

theorem errorsIn_singleton (e : Expr) : errorsIn [e] = e.nodes.countP Expr.isError := by
  rw [errorsIn, List.flatMap_singleton]

theorem errorsIn_append (es fs : List Expr) : errorsIn (es ++ fs) = errorsIn es + errorsIn fs := by
  rw [errorsIn, List.flatMap_append, List.countP_append, errorsIn, errorsIn]

/-- No error goes away by a substitution; new ones come from what is put in. -/
theorem Expr.countP_isError_substituted (f : Occurrence → Expr) (role : Role) (e : Expr) :
    (e.substituted f role).nodes.countP isError =
      e.nodes.countP isError + errorsIn ((e.occurrences role).map f) := by
  induction e generalizing role with
  | error _ | const _ _ | var _ _ _ => rfl
  | identifier loc name => simp [occurrences, errorsIn, nodes, isError]
  | unary loc op e ih => simp [nodes, isError, occurrences, ih]
  | binary loc op l r ihl ihr =>
    simp only [substituted_binary, nodes, isError, occurrences, List.map_append, errorsIn_append,
      List.countP_cons, List.countP_append, ihl, ihr, Bool.false_eq_true, if_false]
    omega
  | coerce loc c e ih =>
    rw [substituted_coerce]
    split_ifs with hsome
    · simp [coerced, nodes, isError, occurrences, ih]
    · have hnil := (substitute?_eq_none_iff f role).1 (Option.not_isSome_iff_eq_none.1 hsome)
      rw [occurrences, hnil]
      rfl

theorem ScopeTable.errorsIn_map_bound (table : ScopeTable) (s : ScopeId) (os : List Occurrence) :
    errorsIn (os.map (table.bound s)) = (os.filterMap (table.fault? s)).length := by
  induction os with
  | nil => rfl
  | cons o os ih =>
    rw [List.map_cons, ← List.singleton_append, errorsIn_append, errorsIn_singleton,
      countP_isError_bound, ih, List.filterMap_cons]
    cases table.fault? s o with
    | none => exact Nat.zero_add _
    | some fault => exact Nat.add_comm 1 _

/-! ### Sites -/

namespace Site

variable (table : ScopeTable)

theorem length_faults (site : Site) :
    (site.faults table).length = (site.unresolved table).length := by
  cases site with
  | expr s role e =>
    rw [faults, unresolved, List.length_filterMap_eq_countP, List.length_map,
      ← List.countP_eq_length_filter]
    simp only [table.isSome_fault? s]
  | call s loc name entry =>
    have h := table.isSome_callFault? s loc name
    rw [faults, unresolved]
    cases hf : table.callFault? s loc name <;> cases hc : table.callable s name <;> simp_all

/-- What there is to report at a site is what becomes an error there, or is a call that does not
become bound. -/
theorem balance (site : Site) :
    (site.faults table).length + (site.callees table).length + errorsIn site.contents =
      errorsIn (site.resolved table).contents + [site].countP isCall := by
  cases site with
  | expr s role e =>
    have h := e.countP_isError_substituted (table.bound s) role
    rw [table.errorsIn_map_bound] at h
    rw [faults, callees, resolved, contents, contents, errorsIn_singleton, errorsIn_singleton, h]
    exact Nat.add_comm _ _
  | call s loc name entry =>
    have h := table.length_callFault?_add_callee? s loc name
    simpa [faults, callees, resolved, contents, errorsIn, isCall] using h

theorem balance_all (sites : List Site) :
    (sites.flatMap (faults table)).length + (sites.flatMap (callees table)).length +
        errorsIn (sites.flatMap contents) =
      errorsIn ((sites.map (resolved table)).flatMap contents) + sites.countP isCall := by
  induction sites with
  | nil => rfl
  | cons site rest ih =>
    have hsite := site.balance table
    have hcount : (site :: rest).countP isCall = [site].countP isCall + rest.countP isCall := by
      rw [← List.countP_append, List.singleton_append]
    rw [hcount]
    simp only [List.flatMap_cons, List.map_cons, List.length_append, errorsIn_append]
    omega

theorem length_flatMap_faults (sites : List Site) :
    (sites.flatMap (faults table)).length = (sites.flatMap (unresolved table)).length := by
  induction sites with
  | nil => rfl
  | cons site rest ih =>
    simp only [List.flatMap_cons, List.length_append, site.length_faults table, ih]

/-- A call whose name is accepted as a procedure is bound to it; one whose name is not accepted is
reported with that very fault and stays as it is. -/
theorem call_bound_or_reported {table : ScopeTable} {s : ScopeId}
    (hs : s.index < table.scopeCount) (loc : Location) (name : String)
    (entry : Option ProcedureId) :
    (∃ symbol id, table.expect s name "Procedure" loc.line = .ok symbol ∧
      symbol.meaning = .procedure id ∧
      (call s loc name entry).resolved table = call s loc name (some id)) ∨
    ∃ fault, table.expect s name "Procedure" loc.line = .error fault ∧
      fault ∈ (call s loc name entry).faults table ∧
      (call s loc name entry).resolved table = call s loc name entry := by
  rw [table.expect_eq, if_pos hs, resolved, faults, ScopeTable.callee?, ScopeTable.callFault?]
  cases table.found? s name with
  | none => exact .inr ⟨_, rfl, List.mem_singleton_self _, rfl⟩
  | some found =>
    obtain ⟨d, meaning, line, level⟩ := found
    cases meaning with
    | procedure id => exact .inl ⟨_, id, rfl, rfl, rfl⟩
    | constant value => exact .inr ⟨_, rfl, List.mem_singleton_self _, rfl⟩
    | var => exact .inr ⟨_, rfl, List.mem_singleton_self _, rfl⟩

end Site

/-! ### Visits -/

/-- How a visit of a tree that stands in the scope `s` accounts for the names in it: it makes `t`
into `t'`, reports `faults` and binds `bound` calls. -/
structure Accounts {c : Category} (table : ScopeTable) (s : ScopeId) (t t' : Tree c)
    (faults : List Fault) (bound : Nat) : Prop where
  balance : (faults.length : Int) = ((errorsIn t'.slots : Int) - errorsIn t.slots) +
    ((t.kinds.count .call : Int) - bound)
  /-- As many reports as names that stand for nothing fit. -/
  reports : faults.length = (t.unresolved table s).length
  /-- A call is bound if its name is accepted as a procedure, and otherwise reported. -/
  calls : ∀ (i : Nat) (x : ScopeId) (loc : Location) (name : String) (entry : Option ProcedureId),
    (t.sites s)[i]? = some (.call x loc name entry) →
    (∃ symbol id, table.expect x name "Procedure" loc.line = .ok symbol ∧
      symbol.meaning = .procedure id ∧ (t'.sites s)[i]? = some (.call x loc name (some id))) ∨
    ∃ fault, table.expect x name "Procedure" loc.line = .error fault ∧ fault ∈ faults ∧
      (t'.sites s)[i]? = some (.call x loc name entry)

namespace Resolver

variable {table : ScopeTable} {r r' : Resolver} {c : Category} {t t' : Tree c}

theorem accounts_of_resolve (h : resolve table r t = (t', .ok (), r')) :
    ∃ faults bound, r'.diagnostics = r.diagnostics ++ faults ∧
      r'.resolvedCalls = r.resolvedCalls + bound ∧
      Accounts table r.current t t' faults bound := by
  have hok : (resolve table r t).2.1 = .ok () := by rw [h]
  have hgoing := (result_eq_ok_iff table r t).1 hok
  have hsites := sites_resolve_of_ok table hok
  have hresolver := resolver_resolve_of_ok table hok
  rw [h] at hsites hresolver
  change t'.sites r.current = _ at hsites
  change r' = _ at hresolver
  refine ⟨(t.sites r.current).flatMap (Site.faults table),
    ((t.sites r.current).flatMap (Site.callees table)).length, ?_, ?_, ?_, ?_, ?_⟩
  · rw [hresolver]; rfl
  · rw [hresolver]; rfl
  · have hbalance := Site.balance_all table (t.sites r.current)
    rw [← hsites, Tree.flatMap_contents_sites, Tree.flatMap_contents_sites,
      Tree.countP_isCall_sites] at hbalance
    omega
  · exact Site.length_flatMap_faults table _
  · intro i x loc name entry hi
    have hmem := List.mem_of_getElem? hi
    have hx : x.index < table.scopeCount := Site.known_of_hasName (hgoing _ hmem) rfl
    have hnew : (t'.sites r.current)[i]? =
        some ((Site.call x loc name entry).resolved table) := by
      rw [hsites, List.getElem?_map, hi, Option.map_some]
    rcases Site.call_bound_or_reported hx loc name entry with
      ⟨symbol, id, haccepted, hmeaning, hbound⟩ | ⟨fault, hrefused, hfault, hkept⟩
    · rw [hbound] at hnew
      exact .inl ⟨symbol, id, haccepted, hmeaning, hnew⟩
    · rw [hkept] at hnew
      exact .inr ⟨fault, hrefused, List.mem_flatMap.2 ⟨_, hmem, hfault⟩, hnew⟩

end Resolver

theorem Tree.accounts_of_resolveNames {table : ScopeTable} {t t' : Block} {faults : List Fault}
    (h : t.resolveNames table = (t', .ok faults)) :
    ∃ bound, Accounts table .root t t' faults bound := by
  obtain ⟨u, result, r, hrun⟩ : ∃ u result r, Resolver.resolve table {} t = (u, result, r) :=
    ⟨_, _, _, rfl⟩
  rw [resolveNames, hrun] at h
  obtain ⟨rfl, hresult⟩ := Prod.mk.inj h
  cases result with
  | error fault => cases hresult
  | ok _ =>
    obtain rfl : r.diagnostics = faults := Except.ok.inj hresult
    obtain ⟨faults, bound, hfaults, -, haccounts⟩ := Resolver.accounts_of_resolve hrun
    obtain rfl : r.diagnostics = faults := hfaults
    exact ⟨bound, haccounts⟩

/-! ### The command line -/

namespace Sample

theorem mem_of_build {name : String} {sample : Sample} (h : build name = .ok sample) :
    .ok sample ∈ [swap, guarded, nested, broken] := by
  unfold build at h
  split at h
  case h_5 => cases h
  all_goals simp [h]

/-- The scopes that a sample names are in its table. -/
theorem exists_resolveNames {name : String} {sample : Sample} (h : build name = .ok sample) :
    ∃ program faults, sample.program.resolveNames sample.table = (program, .ok faults) := by
  have hall : ∀ built ∈ [swap, guarded, nested, broken], built.toOption.all
      (fun sample => (sample.program.resolveNames sample.table).2.isOk) = true := by
    decide +kernel
  have hok : (sample.program.resolveNames sample.table).2.isOk = true := hall _ (mem_of_build h)
  obtain ⟨program, result, hrun⟩ :
      ∃ program result, sample.program.resolveNames sample.table = (program, result) := ⟨_, _, rfl⟩
  rw [hrun] at hok ⊢
  cases result with
  | error fault => cases hok
  | ok faults => exact ⟨program, faults, rfl⟩

end Sample

namespace CommandLine

/-- The tree that is shown: folded if that was asked for. -/
def shown (o : Options) (program : Block) : Block :=
  if o.has .optimize then (program.foldConstants 0).1 else program

/-- Once names are resolved, only a level without room for the text can stop the session. -/
theorem session_of_resolveNames {o : Options} (elapsed : Elapsed) (overflow : Overflow)
    {sample : Sample} {program : Block} {faults : List Fault}
    (hbuild : Sample.build o.sample = .ok sample) (hflag : o.has .resolve = true)
    (hresolved : sample.program.resolveNames sample.table = (program, .ok faults))
    (output : String) : ∃ output', session o elapsed overflow output =
      if (shown o program).Writable o.level.toNat then .ok faults output'
      else .error .panic output' := by
  obtain ⟨folded, changed, hfolded⟩ : ∃ folded changed,
    program.foldConstants.run 0 = (folded, changed) := ⟨_, _, rfl⟩
  have hshown : shown o program = if o.has .optimize then folded else program := by
    rw [shown, show (program.foldConstants 0).1 = folded from congrArg Prod.fst hfolded]
  have htext : (shown o program).render? overflow o.level =
      if (shown o program).Writable o.level.toNat then some ((shown o program).render o.level.toNat)
      else none := by
    split_ifs with hwritable
    · exact Tree.render?_of_writable overflow _ hwritable
    · exact Tree.render?_block_eq_none overflow hwritable
  unfold session
  simp only [hbuild, hflag, pure_bind, hresolved, hfolded, if_true]
  by_cases hwritable : (shown o program).Writable o.level.toNat
  all_goals
    simp only [hwritable, if_true, if_false] at htext ⊢
    rw [hshown] at htext
    revert htext
    cases o.has .verbose <;> cases o.has .optimize <;> cases o.has .count <;>
      intro htext <;> simp only [Bool.false_eq_true, if_true, if_false] at htext <;>
      simp only [htext] <;> exact ⟨_, rfl⟩

/-- What is printed at the end when there are so many unresolved names. -/
def complaint (faults : List Fault) (unresolved : Nat) : String :=
  if unresolved = 0 then ""
  else String.join (faults.map fun fault => fault.message ++ "\n") ++
    s!"Error: {unresolved} unresolved name(s)\n"

section Execute

variable {o : Options} {elapsed : Elapsed} {overflow : Overflow} {output : String}

theorem execute_of_session {faults : List Fault}
    (h : session o elapsed overflow "" = .ok faults output) :
    (execute o elapsed overflow).errors = complaint faults faults.length ∧
      (execute o elapsed overflow).exitCode = if faults.length = 0 then 0 else 1 := by
  unfold execute
  rw [h]
  cases faults with
  | nil => exact ⟨rfl, rfl⟩
  | cons fault rest => exact ⟨rfl, rfl⟩

theorem execute_of_panic (h : session o elapsed overflow "" = .error .panic output) :
    (execute o elapsed overflow).errors = "" ∧
      (execute o elapsed overflow).exitCode = panicCode := by
  unfold execute
  rw [h]
  exact ⟨rfl, rfl⟩

end Execute

end CommandLine

open CommandLine in
/-- The diagnostics of a visit, the errors that it puts into slots and the calls that it does not
bind balance; there is one diagnostic for each unresolved name, and each call is bound or
reported. So the number that the program prints is the number of unresolved names, unless the
level leaves no room for the text: then it panics before it has a number to print. -/
theorem diagnostics_account_for_names {table : ScopeTable} {r r' : Resolver} {c : Category}
    {t t' : Tree c} (h : Resolver.resolve table r t = (t', .ok (), r')) :
    (∃ faults bound, r'.diagnostics = r.diagnostics ++ faults ∧
      r'.resolvedCalls = r.resolvedCalls + bound ∧
      Accounts table r.current t t' faults bound) ∧
    ∀ (o : Options) (elapsed : Elapsed) (overflow : Overflow) (sample : Sample),
      o.has .resolve = true → Sample.build o.sample = .ok sample →
      ∃ program faults bound,
        sample.program.resolveNames sample.table = (program, .ok faults) ∧
        Accounts sample.table .root sample.program program faults bound ∧
        let unresolved := (sample.program.unresolved sample.table .root).length
        ((shown o program).Writable o.level.toNat →
          (execute o elapsed overflow).errors = complaint faults unresolved ∧
          (execute o elapsed overflow).exitCode = if unresolved = 0 then 0 else 1) ∧
        (¬ (shown o program).Writable o.level.toNat →
          (execute o elapsed overflow).errors = "" ∧
          (execute o elapsed overflow).exitCode = panicCode) := by
  refine ⟨Resolver.accounts_of_resolve h, ?_⟩
  intro o elapsed overflow sample hflag hbuild
  obtain ⟨program, faults, hresolved⟩ := Sample.exists_resolveNames hbuild
  obtain ⟨bound, haccounts⟩ := Tree.accounts_of_resolveNames hresolved
  obtain ⟨output, hsession⟩ :=
    session_of_resolveNames elapsed overflow hbuild hflag hresolved ""
  refine ⟨program, faults, bound, hresolved, haccounts, ?_, ?_⟩
  · intro hwritable
    rw [if_pos hwritable] at hsession
    have hexecute := execute_of_session hsession
    rwa [haccounts.reports] at hexecute
  · intro hwritable
    rw [if_neg hwritable] at hsession
    exact execute_of_panic hsession

open CommandLine Resolver in
/-- A constant that is read into, and calls of a procedure and of what is not declared; and the
sample with one call of a name that nothing declares, at the first level and at the last. -/
theorem accounts_of_hidingProgram :
    (∃ faults bound,
      [.typeMismatch "Variable" "Constant" "limit" 3, .undefinedSymbol "q" 6] = [] ++ faults ∧
      1 = 0 + bound ∧
      Accounts hidingTable .root hidingProgram hidingProgramResolved faults bound) ∧
    (∃ faults, (execute ⟨"nested", 0, [.resolve]⟩ ⟨"0.000", "0.000"⟩ .panics).errors =
      complaint faults 1) ∧
    (execute ⟨"nested", 0, [.resolve]⟩ ⟨"0.000", "0.000"⟩ .panics).exitCode = 1 ∧
    (execute ⟨"nested", lastLevel, [.resolve]⟩ ⟨"0.000", "0.000"⟩ .wraps).exitCode = panicCode := by
  have hrun : resolve hidingTable {} hidingProgram = (hidingProgramResolved, .ok (),
      { diagnostics := [.typeMismatch "Variable" "Constant" "limit" 3, .undefinedSymbol "q" 6],
        resolvedCalls := 1 }) := by rfl
  obtain ⟨hvisit, hprogram⟩ := diagnostics_account_for_names hrun
  obtain ⟨sample, hbuild, hunresolved, hwritable, hlines⟩ : ∃ sample,
      Sample.build "nested" = .ok sample ∧
      sample.program.unresolved sample.table .root = ["missing"] ∧
      (sample.program.resolveNames sample.table).1.Writable 0 ∧
      ¬ ∀ line ∈ (sample.program.resolveNames sample.table).1.lineLevels lastLevel.toNat,
        HasRoom line :=
    ⟨_, rfl, by rfl, by decide +kernel, by decide +kernel⟩
  obtain ⟨_, faults, -, hfirst, -, hprinted, -⟩ :=
    hprogram ⟨"nested", 0, [.resolve]⟩ ⟨"0.000", "0.000"⟩ .panics sample rfl hbuild
  obtain ⟨_, _, -, hlast, -, -, hpanic⟩ :=
    hprogram ⟨"nested", lastLevel, [.resolve]⟩ ⟨"0.000", "0.000"⟩ .wraps sample rfl hbuild
  rw [hfirst] at hwritable
  rw [hlast] at hlines
  rw [hunresolved] at hprinted
  obtain ⟨herrors, hcode⟩ := hprinted hwritable
  exact ⟨hvisit, ⟨faults, herrors⟩, hcode, (hpanic fun h => hlines h.lines).2⟩

end PlZero
