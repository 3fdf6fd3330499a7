import PlZero.Proofs.Resolver.Specification
import PlZero.Proofs.Tree.Arrival

/-! Where bindings lead. If the table was built without raw declarations, a call is only ever
bound to the entry of a procedure that is declared where the call can see it, and an identifier
only ever becomes a variable of the nearest scope that declares its name. It does not matter
whether the resolution goes through or is stopped later. -/

namespace PlZero

namespace ScopeTable

/-- The tables that runs without raw declarations arrive at. -/
def Built (t : ScopeTable) : Prop :=
  ∃ ops : List Operation, (∀ op ∈ ops, op.isRaw = false) ∧ t = empty.after ops

/-- The entry is that of a procedure with this name, which is declared in the scope `s` or in
one around it and has its own scope inside the one that declares it. -/
def SeesProcedure (t : ScopeTable) (s : ScopeId) (name : String) (id : ProcedureId) : Prop :=
  ∃ entry, t.procedure id = .ok entry ∧ entry.name = name ∧
    (∃ k, t.ancestor? k s = some entry.definingScope) ∧
    t.parent entry.localScope = .ok (some entry.definingScope)

/-- The scope `d` exists and is the first from `s` outward to declare the name, as a variable. -/
def SeesVariable (t : ScopeTable) (s : ScopeId) (name : String) (d : ScopeId) : Prop :=
  d.index < t.scopeCount ∧ ∃ line level, t.Nearest s name d ⟨.var, line, level⟩

variable {t : ScopeTable} {s d : ScopeId} {name : String}

theorem Built.wellFormed (h : t.Built) : t.WellFormed := by
  obtain ⟨ops, -, rfl⟩ := h
  exact Reachable.wellFormed ⟨ops, rfl⟩

theorem Built.owned (h : t.Built) : t.Owned := by
  obtain ⟨ops, hraw, rfl⟩ := h
  exact owned_after hraw

theorem Built.seesProcedure (h : t.Built) {id : ProcedureId} {line level : Nat}
    (hn : t.Nearest s name d ⟨.procedure id, line, level⟩) : t.SeesProcedure s name id := by
  -- the symbol came with its entry, and the entry is described by the scopes
  obtain ⟨l, hentry⟩ := h.owned d name id line level hn.declared
  have hparent := (h.wellFormed.entries id _ hentry).parent
  obtain ⟨k, hk, -, -⟩ := hn
  exact ⟨_, hentry, rfl, ⟨k, hk⟩, hparent⟩

theorem nearest_of_callee? (h : t.WellFormed) (hs : s.index < t.scopeCount) {id : ProcedureId}
    (hc : t.callee? s name = some id) :
    ∃ d line level, t.Nearest s name d ⟨.procedure id, line, level⟩ := by
  unfold callee? at hc
  split at hc
  · next d id' line level hf =>
    obtain rfl := Option.some.inj hc
    exact ⟨d, line, level, (h.found?_eq_some_iff hs).1 hf⟩
  · exact nomatch hc

end ScopeTable

namespace Binding

/-- An identifier that becomes a variable keeps its place and its name. -/
theorem seesVariable {table : ScopeTable} {s d : ScopeId} {o : Occurrence} {loc : Location}
    {name : String} {faults : List Fault} (h : Binding table s o (.var loc name d) faults) :
    loc = o.loc ∧ name = o.name ∧ table.SeesVariable s o.name d := by
  cases h with
  | var hn => exact ⟨rfl, rfl, ScopeTable.lt_of_declared hn.declared, _, _, hn⟩

end Binding

/-! ### Sites -/

namespace Site

theorem getElem?_sweep {σ : Type} (visit : Site → σ → Site × σ) {sites : List Site} {i : Nat}
    {site : Site} (h : sites[i]? = some site) (x : σ) :
    ∃ y, (sweep visit sites x).1[i]? = some (visit site y).1 := by
  induction sites generalizing i x with
  | nil => exact nomatch h
  | cons first rest ih =>
    cases i with
    | zero =>
      obtain rfl := Option.some.inj h
      exact ⟨x, rfl⟩
    | succ i => exact ih h (visit first x).2

end Site

namespace Resolver

open PlZero.Tree

variable {table : ScopeTable}

theorem visit_fst (site : Site) (q : Progress) : (visit table site q).1 = site ∨
    site.stuck table = false ∧ (visit table site q).1 = site.resolved table := by
  unfold visit
  split_ifs with hstopped hstuck
  · exact .inl rfl
  · exact .inl rfl
  · exact .inr ⟨Bool.not_eq_true _ ▸ hstuck, rfl⟩

/-- What stands at a site is left as it is, or resolved from a scope that exists if there is a
name in it. -/
theorem site_traverse {t : Statement} {q : Progress} {s : ScopeId} (hs : q.resolver.current = s)
    {i : Nat} {site new : Site} (h : (t.ownSites s)[i]? = some site)
    (hnew : ((t.traverse (pass table) q).1.ownSites s)[i]? = some new) :
    new = site ∨ site.stuck table = false ∧ new = site.resolved table := by
  have hown {u : Statement} {x : Site} (hx : (u.ownSites s)[i]? = some x) :
      (u.sites s)[i]? = some x := by
    have hi := (List.getElem?_eq_some_iff.1 hx).1
    rw [sites_eq_own_append, List.getElem?_append_left hi, hx]
  obtain ⟨q', hq'⟩ := Site.getElem?_sweep (visit table) (hown h) q
  rw [sites_traverse (pass_follows table) t hs, hown hnew] at hq'
  rw [Option.some.inj hq']
  exact visit_fst site q'

/-- A variable that comes into the place of an identifier is the nearest of its name. -/
theorem seesVariable_of_resolved (h : table.WellFormed) {s d : ScopeId} {role ρ ρ' : Role}
    {e : Expr} {place : List Nat} {loc loc' : Location} {name name' : String}
    (hgoing : (Site.expr s role e).stuck table = false)
    (hident : e.nodeAt? role place = some (ρ, .identifier loc name))
    (hvar : (e.substituted (table.bound s) role).nodeAt? role place =
      some (ρ', .var loc' name' d)) :
    loc' = loc ∧ name' = name ∧ table.SeesVariable s name d := by
  rw [Expr.nodeAt?_substituted _ role hident] at hvar
  have hbound : table.bound s ⟨ρ, loc, name⟩ = .var loc' name' d :=
    (Prod.mk.inj (Option.some.inj hvar)).2
  have hs : s.index < table.scopeCount :=
    Site.known_of_mem_occurrences hgoing (Expr.mem_occurrences_of_nodeAt? role hident)
  have hbinding := h.binding_bound hs ⟨ρ, loc, name⟩
  rw [hbound] at hbinding
  exact hbinding.seesVariable

/-! ### Calls -/

theorem bindCall_eq_some {r r' : Resolver} {loc : Location} {name : String} {id : ProcedureId}
    (h : bindCall table loc name r = .ok (some id) r') :
    r.current.index < table.scopeCount ∧ table.callee? r.current name = some id := by
  by_cases hs : r.current.index < table.scopeCount
  · rw [bindCall_known hs] at h
    exact ⟨hs, (EStateM.Result.ok.inj h).1⟩
  · rw [bindCall_unknown hs] at h
    exact nomatch h

theorem entry_pass (table : ScopeTable) (q : Progress) (loc : Location) (name : String)
    (old : Option ProcedureId) :
    ((pass table).entry loc name old q).1 =
      match q.fault, bindCall table loc name q.resolver with
      | none, .ok (some id) _ => some id
      | _, _ => old := by
  obtain ⟨r, fault⟩ := q
  cases fault with
  | some fault => rfl
  | none =>
    simp only [pass, attempt, step_bind_apply]
    cases bindCall table loc name r with
    | error fault r' => rfl
    | ok result r' => cases result <;> rfl

/-- A resolution of the tree binds the call at the path: it comes to the call without having
been stopped, and its step there gives the entry. -/
def Binds (table : ScopeTable) (r : Resolver) (t : Statement) (path : List Nat)
    (id : ProcedureId) : Prop :=
  ∃ loc name old r', t.at? path = some (call loc name old) ∧
    (t.arrival (pass table) path { resolver := r }).fault = none ∧
    bindCall table loc name (t.arrival (pass table) path { resolver := r }).resolver =
      .ok (some id) r'

section Nodes

variable {r : Resolver} {t : Statement} {path : List Nat}

theorem at?_resolve (table : ScopeTable) (r : Resolver) (t : Statement) (path : List Nat) :
    (resolve table r t).1.at? path = (t.at? path).map fun sub =>
      (sub.traverse (pass table) (t.arrival (pass table) path { resolver := r })).1 :=
  t.at?_traverse (pass table) path { resolver := r }

theorem current_arrival {sub : Statement} (h : t.at? path = some sub) :
    (t.arrival (pass table) path { resolver := r }).resolver.current = t.scopeAt path r.current :=
  (pass_follows table).at_arrival rfl h

theorem call_at?_of_binds {loc : Location} {name : String} {old : Option ProcedureId}
    {id : ProcedureId} (h : t.at? path = some (call loc name old))
    (hbinds : Binds table r t path id) :
    (resolve table r t).1.at? path = some (call loc name (some id)) ∧
    (t.scopeAt path r.current).index < table.scopeCount ∧
    table.callee? (t.scopeAt path r.current) name = some id := by
  obtain ⟨loc', name', old', r', hat, hfault, hbind⟩ := hbinds
  obtain ⟨rfl, rfl, rfl⟩ := call.inj (Option.some.inj (h.symm.trans hat))
  constructor
  · have hentry := entry_pass table (t.arrival (pass table) path { resolver := r }) loc name old
    rw [hfault, hbind] at hentry
    rw [at?_resolve, h]
    exact congrArg (fun entry => some (call loc name entry)) hentry
  · rw [← current_arrival h]
    exact bindCall_eq_some hbind

theorem call_at?_of_not_binds {loc : Location} {name : String} {old : Option ProcedureId}
    (h : t.at? path = some (call loc name old)) (hbinds : ∀ id, ¬ Binds table r t path id) :
    (resolve table r t).1.at? path = some (call loc name old) := by
  have hold : ((pass table).entry loc name old (t.arrival (pass table) path { resolver := r })).1 =
      old := by
    rw [entry_pass]
    split
    · next id r' hfault hbind => exact absurd ⟨loc, name, old, r', h, hfault, hbind⟩ (hbinds id)
    · rfl
  rw [at?_resolve, h]
  exact congrArg (fun entry => some (call loc name entry)) hold

end Nodes

/-- Against a table that was built without raw declarations, whatever becomes of the visit as a
whole: a call that it binds has the entry of a procedure that the call sees, and a call that it
does not bind is as before; and where it has put a variable in the place of an identifier, that
is a variable of the nearest scope with the name. -/
theorem bindings_never_dangle {table : ScopeTable} (built : table.Built) (r : Resolver)
    {t old new : Statement} {path : List Nat} {s : ScopeId}
    (hscope : t.scopeAt path r.current = s) (hold : t.at? path = some old)
    (hnew : (resolve table r t).1.at? path = some new) :
    (∀ loc name entry, old = call loc name entry →
      (∀ id, Binds table r t path id →
        new = call loc name (some id) ∧ table.SeesProcedure s name id) ∧
      ((∀ id, ¬ Binds table r t path id) → new = old)) ∧
    ∀ (i : Nat) (role : Role) (before after : Expr),
      (old.ownSites s)[i]? = some (.expr s role before) →
      (new.ownSites s)[i]? = some (.expr s role after) →
      ∀ (place : List Nat) (ρ ρ' : Role) (loc loc' : Location) (name name' : String) (d : ScopeId),
        before.nodeAt? role place = some (ρ, .identifier loc name) →
        after.nodeAt? role place = some (ρ', .var loc' name' d) →
        loc' = loc ∧ name' = name ∧ table.SeesVariable s name d := by
  subst hscope
  constructor
  · rintro loc name entry rfl
    constructor
    · intro id hbinds
      obtain ⟨hat, hs, hcallee⟩ := call_at?_of_binds hold hbinds
      obtain ⟨d, line, level, hnearest⟩ :=
        ScopeTable.nearest_of_callee? built.wellFormed hs hcallee
      exact ⟨Option.some.inj (hnew.symm.trans hat), built.seesProcedure hnearest⟩
    · intro hbinds
      exact Option.some.inj (hnew.symm.trans (call_at?_of_not_binds hold hbinds))
  · intro i role before after hbefore hafter place ρ ρ' loc loc' name name' d hident hvar
    rw [at?_resolve, hold] at hnew
    obtain rfl := Option.some.inj hnew
    rcases site_traverse (current_arrival hold) hbefore hafter with hsame | ⟨hgoing, hresolved⟩
    · -- left as it is, there is still an identifier
      obtain ⟨-, -, rfl⟩ := Site.expr.inj hsame
      exact nomatch hident.symm.trans hvar
    · obtain ⟨-, -, rfl⟩ := Site.expr.inj hresolved
      exact seesVariable_of_resolved built.wellFormed hgoing hident hvar

/-- A variable, and a procedure with a scope of its own. -/
def cutTable : ScopeTable :=
  ScopeTable.empty.after [.defineVariable .root "n" 1, .defineProcedure .root "p" 2]

/-- The block of the procedure. It calls the procedure and writes the variable; then comes a
block whose scope is not in the table, with a call that has an entry from elsewhere. -/
def cutProgram : Statement :=
  .ofBlock (.block ⟨2, 3⟩ ⟨1⟩ .noProcedures (.list ⟨2, 5⟩ (.sequence [
    .call ⟨2, 5⟩ "p" none,
    .write ⟨3, 5⟩ (.unary ⟨3, 11⟩ .neg (.identifier ⟨3, 12⟩ "n")),
    .ofBlock (.block ⟨4, 5⟩ ⟨9⟩ .noProcedures (.call ⟨4, 7⟩ "p" (some ⟨5⟩)))])))

theorem bindings_of_cutProgram :
    (resolve cutTable {} cutProgram).2.1 = .error (.unknownScope ⟨9⟩) ∧
    Binds cutTable {} cutProgram [0, 0] ⟨0⟩ ∧ cutTable.SeesProcedure ⟨1⟩ "p" ⟨0⟩ ∧
    cutTable.SeesVariable ⟨1⟩ "n" .root ∧
    (resolve cutTable {} cutProgram).1.at? [0, 2, 0] = some (.call ⟨4, 7⟩ "p" (some ⟨5⟩)) := by
  have built : cutTable.Built := ⟨_, by decide, rfl⟩
  have hbinds : Binds cutTable {} cutProgram [0, 0] ⟨0⟩ := ⟨_, _, _, _, rfl, rfl, rfl⟩
  have hcall : cutProgram.at? [0, 0] = some (.call ⟨2, 5⟩ "p" none) := rfl
  have hcall' : (resolve cutTable {} cutProgram).1.at? [0, 0] =
      some (.call ⟨2, 5⟩ "p" (some ⟨0⟩)) := rfl
  have hwrite : cutProgram.at? [0, 1] =
      some (.write ⟨3, 5⟩ (.unary ⟨3, 11⟩ .neg (.identifier ⟨3, 12⟩ "n"))) := rfl
  have hwrite' : (resolve cutTable {} cutProgram).1.at? [0, 1] =
      some (.write ⟨3, 5⟩ (.unary ⟨3, 11⟩ .neg (.var ⟨3, 12⟩ "n" .root))) := rfl
  have hp := (bindings_never_dangle built {} rfl hcall hcall').1 _ _ _ rfl
  have hn := (bindings_never_dangle built {} rfl hwrite hwrite').2 0 .value _ _ rfl rfl
    [0] .value .value ⟨3, 12⟩ ⟨3, 12⟩ "n" "n" .root rfl rfl
  exact ⟨rfl, hbinds, (hp.1 ⟨0⟩ hbinds).2, hn.2.2, rfl⟩

end Resolver

end PlZero
