import PlZero.Proofs.Resolver.Specification
import PlZero.Proofs.Tree.Fold

/-! The meaning of names. Before resolution a name is bound late: its value depends on the scope
in which it is read and on what the table has for it there. After resolution nothing is looked
up any more, and the values of variables alone give the values of expressions. Both give the
same value, or none, wherever an expression is read for its value. -/

namespace PlZero

namespace Expr

variable {f : Occurrence → Expr} {I J : Interpretation}

/-- Whatever stands below a value is a value. -/
theorem role_of_mem_occurrences {e : Expr} {o : Occurrence} (h : o ∈ e.occurrences .value) :
    o.role = .value := by
  induction e with
  | error _ | const _ _ | var _ _ _ => exact absurd h List.not_mem_nil
  | identifier loc n =>
    obtain rfl := List.mem_singleton.1 h
    rfl
  | unary loc op e ih => exact ih h
  | binary loc op l r ihl ihr =>
    rcases List.mem_append.1 h with h | h
    · exact ihl h
    · exact ihr h
  | coerce loc c e ih => exact ih h

/-- Names may be replaced by what has their values, and then be read in another way. -/
theorem eval_substituted (hvar : J.var = I.var) (hcoerce : J.coerce = I.coerce) {role : Role}
    {e : Expr} (hf : ∀ o ∈ e.occurrences role, (f o).eval J = I.identifier o.name) :
    (e.substituted f role).eval J = e.eval I := by
  induction e generalizing role with
  | error _ | const _ _ => rfl
  | var loc n s => rw [substituted_var, eval, eval, hvar]
  | identifier loc n => exact hf ⟨role, loc, n⟩ List.mem_cons_self
  | unary loc op e ih => rw [substituted_unary, eval, ih hf, eval]
  | binary loc op l r ihl ihr =>
    have hl := ihl fun o ho => hf o (List.mem_append_left _ ho)
    have hr := ihr fun o ho => hf o (List.mem_append_right _ ho)
    rw [substituted_binary, eval, hl, hr, eval]
  | coerce loc c e ih =>
    have he := ih hf
    rw [substituted_coerce]
    split
    · rw [eval_coerced, he, hcoerce, eval]
    · next hnone =>
      rw [substituted_of_substitute?_eq_none f role (Option.not_isSome_iff_eq_none.1 hnone)] at he
      rw [eval, he, hcoerce, eval]

end Expr

/-! ### Early and late binding -/

/-- The values of variables, for each name in each scope. -/
abbrev Store := ScopeId → String → Int64

namespace Store

/-- Variables have the values of the store, and a name that is not resolved has none. -/
def early (store : Store) (coerce : Coercion → Int64 → Option Int64) : Expr.Interpretation where
  identifier _ := none
  var name d := some (store d name)
  coerce := coerce

/-- A name has the value of the constant or of the variable that a lookup from the scope `s`
finds. -/
def late (store : Store) (coerce : Coercion → Int64 → Option Int64) (table : ScopeTable)
    (s : ScopeId) : Expr.Interpretation :=
  { store.early coerce with
    identifier := fun name =>
      match table.nearest s name with
      | .ok (some (_, ⟨.constant value, _, _⟩)) => some value
      | .ok (some (d, ⟨.var, _, _⟩)) => some (store d name)
      | _ => none }

/-- Names are read from the scope `s` as their nearest declarations say. -/
structure LateBound (store : Store) (table : ScopeTable) (s : ScopeId)
    (value : String → Option Int64) : Prop where
  constant : ∀ name d a line level,
    table.Nearest s name d ⟨.constant a, line, level⟩ → value name = some a
  var : ∀ name d line level,
    table.Nearest s name d ⟨.var, line, level⟩ → value name = some (store d name)
  procedure : ∀ name d id line level,
    table.Nearest s name d ⟨.procedure id, line, level⟩ → value name = none
  undeclared : ∀ name, table.Undeclared s name → value name = none

variable (store : Store) (coerce : Coercion → Int64 → Option Int64) {table : ScopeTable}
  {s : ScopeId}

theorem lateBound_late (h : table.WellFormed) (hs : s.index < table.scopeCount) :
    store.LateBound table s (store.late coerce table s).identifier where
  constant name d a line level hn := by simp only [late, h.nearest_eq_some_iff.2 ⟨hs, hn⟩]
  var name d line level hn := by simp only [late, h.nearest_eq_some_iff.2 ⟨hs, hn⟩]
  procedure name d id line level hn := by simp only [late, h.nearest_eq_some_iff.2 ⟨hs, hn⟩]
  undeclared name hu := by
    simp only [late, table.nearest_eq, if_pos hs, (h.found?_eq_none_iff hs).2 hu]

/-- What is put in the place of a name has early the value that the name has late. -/
theorem eval_bound (hs : s.index < table.scopeCount) {o : Occurrence} (ho : o.role = .value) :
    (table.bound s o).eval (store.early coerce) =
      (store.late coerce table s).identifier o.name := by
  obtain ⟨role, loc, name⟩ := o
  obtain rfl : role = .value := ho
  have hn := table.nearest_eq s name
  rw [if_pos hs] at hn
  simp only [late, hn, ScopeTable.bound]
  cases table.found? s name with
  | none => rfl
  | some found =>
    obtain ⟨d, meaning, line, level⟩ := found
    cases meaning <;> rfl

theorem eval_resolved {e : Expr} (hgoing : (Site.expr s .value e).stuck table = false) :
    (e.substituted (table.bound s) .value).eval (store.early coerce) =
      e.eval (store.late coerce table s) := by
  apply Expr.eval_substituted
  · rfl
  · rfl
  · intro o ho
    have hs : s.index < table.scopeCount := Site.known_of_mem_occurrences hgoing ho
    exact store.eval_bound coerce hs (Expr.role_of_mem_occurrences ho)

/-- At the second site a value has early what it has late at the first, in its own scope. -/
inductive Reads (store : Store) (coerce : Coercion → Int64 → Option Int64) (table : ScopeTable) :
    Site → Site → Prop where
  | value {s : ScopeId} {old new : Expr}
      (h : new.eval (store.early coerce) = old.eval (store.late coerce table s)) :
      Reads store coerce table (.expr s .value old) (.expr s .value new)
  | target {s : ScopeId} {old new : Expr} :
      Reads store coerce table (.expr s .target old) (.expr s .target new)
  | call {s : ScopeId} {loc : Location} {name : String} {old new : Option ProcedureId} :
      Reads store coerce table (.call s loc name old) (.call s loc name new)

theorem reads_resolved {site : Site} (hgoing : site.stuck table = false) :
    store.Reads coerce table site (site.resolved table) := by
  match site with
  | .expr s .value e => exact .value (store.eval_resolved coerce hgoing)
  | .expr s .target e => exact .target
  | .call s loc name entry => exact .call

theorem Reads.folded {store : Store} {coerce : Coercion → Int64 → Option Int64}
    {site new : Site} (h : store.Reads coerce table site new) :
    store.Reads coerce table site new.folded := by
  cases h with
  | value h => exact .value (by rw [Expr.eval_folded, h])
  | target => exact .target
  | call => exact .call

end Store

namespace Resolver

/-- From a scope that exists, resolution of a value does not fail, and what comes out has by the
store alone, before and after folding, the value that the expression had when its names were
looked up on reading, or has none where that had none. So it is for every value of a tree that
is resolved as a whole. -/
theorem resolution_preserves_meaning {table : ScopeTable} (reachable : table.Reachable)
    (store : Store) (coerce : Coercion → Int64 → Option Int64) :
    (∀ s : ScopeId, s.index < table.scopeCount →
      store.LateBound table s (store.late coerce table s).identifier ∧
      ∀ (r : Resolver) (e : Expr), r.current = s →
        ∃ new r', bindExpr table .value e r = .ok new r' ∧
          (new.getD e).eval (store.early coerce) = e.eval (store.late coerce table s) ∧
          (new.getD e).folded.eval (store.early coerce) = e.eval (store.late coerce table s)) ∧
    ∀ (c : Category) (t t' : Tree c) (r r' : Resolver) (n : Nat),
      resolve table r t = (t', .ok (), r') →
      List.Forall₂ (store.Reads coerce table) (t.sites r.current) (t'.sites r.current) ∧
      List.Forall₂ (store.Reads coerce table) (t.sites r.current)
        ((t'.foldConstants n).1.sites r.current) := by
  constructor
  · intro s hs
    refine ⟨store.lateBound_late coerce reachable.wellFormed hs, ?_⟩
    rintro r e rfl
    have hgoing : (Site.expr r.current .value e).stuck table = false := stuck_of_known hs
    have hvalue := store.eval_resolved coerce hgoing
    refine ⟨_, _, bindExpr_known hs .value e, hvalue, ?_⟩
    rw [Expr.eval_folded]
    exact hvalue
  · intro c t t' r r' n h
    have hok : (resolve table r t).2.1 = .ok () := by rw [h]
    have hgoing := (result_eq_ok_iff table r t).1 hok
    have hsites := sites_resolve_of_ok table hok
    rw [h] at hsites
    have hreads : ∀ site ∈ t.sites r.current,
        store.Reads coerce table site (site.resolved table) := fun site hmem =>
      store.reads_resolved coerce (hgoing site hmem)
    rw [t'.sites_foldConstants, show t'.sites r.current = _ from hsites, List.map_map,
      List.forall₂_map_right_iff, List.forall₂_map_right_iff]
    exact ⟨List.forall₂_same.2 hreads, List.forall₂_same.2 fun site hmem =>
      (hreads site hmem).folded⟩

/-- The inner variable has another value than all the others. -/
def hidingStore : Store := fun d _ => if d = .root then 1 else 5

/-- The variable and the constant as the procedure of the program adds them. -/
def hidingSum : Expr :=
  .coerce ⟨2, 14⟩ .narrow
    (.binary ⟨2, 25⟩ .add (.identifier ⟨2, 23⟩ "n") (.identifier ⟨2, 27⟩ "limit"))

theorem meaning_of_hidingSum :
    (∃ new r', bindExpr hidingTable .value hidingSum { enclosing := [⟨1⟩] } = .ok new r' ∧
      (new.getD hidingSum).eval (hidingStore.early fun _ a => some a) = some 8 ∧
      (new.getD hidingSum).folded.eval (hidingStore.early fun _ a => some a) = some 8) ∧
    List.Forall₂ (hidingStore.Reads (fun _ a => some a) hidingTable)
      (hidingProgram.sites .root) (hidingProgramResolved.sites .root) := by
  have reachable : hidingTable.Reachable := ⟨_, rfl⟩
  obtain ⟨hexpr, htree⟩ :=
    resolution_preserves_meaning reachable hidingStore fun _ a => some a
  have hlate : hidingSum.eval (hidingStore.late (fun _ a => some a) hidingTable ⟨1⟩) = some 8 := by
    rfl
  obtain ⟨new, r', hbind, hearly, hfolded⟩ := (hexpr ⟨1⟩ (by decide)).2
    { enclosing := [⟨1⟩] } hidingSum rfl
  refine ⟨⟨new, r', hbind, hearly.trans hlate, hfolded.trans hlate⟩, ?_⟩
  exact (htree .block hidingProgram hidingProgramResolved {} _ 0 rfl).1

end Resolver

end PlZero
