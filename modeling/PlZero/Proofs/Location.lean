import PlZero.Proofs.Resolver.Sweep
import PlZero.Proofs.Tree.Fold

/-! Where expressions stand once they are rewritten. Folding and resolution rebuild a node at its
own location unless it is a coercion, which they put where its new operand stands. So a rewritten
expression stands at its seat, the place of the first node inside its outer coercions, and it has
moved if a coercion was placed elsewhere. -/

namespace PlZero

namespace Expr

/-- The place of the first node that is no coercion, going inward. -/
def seat : Expr → Location
  | coerce _ _ e => e.seat
  | e => e.location

@[simp] theorem location_coerced (c : Coercion) (e : Expr) :
    (coerced c e).location = e.location := rfl

theorem location_of_fold? {e f : Expr} (h : e.fold? = some f) : f.location = e.seat := by
  induction e generalizing f with
  | error _ | const _ _ | identifier _ _ | var _ _ _ => cases h
  | unary loc op e ih =>
    rcases fold?_unary_eq_some h with ⟨value, rfl⟩ | ⟨g, -, rfl⟩
    · rfl
    · rfl
  | binary loc op l r ihl ihr =>
    rcases fold?_binary_eq_some h with ⟨value, rfl⟩ | ⟨-, rfl⟩
    · rfl
    · rfl
  | coerce loc c e ih =>
    obtain ⟨g, hg, rfl⟩ := fold?_coerce_eq_some h
    rw [location_coerced, ih hg, seat]

/-- A substitution that puts something at the place of each name. -/
theorem location_of_substitute? {put : Occurrence → Expr} (hput : ∀ o, (put o).location = o.loc)
    {role : Role} {e f : Expr} (h : e.substitute? put role = some f) : f.location = e.seat := by
  induction e generalizing role f with
  | error _ | const _ _ | var _ _ _ => cases h
  | identifier loc n =>
    obtain rfl := Option.some.inj h
    exact hput ⟨role, loc, n⟩
  | unary loc op e ih =>
    obtain ⟨g, -, rfl⟩ := Option.map_eq_some_iff.1 h
    rfl
  | binary loc op l r ihl ihr =>
    rw [substitute?] at h
    split at h
    · cases h
    · obtain rfl := Option.some.inj h
      rfl
  | coerce loc c e ih =>
    obtain ⟨g, hg, rfl⟩ := Option.map_eq_some_iff.1 h
    rw [location_coerced, ih hg, seat]

end Expr

theorem ScopeTable.location_bound (table : ScopeTable) (s : ScopeId) (o : Occurrence) :
    (table.bound s o).location = o.loc := by
  unfold bound
  split
  · rfl
  · split <;> rfl

/-- In whatever state the resolver is. -/
theorem Resolver.location_of_bindExpr {table : ScopeTable} {role : Role} {e f : Expr}
    {r r' : Resolver} (h : bindExpr table role e r = .ok (some f) r') : f.location = e.seat := by
  by_cases hs : r.current.index < table.scopeCount
  · rw [bindExpr_known hs] at h
    injection h with hsome _
    exact Expr.location_of_substitute? (table.location_bound r.current) hsome
  · rw [bindExpr_unknown hs] at h
    split at h <;> exact nomatch h

/-! ### Slots of a tree -/

namespace Site

/-- The location that is reported for what stands at the site. -/
def location : Site → Location
  | expr _ _ e => e.location
  | call _ loc _ _ => loc

def seat : Site → Location
  | expr _ _ e => e.seat
  | call _ loc _ _ => loc

/-- There is still the same, or something new at the seat of what was there. -/
def Reseats (old new : Site) : Prop := new = old ∨ new.location = old.seat

theorem reseats_folded (site : Site) : site.Reseats site.folded := by
  match site with
  | expr s .value e =>
    cases h : e.fold? with
    | none => exact .inl (by rw [folded, Expr.folded_of_fold?_eq_none h])
    | some f =>
      right
      rw [folded, Expr.folded_of_fold? h]
      exact Expr.location_of_fold? h
  | expr s .target e => exact .inl rfl
  | call s loc name entry => exact .inl rfl

theorem reseats_resolved (table : ScopeTable) (site : Site) :
    site.Reseats (site.resolved table) := by
  cases site with
  | expr s role e =>
    cases h : e.substitute? (table.bound s) role with
    | none =>
      exact .inl (by rw [resolved, Expr.substituted_of_substitute?_eq_none _ _ h])
    | some f =>
      right
      rw [resolved, Expr.substituted, h]
      exact Expr.location_of_substitute? (table.location_bound s) h
  | call s loc name entry => exact .inr rfl

/-- There is still the same, or it was at its seat. -/
def Seated (old new : Site) : Prop := new = old ∨ old.seat = old.location

theorem Reseats.location_eq_iff {old new : Site} (h : old.Reseats new) :
    new.location = old.location ↔ old.Seated new := by
  rcases h with rfl | h
  · exact ⟨fun _ => .inl rfl, fun _ => rfl⟩
  · rw [h]
    refine ⟨.inr, ?_⟩
    rintro (rfl | hseat)
    · exact h.symm
    · exact hseat

/-- The slots report the same locations exactly if each that was rewritten was at its seat. -/
theorem map_location_eq_iff {olds news : List Site} (h : List.Forall₂ Reseats olds news) :
    news.map location = olds.map location ↔ List.Forall₂ Seated olds news := by
  induction h with
  | nil => exact ⟨fun _ => .nil, fun _ => rfl⟩
  | cons hsite _ ih =>
    rw [List.map_cons, List.map_cons, List.cons.injEq, hsite.location_eq_iff, ih,
      List.forall₂_cons]

end Site

theorem Tree.reseats_foldConstants {c : Category} (t : Tree c) (n : Nat) (s : ScopeId) :
    List.Forall₂ Site.Reseats (t.sites s) ((t.foldConstants n).1.sites s) := by
  rw [t.sites_foldConstants, List.forall₂_map_right_iff]
  exact List.forall₂_same.2 fun site _ => site.reseats_folded

namespace Resolver

/-- Also when something stops the resolver: what it did not come to is as it was. -/
theorem reseats_resolve (table : ScopeTable) (r : Resolver) {c : Category} (t : Tree c) :
    List.Forall₂ Site.Reseats (t.sites r.current) ((resolve table r t).1.sites r.current) := by
  rw [sites_resolve]
  nth_rewrite 1 [← reached_append_unreached table (t.sites r.current)]
  apply List.rel_append
  · rw [List.forall₂_map_right_iff]
    exact List.forall₂_same.2 fun site _ => site.reseats_resolved table
  · exact List.forall₂_same.2 fun site _ => .inl rfl

end Resolver

/-- A folded or resolved expression stands at the seat of the old one, so it has kept its location
exactly if that was its seat. A visit of a tree brings every slot that it rewrites to its seat,
and it leaves the reported locations the same exactly if each of them was there. -/
theorem rewritten_stands_at_seat {c : Category} (e : Expr) (t : Tree c) (role : Role)
    (table : ScopeTable) (r : Resolver) (n : Nat) :
    (∀ f, e.fold? = some f →
      f.location = e.seat ∧ (f.location = e.location ↔ e.seat = e.location)) ∧
    (∀ f r', Resolver.bindExpr table role e r = .ok (some f) r' →
      f.location = e.seat ∧ (f.location = e.location ↔ e.seat = e.location)) ∧
    ∀ t' ∈ [(t.foldConstants n).1, (r.resolve table t).1],
      List.Forall₂ Site.Reseats (t.sites r.current) (t'.sites r.current) ∧
      ((t'.sites r.current).map Site.location = (t.sites r.current).map Site.location ↔
        List.Forall₂ Site.Seated (t.sites r.current) (t'.sites r.current)) := by
  refine ⟨?_, ?_, ?_⟩
  · intro f h
    have hseat := Expr.location_of_fold? h
    exact ⟨hseat, by rw [hseat]⟩
  · intro f r' h
    have hseat := Resolver.location_of_bindExpr h
    exact ⟨hseat, by rw [hseat]⟩
  · have hfold := t.reseats_foldConstants n r.current
    have hresolve := Resolver.reseats_resolve table r t
    rw [List.forall_mem_cons, List.forall_mem_singleton]
    exact ⟨⟨hfold, Site.map_location_eq_iff hfold⟩, hresolve, Site.map_location_eq_iff hresolve⟩

/-- A sum inside a coercion that is placed before it. -/
def placedSum : Expr :=
  .coerce ⟨1, 1⟩ .widen (.binary ⟨3, 7⟩ .add (.const ⟨3, 5⟩ 9) (.const ⟨3, 9⟩ 3))

/-- Folding does not keep the location of every expression. -/
theorem folding_moves_placedSum : ¬ ∀ e f : Expr, e.fold? = some f → f.location = e.location := by
  intro h
  have hplaced := h placedSum (.coerce ⟨3, 7⟩ .widen (.const ⟨3, 7⟩ 12)) rfl
  exact absurd hplaced (by decide)

end PlZero
