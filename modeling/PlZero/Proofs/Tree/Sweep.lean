import PlZero.Proofs.Tree.Site

/-! Passes as sweeps. A pass leaves the skeleton of a tree alone, and one that treats each
site by itself turns the sites of a tree one after another. So what a pass does to a tree
can be said and proved on a list. -/

namespace PlZero

theorem stateM_bind_apply {σ α β : Type} (x : StateM σ α) (f : α → StateM σ β) (s : σ) :
    (x >>= f) s = f (x s).1 (x s).2 := rfl

theorem stateM_pure_apply {σ α : Type} (a : α) (s : σ) : (pure a : StateM σ α) s = (a, s) := rfl

namespace Site

variable {σ : Type}

/-- Visits sites one after another. -/
def sweep (visit : Site → σ → Site × σ) : List Site → σ → List Site × σ
  | [], x => ([], x)
  | site :: rest, x =>
    ((visit site x).1 :: (sweep visit rest (visit site x).2).1,
      (sweep visit rest (visit site x).2).2)

theorem sweep_append (visit : Site → σ → Site × σ) (first second : List Site) (x : σ) :
    sweep visit (first ++ second) x =
      ((sweep visit first x).1 ++ (sweep visit second (sweep visit first x).2).1,
        (sweep visit second (sweep visit first x).2).2) := by
  induction first generalizing x with
  | nil => rfl
  | cons site rest ih => simp only [List.cons_append, sweep, ih]

end Site

namespace SlotPass

variable {σ : Type}

/-- A pass that treats each site by itself, given its scope. `At` says in which scope a state
of the pass is; entering a block changes that and nothing that a visit depends on. -/
structure Follows (p : SlotPass σ) (visit : Site → σ → Site × σ) (At : σ → ScopeId → Prop) :
    Prop where
  expr {x : σ} {s : ScopeId} (hs : At x s) (role : Role) (e : Expr) :
    visit (.expr s role e) x = (.expr s role (p.expr role e x).1, (p.expr role e x).2)
  entry {x : σ} {s : ScopeId} (hs : At x s) (loc : Location) (name : String)
      (old : Option ProcedureId) : visit (.call s loc name old) x =
    (.call s loc name (p.entry loc name old x).1, (p.entry loc name old x).2)
  stays {x : σ} {s : ScopeId} (hs : At x s) (site : Site) : At (visit site x).2 s
  enters (x : σ) (inner : ScopeId) : At (p.enter inner x).2 inner
  visit_enter (site : Site) (x : σ) (inner : ScopeId) : visit site (p.enter inner x).2 =
    ((visit site x).1, (p.enter inner (visit site x).2).2)
  leave_enter (x : σ) (inner : ScopeId) : (p.leave (p.enter inner x).2).2 = x

theorem length_pairs (p : SlotPass σ) (pairs : List (Expr × Expr)) (x : σ) :
    (p.pairs pairs x).1.length = pairs.length := by
  induction pairs generalizing x with
  | nil => rfl
  | cons pair rest ih =>
    obtain ⟨target, value⟩ := pair
    simp only [SlotPass.pairs, stateM_bind_apply, stateM_pure_apply, List.length_cons, ih]

namespace Follows

variable {p : SlotPass σ} {visit : Site → σ → Site × σ} {At : σ → ScopeId → Prop} {x : σ}
  {s : ScopeId}

theorem stays_sweep (h : p.Follows visit At) (hs : At x s) (sites : List Site) :
    At (Site.sweep visit sites x).2 s := by
  induction sites generalizing x with
  | nil => exact hs
  | cons site rest ih => exact ih (h.stays hs site)

theorem sweep_enter (h : p.Follows visit At) (sites : List Site) (x : σ) (inner : ScopeId) :
    Site.sweep visit sites (p.enter inner x).2 =
      ((Site.sweep visit sites x).1, (p.enter inner (Site.sweep visit sites x).2).2) := by
  induction sites generalizing x with
  | nil => rfl
  | cons site rest ih => simp only [Site.sweep, h.visit_enter, ih]

theorem stays_expr (h : p.Follows visit At) (hs : At x s) (role : Role) (e : Expr) :
    At (p.expr role e x).2 s := by
  have := h.stays hs (.expr s role e)
  rwa [h.expr hs] at this

theorem stays_of_sweep (h : p.Follows visit At) (hs : At x s) {sites swept : List Site} {y : σ}
    (hy : Site.sweep visit sites x = (swept, y)) : At y s := by
  have := h.stays_sweep hs sites
  rwa [hy] at this

theorem ofPairs_pairs (h : p.Follows visit At) (hs : At x s) (pairs : List (Expr × Expr)) :
    Site.sweep visit (Site.ofPairs s pairs) x =
      (Site.ofPairs s (p.pairs pairs x).1, (p.pairs pairs x).2) := by
  induction pairs generalizing x with
  | nil => rfl
  | cons pair rest ih =>
    obtain ⟨target, value⟩ := pair
    have ht := h.stays_expr hs .target target
    have hv := h.stays_expr ht .value value
    have hcons : Site.ofPairs s ((target, value) :: rest) =
        .expr s .target target :: .expr s .value value :: Site.ofPairs s rest := rfl
    simp only [hcons, Site.sweep, h.expr hs, h.expr ht, ih hv]
    rfl

end Follows

end SlotPass

namespace Tree

variable {σ : Type} {c : Category}

/-- A pass changes what stands at the sites and nothing else. -/
theorem skeleton_traverse (p : SlotPass σ) (t : Tree c) (x : σ) :
    (t.traverse p x).1.skeleton = t.skeleton := by
  induction t generalizing x with
  | assign a =>
    simp only [traverse, stateM_bind_apply, stateM_pure_apply, skeleton, List.map_const',
      SlotPass.length_pairs]
  | error | skip | nil | noProcedures | noBranches => rfl
  | read | write | call => rfl
  | list loc ss ih => simp only [traverse, stateM_bind_apply, stateM_pure_apply, skeleton, ih]
  | _ => simp_all only [traverse, stateM_bind_apply, stateM_pure_apply, skeleton]

/-- A pass that treats each site by itself sweeps over the sites of a tree. -/
theorem sites_traverse {p : SlotPass σ} {visit : Site → σ → Site × σ} {At : σ → ScopeId → Prop}
    (h : p.Follows visit At) (t : Tree c) {x : σ} {s : ScopeId} (hs : At x s) :
    Site.sweep visit (t.sites s) x = ((t.traverse p x).1.sites s, (t.traverse p x).2) := by
  induction t generalizing x s with
  | assign a => exact h.ofPairs_pairs hs a.pairs
  | error | skip | nil | noProcedures | noBranches => rfl
  | read loc e => simp only [sites, Site.sweep, h.expr hs]; rfl
  | write loc e => simp only [sites, Site.sweep, h.expr hs]; rfl
  | call loc name entry => simp only [sites, Site.sweep, h.entry hs]; rfl
  | list loc ss ih => exact ih hs
  | doLoop loc bs ih => exact ih hs
  | ofBlock b ih => exact ih hs
  | ofBranch b ih => exact ih hs
  | conditional loc e yes no ihy ihn =>
    have he := h.stays_expr hs .value e
    have hy := h.stays_of_sweep he (ihy he)
    simp only [sites, Site.sweep, h.expr hs, Site.sweep_append, ihy he, ihn hy]
    rfl
  | whileLoop loc e body ih =>
    simp only [sites, Site.sweep, h.expr hs, ih (h.stays_expr hs .value e)]
    rfl
  | branch loc e body exit ih =>
    simp only [sites, Site.sweep, h.expr hs, ih (h.stays_expr hs .value e)]
    rfl
  | cons a rest iha ihr =>
    simp only [sites, Site.sweep_append, iha hs, ihr (h.stays_of_sweep hs (iha hs))]
    rfl
  | orBranch b rest ihb ihr =>
    simp only [sites, Site.sweep_append, ihb hs, ihr (h.stays_of_sweep hs (ihb hs))]
    rfl
  | procedure loc name entry body rest ihb ihr =>
    simp only [sites, Site.sweep_append, ihb hs, ihr (h.stays_of_sweep hs (ihb hs))]
    rfl
  | block loc scope ps body ihp ihb =>
    -- the parts are swept from the state inside the block; the same sweep from outside
    -- gives the same sites and leads to the state that leaving gives back
    have hin := h.enters x scope
    have hps := h.stays_of_sweep hin (ihp hin)
    have hinside := Site.sweep_append visit (ps.sites scope) (body.sites scope) (p.enter scope x).2
    simp only [ihp hin, ihb hps] at hinside
    rw [h.sweep_enter] at hinside
    obtain ⟨hsites, hstate⟩ := Prod.mk.inj hinside
    refine Prod.ext hsites ?_
    have hleave := h.leave_enter (Site.sweep visit (ps.sites scope ++ body.sites scope) x).2 scope
    rw [hstate] at hleave
    exact hleave.symm

end Tree

end PlZero
