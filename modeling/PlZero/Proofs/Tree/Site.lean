import PlZero.Tree.Traversal

/-! The sites of a tree: its expression slots and calls in the order in which a pass comes to
them, each with the scope of the innermost block around it. A tree is its skeleton and what
stands at its sites. -/

namespace PlZero

/-- A place whose content a pass may replace, with what stands there. -/
inductive Site where
  | expr (scope : ScopeId) (role : Role) (content : Expr)
  | call (scope : ScopeId) (loc : Location) (name : String) (entry : Option ProcedureId)
  deriving DecidableEq, Repr

def Site.isCall : Site → Bool
  | expr _ _ _ => false
  | call _ _ _ _ => true

/-- The sites of an assignment: each target before its value, pair by pair. -/
def Site.ofPairs (s : ScopeId) (pairs : List (Expr × Expr)) : List Site :=
  pairs.flatMap fun (target, value) => [.expr s .target target, .expr s .value value]

namespace Tree

/-- The sites of a tree that stands in the given scope. -/
def sites : {c : Category} → Tree c → ScopeId → List Site
  | _, assign a, s => Site.ofPairs s a.pairs
  | _, read _ target, s => [.expr s .target target]
  | _, write _ value, s => [.expr s .value value]
  | _, call loc name entry, s => [.call s loc name entry]
  | _, list _ ss, s => ss.sites s
  | _, conditional _ condition yes no, s =>
    .expr s .value condition :: (yes.sites s ++ no.sites s)
  | _, whileLoop _ condition body, s => .expr s .value condition :: body.sites s
  | _, doLoop _ bs, s => bs.sites s
  | _, ofBlock b, s => b.sites s
  | _, ofBranch b, s => b.sites s
  | _, cons x rest, s => x.sites s ++ rest.sites s
  | _, block _ scope ps body, _ => ps.sites scope ++ body.sites scope
  | _, procedure _ _ _ body rest, s => body.sites s ++ rest.sites s
  | _, branch _ condition body _, s => .expr s .value condition :: body.sites s
  | _, orBranch b rest, s => b.sites s ++ rest.sites s
  | _, error _, _ | _, skip _, _ | _, nil, _ | _, noProcedures, _ | _, noBranches, _ => []

/-- The tree with nothing at its sites. -/
def skeleton : {c : Category} → Tree c → Tree c
  | _, assign a => assign { a with pairs := a.pairs.map fun _ => (default, default) }
  | _, read loc _ => read loc default
  | _, write loc _ => write loc default
  | _, call loc name _ => call loc name none
  | _, list loc ss => list loc ss.skeleton
  | _, conditional loc _ yes no => conditional loc default yes.skeleton no.skeleton
  | _, whileLoop loc _ body => whileLoop loc default body.skeleton
  | _, doLoop loc bs => doLoop loc bs.skeleton
  | _, ofBlock b => ofBlock b.skeleton
  | _, ofBranch b => ofBranch b.skeleton
  | _, cons x rest => cons x.skeleton rest.skeleton
  | _, block loc scope ps body => block loc scope ps.skeleton body.skeleton
  | _, procedure loc name entry body rest => procedure loc name entry body.skeleton rest.skeleton
  | _, branch loc _ body exit => branch loc default body.skeleton exit
  | _, orBranch b rest => orBranch b.skeleton rest.skeleton
  | _, error loc => error loc
  | _, skip loc => skip loc
  | _, nil => nil
  | _, noProcedures => noProcedures
  | _, noBranches => noBranches

end Tree

/-! ### A tree is its skeleton and its sites -/

theorem Site.length_ofPairs (s : ScopeId) (pairs : List (Expr × Expr)) :
    (Site.ofPairs s pairs).length = 2 * pairs.length := by
  induction pairs with
  | nil => rfl
  | cons pair rest ih =>
    have hcons : (Site.ofPairs s (pair :: rest)).length = (Site.ofPairs s rest).length + 2 := rfl
    rw [hcons, ih, List.length_cons]
    omega

theorem Site.ofPairs_injective {s : ScopeId} {pairs pairs' : List (Expr × Expr)}
    (h : Site.ofPairs s pairs = Site.ofPairs s pairs') : pairs = pairs' := by
  induction pairs generalizing pairs' with
  | nil =>
    cases pairs' with
    | nil => rfl
    | cons pair' rest' => exact nomatch h
  | cons pair rest ih =>
    cases pairs' with
    | nil => exact nomatch h
    | cons pair' rest' =>
      obtain ⟨ht, hrest⟩ := List.cons.inj h
      obtain ⟨hv, hrest⟩ := List.cons.inj hrest
      rw [ih hrest, Prod.ext (Site.expr.inj ht).2.2 (Site.expr.inj hv).2.2]

namespace Tree

variable {c : Category}

theorem length_sites_skeleton (t : Tree c) (s : ScopeId) :
    (t.skeleton.sites s).length = (t.sites s).length := by
  induction t generalizing s with
  | assign a => simp only [skeleton, sites, Site.length_ofPairs, List.length_map]
  | _ => simp_all only [skeleton, sites, List.length_append, List.length_cons]

theorem length_sites_eq {t u : Tree c} (h : t.skeleton = u.skeleton) (s : ScopeId) :
    (t.sites s).length = (u.sites s).length := by
  rw [← length_sites_skeleton, h, length_sites_skeleton]

theorem sites_append_inj {t u : Tree c} {s : ScopeId} {xs ys : List Site}
    (hk : t.skeleton = u.skeleton) (hs : t.sites s ++ xs = u.sites s ++ ys) :
    t.sites s = u.sites s ∧ xs = ys :=
  List.append_inj hs (length_sites_eq hk s)

/-- Trees of one skeleton with the same at their sites are the same. -/
theorem eq_of_sites_eq {t u : Tree c} {s : ScopeId} (hk : t.skeleton = u.skeleton)
    (hs : t.sites s = u.sites s) : t = u := by
  induction t generalizing s with
  | assign a =>
    cases u <;> simp only [skeleton, reduceCtorEq, assign.injEq, Assignment.mk.injEq] at hk
    next b =>
      have hpairs : a.pairs = b.pairs := Site.ofPairs_injective hs
      have hab : (⟨a.loc, a.pairs⟩ : Assignment) = ⟨b.loc, b.pairs⟩ := by rw [hk.1, hpairs]
      exact congrArg assign hab
  | error | skip | nil | noProcedures | noBranches =>
    cases u <;> simp_all only [skeleton, reduceCtorEq, error.injEq, skip.injEq]
  | read loc e =>
    cases u <;> simp only [skeleton, reduceCtorEq, read.injEq] at hk
    simp_all only [sites, List.cons.injEq, Site.expr.injEq]
  | write loc e =>
    cases u <;> simp only [skeleton, reduceCtorEq, write.injEq] at hk
    simp_all only [sites, List.cons.injEq, Site.expr.injEq]
  | call loc name entry =>
    cases u <;> simp only [skeleton, reduceCtorEq, call.injEq] at hk
    simp_all only [sites, List.cons.injEq, Site.call.injEq]
  | list loc ss ih =>
    cases u <;> simp only [skeleton, reduceCtorEq, list.injEq] at hk
    rw [hk.1, ih hk.2 hs]
  | doLoop loc bs ih =>
    cases u <;> simp only [skeleton, reduceCtorEq, doLoop.injEq] at hk
    rw [hk.1, ih hk.2 hs]
  | ofBlock b ih =>
    cases u <;> simp only [skeleton, reduceCtorEq, ofBlock.injEq] at hk
    rw [ih hk hs]
  | ofBranch b ih =>
    cases u <;> simp only [skeleton, reduceCtorEq, ofBranch.injEq] at hk
    rw [ih hk hs]
  | conditional loc e yes no ihy ihn =>
    cases u <;> simp only [skeleton, reduceCtorEq, conditional.injEq] at hk
    obtain ⟨he, hs⟩ := List.cons.inj hs
    obtain ⟨hy, hn⟩ := sites_append_inj hk.2.2.1 hs
    rw [hk.1, (Site.expr.inj he).2.2, ihy hk.2.2.1 hy, ihn hk.2.2.2 hn]
  | whileLoop loc e body ih =>
    cases u <;> simp only [skeleton, reduceCtorEq, whileLoop.injEq] at hk
    obtain ⟨he, hs⟩ := List.cons.inj hs
    rw [hk.1, (Site.expr.inj he).2.2, ih hk.2.2 hs]
  | branch loc e body exit ih =>
    cases u
    simp only [skeleton, branch.injEq] at hk
    obtain ⟨he, hs⟩ := List.cons.inj hs
    rw [hk.1, (Site.expr.inj he).2.2, ih hk.2.2.1 hs, hk.2.2.2]
  | cons a rest iha ihr =>
    cases u <;> simp only [skeleton, reduceCtorEq, cons.injEq] at hk
    obtain ⟨ha, hr⟩ := sites_append_inj hk.1 hs
    rw [iha hk.1 ha, ihr hk.2 hr]
  | orBranch b rest ihb ihr =>
    cases u <;> simp only [skeleton, reduceCtorEq, orBranch.injEq] at hk
    obtain ⟨hb, hr⟩ := sites_append_inj hk.1 hs
    rw [ihb hk.1 hb, ihr hk.2 hr]
  | procedure loc name entry body rest ihb ihr =>
    cases u <;> simp only [skeleton, reduceCtorEq, procedure.injEq] at hk
    obtain ⟨hb, hr⟩ := sites_append_inj hk.2.2.2.1 hs
    rw [hk.1, hk.2.1, hk.2.2.1, ihb hk.2.2.2.1 hb, ihr hk.2.2.2.2 hr]
  | block loc scope ps body ihp ihb =>
    cases u
    simp only [skeleton, block.injEq] at hk
    obtain ⟨rfl, rfl, hkp, hkb⟩ := hk
    obtain ⟨hp, hb⟩ := sites_append_inj hkp hs
    rw [ihp hkp hp, ihb hkb hb]

end Tree

end PlZero
