import PlZero.Proofs.Tree.Site

/-! What there is in a tree, wherever it stands: the expressions in its slots, and its statements by
kind. -/

namespace PlZero

namespace Tree

/-- The expressions of a tree, slot by slot. -/
def slots : {c : Category} → Tree c → List Expr
  | _, assign a => a.pairs.flatMap fun (target, value) => [target, value]
  | _, read _ target => [target]
  | _, write _ value => [value]
  | _, list _ ss => ss.slots
  | _, conditional _ condition yes no => condition :: (yes.slots ++ no.slots)
  | _, whileLoop _ condition body => condition :: body.slots
  | _, doLoop _ bs => bs.slots
  | _, ofBlock b => b.slots
  | _, ofBranch b => b.slots
  | _, cons s rest => s.slots ++ rest.slots
  | _, block _ _ ps body => ps.slots ++ body.slots
  | _, procedure _ _ _ body rest => body.slots ++ rest.slots
  | _, branch _ condition body _ => condition :: body.slots
  | _, orBranch b rest => b.slots ++ rest.slots
  | _, error _ | _, skip _ | _, call _ _ _ | _, nil | _, noProcedures | _, noBranches => []

/-- The statements of a tree, each before those inside it. -/
def kinds : {c : Category} → Tree c → List Kind
  | _, error _ => [.error]
  | _, skip _ => [.skip]
  | _, assign _ => [.assignment]
  | _, read _ _ => [.read]
  | _, write _ _ => [.write]
  | _, call _ _ _ => [.call]
  | _, list _ ss => .list :: ss.kinds
  | _, conditional _ _ yes no => .conditional :: (yes.kinds ++ no.kinds)
  | _, whileLoop _ _ body => .whileLoop :: body.kinds
  | _, doLoop _ bs => .doLoop :: bs.kinds
  | _, ofBlock b => b.kinds
  | _, ofBranch b => b.kinds
  | _, cons s rest => s.kinds ++ rest.kinds
  | _, block _ _ ps body => .block :: (ps.kinds ++ body.kinds)
  | _, procedure _ _ _ body rest => body.kinds ++ rest.kinds
  | _, branch _ _ body _ => .doBranch :: body.kinds
  | _, orBranch b rest => b.kinds ++ rest.kinds
  | _, nil | _, noProcedures | _, noBranches => []

end Tree

/-! ### By sites -/

def Site.contents : Site → List Expr
  | expr _ _ e => [e]
  | call _ _ _ _ => []

theorem Site.countP_isCall_ofPairs (s : ScopeId) (pairs : List (Expr × Expr)) :
    (ofPairs s pairs).countP isCall = 0 := by
  induction pairs with
  | nil => rfl
  | cons pair rest ih =>
    have hcons : ofPairs s (pair :: rest) =
        expr s .target pair.1 :: expr s .value pair.2 :: ofPairs s rest := rfl
    simp [hcons, isCall, ih]

namespace Tree

variable {c : Category}

theorem flatMap_contents_sites (t : Tree c) (s : ScopeId) :
    (t.sites s).flatMap Site.contents = t.slots := by
  induction t generalizing s with
  | assign a =>
    rw [slots, sites, Site.ofPairs, List.flatMap_assoc]
    rfl
  | _ => simp_all [slots, sites, Site.contents]

theorem countP_isCall_sites (t : Tree c) (s : ScopeId) :
    (t.sites s).countP Site.isCall = t.kinds.count .call := by
  induction t generalizing s with
  | assign a => exact Site.countP_isCall_ofPairs s a.pairs
  | _ => simp_all [kinds, sites, Site.isCall]

end Tree

end PlZero
