import PlZero.Proofs.Tree.Site
import PlZero.Tree.Path

/-! Nodes by their paths. A statement has sites of its own, and after them come those of its
children, one child after another; so the sites of the node at a path are a stretch of the
sites of the whole tree. Where the stretch begins and how long it is does not depend on what
stands at the sites. -/

namespace PlZero.Tree

/-! ### Children -/

def scope : Block → ScopeId
  | block _ scope _ _ => scope

/-- The scope in which the children of a statement stand. -/
def inside : Statement → ScopeId → ScopeId
  | ofBlock b, _ => b.scope
  | _, s => s

/-- The sites of a statement that are not in a child. -/
def ownSites : Statement → ScopeId → List Site
  | assign a, s => Site.ofPairs s a.pairs
  | read _ target, s => [.expr s .target target]
  | write _ value, s => [.expr s .value value]
  | call loc name entry, s => [.call s loc name entry]
  | conditional _ condition _ _, s | whileLoop _ condition _, s
  | ofBranch (branch _ condition _ _), s => [.expr s .value condition]
  | error _, _ | skip _, _ | list _ _, _ | doLoop _ _, _ | ofBlock _, _ => []

/-- The nodes of a list of nodes, each as a statement. -/
def parts : {c : Category} → Tree c → List Statement
  | _, cons x rest => x :: rest.parts
  | _, orBranch b rest => ofBranch b :: rest.parts
  | _, procedure _ _ _ body rest => ofBlock body :: rest.parts
  | _, _ => []

theorem statements_eq_parts {c : Category} (t : Tree c) (hc : c = .sequence) :
    t.statements = t.parts := by
  induction t with
  | nil => rfl
  | cons x rest _ ih => rw [statements, parts, ih rfl]
  | _ => exact Category.noConfusion hc

theorem branchList_eq_parts {c : Category} (t : Tree c) (hc : c = .branches) :
    t.branchList.map ofBranch = t.parts := by
  induction t with
  | noBranches => rfl
  | orBranch b rest _ ih => rw [branchList, parts, List.map_cons, ih rfl]
  | _ => exact Category.noConfusion hc

theorem declarations_eq_parts {c : Category} (t : Tree c) (hc : c = .procedures) :
    (t.declarations.map fun d => ofBlock d.body) = t.parts := by
  induction t with
  | noProcedures => rfl
  | procedure loc name entry body rest _ ih => rw [declarations, parts, List.map_cons, ih rfl]
  | _ => exact Category.noConfusion hc

@[simp] theorem children_list (loc : Location) (ss : Tree .sequence) :
    (list loc ss).children = ss.parts := statements_eq_parts ss rfl

@[simp] theorem children_doLoop (loc : Location) (bs : Tree .branches) :
    (doLoop loc bs).children = bs.parts := branchList_eq_parts bs rfl

@[simp] theorem children_block (loc : Location) (scope : ScopeId) (ps : Tree .procedures)
    (body : Statement) : (ofBlock (block loc scope ps body)).children = ps.parts ++ [body] := by
  rw [children, declarations_eq_parts ps rfl]

theorem sites_eq_parts {c : Category} (t : Tree c) (hc : c.isNode = false) (s : ScopeId) :
    t.sites s = t.parts.flatMap (·.sites s) := by
  induction t with
  | nil | noBranches | noProcedures => rfl
  | cons x rest _ ih => rw [sites, parts, List.flatMap_cons, ih rfl]
  | orBranch b rest _ ih => rw [sites, parts, List.flatMap_cons, ih rfl, sites]
  | procedure loc name entry body rest _ ih => rw [sites, parts, List.flatMap_cons, ih rfl, sites]
  | _ => exact Bool.noConfusion hc

theorem sites_eq_own_append (t : Statement) (s : ScopeId) :
    t.sites s = t.ownSites s ++ t.children.flatMap (·.sites (t.inside s)) := by
  cases t with
  | error | skip => rfl
  | assign | read | write | call => simp [sites, ownSites, children]
  | list loc ss =>
    rw [children_list]
    exact sites_eq_parts ss rfl s
  | conditional | whileLoop => simp [sites, ownSites, children, inside]
  | doLoop loc bs =>
    rw [children_doLoop]
    exact sites_eq_parts bs rfl s
  | ofBlock b =>
    cases b with
    | block loc scope ps body =>
      rw [children_block, List.flatMap_append, List.flatMap_singleton]
      exact congrArg (· ++ body.sites scope) (sites_eq_parts ps rfl scope)
  | ofBranch b =>
    cases b with
    | branch => simp [sites, ownSites, children, inside]

/-! ### Children of a skeleton -/

theorem parts_skeleton {c : Category} (t : Tree c) (hc : c.isNode = false) :
    t.skeleton.parts = t.parts.map skeleton := by
  induction t with
  | nil | noBranches | noProcedures => rfl
  | cons x rest _ ih => rw [skeleton, parts, parts, List.map_cons, ih rfl]
  | orBranch b rest _ ih => rw [skeleton, parts, parts, List.map_cons, ih rfl, skeleton]
  | procedure loc name entry body rest _ ih =>
    rw [skeleton, parts, parts, List.map_cons, ih rfl, skeleton]
  | _ => exact Bool.noConfusion hc

theorem children_skeleton (t : Statement) : t.skeleton.children = t.children.map skeleton := by
  cases t with
  | error | skip | assign | read | write | call | conditional | whileLoop => rfl
  | list loc ss => rw [skeleton, children_list, children_list, parts_skeleton ss rfl]
  | doLoop loc bs => rw [skeleton, children_doLoop, children_doLoop, parts_skeleton bs rfl]
  | ofBlock b =>
    cases b with
    | block loc scope ps body =>
      rw [skeleton, skeleton, children_block, children_block, parts_skeleton ps rfl,
        List.map_append, List.map_singleton]
  | ofBranch b =>
    cases b with
    | branch => rfl

theorem inside_skeleton (t : Statement) (s : ScopeId) : t.skeleton.inside s = t.inside s := by
  cases t with
  | ofBlock b =>
    cases b with
    | block => rfl
  | _ => rfl

theorem length_ownSites_skeleton (t : Statement) (s : ScopeId) :
    (t.skeleton.ownSites s).length = (t.ownSites s).length := by
  cases t with
  | assign a => simp only [skeleton, ownSites, Site.length_ofPairs, List.length_map]
  | ofBranch b =>
    cases b with
    | branch => rfl
  | _ => rfl

/-! ### Nodes -/

theorem at?_skeleton (t : Statement) (path : List Nat) :
    t.skeleton.at? path = (t.at? path).map skeleton := by
  induction path generalizing t with
  | nil => rfl
  | cons i path ih =>
    rw [at?, at?, children_skeleton, List.getElem?_map]
    cases t.children[i]? with
    | none => rfl
    | some child => exact ih child

/-- The scope of the innermost block around the node at a path, or `s` if there is none. -/
def scopeAt (t : Statement) : List Nat → ScopeId → ScopeId
  | [], s => s
  | i :: path, s => t.children[i]?.elim s (·.scopeAt path (t.inside s))

theorem scopeAt_skeleton (t : Statement) (path : List Nat) (s : ScopeId) :
    t.skeleton.scopeAt path s = t.scopeAt path s := by
  induction path generalizing t s with
  | nil => rfl
  | cons i path ih =>
    rw [scopeAt, scopeAt, children_skeleton, List.getElem?_map, inside_skeleton]
    cases t.children[i]? with
    | none => rfl
    | some child => exact ih child (t.inside s)

/-- The sites that come before those of the node at a path. -/
def sitesBefore (t : Statement) : List Nat → ScopeId → List Site
  | [], _ => []
  | i :: path, s =>
    t.ownSites s ++ (t.children.take i).flatMap (·.sites (t.inside s)) ++
      t.children[i]?.elim [] (·.sitesBefore path (t.inside s))

theorem length_flatMap_sites_skeleton (ts : List Statement) (s : ScopeId) :
    ((ts.map skeleton).flatMap (·.sites s)).length = (ts.flatMap (·.sites s)).length := by
  induction ts with
  | nil => rfl
  | cons t ts ih =>
    rw [List.map_cons, List.flatMap_cons, List.flatMap_cons, List.length_append,
      List.length_append, length_sites_skeleton, ih]

theorem length_sitesBefore_skeleton (t : Statement) (path : List Nat) (s : ScopeId) :
    (t.skeleton.sitesBefore path s).length = (t.sitesBefore path s).length := by
  induction path generalizing t s with
  | nil => rfl
  | cons i path ih =>
    simp only [sitesBefore, children_skeleton, inside_skeleton, List.length_append,
      length_ownSites_skeleton, ← List.map_take, length_flatMap_sites_skeleton,
      List.getElem?_map]
    cases t.children[i]? with
    | none => rfl
    | some child => simp only [Option.map_some, Option.elim_some, ih]

theorem flatMap_sites_of_getElem? {ts : List Statement} {i : Nat} {t : Statement}
    (h : ts[i]? = some t) (s : ScopeId) :
    ts.flatMap (·.sites s) = (ts.take i).flatMap (·.sites s) ++
      (t.sites s ++ (ts.drop (i + 1)).flatMap (·.sites s)) := by
  obtain ⟨hi, rfl⟩ := List.getElem?_eq_some_iff.1 h
  have hsplit : ts = ts.take i ++ ts[i] :: ts.drop (i + 1) := by
    rw [List.getElem_cons_drop, List.take_append_drop]
  calc ts.flatMap (·.sites s)
      = (ts.take i ++ ts[i] :: ts.drop (i + 1)).flatMap (·.sites s) := by rw [← hsplit]
    _ = _ := by rw [List.flatMap_append, List.flatMap_cons]

/-- The sites of a node are a stretch of the sites of the tree. -/
theorem sites_of_at? {t sub : Statement} {path : List Nat} (h : t.at? path = some sub)
    (s : ScopeId) :
    ∃ rest, t.sites s = t.sitesBefore path s ++ (sub.sites (t.scopeAt path s) ++ rest) := by
  induction path generalizing t s with
  | nil =>
    obtain rfl := Option.some.inj h
    exact ⟨[], by simp [sitesBefore, scopeAt]⟩
  | cons i path ih =>
    obtain ⟨child, hchild, h⟩ := Option.bind_eq_some_iff.1 h
    obtain ⟨rest, hrest⟩ := ih h (t.inside s)
    refine ⟨rest ++ (t.children.drop (i + 1)).flatMap (·.sites (t.inside s)), ?_⟩
    rw [sites_eq_own_append, flatMap_sites_of_getElem? hchild, hrest, sitesBefore, scopeAt, hchild]
    simp only [Option.elim_some, List.append_assoc]

/-- What has the skeleton of a tree, and at the place of a node the sites of another node like
it, has that node there. -/
theorem at?_of_sites {t u sub new : Statement} {path : List Nat} {s : ScopeId}
    {before rest : List Site} (h : t.at? path = some sub) (hk : u.skeleton = t.skeleton)
    (hnew : new.skeleton = sub.skeleton) (hlength : before.length = (t.sitesBefore path s).length)
    (hu : u.sites s = before ++ (new.sites (t.scopeAt path s) ++ rest)) :
    u.at? path = some new := by
  have hat : (u.at? path).map skeleton = some sub.skeleton := by
    rw [← at?_skeleton, hk, at?_skeleton, h, Option.map_some]
  obtain ⟨sub', hsub', hkey⟩ := Option.map_eq_some_iff.1 hat
  obtain ⟨rest', hsites⟩ := sites_of_at? hsub' s
  have hscope : u.scopeAt path s = t.scopeAt path s := by
    rw [← scopeAt_skeleton, hk, scopeAt_skeleton]
  have hbefore : (u.sitesBefore path s).length = before.length := by
    rw [← length_sitesBefore_skeleton, hk, length_sitesBefore_skeleton, hlength]
  rw [hscope, hu] at hsites
  have hrest := (List.append_inj hsites hbefore.symm).2
  have hsame := (sites_append_inj (hnew.trans hkey.symm) hrest).1
  rw [hsub', eq_of_sites_eq (hnew.trans hkey.symm) hsame]

end PlZero.Tree
