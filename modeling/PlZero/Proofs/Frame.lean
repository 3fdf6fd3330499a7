import PlZero.Proofs.Resolver.Reuse
import PlZero.Proofs.Tree.Fold
import PlZero.Proofs.Tree.Path
import PlZero.Tree.Slot
import PlZero.Tree.Tally

/-! What no rewriting changes. Resolution, folding and the setters of single slots write what
stands at the sites of a tree and nothing else, whichever node they are applied to and in
whatever order; so every node keeps its heading, and the statements are counted alike before
and after. -/

namespace PlZero

namespace Tree

/-! ### A change at one node -/

section UpdateAt

variable {α : Type} {f : {c : Category} → Tree c → Tree c × α} {c : Category}

theorem updateAt?_nil (t : Tree c) :
    t.updateAt? f [] = if c.isNode then some (f t) else none := by
  cases t <;> rfl

variable (hf : ∀ {c : Category} (t : Tree c), (f t).1.skeleton = t.skeleton)
include hf

/-- At the node itself the change keeps the skeleton, so only the paths that lead below it are
in question. -/
theorem skeleton_updateAt?_of_below {t u : Tree c} {path : List Nat} {a : α}
    (below : ∀ {i path u}, t.updateAt? f (i :: path) = some (u, a) → u.skeleton = t.skeleton)
    (h : t.updateAt? f path = some (u, a)) : u.skeleton = t.skeleton := by
  cases path with
  | nil =>
    rw [updateAt?_nil] at h
    split at h
    · rw [← hf t, Option.some.inj h]
    · exact nomatch h
  | cons i path => exact below h

theorem skeleton_updateAt?_cons {t u : Tree c} {i : Nat} {path : List Nat} {a : α}
    (h : t.updateAt? f (i :: path) = some (u, a)) : u.skeleton = t.skeleton := by
  -- a child gets the path without its index, and that may be empty; a list gets all of it
  induction t generalizing i path with
  | error | skip | assign | read | write | call | nil | noProcedures | noBranches =>
    exact absurd h (Option.some_ne_none _).symm
  | list loc ss ih =>
    obtain ⟨⟨ss', _⟩, hss, ⟨⟩⟩ := Option.map_eq_some_iff.1 h
    rw [skeleton, ih hss, skeleton]
  | doLoop loc bs ih =>
    obtain ⟨⟨bs', _⟩, hbs, ⟨⟩⟩ := Option.map_eq_some_iff.1 h
    rw [skeleton, ih hbs, skeleton]
  | ofBlock b ih =>
    obtain ⟨⟨b', _⟩, hb, ⟨⟩⟩ := Option.map_eq_some_iff.1 h
    rw [skeleton, ih hb, skeleton]
  | ofBranch b ih =>
    obtain ⟨⟨b', _⟩, hb, ⟨⟩⟩ := Option.map_eq_some_iff.1 h
    rw [skeleton, ih hb, skeleton]
  | conditional loc e yes no ihy ihn =>
    rcases i with _ | _ | i
    · obtain ⟨⟨yes', _⟩, hyes, ⟨⟩⟩ := Option.map_eq_some_iff.1 h
      rw [skeleton, skeleton_updateAt?_of_below hf ihy hyes, skeleton]
    · obtain ⟨⟨no', _⟩, hno, ⟨⟩⟩ := Option.map_eq_some_iff.1 h
      rw [skeleton, skeleton_updateAt?_of_below hf ihn hno, skeleton]
    · exact absurd h (Option.some_ne_none _).symm
  | whileLoop loc e body ih =>
    rcases i with _ | i
    · obtain ⟨⟨body', _⟩, hbody, ⟨⟩⟩ := Option.map_eq_some_iff.1 h
      rw [skeleton, skeleton_updateAt?_of_below hf ih hbody, skeleton]
    · exact absurd h (Option.some_ne_none _).symm
  | branch loc e body exit ih =>
    rcases i with _ | i
    · obtain ⟨⟨body', _⟩, hbody, ⟨⟩⟩ := Option.map_eq_some_iff.1 h
      rw [skeleton, skeleton_updateAt?_of_below hf ih hbody, skeleton]
    · exact absurd h (Option.some_ne_none _).symm
  | cons x rest ihx ihr =>
    rcases i with _ | i
    · obtain ⟨⟨x', _⟩, hx, ⟨⟩⟩ := Option.map_eq_some_iff.1 h
      rw [skeleton, skeleton_updateAt?_of_below hf ihx hx, skeleton]
    · obtain ⟨⟨rest', _⟩, hrest, ⟨⟩⟩ := Option.map_eq_some_iff.1 h
      rw [skeleton, ihr hrest, skeleton]
  | orBranch b rest ihb ihr =>
    rcases i with _ | i
    · obtain ⟨⟨b', _⟩, hb, ⟨⟩⟩ := Option.map_eq_some_iff.1 h
      rw [skeleton, skeleton_updateAt?_of_below hf ihb hb, skeleton]
    · obtain ⟨⟨rest', _⟩, hrest, ⟨⟩⟩ := Option.map_eq_some_iff.1 h
      rw [skeleton, ihr hrest, skeleton]
  | procedure loc name entry body rest ihb ihr =>
    rcases i with _ | i
    · obtain ⟨⟨body', _⟩, hbody, ⟨⟩⟩ := Option.map_eq_some_iff.1 h
      rw [skeleton, skeleton_updateAt?_of_below hf ihb hbody, skeleton]
    · obtain ⟨⟨rest', _⟩, hrest, ⟨⟩⟩ := Option.map_eq_some_iff.1 h
      rw [skeleton, ihr hrest, skeleton]
  | block loc scope ps body ihp ihb =>
    rw [updateAt?] at h
    split at h
    · obtain ⟨⟨body', _⟩, hbody, ⟨⟩⟩ := Option.map_eq_some_iff.1 h
      rw [skeleton, skeleton_updateAt?_of_below hf ihb hbody, skeleton]
    · obtain ⟨⟨ps', _⟩, hps, ⟨⟩⟩ := Option.map_eq_some_iff.1 h
      rw [skeleton, ihp hps, skeleton]

/-- What keeps the skeleton of every node keeps that of a tree, at whichever node it is done. -/
theorem skeleton_updateAt? {t u : Tree c} {path : List Nat} {a : α}
    (h : t.updateAt? f path = some (u, a)) : u.skeleton = t.skeleton :=
  skeleton_updateAt?_of_below hf (skeleton_updateAt?_cons hf) h

end UpdateAt

/-! ### Setters -/

theorem skeleton_assign {a b : Assignment} (hloc : b.loc = a.loc)
    (hlength : b.length = a.length) : (assign b).skeleton = (assign a).skeleton := by
  simp only [Assignment.length] at hlength
  simp only [skeleton, List.map_const', hloc, hlength]

theorem skeleton_of_map_assign {a : Assignment} {set : Except Fault (Expr × Assignment)}
    {old : Expr} {u : Statement}
    (hset : ∀ b, set = .ok (old, b) → b.loc = a.loc ∧ b.length = a.length)
    (h : (set.map fun (old, b) => (old, assign b)) = .ok (old, u)) :
    u.skeleton = (assign a).skeleton := by
  match set, h with
  | .ok (old', b), h =>
    obtain ⟨rfl, rfl⟩ := Prod.mk.inj (Except.ok.inj h)
    obtain ⟨hloc, hlength⟩ := hset b rfl
    exact skeleton_assign hloc hlength

theorem skeleton_replace {c : Category} {slot : Slot} {index : Option Nat} {e old : Expr}
    {t u : Tree c} (h : t.replace slot index e = some (.ok (old, u))) :
    u.skeleton = t.skeleton := by
  induction t with
  | assign a =>
    match slot, index with
    | .target, some i =>
      exact skeleton_of_map_assign (fun b => a.frame_of_set (w := ⟨.target, i, e⟩))
        (Option.some.inj h)
    | .value, some i =>
      exact skeleton_of_map_assign (fun b => a.frame_of_set (w := ⟨.value, i, e⟩))
        (Option.some.inj h)
    | .target, none | .value, none | .condition, _ => exact absurd h (Option.some_ne_none _).symm
  | read | write | conditional | whileLoop | branch =>
    rw [replace] at h
    split at h
    · obtain ⟨-, rfl⟩ := Prod.mk.inj (Except.ok.inj (Option.some.inj h))
      rfl
    · exact absurd h (Option.some_ne_none _).symm
  | ofBranch b ih =>
    obtain ⟨result, hresult, hmap⟩ := Option.map_eq_some_iff.1 h
    match result, hmap with
    | .ok (old', b'), hmap =>
      obtain ⟨rfl, rfl⟩ := Prod.mk.inj (Except.ok.inj hmap)
      rw [skeleton, ih hresult, skeleton]
  | _ => exact absurd h (Option.some_ne_none _).symm

theorem skeleton_bind? {c : Category} {entry : ProcedureId} {old : Option ProcedureId}
    {t u : Tree c} (h : t.bind? entry = some (old, u)) : u.skeleton = t.skeleton := by
  cases t with
  | call loc name entry =>
    obtain ⟨-, rfl⟩ := Prod.mk.inj (Option.some.inj h)
    rfl
  | _ => exact nomatch h

/-! ### Headings -/

/-- What the forms of a node have besides their slots and children. -/
inductive Detail where
  | block (scope : ScopeId) (procedures : List (Location × String × ProcedureId))
  | sides (targets values : Nat)
  | called (name : String)
  | exits (exit : Bool)
  | nothing
  deriving DecidableEq, Repr

def detail : Statement → Detail
  | ofBlock (block _ scope ps _) =>
    .block scope (ps.declarations.map fun d => (d.loc, d.name, d.entry))
  | assign a => .sides a.targets.length a.values.length
  | call _ name _ => .called name
  | ofBranch (branch _ _ _ exit) => .exits exit
  | _ => .nothing

/-- What a node shows of itself when its slots and children are left out. -/
structure Heading where
  kind : Kind
  loc : Location
  children : Nat
  detail : Detail
  deriving DecidableEq, Repr

def heading (t : Statement) : Heading := ⟨t.kind, t.location, t.children.length, t.detail⟩

theorem declarations_skeleton {c : Category} (t : Tree c) :
    (t.skeleton.declarations.map fun d => (d.loc, d.name, d.entry)) =
      t.declarations.map fun d => (d.loc, d.name, d.entry) := by
  induction t with
  | procedure loc name entry body rest _ ih =>
    rw [skeleton, declarations, declarations, List.map_cons, List.map_cons, ih]
  | _ => rfl

theorem detail_skeleton (t : Statement) : t.skeleton.detail = t.detail := by
  cases t with
  | ofBlock b =>
    cases b with
    | block loc scope ps body => rw [skeleton, skeleton, detail, detail, declarations_skeleton]
  | assign a =>
    simp only [skeleton, detail, Assignment.targets, Assignment.values, List.length_map]
  | ofBranch b =>
    cases b with
    | branch => rfl
  | _ => rfl

theorem heading_skeleton (t : Statement) : t.skeleton.heading = t.heading := by
  have hkind : t.skeleton.kind = t.kind := by cases t <;> rfl
  have hloc : t.skeleton.location = t.location := by
    cases t with
    | ofBlock b => cases b with | block => rfl
    | ofBranch b => cases b with | branch => rfl
    | _ => rfl
  rw [heading, hkind, hloc, children_skeleton, List.length_map, detail_skeleton, heading]

theorem heading_at?_of_skeleton {t u : Statement} (h : u.skeleton = t.skeleton)
    (path : List Nat) : (u.at? path).map heading = (t.at? path).map heading := by
  have hskeleton (v : Statement) :
      (v.skeleton.at? path).map heading = (v.at? path).map heading := by
    rw [at?_skeleton, Option.map_map]
    exact congrArg (Option.map · (v.at? path)) (funext heading_skeleton)
  rw [← hskeleton u, h, hskeleton]

theorem tally_skeleton {c : Category} (t : Tree c) (tally : Tally) :
    t.skeleton.tally tally = t.tally tally := by
  induction t generalizing tally with
  | _ => simp_all only [skeleton, Tree.tally]

end Tree

/-! ### Rewritings -/

/-- What writes into a tree, each with the state it has when it comes to it. -/
inductive Writer where
  | resolver (table : ScopeTable) (r : Resolver)
  | folder (changed : Nat)
  | setter (slot : Slot) (index : Option Nat) (e : Expr)
  | binder (entry : ProcedureId)

/-- The node after the writer has come to it. A setter that fails, or is not one of this node,
leaves it as it is. -/
def Writer.write {c : Category} (t : Tree c) : Writer → Tree c
  | resolver table r => (r.resolve table t).1
  | folder changed => (t.foldConstants changed).1
  | setter slot index e =>
    match t.replace slot index e with
    | some (.ok (_, t')) => t'
    | _ => t
  | binder entry =>
    match t.bind? entry with
    | some (_, t') => t'
    | none => t

/-- A writer and the path of the node it is applied to. -/
structure Rewriting where
  path : List Nat
  writer : Writer

namespace Tree

/-- The tree after a rewriting; a path that leads nowhere changes nothing. -/
def rewrite (t : Statement) (w : Rewriting) : Statement :=
  ((t.updateAt? (fun u => (w.writer.write u, ())) w.path).map (·.1)).getD t

def rewriteAll (t : Statement) (ws : List Rewriting) : Statement := ws.foldl rewrite t

theorem skeleton_write (w : Writer) {c : Category} (t : Tree c) :
    (w.write t).skeleton = t.skeleton := by
  cases w with
  | resolver table r => exact Resolver.skeleton_resolve table r t
  | folder changed => exact t.skeleton_foldConstants changed
  | setter slot index e =>
    rw [Writer.write]
    split
    · next h => exact skeleton_replace h
    · rfl
  | binder entry =>
    rw [Writer.write]
    split
    · next h => exact skeleton_bind? h
    · rfl

theorem skeleton_rewrite (t : Statement) (w : Rewriting) : (t.rewrite w).skeleton = t.skeleton := by
  unfold rewrite
  cases h : t.updateAt? (fun u => (w.writer.write u, ())) w.path with
  | none => rfl
  | some result => exact skeleton_updateAt? (fun u => skeleton_write w.writer u) h

theorem skeleton_rewriteAll (t : Statement) (ws : List Rewriting) :
    (t.rewriteAll ws).skeleton = t.skeleton := by
  induction ws generalizing t with
  | nil => rfl
  | cons w ws ih => exact (ih (t.rewrite w)).trans (t.skeleton_rewrite w)

end Tree

theorem Assignment.length_targets (a : Assignment) : a.targets.length = a.values.length := by
  rw [targets, values, List.length_map, List.length_map]

/-- Every assignment is made of its sides. -/
theorem Assignment.ofSides_targets_values (a : Assignment) :
    ofSides a.loc a.targets a.values = .ok a := by
  have hzip : a.targets.zip a.values = a.pairs := by simp [targets, values, List.zip_map']
  rw [ofSides, if_pos a.length_targets, hzip]

theorem Resolver.result_ne_slotOutOfRange (table : ScopeTable) (r : Resolver) {c : Category}
    (t : Tree c) (i length line : Nat) :
    (resolve table r t).2.1 ≠ .error (.slotOutOfRange i length line) := by
  rw [result_resolve]
  split <;> simp

/-- Whatever rewritings come to a tree, and to whichever of its nodes, the skeleton stays: at
every path there is a node with the same heading as before or none as before, and every
statement counts as before. The sides of an assignment are still such as one is made of, so
no setter refuses a visitor, and what it leaves is what the pass makes of the tree: the folder
comes to its end, and what ends the visit of a resolver is never a slot out of range. -/
theorem rewriting_keeps_skeleton (t : Statement) (ws : List Rewriting) :
    (t.rewriteAll ws).skeleton = t.skeleton ∧
    (∀ path, ((t.rewriteAll ws).at? path).map Tree.heading = (t.at? path).map Tree.heading) ∧
    (∀ tally, (t.rewriteAll ws).tally tally = t.tally tally) ∧
    (∀ path a, (t.rewriteAll ws).at? path = some (.assign a) →
      a.targets.length = a.values.length ∧
      Assignment.ofSides a.loc a.targets a.values = .ok a) ∧
    (∀ (σ : Type) (v : Visitor σ) (x : σ), ((t.rewriteAll ws).visitInPlace v x).progress =
      (t.rewriteAll ws).traverse v.pass (x, none)) ∧
    (∀ changed, (t.rewriteAll ws).visitInPlace .folder changed =
      (((t.rewriteAll ws).foldConstants changed).1, .ok (),
        ((t.rewriteAll ws).foldConstants changed).2)) ∧
    ∀ (table : ScopeTable) (r : Resolver),
      (t.rewriteAll ws).visitInPlace (Resolver.visitor table) r =
        r.resolve table (t.rewriteAll ws) ∧
      ∀ i length line, ((t.rewriteAll ws).visitInPlace (Resolver.visitor table) r).2.1 ≠
        .error (.slotOutOfRange i length line) := by
  have hskeleton := t.skeleton_rewriteAll ws
  refine ⟨hskeleton, Tree.heading_at?_of_skeleton hskeleton, ?_, ?_, ?_, ?_, ?_⟩
  · intro tally
    rw [← Tree.tally_skeleton, hskeleton, Tree.tally_skeleton]
  · intro path a _
    exact ⟨a.length_targets, a.ofSides_targets_values⟩
  · intro σ v x
    exact (Tree.traverse_going v _ x).symm
  · intro changed
    exact Tree.visitInPlace_folder _ changed
  · intro table r
    rw [← Resolver.resolve_eq_visitInPlace]
    exact ⟨rfl, Resolver.result_ne_slotOutOfRange table r _⟩

/-- A loop of one branch, which exchanges two names. -/
def exchangeLoop : Statement :=
  .doLoop ⟨1, 1⟩ (.branches [
    .branch ⟨1, 4⟩ (.binary ⟨1, 6⟩ .less (.const ⟨1, 4⟩ 1) (.const ⟨1, 8⟩ 2))
      (.assign ⟨⟨1, 15⟩, [(.identifier ⟨1, 15⟩ "x", .identifier ⟨1, 23⟩ "y"),
        (.identifier ⟨1, 18⟩ "y", .identifier ⟨1, 26⟩ "x")]⟩) true])

/-- The whole is folded, a value of the assignment is set, then a target that it does not have,
the branch is resolved where nothing is declared, and an entry is set where there is no call. -/
def exchangeRewritings : List Rewriting :=
  [⟨[], .folder 0⟩, ⟨[0, 0], .setter .value (some 1) (.const ⟨2, 1⟩ 7)⟩,
    ⟨[0, 0], .setter .target (some 2) (.const ⟨2, 1⟩ 7)⟩, ⟨[0], .resolver .empty {}⟩,
    ⟨[0, 0], .binder ⟨4⟩⟩]

def exchangeRewritten : Assignment :=
  ⟨⟨1, 15⟩, [(.error ⟨1, 15⟩, .error ⟨1, 23⟩), (.error ⟨1, 18⟩, .const ⟨2, 1⟩ 7)]⟩

def exchangeLoopRewritten : Statement :=
  .doLoop ⟨1, 1⟩ (.branches [
    .branch ⟨1, 4⟩ (.const ⟨1, 6⟩ 1) (.assign exchangeRewritten) true])

theorem headings_of_exchangeLoop :
    exchangeLoop.rewriteAll exchangeRewritings = exchangeLoopRewritten ∧
    exchangeLoopRewritten.skeleton = exchangeLoop.skeleton ∧
    (exchangeLoopRewritten.at? [0, 0]).map Tree.heading =
      some ⟨.assignment, ⟨1, 15⟩, 0, .sides 2 2⟩ ∧
    exchangeLoopRewritten.tally {} = exchangeLoop.tally {} ∧
    Assignment.ofSides ⟨1, 15⟩ [.error ⟨1, 15⟩, .error ⟨1, 18⟩]
      [.error ⟨1, 23⟩, .const ⟨2, 1⟩ 7] = .ok exchangeRewritten := by
  have run : exchangeLoop.rewriteAll exchangeRewritings = exchangeLoopRewritten := by rfl
  obtain ⟨hskeleton, hheading, htally, hassign, -⟩ :=
    rewriting_keeps_skeleton exchangeLoop exchangeRewritings
  rw [run] at hskeleton hheading htally hassign
  obtain ⟨-, hsides⟩ := hassign [0, 0] exchangeRewritten rfl
  exact ⟨run, hskeleton, (hheading [0, 0]).trans rfl, htally {}, hsides⟩

end PlZero
