import PlZero.Proofs.Resolver.Specification
import PlZero.Proofs.Tree.Path

/-! Calls bind lexically. In a program that agrees with its table, the blocks around a call
have scopes that are nested as the blocks are; so the nearest declaration in the table is
that of the innermost block around the call that declares the name. -/

namespace PlZero

namespace Tree

/-- The procedures that a block declares. -/
def localProcedures : Block → List Declaration
  | block _ _ ps _ => ps.declarations

/-- The entry of the declaration is that of its name, in the scope `s`, with the scope of its
block for the locals. -/
def Declaration.Fits (table : ScopeTable) (d : Declaration) (s : ScopeId) : Prop :=
  ∃ entry, table.procedure d.entry = .ok entry ∧ entry.name = d.name ∧
    entry.definingScope = s ∧ entry.localScope = d.body.scope

/-- The tree agrees with the table, given the scope of the block around it: declarations
have their entries, and the scope of a block that is a statement is opened inside the scope
around it. -/
def Fits (table : ScopeTable) : {c : Category} → Tree c → ScopeId → Prop
  | _, ofBlock b, s => table.parent b.scope = .ok (some s) ∧ b.Fits table s
  | _, block _ scope ps body, _ => ps.Fits table scope ∧ body.Fits table scope
  | _, procedure loc name entry body rest, s =>
    Declaration.Fits table ⟨loc, name, entry, body⟩ s ∧ body.Fits table s ∧ rest.Fits table s
  | _, list _ ss, s => ss.Fits table s
  | _, conditional _ _ yes no, s => yes.Fits table s ∧ no.Fits table s
  | _, whileLoop _ _ body, s => body.Fits table s
  | _, doLoop _ bs, s => bs.Fits table s
  | _, ofBranch b, s => b.Fits table s
  | _, cons x rest, s => x.Fits table s ∧ rest.Fits table s
  | _, branch _ _ body _, s => body.Fits table s
  | _, orBranch b rest, s => b.Fits table s ∧ rest.Fits table s
  | _, error _, _ | _, skip _, _ | _, assign _, _ | _, read _ _, _ | _, write _ _, _
  | _, call _ _ _, _ | _, nil, _ | _, noProcedures, _ | _, noBranches, _ => True

section Fits

variable {table : ScopeTable} {s : ScopeId}

theorem fits_declarations {c : Category} {t : Tree c} (hc : c = .procedures)
    (h : t.Fits table s) : ∀ d ∈ t.declarations, d.Fits table s := by
  induction t with
  | noProcedures => exact fun d hd => absurd hd List.not_mem_nil
  | procedure loc name entry body rest _ ih =>
    rw [declarations, List.forall_mem_cons]
    exact ⟨h.1, ih rfl h.2.2⟩
  | _ => exact Category.noConfusion hc

theorem Fits.localProcedures {b : Block} (h : b.Fits table s) :
    ∀ d ∈ b.localProcedures, d.Fits table b.scope := by
  cases b with
  | block loc scope ps body => exact fits_declarations rfl h.1

/-- The scope of a procedure's block is inside the scope that declares it. -/
theorem Declaration.Fits.parent {d : Declaration} (hwf : table.WellFormed)
    (h : d.Fits table s) : table.parent d.body.scope = .ok (some s) := by
  obtain ⟨entry, hentry, -, rfl, hlocal⟩ := h
  rw [← hlocal]
  exact (hwf.entries d.entry entry hentry).parent

theorem Declaration.Fits.declared {d : Declaration} (hwf : table.WellFormed)
    (h : d.Fits table s) :
    ∃ line level, table.declared? s d.name = some ⟨.procedure d.entry, line, level⟩ := by
  obtain ⟨entry, hentry, hname, rfl, -⟩ := h
  obtain ⟨level, hdeclared⟩ := (hwf.entries d.entry entry hentry).declared
  exact ⟨entry.line, level, hname ▸ hdeclared⟩

theorem Fits.parts (hwf : table.WellFormed) {c : Category} {t : Tree c} (hc : c.isNode = false)
    (h : t.Fits table s) : ∀ x ∈ t.parts, x.Fits table s := by
  induction t with
  | nil | noBranches | noProcedures => exact fun x hx => absurd hx List.not_mem_nil
  | cons x rest _ ih =>
    rw [Tree.parts, List.forall_mem_cons]
    exact ⟨h.1, ih rfl h.2⟩
  | orBranch b rest _ ih =>
    rw [Tree.parts, List.forall_mem_cons]
    exact ⟨h.1, ih rfl h.2⟩
  | procedure loc name entry body rest _ ih =>
    rw [Tree.parts, List.forall_mem_cons]
    exact ⟨⟨h.1.parent hwf, h.2.1⟩, ih rfl h.2.2⟩
  | _ => exact Bool.noConfusion hc

theorem Fits.child_of_block (hwf : table.WellFormed) {b : Block} (h : b.Fits table s) :
    ∀ x ∈ (ofBlock b).children, x.Fits table b.scope := by
  cases b with
  | block loc scope ps body =>
    rw [children_block, List.forall_mem_append, List.forall_mem_singleton]
    exact ⟨h.1.parts hwf rfl, h.2⟩

theorem Fits.child (hwf : table.WellFormed) {t : Statement} (h : t.Fits table s) :
    ∀ x ∈ t.children, x.Fits table (t.inside s) := by
  cases t with
  | error | skip | assign | read | write | call => exact fun x hx => absurd hx List.not_mem_nil
  | list loc ss =>
    rw [children_list]
    exact Fits.parts hwf rfl h
  | conditional loc e yes no =>
    rw [children, List.forall_mem_cons, List.forall_mem_singleton]
    exact h
  | whileLoop loc e body =>
    rw [children, List.forall_mem_singleton]
    exact h
  | doLoop loc bs =>
    rw [children_doLoop]
    exact Fits.parts hwf rfl h
  | ofBlock b => exact h.2.child_of_block hwf
  | ofBranch b =>
    cases b with
    | branch loc e body exit =>
      rw [children, List.forall_mem_singleton]
      exact h

end Fits

/-! ### Blocks around a node -/

/-- The blocks around the children of a statement, innermost first, given those around it. -/
def enter : Statement → List Block → List Block
  | ofBlock b, outer => b :: outer
  | _, outer => outer

/-- The blocks around the node at a path, innermost first. -/
def blocksAround (t : Statement) : List Nat → List Block → List Block
  | [], outer => outer
  | i :: path, outer => t.children[i]?.elim [] (·.blocksAround path (t.enter outer))

/-- The scope of the innermost block, and outside all blocks the root. -/
def innermost (blocks : List Block) : ScopeId := (blocks.head?.map scope).getD .root

theorem innermost_enter (t : Statement) (outer : List Block) :
    innermost (t.enter outer) = t.inside (innermost outer) := by
  cases t <;> rfl

theorem scopeAt_innermost {t sub : Statement} {path : List Nat} (h : t.at? path = some sub)
    (outer : List Block) :
    t.scopeAt path (innermost outer) = innermost (t.blocksAround path outer) := by
  induction path generalizing t outer with
  | nil => rfl
  | cons i path ih =>
    obtain ⟨child, hchild, h⟩ := Option.bind_eq_some_iff.1 h
    rw [scopeAt, blocksAround, hchild, Option.elim_some, Option.elim_some, ← innermost_enter, ih h]

/-- Blocks from an inner one outward, as the table has them: each declares its procedures in
its own scope, and that scope is opened inside the scope of the next block. -/
inductive Nested (table : ScopeTable) : List Block → Prop where
  | outermost {b : Block} (procedures : ∀ d ∈ b.localProcedures, d.Fits table b.scope) :
      Nested table [b]
  | inside {b : Block} {outer : List Block}
      (procedures : ∀ d ∈ b.localProcedures, d.Fits table b.scope)
      (parent : table.parent b.scope = .ok (some (innermost outer)))
      (rest : Nested table outer) : Nested table (b :: outer)

section Nested

variable {table : ScopeTable} {outer : List Block}

theorem Nested.enter (h : Nested table outer) {t : Statement}
    (ht : t.Fits table (innermost outer)) : Nested table (t.enter outer) := by
  cases t with
  | ofBlock b => exact .inside ht.2.localProcedures ht.1 h
  | _ => exact h

theorem Nested.blocksAround (hwf : table.WellFormed) (h : Nested table outer)
    {t sub : Statement} (ht : t.Fits table (innermost outer)) {path : List Nat}
    (hat : t.at? path = some sub) : Nested table (t.blocksAround path outer) := by
  induction path generalizing t outer with
  | nil => exact h
  | cons i path ih =>
    obtain ⟨child, hchild, hat⟩ := Option.bind_eq_some_iff.1 hat
    have hfits : child.Fits table (innermost (t.enter outer)) := by
      rw [innermost_enter]
      exact ht.child hwf child (List.mem_of_getElem? hchild)
    rw [Tree.blocksAround, hchild]
    exact ih (h.enter ht) hfits hat

/-- The blocks around a node of a program are nested in the table, unless the node is the
program itself. -/
theorem nested_of_program (hwf : table.WellFormed) {program : Block}
    (fits : program.Fits table program.scope) {i : Nat} {path : List Nat} {sub : Statement}
    (hat : (ofBlock program).at? (i :: path) = some sub) :
    Nested table ((ofBlock program).blocksAround (i :: path) []) := by
  obtain ⟨child, hchild, hat⟩ := Option.bind_eq_some_iff.1 hat
  have hfits := fits.child_of_block hwf child (List.mem_of_getElem? hchild)
  rw [Tree.blocksAround, hchild]
  exact Nested.blocksAround hwf (.outermost fits.localProcedures) hfits hat

theorem Nested.of_cons {b : Block} (h : Nested table (b :: outer)) (hne : outer ≠ []) :
    table.parent b.scope = .ok (some (innermost outer)) ∧ Nested table outer := by
  cases h with
  | outermost _ => exact absurd rfl hne
  | inside _ parent rest => exact ⟨parent, rest⟩

theorem Nested.procedures {b : Block} (h : Nested table (b :: outer)) :
    ∀ d ∈ b.localProcedures, d.Fits table b.scope := by
  cases h with
  | outermost procedures => exact procedures
  | inside procedures _ _ => exact procedures

/-- If no block further in declares the name, its nearest declaration is the one that the
block `b` makes by a procedure. -/
theorem Nested.nearest (hwf : table.WellFormed) {inner : List Block} {b : Block} {name : String}
    (h : Nested table (inner ++ b :: outer))
    (hinner : ∀ x ∈ inner, table.declared? x.scope name = none) {d : Declaration}
    (hd : d ∈ b.localProcedures) (hname : d.name = name) :
    ∃ line level, table.Nearest (innermost (inner ++ b :: outer)) name b.scope
      ⟨.procedure d.entry, line, level⟩ := by
  induction inner with
  | nil =>
    obtain ⟨line, level, hdeclared⟩ := (h.procedures d hd).declared hwf
    exact ⟨line, level, ScopeTable.nearest_here (hname ▸ hdeclared)⟩
  | cons x inner ih =>
    rw [List.forall_mem_cons] at hinner
    obtain ⟨hparent, hrest⟩ := h.of_cons (by simp)
    obtain ⟨line, level, hnearest⟩ := ih hrest hinner.2
    exact ⟨line, level, hnearest.outward hinner.1 hparent⟩

end Nested

end Tree

theorem ScopeTable.callee?_of_nearest {table : ScopeTable} (hwf : table.WellFormed) {s d : ScopeId}
    (hs : s.index < table.scopeCount) {name : String} {id : ProcedureId} {line level : Nat}
    (h : table.Nearest s name d ⟨.procedure id, line, level⟩) : table.callee? s name = some id := by
  rw [callee?, (hwf.found?_eq_some_iff hs).2 h]

namespace Resolver

open PlZero.Tree

theorem resolve_ofBlock (table : ScopeTable) (r : Resolver) (b : Block) :
    resolve table r (ofBlock b) = (ofBlock (resolve table r b).1, (resolve table r b).2) := rfl

/-- What becomes of a single call when nothing stops the resolution of the whole. -/
theorem call_at?_resolve {table : ScopeTable} {t : Statement} {path : List Nat} {loc : Location}
    {name : String} {old : Option ProcedureId} (hok : (resolve table {} t).2.1 = .ok ())
    (h : t.at? path = some (call loc name old)) :
    (t.scopeAt path .root).index < table.scopeCount ∧
    (resolve table {} t).1.at? path =
      some (call loc name ((table.callee? (t.scopeAt path .root) name).or old)) := by
  obtain ⟨rest, hrest⟩ := sites_of_at? h .root
  constructor
  · have hgoing := (result_eq_ok_iff table {} t).1 hok (.call (t.scopeAt path .root) loc name old)
    refine Site.known_of_hasName (hgoing ?_) rfl
    rw [current_fresh, hrest]
    simp [sites]
  · have hsites := sites_resolve_of_ok table hok
    rw [current_fresh, hrest, List.map_append, List.map_append] at hsites
    exact at?_of_sites h (skeleton_resolve table {} t) rfl (List.length_map _) hsites

/-- In a program that agrees with its table, a call of a name is bound to the procedure that
the innermost block around the call declares by that name, wherever the call stands. -/
theorem calls_bind_lexically {table : ScopeTable} (reachable : table.Reachable)
    {program program' : Block} {r' : Resolver} (fits : program.Fits table program.scope)
    (h : resolve table {} program = (program', .ok (), r')) {path : List Nat} {loc : Location}
    {name : String} {old : Option ProcedureId}
    (hcall : (ofBlock program).at? path = some (call loc name old))
    {inner outer : List Block} {b : Block}
    (hblocks : (ofBlock program).blocksAround path [] = inner ++ b :: outer)
    (hinner : ∀ x ∈ inner, table.declared? x.scope name = none) {d : Declaration}
    (hd : d ∈ b.localProcedures) (hname : d.name = name) :
    (ofBlock program').at? path = some (call loc name (some d.entry)) := by
  have hwf := reachable.wellFormed
  have hwhole : resolve table {} (ofBlock program) = (ofBlock program', .ok (), r') := by
    rw [resolve_ofBlock, h]
  have hok : (resolve table {} (ofBlock program)).2.1 = .ok () := by rw [hwhole]
  obtain ⟨hknown, hat⟩ := call_at?_resolve hok hcall
  have hscope : (ofBlock program).scopeAt path .root = innermost (inner ++ b :: outer) := by
    rw [← hblocks]
    exact scopeAt_innermost hcall []
  have hnested : Nested table (inner ++ b :: outer) := by
    rw [← hblocks]
    cases path with
    | nil => exact nomatch hcall
    | cons i path => exact nested_of_program hwf fits hcall
  obtain ⟨line, level, hnearest⟩ := hnested.nearest hwf hinner hd hname
  rw [← hscope] at hnearest
  rw [hwhole, ScopeTable.callee?_of_nearest hwf hknown hnearest] at hat
  exact hat

/-- Two procedures, of which the first has a procedure of its own with the name of the
second. -/
def siblingTable : ScopeTable :=
  ScopeTable.empty.after [.defineProcedure .root "p" 1, .defineProcedure .root "q" 6,
    .defineProcedure ⟨1⟩ "q" 2, .openScope ⟨3⟩]

/-- Calls the procedure around it and that one's owner, from a block of its own. -/
def innerBlock : Block :=
  .block ⟨3, 5⟩ ⟨4⟩ .noProcedures
    (.list ⟨3, 7⟩ (.sequence [.call ⟨3, 7⟩ "p" none, .call ⟨4, 7⟩ "q" none]))

def innerProcedure : Block := .block ⟨2, 5⟩ ⟨3⟩ .noProcedures (.ofBlock innerBlock)

def firstProcedure : Block :=
  .block ⟨1, 3⟩ ⟨1⟩ (.procedures [⟨⟨2, 3⟩, "q", ⟨2⟩, innerProcedure⟩]) (.call ⟨5, 3⟩ "q" none)

def secondProcedure : Block := .block ⟨6, 3⟩ ⟨2⟩ .noProcedures (.call ⟨6, 5⟩ "p" none)

def siblingProgram : Block :=
  .block ⟨1, 1⟩ .root
    (.procedures [⟨⟨1, 1⟩, "p", ⟨0⟩, firstProcedure⟩, ⟨⟨6, 1⟩, "q", ⟨1⟩, secondProcedure⟩])
    (.call ⟨7, 1⟩ "q" none)

theorem calls_of_siblingProgram : ∃ program' r',
    resolve siblingTable {} siblingProgram = (program', .ok (), r') ∧
    (ofBlock program').at? [0, 0, 0, 0, 0] = some (.call ⟨3, 7⟩ "p" (some ⟨0⟩)) ∧
    (ofBlock program').at? [0, 0, 0, 0, 1] = some (.call ⟨4, 7⟩ "q" (some ⟨2⟩)) ∧
    (ofBlock program').at? [1, 0] = some (.call ⟨6, 5⟩ "p" (some ⟨0⟩)) ∧
    (ofBlock program').at? [2] = some (.call ⟨7, 1⟩ "q" (some ⟨1⟩)) := by
  have hfirst : firstProcedure.Fits siblingTable .root :=
    ⟨⟨⟨_, rfl, rfl, rfl, rfl⟩, ⟨trivial, rfl, trivial, trivial, trivial, trivial⟩, trivial⟩,
      trivial⟩
  have fits : siblingProgram.Fits siblingTable siblingProgram.scope :=
    ⟨⟨⟨_, rfl, rfl, rfl, rfl⟩, hfirst, ⟨_, rfl, rfl, rfl, rfl⟩, ⟨trivial, trivial⟩, trivial⟩,
      trivial⟩
  have run : resolve siblingTable {} siblingProgram = ((resolve siblingTable {} siblingProgram).1,
      .ok (), (resolve siblingTable {} siblingProgram).2.2) := rfl
  -- what the program and its first procedure declare
  have hp : ⟨⟨1, 1⟩, "p", ⟨0⟩, firstProcedure⟩ ∈ siblingProgram.localProcedures :=
    List.mem_cons_self
  have hq : ⟨⟨6, 1⟩, "q", ⟨1⟩, secondProcedure⟩ ∈ siblingProgram.localProcedures :=
    List.mem_cons_of_mem _ List.mem_cons_self
  have hinner : ⟨⟨2, 3⟩, "q", ⟨2⟩, innerProcedure⟩ ∈ firstProcedure.localProcedures :=
    List.mem_cons_self
  -- the blocks around each call, up to the one that declares the name
  have around₁ : (ofBlock siblingProgram).blocksAround [0, 0, 0, 0, 0] [] =
      [innerBlock, innerProcedure, firstProcedure] ++ siblingProgram :: [] := rfl
  have around₂ : (ofBlock siblingProgram).blocksAround [0, 0, 0, 0, 1] [] =
      [innerBlock, innerProcedure] ++ firstProcedure :: [siblingProgram] := rfl
  have around₃ : (ofBlock siblingProgram).blocksAround [1, 0] [] =
      [secondProcedure] ++ siblingProgram :: [] := rfl
  have around₄ : (ofBlock siblingProgram).blocksAround [2] [] = [] ++ siblingProgram :: [] := rfl
  refine ⟨_, _, run, ?_, ?_, ?_, ?_⟩
  · exact calls_bind_lexically ⟨_, rfl⟩ fits run rfl around₁ (by decide) hp rfl
  · exact calls_bind_lexically ⟨_, rfl⟩ fits run rfl around₂ (by decide) hinner rfl
  · exact calls_bind_lexically ⟨_, rfl⟩ fits run rfl around₃ (by decide) hp rfl
  · exact calls_bind_lexically ⟨_, rfl⟩ fits run rfl around₄ (by decide) hq rfl

end Resolver

end PlZero
