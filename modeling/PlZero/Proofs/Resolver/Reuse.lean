import PlZero.Proofs.Resolver.Failure
import PlZero.Proofs.Tree.Path
import PlZero.Proofs.Tree.Visit

/-! A resolver that is used again. What it does to a tree depends on the scope it starts from
and on nothing that it recorded before; it comes back to that scope also when it is stopped
in the midst of blocks, since it leaves each of them on its way back. A block brings its own
scope, so it is resolved in the same way wherever it stands. -/

namespace PlZero.Resolver

variable (table : ScopeTable)

/-! ### As a visitor -/

/-- The resolver as a visitor that goes back as soon as a scope is unknown. -/
def visitor : Visitor Resolver where
  expr := bindExpr table
  entry := bindCall table
  enter scope r := { r with enclosing := scope :: r.enclosing }
  leave r := { r with enclosing := r.enclosing.tail }
  leave_enter _ _ := rfl

theorem attempt_eq {α : Type} (step : Step (Option α)) (old : α) (r : Resolver)
    (fault : Option Fault) : attempt step old { resolver := r, fault } =
      ((Visitor.attempt step old (r, fault)).1,
        { resolver := (Visitor.attempt step old (r, fault)).2.1
          fault := (Visitor.attempt step old (r, fault)).2.2 }) := by
  cases fault with
  | some fault => rfl
  | none =>
    cases h : step r <;> simp [attempt, Visitor.attempt, Visitor.take, Visited.progress, h]

theorem pass_embeds :
    (visitor table).pass.Embeds (pass table) fun (r, fault) => { resolver := r, fault } where
  expr role e x := attempt_eq (bindExpr table role e) e x.1 x.2
  entry loc name old x := attempt_eq (do return (← bindCall table loc name).map some) old x.1 x.2
  enter _ _ := rfl
  leave _ := rfl

/-- A resolver that takes no step after a fault does what one does that goes back at once. -/
theorem resolve_eq_visitInPlace {c : Category} (r : Resolver) (t : Tree c) :
    resolve table r t = t.visitInPlace (visitor table) r := by
  have h := t.traverse_of_embeds (pass_embeds table) (r, none)
  rw [Tree.visitInPlace_eq, resolve, StateT.run]
  rw [h]

/-! ### The same as a fresh one -/

/-- The resolver with what another one has recorded added to it. -/
def adding (r more : Resolver) : Resolver :=
  (r.report more.diagnostics).countCalls more.resolvedCalls

theorem through_eq_adding (r : Resolver) (sites : List Site) :
    r.through table sites = r.adding (through table sites {}) := by
  simp [through, adding, report, countCalls]

theorem resolve_eq_fresh {c : Category} {r : Resolver}
    (h : ∀ u : Tree c, u.sites r.current = u.sites .root) (t : Tree c) :
    resolve table r t =
      ((resolve table {} t).1, (resolve table {} t).2.1, r.adding (resolve table {} t).2.2) := by
  refine Prod.ext ?_ (Prod.ext ?_ ?_)
  · refine Tree.eq_of_sites_eq (s := .root) ?_ ?_
    · rw [skeleton_resolve, skeleton_resolve]
    · rw [← h, sites_resolve, h, ← current_fresh, ← sites_resolve]
  · rw [result_resolve, result_resolve, h, current_fresh]
  · rw [resolver_resolve, resolver_resolve, h, current_fresh, through_eq_adding]

theorem sites_block (b : Block) (s s' : ScopeId) : b.sites s = b.sites s' := by
  cases b with
  | block => rfl

theorem enclosing_resolve {c : Category} (r : Resolver) (t : Tree c) :
    (resolve table r t).2.2.enclosing = r.enclosing := by
  rw [resolver_resolve]
  rfl

/-- The resolver after visits of some trees, whether they fail or not. -/
def afterVisits (r : Resolver) (trees : List Statement) : Resolver :=
  trees.foldl (fun r t => (resolve table r t).2.2) r

theorem enclosing_afterVisits (r : Resolver) (trees : List Statement) :
    (afterVisits table r trees).enclosing = r.enclosing := by
  induction trees generalizing r with
  | nil => rfl
  | cons t trees ih =>
    have hcons : afterVisits table r (t :: trees) =
        afterVisits table (resolve table r t).2.2 trees := rfl
    rw [hcons, ih, enclosing_resolve]

/-! ### A block inside a tree -/

variable {table} {before rest : List Site}

theorem unreached_append_of_stopped (h : unreached table before ≠ []) (rest : List Site) :
    unreached table (before ++ rest) = unreached table before ++ rest := by
  rw [unreached, List.dropWhile_append, if_neg]
  · rfl
  · rwa [List.isEmpty_iff]

theorem reached_append_of_stopped (h : unreached table before ≠ []) (rest : List Site) :
    reached table (before ++ rest) = reached table before := by
  have hwhole := reached_append_unreached table (before ++ rest)
  rw [unreached_append_of_stopped h, ← List.append_assoc] at hwhole
  have hcut := List.append_cancel_right hwhole
  exact List.append_cancel_right (hcut.trans (reached_append_unreached table before).symm)

variable (table) in
/-- What resolution makes of sites in their order. -/
def settle (sites : List Site) : List Site :=
  (reached table sites).map (Site.resolved table) ++ unreached table sites

theorem settle_append_of_clear (h : unreached table before = []) (rest : List Site) :
    settle table (before ++ rest) = before.map (Site.resolved table) ++ settle table rest := by
  have hclear := (unreached_eq_nil_iff table before).1 h
  rw [settle, reached_append_of_clear hclear, unreached_append_of_clear hclear, List.map_append,
    List.append_assoc, settle]

theorem settle_of_clear (h : unreached table before = []) :
    settle table before = before.map (Site.resolved table) := by
  have hnil := settle_append_of_clear h []
  rwa [List.append_nil, show settle table [] = [] from rfl, List.append_nil] at hnil

theorem settle_append_of_stopped (h : unreached table before ≠ []) (rest : List Site) :
    settle table (before ++ rest) = settle table before ++ rest := by
  rw [settle, reached_append_of_stopped h, unreached_append_of_stopped h, ← List.append_assoc,
    settle]

theorem length_settle (sites : List Site) : (settle table sites).length = sites.length := by
  rw [settle, List.length_append, List.length_map, ← List.length_append,
    reached_append_unreached]

variable (table) in
/-- What comes after some sites has no bearing on what is made of them. -/
theorem exists_settle_append (first rest : List Site) :
    ∃ more, settle table (first ++ rest) = settle table first ++ more := by
  by_cases h : unreached table first = []
  · exact ⟨settle table rest, by rw [settle_append_of_clear h, settle_of_clear h]⟩
  · exact ⟨rest, settle_append_of_stopped h rest⟩

variable (table) in
theorem exists_reached_append (first rest : List Site) :
    ∃ more, reached table (first ++ rest) = reached table first ++ more := by
  by_cases h : unreached table first = []
  · have hclear := (unreached_eq_nil_iff table first).1 h
    have hall : reached table first = first := by
      simpa [reached] using hclear
    exact ⟨reached table rest, by rw [reached_append_of_clear hclear, hall]⟩
  · exact ⟨[], by rw [reached_append_of_stopped h, List.append_nil]⟩

/-- Resolution of the tree comes to the node at the path: nothing before it stops it. -/
def Reaches (table : ScopeTable) (program : Statement) (path : List Nat) : Prop :=
  ∀ site ∈ program.sitesBefore path .root, ¬ site.Dangling table

instance (program : Statement) (path : List Nat) : Decidable (Reaches table program path) :=
  inferInstanceAs (Decidable (∀ site ∈ _, ¬ _))

theorem reaches_iff {program : Statement} {path : List Nat} : Reaches table program path ↔
    unreached table (program.sitesBefore path .root) = [] := by
  rw [unreached_eq_nil_iff, Reaches]
  simp only [Site.not_dangling_iff]

variable (table) in
/-- What a fresh resolver has recorded when it comes to the node at the path. -/
def recordedBefore (program : Statement) (path : List Nat) : Resolver :=
  through table (program.sitesBefore path .root) {}

/-- The block at the path is resolved as part of the tree as it is on its own: it comes out
the same, what it records follows what was recorded before it, and if it stops by itself,
then it stops the whole. -/
structure ResolvedInPlace (table : ScopeTable) (program : Statement) (path : List Nat)
    (b : Block) : Prop where
  tree : (resolve table {} program).1.at? path = some (.ofBlock (resolve table {} b).1)
  records : ∃ later : Resolver, (resolve table {} program).2.2 =
    ((recordedBefore table program path).adding (resolve table {} b).2.2).adding later
  fault : ∀ fault, (resolve table {} b).2.1 = .error fault → (resolve table {} program).2 =
    (.error fault, (recordedBefore table program path).adding (resolve table {} b).2.2)

section Nested

variable {program : Statement} {path : List Nat} {b : Block}

theorem sites_of_block_at? (h : program.at? path = some (.ofBlock b)) : ∃ rest,
    program.sites .root = program.sitesBefore path .root ++ (b.sites .root ++ rest) := by
  obtain ⟨rest, hrest⟩ := Tree.sites_of_at? h .root
  exact ⟨rest, by rw [hrest, Tree.sites, sites_block b _ .root]⟩

theorem at?_resolve_of_sites {new : Block} {before rest : List Site}
    (h : program.at? path = some (.ofBlock b)) (hnew : new.skeleton = b.skeleton)
    (hlength : before.length = (program.sitesBefore path .root).length)
    (hsites : settle table (program.sites .root) = before ++ (new.sites .root ++ rest)) :
    (resolve table {} program).1.at? path = some (.ofBlock new) := by
  have hwhole : (resolve table {} program).1.sites .root =
      before ++ ((Tree.ofBlock new).sites (program.scopeAt path .root) ++ rest) := by
    rw [Tree.sites, sites_block new _ .root, ← hsites]
    exact sites_resolve table {} program
  exact Tree.at?_of_sites h (skeleton_resolve table {} program) (congrArg Tree.ofBlock hnew)
    hlength hwhole

theorem resolvedInPlace (h : program.at? path = some (.ofBlock b))
    (hreach : Reaches table program path) : ResolvedInPlace table program path b := by
  have hclear := reaches_iff.1 hreach
  have hgoing := (unreached_eq_nil_iff table _).1 hclear
  obtain ⟨rest, hrest⟩ := sites_of_block_at? h
  refine ⟨?_, ?_, ?_⟩
  · obtain ⟨more, hmore⟩ := exists_settle_append table (b.sites .root) rest
    have hblock : (resolve table {} b).1.sites .root = settle table (b.sites .root) :=
      sites_resolve table {} b
    have hsettled : settle table (program.sites .root) =
        (program.sitesBefore path .root).map (Site.resolved table) ++
          ((resolve table {} b).1.sites .root ++ more) := by
      rw [hrest, settle_append_of_clear hclear, hmore, hblock]
    exact at?_resolve_of_sites h (skeleton_resolve table {} b) (List.length_map _) hsettled
  · obtain ⟨more, hmore⟩ := exists_reached_append table (b.sites .root) rest
    refine ⟨through table more {}, ?_⟩
    rw [resolver_resolve, resolver_resolve, current_fresh, hrest, reached_append_of_clear hgoing,
      hmore, through_append, through_append, ← through_eq_adding, ← through_eq_adding,
      recordedBefore]
  · intro fault hfault
    rw [result_resolve, current_fresh] at hfault
    have hstopped : unreached table (b.sites .root) ≠ [] := by
      intro hnil
      rw [hnil] at hfault
      exact nomatch hfault
    refine Prod.ext ?_ ?_
    · rw [result_resolve, current_fresh, hrest, unreached_append_of_clear hgoing,
        unreached_append_of_stopped hstopped]
      cases hun : unreached table (b.sites .root) with
      | nil => exact absurd hun hstopped
      | cons site _ => rw [hun] at hfault; exact hfault
    · -- nothing after the block is reached
      rw [resolver_resolve, resolver_resolve, current_fresh, hrest,
        reached_append_of_clear hgoing, reached_append_of_stopped hstopped, through_append,
        ← through_eq_adding, recordedBefore]

theorem untouched_of_not_reaches (h : program.at? path = some (.ofBlock b))
    (hreach : ¬ Reaches table program path) :
    (resolve table {} program).1.at? path = some (.ofBlock b) := by
  have hstopped := mt reaches_iff.2 hreach
  obtain ⟨rest, hrest⟩ := sites_of_block_at? h
  have hsettled : settle table (program.sites .root) =
      settle table (program.sitesBefore path .root) ++ (b.sites .root ++ rest) := by
    rw [hrest, settle_append_of_stopped hstopped]
  exact at?_resolve_of_sites h rfl (length_settle _) hsettled

theorem reaches_of_ok (h : program.at? path = some (.ofBlock b))
    (hok : (resolve table {} program).2.1 = .ok ()) : Reaches table program path := by
  intro site hsite
  obtain ⟨rest, hrest⟩ := sites_of_block_at? h
  have hgoing := (result_eq_ok_iff table {} program).1 hok
  rw [current_fresh, hrest] at hgoing
  exact Site.not_dangling_iff.2 (hgoing site (List.mem_append_left _ hsite))

end Nested

/-- Visits by a kept resolver, failed ones among them, leave no trace but what they record:
no scope stays behind, and each visit goes as one by a fresh resolver. A block is resolved in
the same way from whatever scopes, so a block inside a program is resolved as it is on its
own, if the resolution of the program comes to it, and else stays as it was. All this is about
a visitor that goes back at the first fault and leaves the blocks it has entered. -/
theorem kept_resolver_resolves_like_fresh (table : ScopeTable) (history : List Statement) :
    (∀ {c : Category} (r : Resolver) (t : Tree c),
      t.visitInPlace (visitor table) r = resolve table r t) ∧
    (afterVisits table {} history).enclosing = [] ∧
    (∀ {c : Category} (t : Tree c), resolve table (afterVisits table {} history) t =
      ((resolve table {} t).1, (resolve table {} t).2.1,
        (afterVisits table {} history).adding (resolve table {} t).2.2)) ∧
    (∀ (r : Resolver) (b : Block), resolve table r b =
      ((resolve table {} b).1, (resolve table {} b).2.1, r.adding (resolve table {} b).2.2)) ∧
    ∀ (program : Statement) (path : List Nat) (b : Block),
      program.at? path = some (.ofBlock b) →
      ((resolve table {} program).2.1 = .ok () → Reaches table program path) ∧
      (Reaches table program path → ResolvedInPlace table program path b) ∧
      (¬ Reaches table program path →
        (resolve table {} program).1.at? path = some (.ofBlock b)) := by
  have hidle := enclosing_afterVisits table {} history
  refine ⟨?_, hidle, ?_, ?_, ?_⟩
  · intro c r t
    exact (resolve_eq_visitInPlace table r t).symm
  · intro c t
    apply resolve_eq_fresh
    intro u
    rw [current, hidle]
    rfl
  · intro r b
    exact resolve_eq_fresh table (fun u => sites_block u _ _) b
  · intro program path b h
    exact ⟨reaches_of_ok h, resolvedInPlace h, untouched_of_not_reaches h⟩

/-- A visit that was stopped inside a block, a later one by the same resolver, and the block
that stopped the first. -/
theorem visits_after_strayProgram :
    (afterVisits strayTable {} [.ofBlock strayProgram]).enclosing = [] ∧
    resolve strayTable (afterVisits strayTable {} [.ofBlock strayProgram])
        (.write ⟨1, 1⟩ (.identifier ⟨1, 7⟩ "n")) =
      (.write ⟨1, 1⟩ (.var ⟨1, 7⟩ "n" .root), .ok (),
        { diagnostics := [.undefinedSymbol "m" 2] }) ∧
    ResolvedInPlace strayTable (.ofBlock strayProgram) [0, 2] strayBlock := by
  obtain ⟨-, hidle, hvisit, -, hnested⟩ :=
    kept_resolver_resolves_like_fresh strayTable [.ofBlock strayProgram]
  obtain ⟨-, hplace, -⟩ := hnested (.ofBlock strayProgram) [0, 2] strayBlock rfl
  exact ⟨hidle, (hvisit _).trans rfl, hplace (by decide)⟩

end PlZero.Resolver
