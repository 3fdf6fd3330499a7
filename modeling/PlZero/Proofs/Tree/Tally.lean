import Mathlib.Data.Set.Card
import PlZero.Fault
import PlZero.Proofs.Tree.Inventory
import PlZero.Proofs.Tree.Path
import PlZero.Tree.Tally

/-! Every statement is counted once. The statements of a tree are its nodes, and a node is given by
its path; so what a tally gains for a kind is the number of paths that lead to a node of that kind.
The counting of several trees one after another adds up. -/

namespace PlZero

/-! ### Visits that count -/

namespace Tally

/-- A visit by a counter. One that failed would keep what was counted before. -/
abbrev Visit := EStateM Fault Tally Unit

def increment (visits : Vector Nat 12) (i : Fin 12) : Vector Nat 12 :=
  visits.set i (visits[i] + 1)

def record (k : Kind) : Visit :=
  modify fun a => { a with visits := increment a.visits k.index }

/-- For a statement that does something by itself. -/
def recordSimple (k : Kind) : Visit := do
  record k
  modify fun a => { a with executed := a.executed + 1 }

def recordError : Visit := do
  record .error
  modify fun a => { a with errors := a.errors + 1 }

end Tally

open Tally in
/-- A counter goes through a tree, statement by statement. -/
def Tree.visit : {c : Category} → Tree c → Visit
  | _, error _ => recordError
  | _, skip _ => recordSimple .skip
  | _, assign _ => recordSimple .assignment
  | _, read _ _ => recordSimple .read
  | _, write _ _ => recordSimple .write
  | _, call _ _ _ => recordSimple .call
  | _, list _ ss => do record .list; ss.visit
  | _, conditional _ _ yes no => do record .conditional; yes.visit; no.visit
  | _, whileLoop _ _ body => do record .whileLoop; body.visit
  | _, doLoop _ bs => do record .doLoop; bs.visit
  | _, ofBlock b => b.visit
  | _, ofBranch b => b.visit
  | _, cons s rest => do s.visit; rest.visit
  | _, block _ _ ps body => do record .block; ps.visit; body.visit
  | _, procedure _ _ _ body rest => do body.visit; rest.visit
  | _, branch _ _ body _ => do record .doBranch; body.visit
  | _, orBranch b rest => do b.visit; rest.visit
  | _, nil | _, noProcedures | _, noBranches => pure ()

namespace Tally

theorem visit_bind_of_ok {x y : Visit} {a b : Tally} (h : x a = .ok () b) :
    (x >>= fun _ => y) a = y b := by
  simp only [bind, EStateM.bind, h]

end Tally

namespace Tree

variable {c : Category}

/-- No visit fails, and the counter comes out as the tally. -/
theorem visit_eq (t : Tree c) (a : Tally) : t.visit a = .ok () (t.tally a) := by
  induction t generalizing a with
  | error | skip | assign | read | write | call | nil | noProcedures | noBranches => rfl
  | list _ ss ih => exact ih (a.add .list)
  | whileLoop _ _ body ih => exact ih (a.add .whileLoop)
  | doLoop _ bs ih => exact ih (a.add .doLoop)
  | branch _ _ body _ ih => exact ih (a.add .doBranch)
  | ofBlock b ih => exact ih a
  | ofBranch b ih => exact ih a
  | conditional _ _ yes no ihyes ihno =>
    exact (Tally.visit_bind_of_ok (ihyes (a.add .conditional))).trans (ihno _)
  | block _ _ ps body ihps ihbody =>
    exact (Tally.visit_bind_of_ok (ihps (a.add .block))).trans (ihbody _)
  | cons s rest ihs ihrest => exact (Tally.visit_bind_of_ok (ihs a)).trans (ihrest _)
  | procedure _ _ _ body rest ihbody ihrest =>
    exact (Tally.visit_bind_of_ok (ihbody a)).trans (ihrest _)
  | orBranch b rest ihb ihrest => exact (Tally.visit_bind_of_ok (ihb a)).trans (ihrest _)

end Tree

/-! ### What a tally gains -/

namespace Tally

/-- The number starts from zero and goes up by one with each statement of the given kinds. -/
structure Counts (f : Tally → Nat) (p : Kind → Bool) : Prop where
  fresh : f {} = 0
  add : ∀ (a : Tally) (k : Kind), f (a.add k) = f a + if p k then 1 else 0

theorem counts_count (k : Kind) : Counts (·.count k) (· == k) where
  fresh := by cases k <;> rfl
  add a l := by
    by_cases h : l = k
    · subst h
      simp [count, Tally.add]
    · have hindex : l.index ≠ k.index := by
        intro heq
        have hl := l.all_get_index
        rw [heq, k.all_get_index] at hl
        exact h (Option.some.inj hl).symm
      simp [count, Tally.add, h, Fin.val_inj, hindex]

theorem counts_executed : Counts executed Kind.isSimple where
  fresh := rfl
  add a l := by cases h : l.isSimple <;> simp [Tally.add, h]

theorem counts_errors : Counts errors (· == .error) where
  fresh := rfl
  add a l := by by_cases h : l = .error <;> simp [Tally.add, h]

/-- The tally after statements of these kinds. -/
def addAll (a : Tally) (ks : List Kind) : Tally := ks.foldl (fun a k => a.add k) a

theorem Counts.addAll {f : Tally → Nat} {p : Kind → Bool} (h : Counts f p) (a : Tally)
    (ks : List Kind) : f (a.addAll ks) = f a + ks.countP p := by
  induction ks generalizing a with
  | nil => rfl
  | cons k ks ih =>
    have hcons : a.addAll (k :: ks) = (a.add k).addAll ks := rfl
    rw [hcons, ih, h.add, List.countP_cons, Nat.add_assoc, Nat.add_comm (ks.countP p)]

end Tally

namespace Tree

theorem tally_eq_addAll {c : Category} (t : Tree c) (a : Tally) :
    t.tally a = a.addAll t.kinds := by
  induction t generalizing a with
  | _ => simp_all [tally, kinds, Tally.addAll]

end Tree

/-- Of the kinds that do something by themselves there are five. -/
theorem Kind.countP_isSimple (ks : List Kind) : ks.countP isSimple =
    ks.count .assignment + ks.count .read + ks.count .write + ks.count .call + ks.count .skip := by
  induction ks with
  | nil => rfl
  | cons k ks ih =>
    simp only [List.countP_cons, List.count_cons, ih]
    cases k <;> simp [isSimple] <;> omega

/-- Every statement is of one of the twelve kinds. -/
theorem Kind.length_eq_sum_count (ks : List Kind) :
    ks.length = (all.map fun k => ks.count k).sum := by
  induction ks with
  | nil => rfl
  | cons k ks ih =>
    have hone : (all.map fun l => if k == l then 1 else 0).sum = 1 := by cases k <;> rfl
    simp only [List.count_cons]
    rw [List.length_cons, ih, List.sum_map_add, hone]

/-! ### Nodes by their paths -/

namespace Tree

/-- A tree as statements: a node by itself, a list of nodes by its parts. -/
def tops : {c : Category} → Tree c → List Statement
  | .statement, t => [t]
  | .block, b => [ofBlock b]
  | .branch, b => [ofBranch b]
  | .sequence, t | .procedures, t | .branches, t => t.parts

/-- A property that comes up to each statement from its children is one of all statements. -/
theorem induction_on_children {P : Statement → Prop}
    (step : ∀ t : Statement, (∀ u ∈ t.children, P u) → P t) (t : Statement) : P t := by
  have htops : ∀ {c : Category} (t : Tree c), ∀ u ∈ t.tops, P u := by
    intro c t
    induction t with
    | error | skip | assign | read | write | call =>
      exact List.forall_mem_singleton.2 (step _ (List.forall_mem_nil _))
    | nil | noProcedures | noBranches => exact List.forall_mem_nil _
    | list loc ss ih =>
      exact List.forall_mem_singleton.2 (step _ (by rwa [children_list]))
    | doLoop loc bs ih =>
      exact List.forall_mem_singleton.2 (step _ (by rwa [children_doLoop]))
    | conditional loc e yes no ihyes ihno =>
      exact List.forall_mem_singleton.2 (step _ (List.forall_mem_cons.2
        ⟨List.forall_mem_singleton.1 ihyes, ihno⟩))
    | whileLoop loc e body ih => exact List.forall_mem_singleton.2 (step _ ih)
    | ofBlock b ih => exact ih
    | ofBranch b ih => exact ih
    | cons s rest ihs ihrest =>
      exact List.forall_mem_cons.2 ⟨List.forall_mem_singleton.1 ihs, ihrest⟩
    | procedure loc name entry body rest ihbody ihrest =>
      exact List.forall_mem_cons.2 ⟨List.forall_mem_singleton.1 ihbody, ihrest⟩
    | orBranch b rest ihb ihrest =>
      exact List.forall_mem_cons.2 ⟨List.forall_mem_singleton.1 ihb, ihrest⟩
    | block loc scope ps body ihps ihbody =>
      refine List.forall_mem_singleton.2 (step _ ?_)
      rw [children_block]
      exact List.forall_mem_append.2 ⟨ihps, ihbody⟩
    | branch loc e body exit ih => exact List.forall_mem_singleton.2 (step _ ih)
  exact List.forall_mem_singleton.1 (htops t)

theorem kinds_eq_parts {c : Category} (t : Tree c) (hc : c.isNode = false) :
    t.kinds = t.parts.flatMap kinds := by
  induction t with
  | nil | noBranches | noProcedures => rfl
  | cons x rest _ ih => rw [kinds, parts, List.flatMap_cons, ih rfl]
  | orBranch b rest _ ih => rw [kinds, parts, List.flatMap_cons, ih rfl, kinds]
  | procedure loc name entry body rest _ ih => rw [kinds, parts, List.flatMap_cons, ih rfl, kinds]
  | _ => exact Bool.noConfusion hc

theorem kinds_eq_cons (t : Statement) : t.kinds = t.kind :: t.children.flatMap kinds := by
  cases t with
  | error | skip | assign | read | write | call => rfl
  | list loc ss => rw [kinds, children_list, kinds_eq_parts ss rfl, kind]
  | doLoop loc bs => rw [kinds, children_doLoop, kinds_eq_parts bs rfl, kind]
  | conditional | whileLoop => simp [kinds, children, kind]
  | ofBlock b =>
    cases b with
    | block loc scope ps body =>
      rw [kinds, kinds, children_block, List.flatMap_append, List.flatMap_singleton,
        kinds_eq_parts ps rfl, kind]
  | ofBranch b =>
    cases b with
    | branch => simp [kinds, children, kind]

/-- The paths to the nodes of some kinds. -/
def nodes (t : Statement) (p : Kind → Bool) : Set (List Nat) :=
  {path | ∃ u, t.at? path = some u ∧ p u.kind = true}

theorem nil_mem_nodes {t : Statement} {p : Kind → Bool} :
    [] ∈ t.nodes p ↔ p t.kind = true := by
  simp [nodes, at?]

theorem cons_mem_nodes {t : Statement} {p : Kind → Bool} {i : Nat} {path : List Nat} :
    i :: path ∈ t.nodes p ↔ ∃ u, t.children[i]? = some u ∧ path ∈ u.nodes p := by
  constructor
  · rintro ⟨v, hat, hp⟩
    obtain ⟨u, hu, hat⟩ := Option.bind_eq_some_iff.1 hat
    exact ⟨u, hu, v, hat, hp⟩
  · rintro ⟨u, hu, v, hat, hp⟩
    exact ⟨v, Option.bind_eq_some_iff.2 ⟨u, hu, hat⟩, hp⟩

/-- The paths to such nodes from a node that has these children, without the path to itself. -/
def nodesBelow (ts : List Statement) (p : Kind → Bool) : Set (List Nat)
  | [] => False
  | i :: path => ∃ u, ts[i]? = some u ∧ path ∈ u.nodes p

/-- The path when there is one child more before all others. -/
def later : List Nat → List Nat
  | [] => []
  | i :: path => (i + 1) :: path

theorem later_injective : Function.Injective later := by
  intro path path' h
  cases path <;> cases path' <;> simp_all [later]

theorem nodes_eq (t : Statement) (p : Kind → Bool) :
    t.nodes p = (if p t.kind then {[]} else ∅) ∪ nodesBelow t.children p := by
  ext path
  cases path with
  | nil =>
    have hbelow : [] ∉ nodesBelow t.children p := id
    rw [nil_mem_nodes]
    by_cases h : p t.kind <;> simp [h, hbelow]
  | cons i path =>
    have hown : i :: path ∉ (if p t.kind then {[]} else ∅ : Set (List Nat)) := by
      by_cases h : p t.kind <;> simp [h]
    rw [cons_mem_nodes, Set.mem_union, or_iff_right hown]
    rfl

theorem nodesBelow_nil (p : Kind → Bool) : nodesBelow [] p = ∅ := by
  ext path
  cases path with
  | nil => exact Iff.rfl
  | cons i path =>
    refine iff_of_false ?_ (Set.notMem_empty _)
    rintro ⟨u, hu, -⟩
    exact absurd hu (Option.some_ne_none u).symm

theorem nodesBelow_cons (t : Statement) (ts : List Statement) (p : Kind → Bool) :
    nodesBelow (t :: ts) p = (List.cons 0) '' t.nodes p ∪ later '' nodesBelow ts p := by
  ext path
  constructor
  · intro h
    match path, h with
    | 0 :: path, ⟨u, hu, hpath⟩ =>
      obtain rfl := Option.some.inj hu
      exact .inl ⟨path, hpath, rfl⟩
    | (i + 1) :: path, h => exact .inr ⟨i :: path, h, rfl⟩
  · rintro (⟨path, hpath, rfl⟩ | ⟨path, h, rfl⟩)
    · exact ⟨t, rfl, hpath⟩
    · cases path with
      | nil => exact h
      | cons i path => exact h

theorem encard_nodesBelow {ts : List Statement} {p : Kind → Bool}
    (h : ∀ t ∈ ts, (t.nodes p).encard = t.kinds.countP p) :
    (nodesBelow ts p).encard = (ts.flatMap kinds).countP p := by
  induction ts with
  | nil => simp [nodesBelow_nil]
  | cons t ts ih =>
    obtain ⟨ht, hts⟩ := List.forall_mem_cons.1 h
    have hdisjoint : Disjoint ((List.cons 0) '' t.nodes p) (later '' nodesBelow ts p) := by
      rw [Set.disjoint_left]
      rintro _ ⟨path, -, rfl⟩ ⟨path', hbelow, heq⟩
      cases path' with
      | nil => exact hbelow
      | cons i path' => simp [later] at heq
    rw [nodesBelow_cons, Set.encard_union_eq hdisjoint, List.cons_injective.encard_image,
      later_injective.encard_image, ht, ih hts, List.flatMap_cons, List.countP_append, Nat.cast_add]

/-- There are as many paths to nodes of some kinds as the tree has statements of them. -/
theorem encard_nodes (t : Statement) (p : Kind → Bool) :
    (t.nodes p).encard = t.kinds.countP p := by
  induction t using induction_on_children with
  | step t ih =>
    have hdisjoint : Disjoint (if p t.kind then {[]} else ∅ : Set (List Nat))
        (nodesBelow t.children p) := by
      rw [Set.disjoint_left]
      intro path hown hbelow
      split_ifs at hown
      · obtain rfl := Set.mem_singleton_iff.1 hown
        exact hbelow
      · exact hown
    rw [nodes_eq, Set.encard_union_eq hdisjoint, encard_nodesBelow ih, kinds_eq_cons,
      List.countP_cons]
    by_cases h : p t.kind <;> simp [h, add_comm]

theorem ncard_nodes (t : Statement) (p : Kind → Bool) :
    (t.nodes p).Finite ∧ (t.nodes p).ncard = t.kinds.countP p := by
  have h := t.encard_nodes p
  have hfinite : (t.nodes p).Finite := Set.finite_of_encard_eq_coe h
  refine ⟨hfinite, ?_⟩
  rw [← hfinite.cast_ncard_eq] at h
  exact Nat.cast_inj.1 h

end Tree

/-! ### One tree and many -/

/-- The counter has gone on by `n k` statements of each kind `k`. -/
structure Tally.Gains (before after : Tally) (n : Kind → Nat) : Prop where
  visits : ∀ k, after.count k = before.count k + n k
  executed : after.executed =
    before.executed + (n .assignment + n .read + n .write + n .call + n .skip)
  errors : after.errors = before.errors + n .error

theorem Tally.gains_addAll (a : Tally) (ks : List Kind) : a.Gains (a.addAll ks) ks.count where
  visits k := (counts_count k).addAll a ks
  executed := by rw [counts_executed.addAll, Kind.countP_isSimple]
  errors := counts_errors.addAll a ks

namespace Tree

/-- A counter goes through some trees, one after another. -/
def visitAll (ts : List Statement) : Tally.Visit := ts.forM visit

def tallyAll (ts : List Statement) (a : Tally) : Tally := ts.foldl (fun a t => t.tally a) a

theorem visitAll_eq (ts : List Statement) (a : Tally) :
    visitAll ts a = .ok () (tallyAll ts a) := by
  induction ts generalizing a with
  | nil => rfl
  | cons t ts ih => exact (Tally.visit_bind_of_ok (t.visit_eq a)).trans (ih _)

theorem tallyAll_eq_addAll (ts : List Statement) (a : Tally) :
    tallyAll ts a = a.addAll (ts.flatMap kinds) := by
  induction ts generalizing a with
  | nil => rfl
  | cons t ts ih =>
    have hcons : tallyAll (t :: ts) a = tallyAll ts (t.tally a) := rfl
    rw [hcons, ih, tally_eq_addAll, List.flatMap_cons, Tally.addAll, Tally.addAll, Tally.addAll,
      List.foldl_append]

/-- What is counted over some trees is what fresh counters have after each, taken together. -/
theorem tallyAll_of_counts {f : Tally → Nat} {p : Kind → Bool} (h : Tally.Counts f p)
    (ts : List Statement) (a : Tally) :
    f (tallyAll ts a) = f a + (ts.map fun u => f (u.tally {})).sum := by
  have hfresh (u : Statement) : f (u.tally {}) = u.kinds.countP p := by
    rw [tally_eq_addAll, h.addAll, h.fresh, Nat.zero_add]
  rw [tallyAll_eq_addAll, h.addAll, List.countP_flatMap, funext hfresh]
  rfl

/-- From whatever a counter holds, a visit of a tree succeeds and gains for each kind the number
of nodes of that kind, and no node is counted under two kinds or under none. Over some trees a
kept counter gains what fresh counters have after each of them, taken together. -/
theorem every_node_counted_once (t : Statement) (a : Tally) :
    t.visit a = .ok () (t.tally a) ∧
    (t.nodes fun _ => true).Finite ∧
    a.Gains (t.tally a) (fun k => (t.nodes (· == k)).ncard) ∧
    (Kind.all.map fun k => (t.nodes (· == k)).ncard).sum = (t.nodes fun _ => true).ncard ∧
    ∀ ts : List Statement, visitAll ts a = .ok () (tallyAll ts a) ∧
      (∀ k, (tallyAll ts a).count k = a.count k + (ts.map fun u => (u.tally {}).count k).sum) ∧
      (tallyAll ts a).executed = a.executed + (ts.map fun u => (u.tally {}).executed).sum ∧
      (tallyAll ts a).errors = a.errors + (ts.map fun u => (u.tally {}).errors).sum := by
  have hcard (k : Kind) : (t.nodes (· == k)).ncard = t.kinds.count k := (t.ncard_nodes _).2
  obtain ⟨hfinite, hall⟩ := t.ncard_nodes fun _ => true
  refine ⟨t.visit_eq a, hfinite, ?_, ?_, ?_⟩
  · rw [funext hcard, tally_eq_addAll]
    exact a.gains_addAll t.kinds
  · rw [funext hcard, hall, List.countP_true, Kind.length_eq_sum_count]
  · intro ts
    exact ⟨visitAll_eq ts a, fun k => tallyAll_of_counts (Tally.counts_count k) ts a,
      tallyAll_of_counts Tally.counts_executed ts a, tallyAll_of_counts Tally.counts_errors ts a⟩

-- Both sides of a conditional and the block of a procedure are counted.
example : ((ofBlock (block ⟨1, 1⟩ ⟨0⟩
    (procedures [⟨⟨2, 3⟩, "p", ⟨0⟩, block ⟨3, 5⟩ ⟨1⟩ noProcedures (error ⟨4, 7⟩)⟩])
    (ifThen ⟨5, 3⟩ (.const ⟨5, 6⟩ 1) (call ⟨5, 13⟩ "p" none)))).tally {}).visits =
      #v[1, 2, 0, 0, 0, 1, 0, 1, 0, 1, 0, 0] := by
  decide

end Tree

end PlZero
