import PlZero.Proofs.Assignment
import PlZero.Proofs.Tree.Sweep

/-! Visits that change a tree where it stands. A visitor sets the slots that it has something new
for, an assignment through its setters index by index. When a step of it fails, or a setter
refuses, it goes back at once through all the blocks it is in, and what comes later is not
looked at. A pass that goes on to the end, but takes no step after a fault, comes to the same. -/

namespace PlZero

/-! ### What a visit leaves -/

/-- Something after a visit, with the fault that ended the visit, if one did, and the state of the
visitor. -/
abbrev Visited (σ α : Type) := α × Except Fault Unit × σ

namespace Visited

variable {σ α β : Type}

def map (f : α → β) (x : Visited σ α) : Visited σ β := (f x.1, x.2)

/-- Goes on with what was visited, unless the visit has ended. -/
def andThen (x : Visited σ α) (more : α → σ → Visited σ α) : Visited σ α :=
  match x with
  | (a, .ok (), y) => more a y
  | (a, .error fault, y) => (a, .error fault, y)

/-- Goes on with the next part, which stays as it was if the visit has ended. -/
def next (x : Visited σ α) (old : β) (part : σ → Visited σ β) : Visited σ (α × β) :=
  match x with
  | (a, .ok (), y) => (part y).map (a, ·)
  | (a, .error fault, y) => ((a, old), .error fault, y)

/-- The state is changed, however the visit has ended. -/
def leaving (x : Visited σ α) (f : σ → σ) : Visited σ α := (x.1, x.2.1, f x.2.2)

/-- What a visit leaves, as a pass gives it. -/
def progress (x : Visited σ α) : α × σ × Option Fault :=
  match x with
  | (a, .ok (), y) => (a, y, none)
  | (a, .error fault, y) => (a, y, some fault)

end Visited

/-! ### Visitors -/

/-- What a visitor does at each kind of place. -/
structure Visitor (σ : Type) where
  /-- At an expression slot: what to set it to, if it is to be set. -/
  expr : Role → Expr → EStateM Fault σ (Option Expr)
  /-- At a call: the entry to set, if it is to be set. -/
  entry : Location → String → EStateM Fault σ (Option ProcedureId)
  /-- Before the parts of a block with this scope. -/
  enter : ScopeId → σ → σ
  /-- After the parts of a block, or when the visit ends in one of them. -/
  leave : σ → σ
  leave_enter : ∀ s x, leave (enter s x) = x

namespace Visitor

variable {σ α : Type} (v : Visitor σ)

/-- Takes a step at a place that can be set directly. -/
def take (step : EStateM Fault σ (Option α)) (old : α) (x : σ) : Visited σ α :=
  match step x with
  | .ok new y => (new.getD old, .ok (), y)
  | .error fault y => (old, .error fault, y)

/-- Takes the step for a slot of an assignment, and calls the setter only with something new. -/
def store (role : Role) (i : Nat) (e : Expr) (a : Assignment) (x : σ) : Visited σ Assignment :=
  match v.expr role e x with
  | .error fault y => (a, .error fault, y)
  | .ok none y => (a, .ok (), y)
  | .ok (some new) y =>
    match a.set ⟨role, i, new⟩ with
    | .ok (_, b) => (b, .ok (), y)
    | .error fault => (a, .error fault, y)

/-- Visits the pairs at some indices, each target before its value. -/
def pairsAt : List Nat → Assignment → σ → Visited σ Assignment
  | [], a, x => (a, .ok (), x)
  | i :: rest, a, x =>
    match a.pair? i with
    | none => (a, .ok (), x)
    | some (target, value) =>
      ((v.store .target i target a x).andThen (v.store .value i value)).andThen (pairsAt rest)

def assignment (a : Assignment) (x : σ) : Visited σ Assignment :=
  v.pairsAt (List.range a.length) a x

def call (loc : Location) (name : String) (old : Option ProcedureId) (x : σ) :
    Visited σ (Option ProcedureId) :=
  take ((·.map some) <$> v.entry loc name) old x

end Visitor

/-- Visits a tree in place. -/
def Tree.visitInPlace {σ : Type} (v : Visitor σ) : {c : Category} → Tree c → σ → Visited σ (Tree c)
  | _, assign a, x => (v.assignment a x).map assign
  | _, read loc target, x => (Visitor.take (v.expr .target target) target x).map (read loc)
  | _, write loc value, x => (Visitor.take (v.expr .value value) value x).map (write loc)
  | _, call loc name entry, x => (v.call loc name entry x).map (call loc name)
  | _, list loc ss, x => (ss.visitInPlace v x).map (list loc)
  | _, conditional loc condition yes no, x =>
    ((Visitor.take (v.expr .value condition) condition x).next (yes, no) fun x =>
      (yes.visitInPlace v x).next no (no.visitInPlace v)).map
        fun (condition, yes, no) => conditional loc condition yes no
  | _, whileLoop loc condition body, x =>
    ((Visitor.take (v.expr .value condition) condition x).next body (body.visitInPlace v)).map
      fun (condition, body) => whileLoop loc condition body
  | _, doLoop loc bs, x => (bs.visitInPlace v x).map (doLoop loc)
  | _, ofBlock b, x => (b.visitInPlace v x).map ofBlock
  | _, ofBranch b, x => (b.visitInPlace v x).map ofBranch
  | _, cons s rest, x =>
    ((s.visitInPlace v x).next rest (rest.visitInPlace v)).map fun (s, rest) => cons s rest
  | _, block loc scope ps body, x =>
    (((ps.visitInPlace v (v.enter scope x)).next body (body.visitInPlace v)).leaving v.leave).map
      fun (ps, body) => block loc scope ps body
  | _, procedure loc name entry body rest, x =>
    ((body.visitInPlace v x).next rest (rest.visitInPlace v)).map
      fun (body, rest) => procedure loc name entry body rest
  | _, branch loc condition body exit, x =>
    ((Visitor.take (v.expr .value condition) condition x).next body (body.visitInPlace v)).map
      fun (condition, body) => branch loc condition body exit
  | _, orBranch b rest, x =>
    ((b.visitInPlace v x).next rest (rest.visitInPlace v)).map fun (b, rest) => orBranch b rest
  | _, t, x => (t, .ok (), x)

/-! ### The same as a pass -/

namespace Visitor

variable {σ α : Type} (v : Visitor σ)

/-- Takes a step unless an earlier one failed. -/
def attempt (step : EStateM Fault σ (Option α)) (old : α) : StateM (σ × Option Fault) α
  | (x, some fault) => (old, x, some fault)
  | (x, none) => (take step old x).progress

/-- The visitor as a pass that takes no step after a fault. -/
def pass : SlotPass (σ × Option Fault) where
  expr role e := attempt (v.expr role e) e
  entry loc name old := attempt ((·.map some) <$> v.entry loc name) old
  enter s := modify fun (x, fault) => (v.enter s x, fault)
  leave := modify fun (x, fault) => (v.leave x, fault)

end Visitor

namespace Visited

variable {σ α β : Type}

theorem progress_map (f : α → β) (x : Visited σ α) :
    (x.map f).progress = (f x.progress.1, x.progress.2) := by
  obtain ⟨a, ⟨fault⟩ | ⟨⟩, y⟩ := x <;> rfl

theorem progress_leaving (f : σ → σ) (x : Visited σ α) :
    (x.leaving f).progress = (x.progress.1, f x.progress.2.1, x.progress.2.2) := by
  obtain ⟨a, ⟨fault⟩ | ⟨⟩, y⟩ := x <;> rfl

/-- A part that does nothing once there is a fault may be gone through in any case. -/
theorem progress_next {old : β} {part : σ → Visited σ β} {run : StateM (σ × Option Fault) β}
    (hgoing : ∀ y, run (y, none) = (part y).progress)
    (hstopped : ∀ y fault, run (y, some fault) = (old, y, some fault)) (x : Visited σ α) :
    (x.next old part).progress =
      ((x.progress.1, (run x.progress.2).1), (run x.progress.2).2) := by
  obtain ⟨a, ⟨fault⟩ | ⟨⟩, y⟩ := x
  · rw [next, progress, progress, hstopped]
  · rw [next, progress_map, progress, hgoing]

end Visited

namespace SlotPass

theorem pairs_cons {σ : Type} (p : SlotPass σ) (target value : Expr) (rest : List (Expr × Expr))
    (x : σ) : p.pairs ((target, value) :: rest) x =
      let y := p.expr .target target x
      let z := p.expr .value value y.2
      ((y.1, z.1) :: (p.pairs rest z.2).1, (p.pairs rest z.2).2) := rfl

end SlotPass

namespace Visitor

variable {σ α : Type} (v : Visitor σ)

theorem pairs_stopped (pairs : List (Expr × Expr)) (x : σ) (fault : Fault) :
    v.pass.pairs pairs (x, some fault) = (pairs, x, some fault) := by
  induction pairs with
  | nil => rfl
  | cons pair rest ih =>
    rw [SlotPass.pairs_cons]
    change ((pair.1, pair.2) :: (v.pass.pairs rest (x, some fault)).1,
      (v.pass.pairs rest (x, some fault)).2) = _
    rw [ih]

/-- The setter of a slot that there is does what is done to a slot that is set directly. -/
theorem store_eq {a : Assignment} {role : Role} {i : Nat} {e : Expr}
    (h : (a.side role)[i]? = some e) (x : σ) :
    v.store role i e a x = (take (v.expr role e) e x).map fun e => a.written ⟨role, i, e⟩ := by
  have hold : a.written ⟨role, i, e⟩ = a := a.written_self h
  have hset (new : Expr) : a.set ⟨role, i, new⟩ = .ok (e, a.written ⟨role, i, new⟩) := by
    rw [Assignment.set_eq, h]
  unfold store take
  cases v.expr role e x with
  | error fault y => simp [Visited.map, hold]
  | ok new y =>
    cases new with
    | none => simp [Visited.map, hold]
    | some new => simp [Visited.map, hset]

/-- The setter of a slot of the pair that comes after `done` changes that pair. -/
theorem store_pair (loc : Location) (done rest : List (Expr × Expr)) (pair : Expr × Expr)
    (role : Role) (x : σ) :
    v.store role done.length (role.of pair) ⟨loc, done ++ pair :: rest⟩ x =
      (take (v.expr role (role.of pair)) (role.of pair) x).map fun e =>
        ⟨loc, done ++ Assignment.Write.put ⟨role, done.length, e⟩ pair :: rest⟩ := by
  have hslot : (Assignment.side ⟨loc, done ++ pair :: rest⟩ role)[done.length]? =
      some (role.of pair) := by
    simp [Assignment.side]
  rw [v.store_eq hslot]
  congr 1
  funext e
  simp [Assignment.written, List.modify_eq_set_getElem?]

/-- The indices that are left are those of the pairs that are left, so no setter refuses. -/
theorem progress_pairsAt (loc : Location) (done rest : List (Expr × Expr)) (x : σ) :
    (v.pairsAt (List.range' done.length rest.length) ⟨loc, done ++ rest⟩ x).progress =
      (⟨loc, done ++ (v.pass.pairs rest (x, none)).1⟩, (v.pass.pairs rest (x, none)).2) := by
  induction rest generalizing done x with
  | nil => rfl
  | cons pair rest ih =>
    obtain ⟨target, value⟩ := pair
    have hpair : Assignment.pair? ⟨loc, done ++ (target, value) :: rest⟩ done.length =
        some (target, value) := by
      simp [Assignment.pair?]
    have htarget : v.store .target done.length target ⟨loc, done ++ (target, value) :: rest⟩ x =
        (take (v.expr .target target) target x).map fun e => ⟨loc, done ++ (e, value) :: rest⟩ :=
      v.store_pair loc done rest (target, value) .target x
    have hvalue (e : Expr) (y : σ) :
        v.store .value done.length value ⟨loc, done ++ (e, value) :: rest⟩ y =
        (take (v.expr .value value) value y).map fun f => ⟨loc, done ++ (e, f) :: rest⟩ :=
      v.store_pair loc done rest (e, value) .value y
    have hexpr (role : Role) (e : Expr) (y : σ) :
        v.pass.expr role e (y, none) = (take (v.expr role e) e y).progress := rfl
    have hstopped (e : Expr) (y : σ) (fault : Fault) :
        v.pass.expr .value e (y, some fault) = (e, y, some fault) := rfl
    rw [List.length_cons, List.range'_succ, pairsAt, hpair, SlotPass.pairs_cons]
    simp only [htarget, hexpr]
    obtain ⟨newTarget, ⟨fault⟩ | ⟨⟩, y⟩ := take (v.expr .target target) target x
    · simp only [Visited.map, Visited.andThen, Visited.progress, hstopped, v.pairs_stopped]
    simp only [Visited.map, Visited.andThen, Visited.progress, hvalue, hexpr]
    obtain ⟨newValue, ⟨fault⟩ | ⟨⟩, z⟩ := take (v.expr .value value) value y
    · simp only [v.pairs_stopped]
    · have hrest := ih (done ++ [(newTarget, newValue)]) z
      simpa [Visited.progress] using hrest

theorem progress_assignment (a : Assignment) (x : σ) :
    (v.assignment a x).progress =
      ({ a with pairs := (v.pass.pairs a.pairs (x, none)).1 },
        (v.pass.pairs a.pairs (x, none)).2) := by
  rw [assignment, List.range_eq_range']
  exact v.progress_pairsAt a.loc [] a.pairs x

end Visitor

namespace Tree

variable {σ : Type} {c : Category} (v : Visitor σ)

/-- After a fault a pass changes nothing more, and blocks are left as they were entered. -/
theorem traverse_stopped (t : Tree c) (x : σ) (fault : Fault) :
    t.traverse v.pass (x, some fault) = (t, x, some fault) := by
  have henter (s : ScopeId) (x : σ) :
      v.pass.enter s (x, some fault) = ((), v.enter s x, some fault) := rfl
  have hleave (x : σ) : v.pass.leave (x, some fault) = ((), v.leave x, some fault) := rfl
  have hexpr (role : Role) (e : Expr) (x : σ) :
      v.pass.expr role e (x, some fault) = (e, x, some fault) := rfl
  induction t generalizing x with
  | assign a =>
    simp only [traverse, stateM_bind_apply, stateM_pure_apply, v.pairs_stopped]
  | error | skip | nil | noProcedures | noBranches => rfl
  | read | write | call => rfl
  | block loc scope ps body ihps ihbody =>
    simp only [traverse, stateM_bind_apply, stateM_pure_apply, henter, hleave, ihps, ihbody,
      v.leave_enter]
  | _ => simp_all only [traverse, stateM_bind_apply, stateM_pure_apply]

theorem traverse_going (t : Tree c) (x : σ) :
    t.traverse v.pass (x, none) = (t.visitInPlace v x).progress := by
  induction t generalizing x with
  | error | skip | nil | noProcedures | noBranches => rfl
  | read | write | call => rw [visitInPlace, Visited.progress_map]; rfl
  | list _ _ ih | doLoop _ _ ih | ofBlock _ ih | ofBranch _ ih =>
    rw [visitInPlace, Visited.progress_map, ← ih]
    rfl
  | cons _ rest ihfirst ihrest | orBranch _ rest ihfirst ihrest
  | procedure _ _ _ _ rest ihfirst ihrest =>
    rw [visitInPlace, Visited.progress_map,
      Visited.progress_next ihrest (rest.traverse_stopped v), ← ihfirst]
    rfl
  | whileLoop _ _ body ih | branch _ _ body _ ih =>
    rw [visitInPlace, Visited.progress_map,
      Visited.progress_next ih (body.traverse_stopped v)]
    rfl
  | block loc scope ps body ihps ihbody =>
    rw [visitInPlace, Visited.progress_map, Visited.progress_leaving,
      Visited.progress_next ihbody (body.traverse_stopped v), ← ihps]
    rfl
  | conditional loc condition yes no ihyes ihno =>
    have hgoing (y : σ) : (do return (← yes.traverse v.pass, ← no.traverse v.pass) :
        StateM (σ × Option Fault) _) (y, none) =
        ((yes.visitInPlace v y).next no (no.visitInPlace v)).progress := by
      rw [Visited.progress_next ihno (no.traverse_stopped v), ← ihyes]
      rfl
    have hstopped (y : σ) (fault : Fault) : (do return (← yes.traverse v.pass,
        ← no.traverse v.pass) : StateM (σ × Option Fault) _) (y, some fault) =
        ((yes, no), y, some fault) := by
      simp only [stateM_bind_apply, stateM_pure_apply, traverse_stopped]
    rw [visitInPlace, Visited.progress_map, Visited.progress_next hgoing hstopped]
    rfl
  | assign a =>
    rw [visitInPlace, Visited.progress_map, v.progress_assignment]
    rfl

end Tree

theorem Visited.eq_of_progress {σ α : Type} (x : Visited σ α) :
    x = (x.progress.1, x.progress.2.2.elim (.ok ()) .error, x.progress.2.1) := by
  obtain ⟨a, ⟨fault⟩ | ⟨⟩, y⟩ := x <;> rfl

/-- A visit in place leaves what the pass makes of the tree, and ends as the pass does. -/
theorem Tree.visitInPlace_eq {σ : Type} {c : Category} (v : Visitor σ) (t : Tree c) (x : σ) :
    t.visitInPlace v x =
      ((t.traverse v.pass (x, none)).1,
        (t.traverse v.pass (x, none)).2.2.elim (.ok ()) .error,
        (t.traverse v.pass (x, none)).2.1) := by
  rw [traverse_going]
  exact Visited.eq_of_progress _

/-! ### Passes that keep more in their state -/

/-- The pass `q` does what `p` does, with the states of `p` as part of its own. -/
structure SlotPass.Embeds {σ τ : Type} (p : SlotPass σ) (q : SlotPass τ) (f : σ → τ) : Prop where
  expr : ∀ role e x, q.expr role e (f x) = ((p.expr role e x).1, f (p.expr role e x).2)
  entry : ∀ loc name old x,
    q.entry loc name old (f x) = ((p.entry loc name old x).1, f (p.entry loc name old x).2)
  enter : ∀ s x, q.enter s (f x) = ((), f (p.enter s x).2)
  leave : ∀ x, q.leave (f x) = ((), f (p.leave x).2)

section Embeds

variable {σ τ : Type} {p : SlotPass σ} {q : SlotPass τ} {f : σ → τ} (h : p.Embeds q f)
include h

theorem SlotPass.Embeds.pairs (pairs : List (Expr × Expr)) (x : σ) :
    q.pairs pairs (f x) = ((p.pairs pairs x).1, f (p.pairs pairs x).2) := by
  induction pairs generalizing x with
  | nil => rfl
  | cons pair rest ih =>
    obtain ⟨target, value⟩ := pair
    simp only [pairs_cons, h.expr, ih]

theorem Tree.traverse_of_embeds {c : Category} (t : Tree c) (x : σ) :
    t.traverse q (f x) = ((t.traverse p x).1, f (t.traverse p x).2) := by
  induction t generalizing x with
  | error | skip | nil | noProcedures | noBranches => rfl
  | assign a => simp only [traverse, stateM_bind_apply, stateM_pure_apply, h.pairs]
  | call loc name entry => simp only [traverse, stateM_bind_apply, stateM_pure_apply, h.entry]
  | block loc scope ps body ihps ihbody =>
    simp only [traverse, stateM_bind_apply, stateM_pure_apply, h.enter, h.leave, ihps, ihbody]
  | _ => simp_all only [traverse, stateM_bind_apply, stateM_pure_apply, h.expr]

end Embeds

/-! ### The folder -/

/-- Sets the values and conditions that can be folded, and nothing else, and counts them. -/
def Visitor.folder : Visitor Nat where
  expr
    | .target, _ => return none
    | .value, e =>
      match e.fold? with
      | some folded => do
        modify (· + 1)
        return some folded
      | none => return none
  entry _ _ := return none
  enter _ changed := changed
  leave changed := changed
  leave_enter _ _ := rfl

theorem SlotPass.folding_embeds : folding.Embeds Visitor.folder.pass fun n => (n, none) where
  expr role e n := by
    cases role with
    | target => rfl
    | value =>
      unfold Visitor.pass Visitor.folder folding
      cases h : e.fold? <;> simp only [h] <;> rfl
  entry _ _ _ _ := rfl
  enter _ _ := rfl
  leave _ := rfl

/-- The folder is never refused anything. -/
theorem Tree.visitInPlace_folder {c : Category} (t : Tree c) (n : Nat) :
    t.visitInPlace .folder n = ((t.foldConstants n).1, .ok (), (t.foldConstants n).2) := by
  rw [visitInPlace_eq, t.traverse_of_embeds SlotPass.folding_embeds]
  rfl

end PlZero
