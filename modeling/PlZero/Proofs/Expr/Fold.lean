import PlZero.Expr

/-! Folding and the value of an expression. `folded` is `fold?` without the distinction of
what changed: every operator node is rebuilt from its folded operands and then reduced if
it can be. Evaluation is strict and partial, so a folded expression must be undefined
exactly where the original is. -/

namespace PlZero.Expr

/-! ### Folding as a total function -/

/-- The expression after folding, whether or not anything changed. -/
def folded (e : Expr) : Expr := e.fold?.getD e

theorem folded_of_fold? {e f : Expr} (h : e.fold? = some f) : e.folded = f := by
  rw [folded, h, Option.getD_some]

theorem folded_of_fold?_eq_none {e : Expr} (h : e.fold? = none) : e.folded = e := by
  rw [folded, h, Option.getD_none]

/-- A unary operator on a given operand, as its result if the operand is a constant that
the operator has a result for. -/
def reduceUnary (loc : Location) (op : UnaryOp) (e : Expr) : Expr :=
  match e.constant?.bind op.apply with
  | some value => const loc value
  | none => unary loc op e

def reduceBinary (loc : Location) (op : BinaryOp) (l r : Expr) : Expr :=
  match l.constant?.bind fun a => r.constant?.bind (op.apply a) with
  | some value => const loc value
  | none => binary loc op l r

theorem folded_unary (loc : Location) (op : UnaryOp) (e : Expr) :
    (unary loc op e).folded = reduceUnary loc op e.folded := by
  unfold reduceUnary folded
  rw [fold?]
  cases (e.fold?.getD e).constant?.bind op.apply with
  | some value => simp only [Option.getD_some]
  | none => cases e.fold? <;> rfl

theorem folded_binary (loc : Location) (op : BinaryOp) (l r : Expr) :
    (binary loc op l r).folded = reduceBinary loc op l.folded r.folded := by
  unfold reduceBinary folded
  rw [fold?]
  simp only [bind]
  cases (l.fold?.getD l).constant?.bind fun a => (r.fold?.getD r).constant?.bind (op.apply a) with
  | some value => simp only [Option.getD_some]
  | none => cases l.fold? <;> cases r.fold? <;> rfl

theorem folded_coerce (loc : Location) (c : Coercion) (e : Expr) :
    (coerce loc c e).folded =
      if e.fold?.isSome then coerced c e.folded else coerce loc c e := by
  unfold folded
  rw [fold?]
  cases e.fold? <;> rfl

/-- A coercion that stands where its operand stands also does so after folding. -/
theorem folded_coerced (c : Coercion) (e : Expr) :
    (coerced c e).folded = coerced c e.folded := by
  rw [coerced, folded_coerce]
  cases h : e.fold? with
  | some f => rfl
  | none => rw [folded_of_fold?_eq_none h]; rfl

@[simp] theorem folded_error (loc : Location) : (error loc).folded = error loc := rfl

@[simp] theorem folded_const (loc : Location) (v : Int64) : (const loc v).folded = const loc v := rfl

@[simp] theorem folded_identifier (loc : Location) (n : String) :
    (identifier loc n).folded = identifier loc n := rfl

@[simp] theorem folded_var (loc : Location) (n : String) (s : ScopeId) :
    (var loc n s).folded = var loc n s := rfl

theorem eq_const_of_constant? {e : Expr} {value : Int64} (h : e.constant? = some value) :
    e = const e.location value := by
  cases e with
  | const loc v =>
    obtain rfl : v = value := Option.some.inj h
    rfl
  | _ => exact nomatch h

/-- An operator either stays or has a constant operand that it has a result for. -/
theorem reduceUnary_eq (loc : Location) (op : UnaryOp) (e : Expr) :
    reduceUnary loc op e = unary loc op e ∨
    ∃ p a value, e = const p a ∧ op.apply a = some value ∧
      reduceUnary loc op e = const loc value := by
  unfold reduceUnary
  cases h : e.constant?.bind op.apply with
  | none => exact .inl rfl
  | some value =>
    obtain ⟨a, ha, hop⟩ := Option.bind_eq_some_iff.1 h
    exact .inr ⟨_, a, value, eq_const_of_constant? ha, hop, rfl⟩

theorem reduceBinary_eq (loc : Location) (op : BinaryOp) (l r : Expr) :
    reduceBinary loc op l r = binary loc op l r ∨
    ∃ p a q b value, l = const p a ∧ r = const q b ∧ op.apply a b = some value ∧
      reduceBinary loc op l r = const loc value := by
  unfold reduceBinary
  cases h : l.constant?.bind fun a => r.constant?.bind (op.apply a) with
  | none => exact .inl rfl
  | some value =>
    obtain ⟨a, ha, hr⟩ := Option.bind_eq_some_iff.1 h
    obtain ⟨b, hb, hop⟩ := Option.bind_eq_some_iff.1 hr
    exact .inr ⟨_, a, _, b, value, eq_const_of_constant? ha, eq_const_of_constant? hb, hop, rfl⟩

/-! ### What folding keeps -/

/-- A view of expressions that does not show whether they are folded: it looks at a node through
its operands, does not see the place of a coercion, and sees no difference between an operator
on constants and its result. -/
structure FoldBlind {β : Type} (view : Expr → β) : Prop where
  unary (loc : Location) (op : UnaryOp) {e e' : Expr} (h : view e' = view e) :
    view (unary loc op e') = view (unary loc op e)
  binary (loc : Location) (op : BinaryOp) {l l' r r' : Expr} (hl : view l' = view l)
      (hr : view r' = view r) : view (binary loc op l' r') = view (binary loc op l r)
  coerce (loc loc' : Location) (c : Coercion) {e e' : Expr} (h : view e' = view e) :
    view (coerce loc' c e') = view (coerce loc c e)
  unaryResult (loc p : Location) {op : UnaryOp} {a value : Int64} (h : op.apply a = some value) :
    view (const loc value) = view (Expr.unary loc op (const p a))
  binaryResult (loc p q : Location) {op : BinaryOp} {a b value : Int64}
      (h : op.apply a b = some value) :
    view (const loc value) = view (Expr.binary loc op (const p a) (const q b))

theorem FoldBlind.folded {β : Type} {view : Expr → β} (h : FoldBlind view) (e : Expr) :
    view e.folded = view e := by
  induction e with
  | error _ | const _ _ | identifier _ _ | var _ _ _ => rfl
  | unary loc op e ih =>
    rw [folded_unary]
    rcases reduceUnary_eq loc op e.folded with hstays | ⟨p, a, value, he, hop, hresult⟩
    · rw [hstays]
      exact h.unary loc op ih
    · rw [hresult, h.unaryResult loc p hop, ← he]
      exact h.unary loc op ih
  | binary loc op l r ihl ihr =>
    rw [folded_binary]
    rcases reduceBinary_eq loc op l.folded r.folded with
      hstays | ⟨p, a, q, b, value, hl, hr, hop, hresult⟩
    · rw [hstays]
      exact h.binary loc op ihl ihr
    · rw [hresult, h.binaryResult loc p q hop, ← hl, ← hr]
      exact h.binary loc op ihl ihr
  | coerce loc c e ih =>
    rw [folded_coerce]
    split
    · exact h.coerce loc _ c ih
    · rfl

/-! ### What folding can give -/

theorem fold?_unary_eq_some {loc : Location} {op : UnaryOp} {e f : Expr}
    (h : (unary loc op e).fold? = some f) :
    (∃ value, f = const loc value) ∨ ∃ g, e.fold? = some g ∧ f = unary loc op g := by
  rw [fold?] at h
  cases hop : (e.fold?.getD e).constant?.bind op.apply with
  | some value =>
    simp only [hop, Option.some.injEq] at h
    exact .inl ⟨value, h.symm⟩
  | none =>
    simp only [hop] at h
    obtain ⟨g, hg, hf⟩ := Option.map_eq_some_iff.1 h
    exact .inr ⟨g, hg, hf.symm⟩

theorem fold?_binary_eq_some {loc : Location} {op : BinaryOp} {l r f : Expr}
    (h : (binary loc op l r).fold? = some f) :
    (∃ value, f = const loc value) ∨
      ¬ (l.fold? = none ∧ r.fold? = none) ∧ f = binary loc op l.folded r.folded := by
  rw [fold?] at h
  simp only [bind] at h
  cases hop : (l.fold?.getD l).constant?.bind fun a =>
      (r.fold?.getD r).constant?.bind (op.apply a) with
  | some value =>
    simp only [hop, Option.some.injEq] at h
    exact .inl ⟨value, h.symm⟩
  | none =>
    simp only [hop] at h
    split at h
    · exact nomatch h
    · next hchanged =>
      refine .inr ⟨?_, (Option.some.inj h).symm⟩
      rintro ⟨hl, hr⟩
      simp [hl, hr] at hchanged

theorem fold?_coerce_eq_some {loc : Location} {c : Coercion} {e f : Expr}
    (h : (coerce loc c e).fold? = some f) : ∃ g, e.fold? = some g ∧ f = coerced c g := by
  obtain ⟨g, hg, hf⟩ := Option.map_eq_some_iff.1 h
  exact ⟨g, hg, hf.symm⟩

/-! ### The value of an expression -/

/-- What names and coercions stand for. All of it may be partial. -/
structure Interpretation where
  identifier : String → Option Int64
  var : String → ScopeId → Option Int64
  coerce : Coercion → Int64 → Option Int64

/-- The value, if there is one. An operator or a coercion has none without the values of
all its operands. -/
def eval (I : Interpretation) : Expr → Option Int64
  | error _ => none
  | const _ value => some value
  | identifier _ name => I.identifier name
  | var _ name scope => I.var name scope
  | unary _ op e => (e.eval I).bind op.apply
  | binary _ op l r => (l.eval I).bind fun a => (r.eval I).bind (op.apply a)
  | coerce _ c e => (e.eval I).bind (I.coerce c)

variable (I : Interpretation)

theorem eval_coerced (c : Coercion) (e : Expr) :
    (coerced c e).eval I = (e.eval I).bind (I.coerce c) := rfl

theorem foldBlind_eval : FoldBlind (eval I) where
  unary loc op _ _ h := by rw [eval, h, eval]
  binary loc op _ _ _ _ hl hr := by rw [eval, hl, hr, eval]
  coerce loc loc' c _ _ h := by rw [eval, h, eval]
  unaryResult loc p _ _ _ h := by rw [eval, eval, eval, Option.bind_some, h]
  binaryResult loc p q _ _ _ _ h := by
    rw [eval, eval, eval, eval, Option.bind_some, Option.bind_some, h]

/-- Folding keeps the value, and keeps it undefined. -/
theorem eval_folded (e : Expr) : e.folded.eval I = e.eval I := (foldBlind_eval I).folded e

end PlZero.Expr
