import PlZero.Proofs.Expr.Fold

/-! Folding as reduction to a normal form. An operator on constants is reducible when it has a
result for them, and an expression is normal when no node of it is reducible. Folding comes to a
normal expression in one go, although operands that fold to constants make new reducible nodes
on the way, and it finds nothing to do exactly in the normal ones. -/

namespace PlZero.Expr

/-- The expression and all that stands below it, operators before their operands. -/
def nodes : Expr → List Expr
  | unary loc op e => unary loc op e :: e.nodes
  | binary loc op l r => binary loc op l r :: (l.nodes ++ r.nodes)
  | coerce loc c e => coerce loc c e :: e.nodes
  | e => [e]

/-- An operator on constants that has a result. -/
def reducible : Expr → Bool
  | unary _ op (const _ a) => (op.apply a).isSome
  | binary _ op (const _ a) (const _ b) => (op.apply a b).isSome
  | _ => false

def Normal (e : Expr) : Prop := ∀ x ∈ e.nodes, x.reducible = false

instance (e : Expr) : Decidable e.Normal :=
  inferInstanceAs (Decidable (∀ x ∈ e.nodes, x.reducible = false))

variable {loc : Location} {e f l r : Expr}

/-! ### Reducible and normal by form -/

theorem reducible_unary (op : UnaryOp) :
    (unary loc op e).reducible = (e.constant?.bind op.apply).isSome := by
  cases e <;> rfl

theorem reducible_binary (op : BinaryOp) : (binary loc op l r).reducible =
    (l.constant?.bind fun a => r.constant?.bind (op.apply a)).isSome := by
  cases l <;> cases r <;> rfl

theorem normal_unary {op : UnaryOp} :
    (unary loc op e).Normal ↔ (unary loc op e).reducible = false ∧ e.Normal := by
  simp [Normal, nodes]

theorem normal_binary {op : BinaryOp} : (binary loc op l r).Normal ↔
    (binary loc op l r).reducible = false ∧ l.Normal ∧ r.Normal := by
  simp [Normal, nodes, or_imp, forall_and]

theorem normal_coerce {c : Coercion} : (coerce loc c e).Normal ↔ e.Normal := by
  simp [Normal, nodes, reducible]

theorem normal_const {value : Int64} : (const loc value).Normal := by
  simp [Normal, nodes, reducible]

/-! ### Nothing to fold -/

theorem fold?_unary_eq_none_iff {op : UnaryOp} : (unary loc op e).fold? = none ↔
    (unary loc op e).reducible = false ∧ e.fold? = none := by
  rw [fold?, reducible_unary]
  cases he : e.fold? with
  | none => cases h : e.constant?.bind op.apply <;> simp [h]
  | some g => cases h : g.constant?.bind op.apply <;> simp [h]

theorem fold?_binary_eq_none_iff {op : BinaryOp} : (binary loc op l r).fold? = none ↔
    (binary loc op l r).reducible = false ∧ l.fold? = none ∧ r.fold? = none := by
  rw [fold?, reducible_binary]
  simp only [bind]
  -- a side that folds changes the node whether or not the operator has a result then
  cases hl : l.fold? with
  | some g =>
    cases h : g.constant?.bind fun a => (r.fold?.getD r).constant?.bind (op.apply a) <;> simp [h]
  | none =>
    cases hr : r.fold? with
    | some g => cases h : l.constant?.bind fun a => g.constant?.bind (op.apply a) <;> simp [h]
    | none => cases h : l.constant?.bind fun a => r.constant?.bind (op.apply a) <;> simp [h]

theorem fold?_coerce_eq_none_iff {c : Coercion} :
    (coerce loc c e).fold? = none ↔ e.fold? = none := Option.map_eq_none_iff

/-- Folding finds nothing to do exactly when there is nothing to reduce, at any depth. -/
theorem fold?_eq_none_iff_normal : e.fold? = none ↔ e.Normal := by
  induction e with
  | error _ | const _ _ | identifier _ _ | var _ _ _ => simp [fold?, Normal, nodes, reducible]
  | unary loc op e ih => rw [fold?_unary_eq_none_iff, normal_unary, ih]
  | binary loc op l r ihl ihr => rw [fold?_binary_eq_none_iff, normal_binary, ihl, ihr]
  | coerce loc c e ih => rw [fold?_coerce_eq_none_iff, normal_coerce, ih]

/-! ### Nothing left to fold -/

theorem normal_reduceUnary (op : UnaryOp) (he : e.Normal) : (reduceUnary loc op e).Normal := by
  unfold reduceUnary
  cases h : e.constant?.bind op.apply with
  | some value => exact normal_const
  | none =>
    have hstays : (unary loc op e).reducible = false := by rw [reducible_unary, h]; rfl
    exact normal_unary.2 ⟨hstays, he⟩

theorem normal_reduceBinary (op : BinaryOp) (hl : l.Normal) (hr : r.Normal) :
    (reduceBinary loc op l r).Normal := by
  unfold reduceBinary
  cases h : l.constant?.bind fun a => r.constant?.bind (op.apply a) with
  | some value => exact normal_const
  | none =>
    have hstays : (binary loc op l r).reducible = false := by rw [reducible_binary, h]; rfl
    exact normal_binary.2 ⟨hstays, hl, hr⟩

theorem normal_folded (e : Expr) : e.folded.Normal := by
  induction e with
  | error _ | const _ _ | identifier _ _ | var _ _ _ =>
    exact fold?_eq_none_iff_normal.1 rfl
  | unary loc op e ih =>
    rw [folded_unary]
    exact normal_reduceUnary op ih
  | binary loc op l r ihl ihr =>
    rw [folded_binary]
    exact normal_reduceBinary op ihl ihr
  | coerce loc c e ih =>
    rw [folded_coerce]
    split
    · exact normal_coerce.2 ih
    · next h =>
      rw [folded_of_fold?_eq_none (Option.not_isSome_iff_eq_none.1 h)] at ih
      exact normal_coerce.2 ih

/-! ### Fewer nodes -/

theorem length_nodes_pos (e : Expr) : 0 < e.nodes.length := by
  cases e <;> simp [nodes]

/-- An operand that has fewer nodes when it is folded has as many only when it is not. -/
theorem length_nodes_folded_le (h : ∀ f, e.fold? = some f → f.nodes.length < e.nodes.length) :
    e.folded.nodes.length ≤ e.nodes.length ∧
      (e.nodes.length ≤ e.folded.nodes.length → e.fold? = none) := by
  cases he : e.fold? with
  | none =>
    rw [folded_of_fold?_eq_none he]
    exact ⟨Nat.le_refl _, fun _ => rfl⟩
  | some f =>
    have hlt := h f he
    rw [folded_of_fold? he]
    exact ⟨Nat.le_of_lt hlt, fun hge => absurd hlt (Nat.not_lt_of_le hge)⟩

theorem length_nodes_of_fold? (h : e.fold? = some f) : f.nodes.length < e.nodes.length := by
  induction e generalizing f with
  | error _ | const _ _ | identifier _ _ | var _ _ _ => exact nomatch h
  | unary loc op e ih =>
    rcases fold?_unary_eq_some h with ⟨value, rfl⟩ | ⟨g, hg, rfl⟩
    · have hpos := e.length_nodes_pos
      simp only [nodes, List.length_cons, List.length_nil]
      omega
    · have hlt := ih hg
      simp only [nodes, List.length_cons]
      omega
  | binary loc op l r ihl ihr =>
    rcases fold?_binary_eq_some h with ⟨value, rfl⟩ | ⟨hchanged, rfl⟩
    · have hpos := l.length_nodes_pos
      simp only [nodes, List.length_cons, List.length_append, List.length_nil]
      omega
    · obtain ⟨hl, hsamel⟩ := length_nodes_folded_le fun g => ihl
      obtain ⟨hr, hsamer⟩ := length_nodes_folded_le fun g => ihr
      simp only [nodes, List.length_cons, List.length_append]
      apply Nat.lt_of_not_le
      intro hge
      exact hchanged ⟨hsamel (by omega), hsamer (by omega)⟩
  | coerce loc c e ih =>
    obtain ⟨g, hg, rfl⟩ := fold?_coerce_eq_some h
    have hlt := ih hg
    simp only [coerced, nodes, List.length_cons]
    omega

/-- Folding gives nothing exactly when no node is reducible. What it gives otherwise is normal,
has fewer nodes, and is not folded again. -/
theorem folding_reaches_normal_form (e : Expr) :
    (e.fold? = none ↔ ∀ x ∈ e.nodes, x.reducible = false) ∧
    ∀ f, e.fold? = some f → (∀ x ∈ f.nodes, x.reducible = false) ∧
      f.nodes.length < e.nodes.length ∧ f.fold? = none := by
  refine ⟨fold?_eq_none_iff_normal, ?_⟩
  intro f h
  have hnormal : f.Normal := folded_of_fold? h ▸ e.normal_folded
  exact ⟨hnormal, length_nodes_of_fold? h, fold?_eq_none_iff_normal.2 hnormal⟩

-- A divisor that folds to zero: the quotient is changed, and there is nothing to reduce in it.
example :
    let quotient (divisor : Expr) : Expr := binary ⟨1, 3⟩ .div (const ⟨1, 1⟩ 7) divisor
    let folding := quotient (binary ⟨1, 8⟩ .sub (const ⟨1, 6⟩ 2) (const ⟨1, 10⟩ 2))
    ¬ folding.Normal ∧ folding.fold? = some (quotient (const ⟨1, 8⟩ 0)) ∧
      (quotient (const ⟨1, 8⟩ 0)).Normal := by
  decide

end PlZero.Expr
