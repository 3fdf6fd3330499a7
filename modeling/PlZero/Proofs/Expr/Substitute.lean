import PlZero.Proofs.Expr.Fold
import PlZero.Tree.Traversal

/-! Names in expressions. `occurrences` lists the identifiers of an expression from left to
right, each in the role it has where it stands, and `substituted` puts something in the
place of each. Folding commutes with substitution up to a last folding: what a substitution
makes foldable is folded afterwards, and what was folded before stays so. -/

namespace PlZero

/-- A place where an identifier stands. -/
structure Occurrence where
  role : Role
  loc : Location
  name : String
  deriving DecidableEq, Repr

namespace Expr

/-- The node at a path of operand positions, with its role there. Below an operator
everything is a value; a coercion passes its own role on. -/
def nodeAt? : Role → Expr → List Nat → Option (Role × Expr)
  | role, e, [] => some (role, e)
  | _, unary _ _ e, 0 :: path => e.nodeAt? .value path
  | _, binary _ _ l _, 0 :: path => l.nodeAt? .value path
  | _, binary _ _ _ r, 1 :: path => r.nodeAt? .value path
  | role, coerce _ _ e, 0 :: path => e.nodeAt? role path
  | _, _, _ :: _ => none

def occurrences : Role → Expr → List Occurrence
  | role, identifier loc name => [⟨role, loc, name⟩]
  | _, unary _ _ e => e.occurrences .value
  | _, binary _ _ l r => l.occurrences .value ++ r.occurrences .value
  | role, coerce _ _ e => e.occurrences role
  | _, error _ | _, const _ _ | _, var _ _ _ => []

/-- Puts an expression in the place of each identifier; `none` when there is none. A
coercion above a changed place stands where its new operand stands. -/
def substitute? (f : Occurrence → Expr) : Role → Expr → Option Expr
  | role, identifier loc name => some (f ⟨role, loc, name⟩)
  | _, unary loc op e => (e.substitute? f .value).map (unary loc op)
  | _, binary loc op l r =>
    let left := l.substitute? f .value
    let right := r.substitute? f .value
    if left.isNone && right.isNone then none
    else some (binary loc op (left.getD l) (right.getD r))
  | role, coerce _ c e => (e.substitute? f role).map (coerced c)
  | _, error _ | _, const _ _ | _, var _ _ _ => none

def substituted (f : Occurrence → Expr) (role : Role) (e : Expr) : Expr :=
  (e.substitute? f role).getD e

variable (f : Occurrence → Expr) (role : Role)

@[simp] theorem substituted_error (loc : Location) :
    (error loc).substituted f role = error loc := rfl

@[simp] theorem substituted_const (loc : Location) (v : Int64) :
    (const loc v).substituted f role = const loc v := rfl

@[simp] theorem substituted_var (loc : Location) (n : String) (s : ScopeId) :
    (var loc n s).substituted f role = var loc n s := rfl

@[simp] theorem substituted_identifier (loc : Location) (n : String) :
    (identifier loc n).substituted f role = f ⟨role, loc, n⟩ := rfl

@[simp] theorem substituted_unary (loc : Location) (op : UnaryOp) (e : Expr) :
    (unary loc op e).substituted f role = unary loc op (e.substituted f .value) := by
  unfold substituted
  rw [substitute?]
  cases e.substitute? f .value <;> rfl

@[simp] theorem substituted_binary (loc : Location) (op : BinaryOp) (l r : Expr) :
    (binary loc op l r).substituted f role =
      binary loc op (l.substituted f .value) (r.substituted f .value) := by
  unfold substituted
  rw [substitute?]
  cases l.substitute? f .value <;> cases r.substitute? f .value <;> rfl

theorem substituted_coerce (loc : Location) (c : Coercion) (e : Expr) :
    (coerce loc c e).substituted f role =
      if (e.substitute? f role).isSome then coerced c (e.substituted f role)
      else coerce loc c e := by
  unfold substituted
  rw [substitute?]
  cases e.substitute? f role <;> rfl

theorem substituted_of_substitute?_eq_none {e : Expr} (h : e.substitute? f role = none) :
    e.substituted f role = e := by
  rw [substituted, h, Option.getD_none]

theorem substitute?_eq_none_iff {e : Expr} :
    e.substitute? f role = none ↔ e.occurrences role = [] := by
  induction e generalizing role with
  | error _ | const _ _ | identifier _ _ | var _ _ _ => simp [substitute?, occurrences]
  | unary loc op e ih => simp [substitute?, occurrences, ih]
  | binary loc op l r ihl ihr => simp [substitute?, occurrences, ihl, ihr]
  | coerce loc c e ih => simp [substitute?, occurrences, ih]

theorem substituted_of_occurrences_eq_nil {e : Expr} (h : e.occurrences role = []) :
    e.substituted f role = e :=
  substituted_of_substitute?_eq_none f role ((substitute?_eq_none_iff f role).2 h)

theorem substituted_coerced (c : Coercion) (e : Expr) :
    (coerced c e).substituted f role = coerced c (e.substituted f role) := by
  rw [coerced, substituted_coerce]
  cases h : e.substitute? f role with
  | some _ => rfl
  | none => rw [substituted_of_substitute?_eq_none f role h]; rfl

/-- Substitution acts on each subterm by itself, in the role that the subterm has. -/
theorem nodeAt?_substituted {e x : Expr} {ρ : Role} {path : List Nat}
    (h : e.nodeAt? role path = some (ρ, x)) :
    (e.substituted f role).nodeAt? role path = some (ρ, x.substituted f ρ) := by
  induction path generalizing e role with
  | nil =>
    rw [nodeAt?] at h ⊢
    obtain ⟨rfl, rfl⟩ := Prod.mk.inj (Option.some.inj h)
    rfl
  | cons i path ih =>
    cases e with
    | error _ | const _ _ | identifier _ _ | var _ _ _ => simp [nodeAt?] at h
    | unary loc op e =>
      rw [substituted_unary]
      match i with
      | 0 => exact ih .value h
      | i + 1 => simp [nodeAt?] at h
    | binary loc op l r =>
      rw [substituted_binary]
      match i with
      | 0 => exact ih .value h
      | 1 => exact ih .value h
      | i + 2 => simp [nodeAt?] at h
    | coerce loc c e =>
      match i with
      | i + 1 => simp [nodeAt?] at h
      | 0 =>
        rw [substituted_coerce]
        have hrest := ih role (e := e) h
        split
        · exact hrest
        · next hnone =>
          rwa [substituted_of_substitute?_eq_none f role
            (Option.not_isSome_iff_eq_none.1 hnone)] at hrest

theorem mem_occurrences_of_nodeAt? {e : Expr} {ρ : Role} {loc : Location} {n : String}
    {path : List Nat} (h : e.nodeAt? role path = some (ρ, identifier loc n)) :
    ⟨ρ, loc, n⟩ ∈ e.occurrences role := by
  induction path generalizing e role with
  | nil =>
    rw [nodeAt?] at h
    obtain ⟨rfl, rfl⟩ := Prod.mk.inj (Option.some.inj h)
    simp [occurrences]
  | cons i path ih =>
    cases e with
    | error _ | const _ _ | identifier _ _ | var _ _ _ => simp [nodeAt?] at h
    | unary loc op e =>
      match i with
      | 0 => exact ih .value h
      | i + 1 => simp [nodeAt?] at h
    | binary loc op l r =>
      match i with
      | 0 => exact List.mem_append_left _ (ih .value h)
      | 1 => exact List.mem_append_right _ (ih .value h)
      | i + 2 => simp [nodeAt?] at h
    | coerce loc c e =>
      match i with
      | 0 => exact ih role (e := e) h
      | i + 1 => simp [nodeAt?] at h

theorem exists_nodeAt?_of_mem_occurrences {e : Expr} {o : Occurrence}
    (h : o ∈ e.occurrences role) :
    ∃ path, e.nodeAt? role path = some (o.role, identifier o.loc o.name) := by
  induction e generalizing role with
  | error _ | const _ _ | var _ _ _ => exact absurd h List.not_mem_nil
  | identifier loc n =>
    obtain rfl := List.mem_singleton.1 h
    exact ⟨[], rfl⟩
  | unary loc op e ih =>
    obtain ⟨path, hpath⟩ := ih .value h
    exact ⟨0 :: path, hpath⟩
  | binary loc op l r ihl ihr =>
    rcases List.mem_append.1 h with h | h
    · obtain ⟨path, hpath⟩ := ihl .value h
      exact ⟨0 :: path, hpath⟩
    · obtain ⟨path, hpath⟩ := ihr .value h
      exact ⟨1 :: path, hpath⟩
  | coerce loc c e ih =>
    obtain ⟨path, hpath⟩ := ih role h
    exact ⟨0 :: path, hpath⟩

/-- What is left to bind after a substitution is what was put in. -/
theorem occurrences_substituted (e : Expr) :
    (e.substituted f role).occurrences role =
      (e.occurrences role).flatMap fun o => (f o).occurrences o.role := by
  induction e generalizing role with
  | error _ | const _ _ | var _ _ _ => rfl
  | identifier loc n => simp [occurrences]
  | unary loc op e ih => rw [substituted_unary, occurrences, ih, occurrences]
  | binary loc op l r ihl ihr =>
    rw [substituted_binary, occurrences, ihl, ihr, occurrences, List.flatMap_append]
  | coerce loc c e ih =>
    rw [substituted_coerce]
    split
    · rw [coerced, occurrences, ih, occurrences]
    · next h =>
      have hnil := (substitute?_eq_none_iff f role).1 (Option.not_isSome_iff_eq_none.1 h)
      rw [occurrences, hnil, List.flatMap_nil]

/-! ### Folding and substitution -/

theorem foldBlind_occurrences : FoldBlind fun e role => e.occurrences role where
  unary loc op _ _ h := funext fun _ => congrFun h .value
  binary loc op _ _ _ _ hl hr := by
    funext role
    rw [occurrences, congrFun hl .value, congrFun hr .value, occurrences]
  coerce loc loc' c _ _ h := funext fun role => congrFun h role
  unaryResult loc p _ _ _ _ := rfl
  binaryResult loc p q _ _ _ _ _ := rfl

/-- Folding neither drops, repeats nor moves a name. -/
theorem occurrences_folded (e : Expr) : e.folded.occurrences role = e.occurrences role :=
  congrFun (foldBlind_occurrences.folded e) role

theorem folded_substituted_reduceUnary (loc : Location) (op : UnaryOp) (e : Expr) :
    ((reduceUnary loc op e).substituted f role).folded =
      reduceUnary loc op (e.substituted f .value).folded := by
  rcases reduceUnary_eq loc op e with h | ⟨p, a, value, rfl, -, h⟩
  · rw [h, substituted_unary, folded_unary]
  · rw [h, substituted_const, substituted_const, folded_const, folded_const, h]

theorem folded_substituted_reduceBinary (loc : Location) (op : BinaryOp) (l r : Expr) :
    ((reduceBinary loc op l r).substituted f role).folded =
      reduceBinary loc op (l.substituted f .value).folded (r.substituted f .value).folded := by
  rcases reduceBinary_eq loc op l r with h | ⟨p, a, q, b, value, rfl, rfl, -, h⟩
  · rw [h, substituted_binary, folded_binary]
  · rw [h, substituted_const, substituted_const, substituted_const, folded_const, folded_const,
      folded_const, h]

/-- A folding before a substitution is not seen after a folding that follows it. -/
theorem folded_substituted_folded (e : Expr) :
    (e.folded.substituted f role).folded = (e.substituted f role).folded := by
  induction e generalizing role with
  | error _ | const _ _ | identifier _ _ | var _ _ _ => rfl
  | unary loc op e ih =>
    rw [folded_unary, folded_substituted_reduceUnary, ih, substituted_unary, folded_unary]
  | binary loc op l r ihl ihr =>
    rw [folded_binary, folded_substituted_reduceBinary, ihl, ihr, substituted_binary,
      folded_binary]
  | coerce loc c e ih =>
    cases h : e.fold? with
    | none =>
      have hsame : (coerce loc c e).folded = coerce loc c e := by
        rw [folded_coerce, h]
        rfl
      rw [hsame]
    | some g =>
      have hleft : (((coerce loc c e).folded).substituted f role).folded =
          coerced c (e.substituted f role).folded := by
        rw [folded_coerce, h, Option.isSome_some, if_pos rfl, substituted_coerced,
          folded_coerced, ih]
      rw [hleft, substituted_coerce]
      -- the coercion moves in any case: with a name in it now, without one when it is folded
      split
      · rw [folded_coerced]
      · next hnone =>
        rw [substituted_of_substitute?_eq_none f role (Option.not_isSome_iff_eq_none.1 hnone),
          folded_coerce, h, Option.isSome_some, if_pos rfl]

end Expr

end PlZero
