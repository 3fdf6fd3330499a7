import PlZero.Proofs.Expr.Normal

/-! What folding leaves in place. An expression can only fold to a constant if there is nothing in
it but constants and operators, so a leaf of any other kind keeps every operator and coercion
around it, and no coercion goes away. -/

namespace PlZero.Expr

/-- An operator or a coercion around a leaf, and on which side of the operator the leaf is. -/
inductive Layer where
  | unary (loc : Location) (op : UnaryOp)
  | left (loc : Location) (op : BinaryOp)
  | right (loc : Location) (op : BinaryOp)
  | coerce (c : Coercion)
  deriving DecidableEq, Repr

/-- A leaf with the layers around it, the outermost first. -/
structure Leaf where
  layers : List Layer
  content : Expr
  deriving DecidableEq, Repr

/-- The leaf inside one layer more. -/
def Leaf.inside (layer : Layer) (leaf : Leaf) : Leaf := ⟨layer :: leaf.layers, leaf.content⟩

/-- The leaves that are not constants, from left to right. -/
def openLeaves : Expr → List Leaf
  | unary loc op e => e.openLeaves.map (Leaf.inside (.unary loc op))
  | binary loc op l r =>
    l.openLeaves.map (Leaf.inside (.left loc op)) ++ r.openLeaves.map (Leaf.inside (.right loc op))
  | coerce _ c e => e.openLeaves.map (Leaf.inside (.coerce c))
  | const _ _ => []
  | e => [⟨[], e⟩]

/-- Errors and names, resolved or not. -/
def isOpen : Expr → Bool
  | error _ | identifier _ _ | var _ _ _ => true
  | _ => false

def isCoercion (c : Coercion) : Expr → Bool
  | coerce _ d _ => d = c
  | _ => false

/-- Without their layers, the open leaves are the errors and names among the nodes. -/
theorem map_content_openLeaves (e : Expr) :
    e.openLeaves.map Leaf.content = e.nodes.filter isOpen := by
  have hinside (layer : Layer) (leaves : List Leaf) :
      (leaves.map (Leaf.inside layer)).map Leaf.content = leaves.map Leaf.content := by
    rw [List.map_map]
    rfl
  induction e with
  | error _ | const _ _ | identifier _ _ | var _ _ _ => rfl
  | unary loc op e ih => rw [openLeaves, hinside, ih]; rfl
  | binary loc op l r ihl ihr =>
    rw [openLeaves, List.map_append, hinside, hinside, ihl, ihr, ← List.filter_append]
    rfl
  | coerce loc c e ih => rw [openLeaves, hinside, ih]; rfl

/-! ### Folding -/

theorem foldBlind_openLeaves : FoldBlind openLeaves where
  unary loc op _ _ h := by rw [openLeaves, h, openLeaves]
  binary loc op _ _ _ _ hl hr := by rw [openLeaves, hl, hr, openLeaves]
  coerce loc loc' c _ _ h := by rw [openLeaves, h, openLeaves]
  unaryResult loc p _ _ _ _ := rfl
  binaryResult loc p q _ _ _ _ _ := rfl

theorem foldBlind_coercions (c : Coercion) :
    FoldBlind fun e => e.nodes.countP (isCoercion c) where
  unary loc op _ _ h := by simpa [nodes, isCoercion] using h
  binary loc op l l' r r' hl hr := by
    change l'.nodes.countP (isCoercion c) = l.nodes.countP (isCoercion c) at hl
    change r'.nodes.countP (isCoercion c) = r.nodes.countP (isCoercion c) at hr
    simp [nodes, isCoercion, hl, hr]
  coerce loc loc' d _ _ h := by simpa [nodes, isCoercion, List.countP_cons] using h
  unaryResult loc p _ _ _ _ := rfl
  binaryResult loc p q _ _ _ _ _ := rfl

/-- Folding takes away constants and operators on them and nothing else. The errors and names are
the same from left to right, each inside the same operators and coercions and on the same sides,
and there are as many coercions of each kind. -/
theorem folding_keeps_open_leaves {e f : Expr} (h : e.fold? = some f) :
    f.nodes.filter isOpen = e.nodes.filter isOpen ∧
    f.openLeaves = e.openLeaves ∧
    ∀ c, f.nodes.countP (isCoercion c) = e.nodes.countP (isCoercion c) := by
  obtain rfl := folded_of_fold? h
  have hleaves := foldBlind_openLeaves.folded e
  refine ⟨?_, hleaves, fun c => (foldBlind_coercions c).folded e⟩
  rw [← map_content_openLeaves, hleaves, map_content_openLeaves]

/-- A name and a product of constants, summed and narrowed, and from that the opposite of an error
is taken away. The coercion is placed before its operand. -/
def openDifference (product : Expr) (loc : Location) : Expr :=
  binary ⟨1, 20⟩ .sub
    (coerce loc .narrow (binary ⟨1, 10⟩ .add (identifier ⟨1, 8⟩ "n") product))
    (unary ⟨1, 22⟩ .neg (error ⟨1, 23⟩))

theorem open_leaves_of_openDifference :
    let e := openDifference (binary ⟨1, 14⟩ .mul (const ⟨1, 12⟩ 2) (const ⟨1, 16⟩ 3)) ⟨1, 1⟩
    let f := openDifference (const ⟨1, 14⟩ 6) ⟨1, 10⟩
    e.fold? = some f ∧
    f.openLeaves = [
      ⟨[.left ⟨1, 20⟩ .sub, .coerce .narrow, .left ⟨1, 10⟩ .add], identifier ⟨1, 8⟩ "n"⟩,
      ⟨[.right ⟨1, 20⟩ .sub, .unary ⟨1, 22⟩ .neg], error ⟨1, 23⟩⟩] ∧
    f.openLeaves = e.openLeaves ∧
    f.nodes.countP (isCoercion .narrow) = e.nodes.countP (isCoercion .narrow) := by
  intro e f
  have hfold : e.fold? = some f := by decide
  obtain ⟨-, hleaves, hcoercions⟩ := folding_keeps_open_leaves hfold
  exact ⟨hfold, rfl, hleaves, hcoercions .narrow⟩

end PlZero.Expr
