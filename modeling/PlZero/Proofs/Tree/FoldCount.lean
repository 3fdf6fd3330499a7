import PlZero.Proofs.Expr.Normal
import PlZero.Proofs.Frame

/-! What a visit of the folder does and counts. It comes to every value and condition of a tree
once, however deep, and puts the folded expression there if there is one. A folded expression is
never the old one, so the count is the number of slots that have changed; and it is never folded
again, so there is nothing left for a second visit. -/

namespace PlZero

theorem Expr.ne_of_fold? {e f : Expr} (h : e.fold? = some f) : f ≠ e := by
  rintro rfl
  exact Nat.lt_irrefl _ (length_nodes_of_fold? h)

theorem Expr.fold?_folded (e : Expr) : e.folded.fold? = none :=
  fold?_eq_none_iff_normal.2 e.normal_folded

/-! ### Sites -/

namespace Site

/-- What has to stand at a site after a visit. -/
inductive FoldsTo : Site → Site → Prop where
  | rewritten {s : ScopeId} {e f : Expr} (h : e.fold? = some f) :
      FoldsTo (expr s .value e) (expr s .value f)
  | kept {s : ScopeId} {e : Expr} (h : e.fold? = none) :
      FoldsTo (expr s .value e) (expr s .value e)
  | target {s : ScopeId} {e : Expr} : FoldsTo (expr s .target e) (expr s .target e)
  | call {s : ScopeId} {loc : Location} {name : String} {entry : Option ProcedureId} :
      FoldsTo (call s loc name entry) (call s loc name entry)

theorem foldsTo_folded (site : Site) : site.FoldsTo site.folded := by
  match site with
  | expr s .value e =>
    cases h : e.fold? with
    | some f =>
      rw [folded, Expr.folded_of_fold? h]
      exact .rewritten h
    | none =>
      rw [folded, Expr.folded_of_fold?_eq_none h]
      exact .kept h
  | expr s .target e => exact .target
  | call s loc name entry => exact .call

/-- The sites that are counted are those that come out different. -/
theorem foldable_eq (site : Site) : site.foldable = decide (site.folded ≠ site) := by
  match site with
  | expr s .value e =>
    cases h : e.fold? with
    | some f => simp [folded, foldable, Expr.folded_of_fold? h, h, Expr.ne_of_fold? h]
    | none => simp [folded, foldable, Expr.folded_of_fold?_eq_none h, h]
  | expr s .target e => simp [folded, foldable]
  | call s loc name entry => simp [folded, foldable]

theorem folded_folded (site : Site) : site.folded.folded = site.folded := by
  match site with
  | expr s .value e => rw [folded, folded, Expr.folded_of_fold?_eq_none e.fold?_folded]
  | expr s .target e => rfl
  | call s loc name entry => rfl

theorem foldable_folded (site : Site) : site.folded.foldable = false := by
  rw [foldable_eq, folded_folded, decide_eq_false (not_not_intro rfl)]

/-- At how many places two lists of sites have something different. -/
def changes (olds news : List Site) : Nat :=
  (olds.zip news).countP fun (old, new) => new ≠ old

theorem changes_map_folded (sites : List Site) :
    changes sites (sites.map folded) = sites.countP foldable := by
  induction sites with
  | nil => rfl
  | cons site rest ih =>
    rw [changes] at ih
    rw [changes, List.map_cons, List.zip_cons_cons, List.countP_cons, List.countP_cons, ih,
      foldable_eq]

end Site

/-! ### The count -/

namespace Tree

variable {c : Category}

theorem count_foldConstants (t : Tree c) (n : Nat) (s : ScopeId) :
    (t.foldConstants n).2 = n + (t.sites s).countP Site.foldable := by
  have h := sites_traverse SlotPass.folding_follows t (x := n) (s := s) trivial
  rw [Site.sweep_fold] at h
  exact (congrArg Prod.snd h).symm

theorem foldConstants_again (t : Tree c) (n m : Nat) :
    (t.foldConstants n).1.foldConstants m = ((t.foldConstants n).1, m) := by
  apply Prod.ext
  · apply eq_of_sites_eq (s := .root) (skeleton_foldConstants _ m)
    rw [sites_foldConstants, sites_foldConstants, List.map_map]
    exact List.map_congr_left fun site _ => site.folded_folded
  · have hnone : ((t.sites .root).map Site.folded).countP Site.foldable = 0 := by
      rw [List.countP_map, List.countP_eq_zero]
      intro site _
      rw [Function.comp_apply, site.foldable_folded]
      exact Bool.false_ne_true
    rw [count_foldConstants _ m .root, sites_foldConstants, hnone, Nat.add_zero]

end Tree

/-- A visit of the folder is not refused anything and comes to an end with the folded tree. In that
the skeleton is the same, each value and condition is what it folds to or as it was, targets and
calls are as they were, and the count has grown by the number of slots that are different. A
visit of the folded tree changes nothing and counts nothing. -/
theorem folding_counts_changes {c : Category} (t : Tree c) (n : Nat) (s : ScopeId) :
    ∃ folded changed, t.visitInPlace .folder n = (folded, .ok (), n + changed) ∧
      t.foldConstants n = (folded, n + changed) ∧
      folded.skeleton = t.skeleton ∧
      List.Forall₂ Site.FoldsTo (t.sites s) (folded.sites s) ∧
      changed = Site.changes (t.sites s) (folded.sites s) ∧
      ∀ m, folded.visitInPlace .folder m = (folded, .ok (), m) ∧
        folded.foldConstants m = (folded, m) := by
  have hrun : t.foldConstants n =
      ((t.foldConstants n).1, n + (t.sites s).countP Site.foldable) :=
    Prod.ext rfl (t.count_foldConstants n s)
  have hsites := t.sites_foldConstants n s
  refine ⟨(t.foldConstants n).1, (t.sites s).countP Site.foldable, ?_, hrun,
    t.skeleton_foldConstants n, ?_, ?_, ?_⟩
  · rw [t.visitInPlace_folder, t.count_foldConstants n s]
  · rw [hsites, List.forall₂_map_right_iff]
    exact List.forall₂_same.2 fun site _ => site.foldsTo_folded
  · rw [hsites, Site.changes_map_folded]
  · intro m
    have hagain := t.foldConstants_again n m
    exact ⟨by rw [Tree.visitInPlace_folder, hagain], hagain⟩

-- A target that could be folded stays as it is and is not counted.
example :
    let sum : Expr := .binary ⟨1, 3⟩ .add (.const ⟨1, 1⟩ 1) (.const ⟨1, 5⟩ 2)
    (Tree.assign ⟨⟨1, 1⟩, [(sum, sum)]⟩).foldConstants 4 =
      (.assign ⟨⟨1, 1⟩, [(sum, .const ⟨1, 3⟩ 3)]⟩, 5) := by
  rfl

end PlZero
