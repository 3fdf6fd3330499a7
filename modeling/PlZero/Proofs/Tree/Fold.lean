import Mathlib.Data.List.Forall2
import PlZero.Proofs.Expr.Fold
import PlZero.Proofs.Tree.Sweep
import PlZero.Tree.Traversal

/-! Folding of a whole tree: every value and condition is folded where it stands, all else
stays, and the state grows by the number of slots that changed. -/

namespace PlZero

namespace Site

/-- The site after folding. Targets and calls are not folded. -/
def folded : Site → Site
  | expr s .value e => expr s .value e.folded
  | site => site

/-- Whether folding changes the site. -/
def foldable : Site → Bool
  | expr _ .value e => e.fold?.isSome
  | _ => false

def fold (site : Site) (n : Nat) : Site × Nat := (site.folded, n + site.foldable.toNat)

theorem sweep_fold (sites : List Site) (n : Nat) :
    sweep fold sites n = (sites.map folded, n + sites.countP foldable) := by
  induction sites generalizing n with
  | nil => rfl
  | cons site rest ih =>
    rw [sweep, fold, ih, List.map_cons, List.countP_cons]
    cases site.foldable with
    | false => rfl
    | true => rw [if_pos rfl, Bool.toNat_true, Nat.add_assoc, Nat.add_comm 1]

end Site

theorem SlotPass.folding_follows : folding.Follows Site.fold fun _ _ => True where
  expr {n s} _ role e := by
    cases role with
    | target => rfl
    | value =>
      simp only [folding, Site.fold, Site.folded, Site.foldable, Expr.folded]
      cases e.fold? <;> rfl
  entry _ _ _ _ := rfl
  stays _ _ := trivial
  enters _ _ := trivial
  visit_enter _ _ _ := rfl
  leave_enter _ _ := rfl

namespace Tree

variable {c : Category}

theorem sites_foldConstants (t : Tree c) (n : Nat) (s : ScopeId) :
    (t.foldConstants n).1.sites s = (t.sites s).map Site.folded := by
  have h := sites_traverse SlotPass.folding_follows t (x := n) (s := s) trivial
  rw [Site.sweep_fold] at h
  exact (congrArg Prod.fst h).symm

theorem skeleton_foldConstants (t : Tree c) (n : Nat) :
    (t.foldConstants n).1.skeleton = t.skeleton :=
  skeleton_traverse SlotPass.folding t n

end Tree

/-! ### Meaning -/

/-- Sites that mean the same: a value may be another expression of the same value, under
every interpretation; at any other site there is the very same. -/
inductive Site.SameMeaning : Site → Site → Prop where
  | value {s : ScopeId} {e e' : Expr} (h : ∀ I, e'.eval I = e.eval I) :
      SameMeaning (expr s .value e) (expr s .value e')
  | same {site : Site} (h : ∀ s e, site ≠ expr s .value e) : SameMeaning site site

theorem Site.sameMeaning_folded (site : Site) : site.SameMeaning site.folded := by
  match site with
  | expr s .value e => exact .value fun I => e.eval_folded I
  | expr s .target e => exact .same fun _ _ h => nomatch h
  | call s loc name entry => exact .same fun _ _ h => nomatch h

/-- A folded expression has the value that the expression had, or none where it had none,
and a folded tree differs only in values and conditions, which mean what they meant. -/
theorem folding_preserves_meaning :
    (∀ (I : Expr.Interpretation) (e f : Expr), e.fold? = some f → f.eval I = e.eval I) ∧
    ∀ (c : Category) (t : Tree c) (n : Nat) (s : ScopeId),
      (t.foldConstants n).1.skeleton = t.skeleton ∧
      List.Forall₂ Site.SameMeaning (t.sites s) ((t.foldConstants n).1.sites s) := by
  constructor
  · intro I e f h
    rw [← Expr.folded_of_fold? h, Expr.eval_folded]
  · intro c t n s
    refine ⟨t.skeleton_foldConstants n, ?_⟩
    rw [t.sites_foldConstants, List.forall₂_map_right_iff]
    exact List.forall₂_same.2 fun site _ => site.sameMeaning_folded

end PlZero
