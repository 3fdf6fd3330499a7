import PlZero.Proofs.Tree.Inventory
import PlZero.Tree.Render

/-! What the text of a tree is made of. Slots come into it by their texts only and calls by their
names, so a tree is written like the one that has a name in every slot: its text. The rest of
the characters are those that are written when all slots are empty, and they are the same for
all trees of one skeleton. -/

namespace PlZero

/-! ### Labels in place of expressions -/

namespace Tree

variable (label : Expr → String)

/-- The tree with a name in every slot and no entry at any call. -/
def labelled : {c : Category} → Tree c → Tree c
  | _, assign a => assign { a with pairs := a.pairs.map fun (target, value) =>
      (.identifier default (label target), .identifier default (label value)) }
  | _, read loc target => read loc (.identifier default (label target))
  | _, write loc value => write loc (.identifier default (label value))
  | _, call loc name _ => call loc name none
  | _, list loc ss => list loc ss.labelled
  | _, conditional loc condition yes no =>
    conditional loc (.identifier default (label condition)) yes.labelled no.labelled
  | _, whileLoop loc condition body =>
    whileLoop loc (.identifier default (label condition)) body.labelled
  | _, doLoop loc bs => doLoop loc bs.labelled
  | _, ofBlock b => ofBlock b.labelled
  | _, ofBranch b => ofBranch b.labelled
  | _, cons s rest => cons s.labelled rest.labelled
  | _, block loc scope ps body => block loc scope ps.labelled body.labelled
  | _, procedure loc name entry body rest => procedure loc name entry body.labelled rest.labelled
  | _, branch loc condition body exit =>
    branch loc (.identifier default (label condition)) body.labelled exit
  | _, orBranch b rest => orBranch b.labelled rest.labelled
  | _, error loc => error loc
  | _, skip loc => skip loc
  | _, nil => nil
  | _, noProcedures => noProcedures
  | _, noBranches => noBranches

end Tree

namespace Site

variable (label : Expr → String)

def labelled : Site → Site
  | expr s role e => expr s role (.identifier default (label e))
  | call s loc name _ => call s loc name none

theorem map_labelled_ofPairs (s : ScopeId) (pairs : List (Expr × Expr)) :
    (ofPairs s pairs).map (labelled label) = ofPairs s (pairs.map fun (target, value) =>
      (.identifier default (label target), .identifier default (label value))) := by
  simp only [ofPairs, List.map_flatMap, List.flatMap_map]
  rfl

end Site

namespace Tree

variable {c : Category}

theorem skeleton_labelled (label : Expr → String) (t : Tree c) :
    (t.labelled label).skeleton = t.skeleton := by
  induction t with
  | assign a => simp only [labelled, skeleton, List.map_map]; rfl
  | _ => simp_all only [labelled, skeleton]

theorem sites_labelled (label : Expr → String) (t : Tree c) (s : ScopeId) :
    (t.labelled label).sites s = (t.sites s).map (Site.labelled label) := by
  induction t generalizing s with
  | assign a => exact (Site.map_labelled_ofPairs label s a.pairs).symm
  | _ =>
    simp_all only [labelled, sites, List.map_append, List.map_cons, List.map_nil, Site.labelled]

/-- Only the labels tell trees of one skeleton apart. -/
theorem labelled_eq {label : Expr → String} {t u : Tree c} {s : ScopeId}
    (hk : t.skeleton = u.skeleton)
    (hs : (t.sites s).map (Site.labelled label) = (u.sites s).map (Site.labelled label)) :
    t.labelled label = u.labelled label := by
  apply eq_of_sites_eq (s := s)
  · rw [skeleton_labelled, skeleton_labelled, hk]
  · rw [sites_labelled, sites_labelled, hs]

/-! ### Texts -/

/-- A tree is written by the texts of its slots. -/
theorem render_labelled_text (t : Tree c) (l : Nat) :
    (t.labelled Expr.text).render l = t.render l := by
  induction t generalizing l with
  | assign a =>
    simp only [labelled, render, Assignment.text, Assignment.targets, Assignment.values,
      List.map_map]
    rfl
  | cons s rest ihs ihrest =>
    cases rest with
    | nil => exact ihs l
    | cons next rest =>
      have hrest := ihrest l
      simp only [labelled] at hrest
      simp only [labelled, render, ihs, hrest]
  | _ => simp_all only [labelled, render, Expr.text]

theorem render?_labelled_text (overflow : Overflow) (t : Tree c) (level : UInt64) :
    (t.labelled Expr.text).render? overflow level = t.render? overflow level := by
  induction t generalizing level with
  | assign a =>
    simp only [labelled, render?, Assignment.text, Assignment.targets, Assignment.values,
      List.map_map]
    rfl
  | cons s rest ihs ihrest =>
    cases rest with
    | nil => exact ihs level
    | cons next rest =>
      have hrest := ihrest level
      simp only [labelled] at hrest
      simp only [labelled, render?, ihs, hrest]
  | _ => simp_all only [labelled, render?, Expr.text]

/-- Trees with the same labels have the same text, and room for it at the same levels. -/
theorem render_congr {t u : Tree c} (h : t.labelled Expr.text = u.labelled Expr.text) :
    (∀ level, t.render level = u.render level) ∧
      ∀ overflow level, t.render? overflow level = u.render? overflow level := by
  constructor
  · intro level
    rw [← render_labelled_text, h, render_labelled_text]
  · intro overflow level
    rw [← render?_labelled_text, h, render?_labelled_text]

end Tree

/-! ### Characters -/

/-- How many characters of a text have the property. -/
def countIn (p : Char → Bool) (text : String) : Nat := text.toList.countP p

section CountIn

variable (p : Char → Bool)

@[simp] theorem countIn_empty : countIn p "" = 0 := rfl

@[simp] theorem countIn_append (a b : String) : countIn p (a ++ b) = countIn p a + countIn p b := by
  simp [countIn]

/-- Between texts there is the same, whatever they are. -/
theorem countIn_intercalate (separator : String) (texts : List String) :
    countIn p (separator.intercalate texts) =
      countIn p (separator.intercalate (texts.map fun _ => "")) + countIn p (.join texts) := by
  induction texts with
  | nil => rfl
  | cons text rest ih =>
    cases rest with
    | nil => simp
    | cons next rest =>
      simp only [List.map_cons] at ih
      simp only [List.map_cons, String.intercalate_cons_cons, String.join_cons, countIn_append,
        countIn_empty, ih]
      omega

end CountIn

namespace Tree

variable {c : Category}

/-- The texts of all slots in a row. -/
def wording (t : Tree c) : String := .join (t.slots.map Expr.text)

/-- The slots of an assignment have the characters of its targets and of its values. -/
theorem countIn_wording_assign (p : Char → Bool) (a : Assignment) :
    countIn p (assign a).wording =
      countIn p (.join (a.targets.map Expr.text)) + countIn p (.join (a.values.map Expr.text)) := by
  unfold wording slots Assignment.targets Assignment.values
  induction a.pairs with
  | nil => rfl
  | cons pair rest ih =>
    simp only [List.flatMap_cons, List.map_append, List.map_cons, List.map_nil, String.join_append,
      String.join_cons, String.join_nil, countIn_append, countIn_empty, ih]
    omega

/-- What is written besides the slots is what is written when they are empty. -/
theorem countIn_render (p : Char → Bool) (t : Tree c) (l : Nat) :
    countIn p (t.render l) =
      countIn p ((t.labelled fun _ => "").render l) + countIn p t.wording := by
  induction t generalizing l with
  | error | skip | nil | noProcedures | noBranches | call => rfl
  | assign a =>
    have hempty : ((assign a).labelled fun _ => "").render l =
        ", ".intercalate ((a.targets.map Expr.text).map fun _ => "") ++ " := " ++
          ", ".intercalate ((a.values.map Expr.text).map fun _ => "") := by
      simp only [labelled, render, Assignment.text, Assignment.targets, Assignment.values,
        List.map_map]
      rfl
    have htargets := countIn_intercalate p ", " (a.targets.map Expr.text)
    have hvalues := countIn_intercalate p ", " (a.values.map Expr.text)
    have hwording := countIn_wording_assign p a
    simp only [hempty, render, Assignment.text, countIn_append]
    omega
  | cons s rest ihs ihrest =>
    have hs := ihs l
    have hrest := ihrest l
    cases rest with
    | nil => simpa [labelled, render, wording, slots] using hs
    | cons next rest =>
      simp only [labelled, render, wording, slots, List.map_append, String.join_append,
        countIn_append] at hs hrest ⊢
      omega
  | list loc ss ih => exact ih l
  | ofBlock b ih => exact ih l
  | ofBranch b ih => exact ih l
  | _ =>
    simp_all only [labelled, render, wording, slots, Expr.text, List.map_append, List.map_cons,
      List.map_nil, String.join_append, String.join_cons, String.join_nil, countIn_append,
      countIn_empty]
    omega

end Tree

end PlZero
