import Mathlib.Data.List.Basic
import PlZero.Tree.Render

/-! Rendering deeper. Every line break of a rendered tree is followed by the indentation of some
level at or above the level asked for, so `k` levels more are `k` units more after every line
break. Names are written as they are, so a name with a line break of its own would not move
with the rest. -/

namespace PlZero

/-! ### Texts of one line -/

/-- The text has no line break. -/
def OneLine (text : String) : Prop := '\n' ∉ text.toList

instance (text : String) : Decidable (OneLine text) :=
  inferInstanceAs (Decidable ('\n' ∉ text.toList))

@[simp] theorem oneLine_append {a b : String} : OneLine (a ++ b) ↔ OneLine a ∧ OneLine b := by
  simp [OneLine]

theorem oneLine_intercalate {separator : String} {texts : List String}
    (hseparator : OneLine separator) (htexts : ∀ text ∈ texts, OneLine text) :
    OneLine (separator.intercalate texts) := by
  induction texts with
  | nil => simp [OneLine]
  | cons text rest ih =>
    obtain ⟨htext, hrest⟩ := List.forall_mem_cons.1 htexts
    cases rest with
    | nil => simpa using htext
    | cons next rest =>
      rw [String.intercalate_cons_cons]
      simp [htext, hseparator, ih hrest]

theorem oneLine_repr (n : Nat) : OneLine n.repr := by
  intro hmem
  rw [Nat.toList_repr] at hmem
  exact absurd (Nat.isDigit_of_mem_toDigits (by decide) (by decide) hmem) (by decide)

theorem oneLine_toString (n : Int) : OneLine (toString n) := by
  cases n with
  | ofNat n => exact oneLine_repr n
  | negSucc n => exact oneLine_append.2 ⟨by decide, oneLine_repr (n + 1)⟩

theorem BinaryOp.oneLine_symbol (op : BinaryOp) : OneLine op.symbol := by
  cases op <;> decide

theorem Coercion.oneLine_name (c : Coercion) : OneLine c.name := by
  cases c <;> decide

/-! ### Names in a text -/

/-- The names that an expression is written with. -/
def Expr.names : Expr → List String
  | error _ | const _ _ => []
  | identifier _ name | var _ name _ => [name]
  | unary _ _ e | coerce _ _ e => e.names
  | binary _ _ l r => l.names ++ r.names

theorem Expr.oneLine_text (e : Expr) (h : ∀ name ∈ e.names, OneLine name) : OneLine e.text := by
  induction e with
  | error => exact (by decide : OneLine errorMark)
  | const _ value => exact oneLine_toString value.toInt
  | identifier _ name | var _ name _ => exact h name (List.mem_singleton_self name)
  | unary _ op e ih =>
    cases op <;> exact oneLine_append.2 ⟨by decide, ih h⟩
  | binary _ op l r ihl ihr =>
    obtain ⟨hl, hr⟩ := List.forall_mem_append.1 h
    have hblank : OneLine " " := by decide
    simp only [text, oneLine_append]
    exact ⟨⟨⟨⟨⟨⟨by decide, ihl hl⟩, hblank⟩, op.oneLine_symbol⟩, hblank⟩, ihr hr⟩, by decide⟩
  | coerce _ c e ih =>
    simp only [text, oneLine_append]
    exact ⟨⟨⟨c.oneLine_name, by decide⟩, ih h⟩, by decide⟩

/-- The names of every target and value of an assignment. -/
def Assignment.names (a : Assignment) : List String :=
  a.targets.flatMap Expr.names ++ a.values.flatMap Expr.names

theorem oneLine_texts {es : List Expr} (h : ∀ name ∈ es.flatMap Expr.names, OneLine name) :
    OneLine (", ".intercalate (es.map Expr.text)) := by
  apply oneLine_intercalate (by decide)
  intro text hmem
  obtain ⟨e, he, rfl⟩ := List.mem_map.1 hmem
  exact e.oneLine_text fun name hname => h name (List.mem_flatMap.2 ⟨e, he, hname⟩)

theorem Assignment.oneLine_text (a : Assignment) (h : ∀ name ∈ a.names, OneLine name) :
    OneLine a.text := by
  obtain ⟨htargets, hvalues⟩ := List.forall_mem_append.1 h
  simp only [text, oneLine_append]
  exact ⟨⟨oneLine_texts htargets, by decide⟩, oneLine_texts hvalues⟩

/-- The names that a tree is written with: those of its expressions, the names called and the
names of procedures. -/
def Tree.names : {c : Category} → Tree c → List String
  | _, error _ | _, skip _ | _, nil | _, noProcedures | _, noBranches => []
  | _, assign a => a.names
  | _, read _ e | _, write _ e => e.names
  | _, call _ name _ => [name]
  | _, list _ ss => ss.names
  | _, conditional _ condition yes no => condition.names ++ yes.names ++ no.names
  | _, whileLoop _ condition body => condition.names ++ body.names
  | _, doLoop _ bs => bs.names
  | _, ofBlock b => b.names
  | _, ofBranch b => b.names
  | _, cons s rest => s.names ++ rest.names
  | _, block _ _ ps body => ps.names ++ body.names
  | _, procedure _ name _ body rest => name :: (body.names ++ rest.names)
  | _, branch _ condition body _ => condition.names ++ body.names
  | _, orBranch b rest => b.names ++ rest.names

/-! ### Indentation -/

/-- The text with `k` units of indentation put after every line break. -/
def indented (k : Nat) (text : String) : String :=
  .ofList (text.toList.flatMap fun c =>
    if c = '\n' then c :: List.replicate (k * indentWidth) ' ' else [c])

@[simp] theorem indented_append (k : Nat) (a b : String) :
    indented k (a ++ b) = indented k a ++ indented k b := by
  simp [indented]

theorem indented_of_oneLine {text : String} (k : Nat) (h : OneLine text) :
    indented k text = text := by
  have hchars : ∀ c ∈ text.toList,
      (if c = '\n' then c :: List.replicate (k * indentWidth) ' ' else [c]) = [c] := by
    intro c hc
    rw [if_neg]
    rintro rfl
    exact h hc
  rw [indented, List.flatMap_congr hchars, List.flatMap_singleton', String.ofList_toList]

theorem toList_newLine (level : Nat) :
    (newLine level).toList = '\n' :: List.replicate (level * indentWidth) ' ' := by
  have hunit : indentUnit.toList = List.replicate indentWidth ' ' := by decide
  rw [newLine, String.toList_append, String.toList_join, List.flatMap_replicate, hunit,
    List.flatten_replicate_replicate]
  rfl

@[simp] theorem indented_newLine (k level : Nat) :
    indented k (newLine level) = newLine (level + k) := by
  apply String.toList_inj.1
  simp [indented, toList_newLine, List.flatMap_replicate, Nat.add_mul, Nat.add_comm]

/-! ### Trees -/

namespace Tree

/-- Rendering `k` levels deeper indents the text by `k` units. -/
theorem render_add_level {c : Category} (t : Tree c) (h : ∀ name ∈ t.names, OneLine name)
    (l k : Nat) : t.render (l + k) = indented k (t.render l) := by
  have hword : ∀ {word : String}, OneLine word → indented k word = word := indented_of_oneLine k
  induction t generalizing l with
  | error => exact (hword (by decide : OneLine errorMark)).symm
  | skip => exact (hword (by decide : OneLine skipWord)).symm
  | nil | noProcedures | noBranches => exact (hword (by decide : OneLine "")).symm
  | assign a => exact (hword (a.oneLine_text h)).symm
  | read _ e | write _ e =>
    exact (hword (oneLine_append.2 ⟨by decide, e.oneLine_text h⟩)).symm
  | call _ name _ =>
    have hname : OneLine name := h name (List.mem_singleton_self name)
    exact (hword (oneLine_append.2 ⟨by decide, hname⟩)).symm
  | list _ ss ih => exact ih h l
  | ofBlock b ih => exact ih h l
  | ofBranch b ih => exact ih h l
  | conditional _ condition yes no ihyes ihno =>
    simp only [names, List.forall_mem_append] at h
    obtain ⟨⟨hcondition, hyes⟩, hno⟩ := h
    simp (disch := decide) only [render, indented_append, indented_newLine, ← ihyes hyes,
      ← ihno hno, hword (condition.oneLine_text hcondition), hword, Nat.add_right_comm l k 1]
  | whileLoop _ condition body ih =>
    obtain ⟨hcondition, hbody⟩ := List.forall_mem_append.1 h
    simp (disch := decide) only [render, indented_append, indented_newLine, ← ih hbody,
      hword (condition.oneLine_text hcondition), hword, Nat.add_right_comm l k 1]
  | doLoop _ bs ih =>
    simp (disch := decide) only [render, indented_append, indented_newLine, ← ih h, hword,
      Nat.add_right_comm l k 1]
  | cons s rest ihs ihrest =>
    obtain ⟨hs, hrest⟩ := List.forall_mem_append.1 h
    cases rest with
    | nil => exact ihs hs l
    | cons next rest =>
      simp (disch := decide) only [render, indented_append, indented_newLine, ← ihs hs,
        ← ihrest hrest, hword]
  | block _ _ ps body ihps ihbody =>
    obtain ⟨hps, hbody⟩ := List.forall_mem_append.1 h
    simp (disch := decide) only [render, indented_append, indented_newLine, ← ihps hps,
      ← ihbody hbody, hword, Nat.add_right_comm l k 1]
  | procedure _ name _ body rest ihbody ihrest =>
    simp only [names, List.forall_mem_cons, List.forall_mem_append] at h
    obtain ⟨hname, hbody, hrest⟩ := h
    simp (disch := decide) only [render, indented_append, indented_newLine, ← ihbody hbody,
      ← ihrest hrest, hword hname, hword, Nat.add_right_comm l k 1]
  | branch _ condition body exit ih =>
    obtain ⟨hcondition, hbody⟩ := List.forall_mem_append.1 h
    have hexit : OneLine (if exit then " " ++ exitWord else "") := by cases exit <;> decide
    simp (disch := decide) only [render, indented_append, ← ih hbody, hword hexit,
      hword (condition.oneLine_text hcondition), hword]
  | orBranch b rest ihb ihrest =>
    obtain ⟨hb, hrest⟩ := List.forall_mem_append.1 h
    simp only [render, indented_append, indented_newLine, ← ihb hb, ← ihrest hrest]

-- A line break inside a name is not indented.
example : (call ⟨1, 1⟩ "p\nq" none).render (0 + 1) ≠
    indented 1 ((call ⟨1, 1⟩ "p\nq" none).render 0) := by
  decide

end Tree

end PlZero
