import PlZero.ScopeTable.Basic

/-! What a declarable name looks like, character by character. -/

namespace PlZero

/-- The pattern `[A-Za-z_][A-Za-z0-9_]*` on a whole text. -/
def MatchesIdentifier (name : String) : Prop :=
  ∃ (c : Char) (rest : List Char), name.toList = c :: rest ∧
    ('A' ≤ c ∧ c ≤ 'Z' ∨ 'a' ≤ c ∧ c ≤ 'z' ∨ c = '_') ∧
    ∀ d ∈ rest, 'A' ≤ d ∧ d ≤ 'Z' ∨ 'a' ≤ d ∧ d ≤ 'z' ∨ '0' ≤ d ∧ d ≤ '9' ∨ d = '_'

theorem isUpper_iff (c : Char) : c.isUpper = true ↔ 'A' ≤ c ∧ c ≤ 'Z' := decide_eq_true_iff

theorem isLower_iff (c : Char) : c.isLower = true ↔ 'a' ≤ c ∧ c ≤ 'z' :=
  Bool.and_eq_true_iff.trans (and_congr decide_eq_true_iff decide_eq_true_iff)

theorem isDigit_iff (c : Char) : c.isDigit = true ↔ '0' ≤ c ∧ c ≤ '9' :=
  Bool.and_eq_true_iff.trans (and_congr decide_eq_true_iff decide_eq_true_iff)

theorem isAlpha_iff (c : Char) :
    c.isAlpha = true ↔ 'A' ≤ c ∧ c ≤ 'Z' ∨ 'a' ≤ c ∧ c ≤ 'z' :=
  Bool.or_eq_true_iff.trans (or_congr (isUpper_iff c) (isLower_iff c))

theorem isAlphanum_iff (c : Char) :
    c.isAlphanum = true ↔ ('A' ≤ c ∧ c ≤ 'Z' ∨ 'a' ≤ c ∧ c ≤ 'z') ∨ '0' ≤ c ∧ c ≤ '9' :=
  Bool.or_eq_true_iff.trans (or_congr (isAlpha_iff c) (isDigit_iff c))

theorem startsIdentifier_iff (c : Char) : startsIdentifier c = true ↔
    'A' ≤ c ∧ c ≤ 'Z' ∨ 'a' ≤ c ∧ c ≤ 'z' ∨ c = '_' := by
  rw [startsIdentifier, Bool.or_eq_true, isAlpha_iff, beq_iff_eq, or_assoc]

theorem continuesIdentifier_iff (c : Char) : continuesIdentifier c = true ↔
    'A' ≤ c ∧ c ≤ 'Z' ∨ 'a' ≤ c ∧ c ≤ 'z' ∨ '0' ≤ c ∧ c ≤ '9' ∨ c = '_' := by
  rw [continuesIdentifier, Bool.or_eq_true, isAlphanum_iff, beq_iff_eq, or_assoc, or_assoc]

theorem continues_of_starts {c : Char} (h : startsIdentifier c = true) :
    continuesIdentifier c = true := by
  rw [continuesIdentifier_iff]
  rcases (startsIdentifier_iff c).1 h with hc | hc | hc
  · exact .inl hc
  · exact .inr (.inl hc)
  · exact .inr (.inr (.inr hc))

theorem not_digit_of_starts {c : Char} (h : startsIdentifier c = true) : c.isDigit = false := by
  rw [Bool.eq_false_iff, Ne, isDigit_iff]
  rintro ⟨-, hnine⟩
  rcases (startsIdentifier_iff c).1 h with ⟨hc, -⟩ | ⟨hc, -⟩ | rfl
  · exact absurd (Char.le_trans hc hnine) (by decide)
  · exact absurd (Char.le_trans hc hnine) (by decide)
  · exact absurd hnine (by decide)

theorem exists_chars_of_matches {name : String} (h : MatchesIdentifier name) :
    ∃ c cs, name.toList = c :: cs ∧ startsIdentifier c = true ∧
      ∀ d ∈ c :: cs, continuesIdentifier d = true := by
  obtain ⟨c, cs, hname, hc, hcs⟩ := h
  have hstarts := (startsIdentifier_iff c).2 hc
  refine ⟨c, cs, hname, hstarts, List.forall_mem_cons.2 ⟨continues_of_starts hstarts, ?_⟩⟩
  intro d hd
  exact (continuesIdentifier_iff d).2 (hcs d hd)

theorem isIdentifier_iff (name : String) : isIdentifier name = true ↔ MatchesIdentifier name := by
  unfold isIdentifier MatchesIdentifier
  cases name.toList with
  | nil => simp
  | cons c rest =>
    simp only [Bool.and_eq_true, List.all_eq_true, startsIdentifier_iff, continuesIdentifier_iff]
    constructor
    · rintro ⟨hc, hrest⟩
      exact ⟨c, rest, rfl, hc, hrest⟩
    · rintro ⟨d, more, heq, hd, hmore⟩
      obtain ⟨rfl, rfl⟩ := List.cons.inj heq
      exact ⟨hd, hmore⟩

end PlZero
