import PlZero.Proofs.Identifier
import PlZero.Proofs.ScopeTable.Run

/-! The representation invariant of a table. Scopes form a tree in which a parent is older
than its scope and one level higher, and every procedure entry agrees with the symbol that
declares it and with the scope opened for its locals. -/

namespace PlZero.ScopeTable

variable {t t' : ScopeTable} {s x : ScopeId} {name : String} {symbol : Symbol} {k : Nat}

/-- What a procedure entry says is what the scopes show. -/
structure Describes (t : ScopeTable) (p : ProcedureId) (entry : ProcedureEntry) : Prop where
  defining : entry.definingScope.index < t.scopeCount
  locals : entry.localScope.index < t.scopeCount
  parent : t.parent entry.localScope = .ok (some entry.definingScope)
  declared : ∃ level, t.declared? entry.definingScope entry.name =
    some ⟨.procedure p, entry.line, level⟩

structure WellFormed (t : ScopeTable) : Prop where
  root_parent : t.parent .root = .ok none
  root_level : t.level .root = .ok 0
  nested : ∀ s : ScopeId, s ≠ .root → s.index < t.scopeCount →
    ∃ (p : ScopeId) (k : Nat), t.parent s = .ok (some p) ∧ p.index < s.index ∧
      t.level p = .ok k ∧ t.level s = .ok (k + 1)
  names : ∀ (s : ScopeId) (name : String) (symbol : Symbol),
    t.declared? s name = some symbol → MatchesIdentifier name
  entries : ∀ (p : ProcedureId) (entry : ProcedureEntry),
    t.procedure p = .ok entry → t.Describes p entry
  distinct : ∀ (p q : ProcedureId) (e f : ProcedureEntry), t.procedure p = .ok e →
    t.procedure q = .ok f → e.localScope = f.localScope → p = q

theorem WellFormed.empty : WellFormed .empty where
  root_parent := rfl
  root_level := rfl
  nested s hroot hs := by
    have h0 : s.index = 0 := by simpa [scopeCount, ScopeTable.empty] using hs
    exact absurd (congrArg ScopeId.mk h0) hroot
  names s name symbol h := nomatch (declared?_empty s name).symm.trans h
  entries p entry h := nomatch h
  distinct p q e f h := nomatch h

/-! ### What keeps the invariant -/

theorem Describes.opened {p : ProcedureId} {entry : ProcedureEntry} (h : t.Describes p entry) :
    (t.opened s k).Describes p entry where
  defining := by have := h.defining; rw [scopeCount_opened]; omega
  locals := by have := h.locals; rw [scopeCount_opened]; omega
  parent := parent_opened_of_parent h.parent
  declared := by simpa using h.declared

theorem WellFormed.opened (h : t.WellFormed) (hk : t.level s = .ok k) :
    (t.opened s k).WellFormed where
  root_parent := parent_opened_of_parent h.root_parent
  root_level := level_opened_of_level h.root_level
  nested x hroot hx := by
    rw [scopeCount_opened] at hx
    rcases Nat.lt_succ_iff_lt_or_eq.1 hx with hx | hx
    · obtain ⟨p, j, hp, hlt, hpj, hxj⟩ := h.nested x hroot hx
      exact ⟨p, j, parent_opened_of_parent hp, hlt, level_opened_of_level hpj,
        level_opened_of_level hxj⟩
    · refine ⟨s, k, ?_, ?_, level_opened_of_level hk, ?_⟩
      · rw [parent_opened, if_pos hx]
      · rw [hx]; exact lt_of_level hk
      · rw [level_opened, if_pos hx]
  names x n symbol hd := h.names x n symbol (by simpa using hd)
  entries p entry hp := (h.entries p entry hp).opened
  distinct := h.distinct

theorem Describes.holding {p : ProcedureId} {entry : ProcedureEntry} (h : t.Describes p entry)
    (hs : s.index < t.scopeCount) (fresh : t.declared? s name = none) :
    (t.holding s name symbol).Describes p entry where
  defining := by simpa using h.defining
  locals := by simpa using h.locals
  parent := by simpa using h.parent
  declared := by
    obtain ⟨level, hd⟩ := h.declared
    refine ⟨level, ?_⟩
    rw [declared?_holding hs, if_neg, hd]
    -- the entry's name is already taken in its scope, and the new one is not
    rintro ⟨rfl, rfl⟩
    rw [fresh] at hd
    exact nomatch hd

theorem WellFormed.holding (h : t.WellFormed) (hv : isIdentifier name = true)
    (hs : s.index < t.scopeCount) (fresh : t.declared? s name = none) :
    (t.holding s name symbol).WellFormed where
  root_parent := by simpa using h.root_parent
  root_level := by simpa using h.root_level
  nested x hroot hx := by simpa using h.nested x hroot (by simpa using hx)
  names x n held hd := by
    rw [declared?_holding hs] at hd
    split_ifs at hd with hxn
    · rw [hxn.2]
      exact (isIdentifier_iff name).1 hv
    · exact h.names x n held hd
  entries p entry hp := (h.entries p entry hp).holding hs fresh
  distinct := h.distinct

theorem WellFormed.listing (h : t.WellFormed) {entry : ProcedureEntry}
    (he : t.Describes ⟨t.procedureCount⟩ entry)
    (hlocal : ∀ p e, t.procedure p = .ok e → e.localScope ≠ entry.localScope) :
    (t.listing entry).WellFormed where
  root_parent := h.root_parent
  root_level := h.root_level
  nested := h.nested
  names := h.names
  entries p e hp := by
    rw [procedure_listing] at hp
    split_ifs at hp with hlast
    · obtain rfl := Except.ok.inj hp
      obtain ⟨i⟩ := p
      obtain rfl : i = t.procedureCount := hlast
      exact ⟨he.defining, he.locals, he.parent, he.declared⟩
    · have hd := h.entries p e hp
      exact ⟨hd.defining, hd.locals, hd.parent, hd.declared⟩
  distinct p q e f hp hq hef := by
    rw [procedure_listing] at hp hq
    split_ifs at hp hq with hlast hlast'
    · obtain ⟨i⟩ := p
      obtain ⟨j⟩ := q
      exact congrArg ProcedureId.mk (hlast.trans hlast'.symm)
    · obtain rfl := Except.ok.inj hp
      exact absurd hef.symm (hlocal q f hq)
    · obtain rfl := Except.ok.inj hq
      exact absurd hef (hlocal p e hp)
    · exact h.distinct p q e f hp hq hef

theorem WellFormed.growth {raw : Bool} (h : t.WellFormed) (g : Growth t raw t') :
    t'.WellFormed := by
  cases g with
  | opening hk => exact h.opened hk
  | declaring hv hs fresh _ => exact h.holding hv hs fresh
  | @procedure s name k line hv hk fresh =>
    have hs := lt_of_level hk
    apply ((h.holding hv hs fresh).opened (by simpa using hk)).listing
    · refine ⟨by simpa using Nat.lt_succ_of_lt hs, by simp, ?_, k, ?_⟩
      · rw [parent_opened, if_pos (by simp)]
      · rw [declared?_opened, declared?_holding hs, if_pos ⟨rfl, rfl⟩]
        rfl
    · intro p e hp heq
      have hlt := (h.entries p e hp).locals
      rw [heq] at hlt
      exact Nat.lt_irrefl _ hlt

theorem WellFormed.after (h : t.WellFormed) (ops : List Operation) : (t.after ops).WellFormed :=
  after_invariant true (fun ht g => ht.growth g) h ops (by simp)

theorem Reachable.wellFormed (h : t.Reachable) : t.WellFormed := by
  obtain ⟨ops, rfl⟩ := h
  exact WellFormed.empty.after ops

/-! ### Symbols of procedures -/

/-- Every symbol that means a procedure was made together with that procedure's entry. -/
def Owned (t : ScopeTable) : Prop :=
  ∀ (s : ScopeId) (name : String) (p : ProcedureId) (line level : Nat),
    t.declared? s name = some ⟨.procedure p, line, level⟩ →
    ∃ l, t.procedure p = .ok ⟨name, line, s, l⟩

theorem Owned.growth (h : t.Owned) (g : Growth t false t') : t'.Owned := by
  cases g with
  | opening hk => intro s name p line level hd; exact h s name p line level (by simpa using hd)
  | declaring hv hs fresh plain =>
    intro x n p line level hd
    rw [declared?_holding hs] at hd
    split_ifs at hd with hxn
    · exact absurd (congrArg Symbol.meaning (Option.some.inj hd)) (plain rfl p)
    · exact h x n p line level hd
  | @procedure s name k line hv hk fresh =>
    intro x n p line' level hd
    rw [declared?_listing, declared?_opened, declared?_holding (lt_of_level hk)] at hd
    rw [procedure_listing]
    split_ifs at hd with hxn
    · obtain ⟨rfl, rfl⟩ := hxn
      simp only [Option.some.injEq, Symbol.mk.injEq, Meaning.procedure.injEq] at hd
      obtain ⟨rfl, rfl, rfl⟩ := hd
      exact ⟨⟨t.scopeCount⟩, if_pos rfl⟩
    · obtain ⟨l, hl⟩ := h x n p line' level hd
      exact ⟨l, (if_neg (Nat.ne_of_lt (lt_of_procedure hl))).trans hl⟩

theorem owned_after {ops : List Operation} (hraw : ∀ op ∈ ops, op.isRaw = false) :
    (empty.after ops).Owned := by
  apply after_invariant false (fun ht g => ht.growth g) _ ops fun _ => hraw
  intro s name p line level hd
  exact nomatch (declared?_empty s name).symm.trans hd

end PlZero.ScopeTable
