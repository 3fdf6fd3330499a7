import PlZero.Proofs.Resolver.Reuse

/-! Calls that already have an entry. A visit does not ask whether a call is bound: if it comes to
the call and finds a procedure for the name, that is the entry from then on, whatever it was
before. So a call is bound once and for all exactly if all the procedures that visits find for it
are the same, and the same as the one it had to begin with. -/

namespace PlZero

/-- The entry of the call at a path, if there is a bound call. -/
def Tree.entryAt? (t : Statement) (path : List Nat) : Option ProcedureId :=
  match t.at? path with
  | some (.call _ _ entry) => entry
  | _ => none

theorem Tree.entryAt?_of_call {t : Statement} {path : List Nat} {loc : Location} {name : String}
    {entry : Option ProcedureId} (h : t.at? path = some (.call loc name entry)) :
    t.entryAt? path = entry := by
  rw [entryAt?, h]

theorem Tree.entryAt?_of_no_call {t : Statement} {path : List Nat}
    (h : ∀ loc name entry, t.at? path ≠ some (.call loc name entry)) :
    t.entryAt? path = none := by
  unfold entryAt?
  split
  · next loc name entry hcall => exact absurd hcall (h loc name entry)
  · rfl

/-- A call stands wherever one stood in a tree with the same skeleton. -/
theorem Tree.exists_call_of_skeleton {t u : Statement} (hk : u.skeleton = t.skeleton)
    {path : List Nat} {loc : Location} {name : String} {entry : Option ProcedureId}
    (h : u.at? path = some (.call loc name entry)) :
    ∃ old, t.at? path = some (.call loc name old) := by
  have hat : (t.at? path).map skeleton = some (.call loc name none) := by
    rw [← at?_skeleton, ← hk, at?_skeleton, h]
    rfl
  obtain ⟨sub, hsub, hcall⟩ := Option.map_eq_some_iff.1 hat
  cases sub with
  | call loc' name' old =>
    obtain ⟨rfl, rfl, -⟩ := call.inj hcall
    exact ⟨old, hsub⟩
  | _ => cases hcall

theorem ScopeTable.callee?_of_unknown {table : ScopeTable} {s : ScopeId}
    (hs : ¬ s.index < table.scopeCount) (name : String) : table.callee? s name = none := by
  rw [callee?, found?_of_unknown hs]

namespace Resolver

open PlZero.Tree

/-! ### One visit -/

/-- A visit of the tree comes to the node at the path: nothing before it stops the visit. -/
def Arrives (table : ScopeTable) (r : Resolver) (t : Statement) (path : List Nat) : Prop :=
  ∀ site ∈ t.sitesBefore path r.current, ¬ site.Dangling table

instance (table : ScopeTable) (r : Resolver) (t : Statement) (path : List Nat) :
    Decidable (Arrives table r t path) :=
  inferInstanceAs (Decidable (∀ site ∈ _, ¬ _))

/-- The procedure that a visit finds for the call at the path, if it comes to a call there. -/
def finds? (table : ScopeTable) (r : Resolver) (t : Statement) (path : List Nat) :
    Option ProcedureId :=
  match t.at? path with
  | some (.call _ name _) =>
    if Arrives table r t path then table.callee? (t.scopeAt path r.current) name else none
  | _ => none

section Call

variable {table : ScopeTable} {r : Resolver} {t : Statement} {path : List Nat} {loc : Location}
  {name : String} {entry : Option ProcedureId}

theorem finds?_of_call (h : t.at? path = some (call loc name entry)) : finds? table r t path =
    if Arrives table r t path then table.callee? (t.scopeAt path r.current) name else none := by
  rw [finds?, h]

theorem finds?_of_no_call (h : ∀ loc name entry, t.at? path ≠ some (call loc name entry)) :
    finds? table r t path = none := by
  unfold finds?
  split
  · next loc name entry hcall => exact absurd hcall (h loc name entry)
  · rfl

/-- A call in a scope that the table does not have stops the visit, and there is no procedure to
be found from there either. -/
theorem settle_call (s : ScopeId) :
    settle table [.call s loc name entry] =
      [.call s loc name ((table.callee? s name).or entry)] := by
  by_cases hs : s.index < table.scopeCount
  · have hgoing : (Site.call s loc name entry).stuck table = false := stuck_of_known hs
    simp [settle, reached, unreached, hgoing, Site.resolved]
  · have hstuck : (Site.call s loc name entry).stuck table = true := by
      simp [Site.stuck, Site.scope, Site.hasName, Nat.le_of_not_lt hs]
    simp [settle, reached, unreached, hstuck, ScopeTable.callee?_of_unknown hs]

theorem call_at?_visited (h : t.at? path = some (call loc name entry)) :
    (resolve table r t).1.at? path =
      some (call loc name ((finds? table r t path).or entry)) := by
  obtain ⟨rest, hrest⟩ := sites_of_at? h r.current
  have hsites : (resolve table r t).1.sites r.current = settle table (t.sites r.current) :=
    sites_resolve table r t
  have hskeleton := skeleton_resolve table r t
  rw [hrest, sites] at hsites
  rw [finds?_of_call h]
  by_cases harrives : Arrives table r t path
  · have hclear : unreached table (t.sitesBefore path r.current) = [] := by
      rw [unreached_eq_nil_iff]
      intro site hsite
      exact Site.not_dangling_iff.1 (harrives site hsite)
    obtain ⟨more, hmore⟩ :=
      exists_settle_append table [.call (t.scopeAt path r.current) loc name entry] rest
    rw [settle_append_of_clear hclear, hmore, settle_call] at hsites
    rw [if_pos harrives]
    exact at?_of_sites h hskeleton rfl (List.length_map _) hsites
  · have hstopped : unreached table (t.sitesBefore path r.current) ≠ [] := by
      rw [Ne, unreached_eq_nil_iff]
      intro hgoing
      exact harrives fun site hsite => Site.not_dangling_iff.2 (hgoing site hsite)
    rw [settle_append_of_stopped hstopped] at hsites
    rw [if_neg harrives]
    exact at?_of_sites h hskeleton rfl (length_settle _) hsites

end Call

/-- What a visit finds replaces the entry; an entry stays only if nothing is found. -/
theorem entryAt?_visited (table : ScopeTable) (r : Resolver) (t : Statement) (path : List Nat) :
    (resolve table r t).1.entryAt? path = (finds? table r t path).or (t.entryAt? path) := by
  by_cases hcall : ∃ loc name entry, t.at? path = some (call loc name entry)
  · obtain ⟨loc, name, entry, h⟩ := hcall
    rw [entryAt?_of_call (call_at?_visited h), entryAt?_of_call h]
  · have hnone : ∀ loc name entry, t.at? path ≠ some (call loc name entry) :=
      fun loc name entry h => hcall ⟨loc, name, entry, h⟩
    have hvisited : ∀ loc name entry,
        (resolve table r t).1.at? path ≠ some (call loc name entry) := by
      intro loc name entry h
      obtain ⟨old, hold⟩ := exists_call_of_skeleton (skeleton_resolve table r t) h
      exact hnone loc name old hold
    rw [entryAt?_of_no_call hvisited, finds?_of_no_call hnone, entryAt?_of_no_call hnone]
    rfl

/-! ### A history of visits -/

/-- The entries of the call at the path: the one it has, and the one it has after each visit. The
visits may be against different tables and by resolvers in whatever state. -/
def entries (path : List Nat) : Statement → List (ScopeTable × Resolver) →
    List (Option ProcedureId)
  | t, [] => [t.entryAt? path]
  | t, (table, r) :: visits => t.entryAt? path :: entries path (resolve table r t).1 visits

/-- The procedures that the visits find for the call, one after another. -/
def found (path : List Nat) : Statement → List (ScopeTable × Resolver) → List ProcedureId
  | _, [] => []
  | t, (table, r) :: visits =>
    (finds? table r t path).toList ++ found path (resolve table r t).1 visits

/-- A later entry is the same as an earlier one, unless there was none earlier. -/
def Keeps (earlier later : Option ProcedureId) : Prop := earlier = none ∨ later = earlier

instance (earlier later : Option ProcedureId) : Decidable (Keeps earlier later) :=
  inferInstanceAs (Decidable (_ ∨ _))

/-- If both are entries, they are the same one. -/
def Agree (x y : Option ProcedureId) : Prop := ∀ a b, x = some a → y = some b → a = b

section History

variable {path : List Nat} {t : Statement} {visits : List (ScopeTable × Resolver)}

/-- The procedures that are entries at some time are the one the call has and those that the
visits find. -/
theorem some_mem_entries_iff {id : ProcedureId} : some id ∈ entries path t visits ↔
    id ∈ (t.entryAt? path).toList ++ found path t visits := by
  induction visits generalizing t with
  | nil => simp [entries, found, eq_comm]
  | cons visit visits ih =>
    obtain ⟨table, r⟩ := visit
    rw [entries, found, List.mem_cons, ih, entryAt?_visited]
    cases finds? table r t path <;> simp [eq_comm]

/-- No visit takes an entry away. -/
theorem isSome_of_mem_entries (h : (t.entryAt? path).isSome) :
    ∀ later ∈ entries path t visits, later.isSome := by
  induction visits generalizing t with
  | nil => exact List.forall_mem_singleton.2 h
  | cons visit visits ih =>
    obtain ⟨table, r⟩ := visit
    refine List.forall_mem_cons.2 ⟨h, ih ?_⟩
    rw [entryAt?_visited, Option.isSome_or, h, Bool.or_true]

theorem pairwise_isSome_entries :
    (entries path t visits).Pairwise fun earlier later => earlier.isSome → later.isSome := by
  induction visits generalizing t with
  | nil => exact List.pairwise_singleton _ _
  | cons visit visits ih =>
    obtain ⟨table, r⟩ := visit
    refine List.pairwise_cons.2 ⟨?_, ih⟩
    intro later hlater hsome
    refine isSome_of_mem_entries ?_ later hlater
    rw [entryAt?_visited, Option.isSome_or, hsome, Bool.or_true]

/-- Entries are kept exactly if there are no two procedures among them. -/
theorem pairwise_keeps_iff : (entries path t visits).Pairwise Keeps ↔
    ∀ a b, some a ∈ entries path t visits → some b ∈ entries path t visits → a = b := by
  constructor
  · intro h a b ha hb
    -- of the two, either may be the earlier one
    have hforth : (entries path t visits).Pairwise Agree := by
      refine h.imp ?_
      rintro x y (rfl | rfl) a b hx hy
      · cases hx
      · exact Option.some.inj (hx.symm.trans hy)
    have hback : (entries path t visits).Pairwise (flip Agree) :=
      hforth.imp fun hxy a b hy hx => (hxy b a hx hy).symm
    have hself : ∀ x ∈ entries path t visits, Agree x x :=
      fun x _ a b hx hx' => Option.some.inj (hx.symm.trans hx')
    exact hforth.forall_of_forall_of_flip hself hback ha hb a b rfl rfl
  · intro h
    refine pairwise_isSome_entries.imp_of_mem ?_
    intro earlier later hearlier hlater hsome
    cases earlier with
    | none => exact .inl rfl
    | some a =>
      obtain ⟨b, rfl⟩ := Option.isSome_iff_exists.1 (hsome rfl)
      exact .inr (congrArg some (h b a hlater hearlier))

end History

/-- A call that has an entry keeps it through a visit, whether the visit succeeds or fails,
exactly if the visit finds no other procedure for it. Over a history of visits, against whatever
tables, entries are kept from the first one on exactly if the entry at the start and all the
procedures that the visits find are one and the same. -/
theorem entry_kept_iff_same_found (t : Statement) (path : List Nat) :
    (∀ (table : ScopeTable) (r : Resolver) (e : ProcedureId), t.entryAt? path = some e →
      ((resolve table r t).1.entryAt? path = some e ↔
        ∀ id, finds? table r t path = some id → id = e)) ∧
    ∀ visits : List (ScopeTable × Resolver), (entries path t visits).Pairwise Keeps ↔
      ∀ a ∈ (t.entryAt? path).toList ++ found path t visits,
        ∀ b ∈ (t.entryAt? path).toList ++ found path t visits, a = b := by
  constructor
  · intro table r e he
    rw [entryAt?_visited, he]
    cases finds? table r t path <;> simp
  · intro visits
    rw [pairwise_keeps_iff]
    simp only [some_mem_entries_iff]
    exact ⟨fun h a ha b hb => h a b ha hb, fun h a b ha hb => h a ha b hb⟩

/-- Two procedures of one name, the second inside the first. -/
def shadowTable : ScopeTable :=
  ScopeTable.empty.after [.defineProcedure .root "p" 1, .defineProcedure ⟨1⟩ "p" 2]

/-- The block of the first procedure, which calls the second. -/
def shadowProgram : Statement :=
  .ofBlock (.block ⟨1, 3⟩ ⟨1⟩ .noProcedures (.call ⟨3, 5⟩ "p" none))

-- As part of its block the call finds the inner procedure, and on its own the outer one.
example : (resolve shadowTable {} shadowProgram).1.entryAt? [0] = some ⟨1⟩ ∧
    finds? shadowTable {} (.call ⟨3, 5⟩ "p" (some ⟨1⟩)) [] = some ⟨0⟩ := by
  decide

/-- A bound call does not keep its entry through every visit. -/
theorem visit_rebinds_shadowCall : ¬ ∀ (table : ScopeTable) (r : Resolver) (t : Statement)
    (path : List Nat) (e : ProcedureId), t.entryAt? path = some e →
      (resolve table r t).1.entryAt? path = some e := by
  intro h
  have hkept := h shadowTable {} (.call ⟨3, 5⟩ "p" (some ⟨1⟩)) [] ⟨1⟩ rfl
  exact absurd hkept (by decide)

end Resolver

end PlZero
