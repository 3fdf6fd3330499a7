import PlZero.Proofs.Tree.Render

/-! Rendering with words for levels. A program gives the text of a level exactly where there is
room for every line that it begins and for the whole; a line has room at the first quarter of
the words, and a text of many lines at fewer. So that is where it indents a text by rendering
it at a deeper level. Past that it panics, or without overflow checks a loop begins its line at
the left again. -/

namespace PlZero

/-! ### Room for lines -/

/-- There is room for a line break at the level. -/
def HasRoom (level : Nat) : Prop := 1 + level * indentWidth ≤ maxCapacity

instance (level : Nat) : Decidable (HasRoom level) :=
  inferInstanceAs (Decidable (1 + level * indentWidth ≤ maxCapacity))

/-- The levels with room for a line are the first quarter of the words. -/
theorem hasRoom_iff {level : Nat} : HasRoom level ↔ 4 * level < UInt64.size := by
  unfold HasRoom maxCapacity indentWidth UInt64.size
  omega

theorem HasRoom.of_succ {level : Nat} (h : HasRoom (level + 1)) : HasRoom level := by
  rw [hasRoom_iff] at h ⊢
  omega

theorem newLine?_of_hasRoom {level : UInt64} (h : HasRoom level.toNat) :
    newLine? level = some (newLine level.toNat) :=
  if_pos h

theorem newLine?_eq_some_iff {level : UInt64} {text : String} :
    newLine? level = some text ↔ HasRoom level.toNat ∧ newLine level.toNat = text := by
  by_cases h : HasRoom level.toNat
  · simp [newLine?_of_hasRoom h, h]
  · have hnone : newLine? level = none := if_neg h
    simp [hnone, h]

theorem held?_of_le {text : String} (h : text.utf8ByteSize ≤ maxCapacity) :
    held? text = some text :=
  if_pos h

theorem held?_eq_some_iff {a b : String} :
    held? a = some b ↔ a.utf8ByteSize ≤ maxCapacity ∧ a = b := by
  by_cases h : a.utf8ByteSize ≤ maxCapacity
  · simp [held?_of_le h, h]
  · have hnone : held? a = none := if_neg h
    simp [hnone, h]

/-- The level that has no next one. -/
def lastLevel : UInt64 := UInt64.ofNat (UInt64.size - 1)

theorem toNat_lastLevel : lastLevel.toNat = UInt64.size - 1 := by decide

theorem not_hasRoom_lastLevel : ¬ HasRoom lastLevel.toNat := by decide

theorem toNat_add_of_lt {l k : UInt64} (h : l.toNat + k.toNat < UInt64.size) :
    (l + k).toNat = l.toNat + k.toNat := by
  rw [UInt64.toNat_add]
  exact Nat.mod_eq_of_lt h

theorem toNat_add_one {level : UInt64} (h : level ≠ lastLevel) :
    (level + 1).toNat = level.toNat + 1 := by
  have hlt : level.toNat < UInt64.size := level.toNat_lt
  have hne : level.toNat ≠ UInt64.size - 1 := by
    rw [← toNat_lastLevel]
    exact fun heq => h (UInt64.toNat_inj.1 heq)
  apply toNat_add_of_lt
  rw [UInt64.toNat_one]
  omega

theorem ne_lastLevel_of_hasRoom {level : UInt64} (h : HasRoom level.toNat) :
    level ≠ lastLevel := by
  rintro rfl
  exact not_hasRoom_lastLevel h

theorem add_one_ne_lastLevel {level : UInt64} (h : HasRoom level.toNat) :
    level + 1 ≠ lastLevel := by
  intro heq
  have hlast := toNat_add_one (ne_lastLevel_of_hasRoom h)
  rw [heq, toNat_lastLevel] at hlast
  rw [hasRoom_iff] at h
  unfold UInt64.size at hlast h
  omega

namespace Overflow

variable {overflow : Overflow} {level deeper : UInt64}

theorem next?_of_ne_last (overflow : Overflow) (h : level ≠ lastLevel) :
    overflow.next? level = some (level + 1) := by
  cases overflow with
  | wraps => rfl
  | panics =>
    have hsucc := toNat_add_one h
    have hlt := (level + 1).toNat_lt
    rw [next?, if_pos]
    unfold UInt64.size
    omega

/-- After the last level there is only the first one, and only where nothing checks. -/
theorem next?_eq_some_iff : overflow.next? level = some deeper ↔
    deeper = level + 1 ∧ (level = lastLevel → overflow = wraps) := by
  by_cases h : level = lastLevel
  · subst h
    have hnone : panics.next? lastLevel = none := by decide
    cases overflow with
    | panics => simp [hnone]
    | wraps => simp [next?, eq_comm]
  · rw [next?_of_ne_last overflow h]
    simp [h, eq_comm]

end Overflow

theorem utf8ByteSize_newLine (level : Nat) :
    (newLine level).utf8ByteSize = 1 + level * indentWidth := by
  have hunits : (String.join (List.replicate level indentUnit)).utf8ByteSize =
      level * indentWidth := by
    induction level with
    | zero => rfl
    | succ level ih =>
      rw [List.replicate_succ, String.join_cons, String.utf8ByteSize_append, ih, Nat.succ_mul,
        Nat.add_comm]
      rfl
  rw [newLine, String.utf8ByteSize_append, hunits]
  rfl

namespace Tree

variable {c : Category}

/-- A tree is never written shorter at a deeper level. -/
theorem utf8ByteSize_render_le (t : Tree c) {l m : Nat} (h : l ≤ m) :
    (t.render l).utf8ByteSize ≤ (t.render m).utf8ByteSize := by
  induction t generalizing l m with
  | error | skip | assign | read | write | call | nil | noProcedures | noBranches =>
    exact Nat.le_refl _
  | list _ _ ih | ofBlock _ ih | ofBranch _ ih => exact ih h
  | cons s rest ihs ihrest =>
    have hs := ihs h
    have hrest := ihrest h
    cases rest with
    | nil => exact hs
    | cons next rest =>
      simp only [render, String.utf8ByteSize_append, utf8ByteSize_newLine, indentWidth]
      omega
  | conditional _ _ yes no ihyes ihno =>
    have hyes := ihyes (Nat.add_le_add_right h 1)
    have hno := ihno (Nat.add_le_add_right h 1)
    simp only [render, String.utf8ByteSize_append, utf8ByteSize_newLine, indentWidth]
    omega
  | whileLoop _ _ _ ih | doLoop _ _ ih =>
    have hinner := ih (Nat.add_le_add_right h 1)
    simp only [render, String.utf8ByteSize_append, utf8ByteSize_newLine, indentWidth]
    omega
  | block _ _ ps body ihps ihbody =>
    have hps := ihps (Nat.add_le_add_right h 1)
    have hbody := ihbody (Nat.add_le_add_right h 1)
    simp only [render, String.utf8ByteSize_append, utf8ByteSize_newLine, indentWidth]
    omega
  | procedure _ _ _ body rest ihbody ihrest =>
    have hbody := ihbody (Nat.add_le_add_right h 1)
    have hrest := ihrest h
    simp only [render, String.utf8ByteSize_append, utf8ByteSize_newLine, indentWidth]
    omega
  | branch _ _ body _ ih =>
    have hbody := ih h
    simp only [render, String.utf8ByteSize_append]
    omega
  | orBranch b rest ihb ihrest =>
    have hb := ihb h
    have hrest := ihrest h
    simp only [render, String.utf8ByteSize_append, utf8ByteSize_newLine, indentWidth]
    omega

/-- The levels of the lines that are begun when a tree is rendered at a level. A list begins one
for its separator, whether it is used or not. -/
def lineLevels : {c : Category} → Tree c → Nat → List Nat
  | _, error _, _ | _, skip _, _ | _, assign _, _ | _, read _ _, _ | _, write _ _, _
  | _, call _ _ _, _ | _, nil, _ | _, noProcedures, _ | _, noBranches, _ => []
  | _, list _ ss, level => level :: ss.lineLevels level
  | _, conditional _ _ yes no, level =>
    (level + 1) :: yes.lineLevels (level + 1) ++ level :: (level + 1) :: no.lineLevels (level + 1)
  | _, whileLoop _ _ body, level => (level + 1) :: body.lineLevels (level + 1)
  | _, doLoop _ bs, level => bs.lineLevels (level + 1) ++ [level]
  | _, ofBlock b, level => b.lineLevels level
  | _, ofBranch b, level => b.lineLevels level
  | _, cons s nil, level => s.lineLevels level
  | _, cons s rest, level => s.lineLevels level ++ level :: rest.lineLevels level
  | _, block _ _ ps body, level =>
    ps.lineLevels (level + 1) ++ level :: (level + 1) :: body.lineLevels (level + 1) ++ [level]
  | _, procedure _ _ _ body rest, level =>
    level :: body.lineLevels (level + 1) ++ rest.lineLevels level
  | _, branch _ _ body _, level => body.lineLevels level
  | _, orBranch b rest, level => level :: b.lineLevels level ++ rest.lineLevels level

/-- There is room for what is written when the tree is rendered at the level. -/
structure Writable (t : Tree c) (level : Nat) : Prop where
  lines : ∀ line ∈ t.lineLevels level, HasRoom line
  whole : (t.render level).utf8ByteSize ≤ maxCapacity

instance (t : Tree c) (level : Nat) : Decidable (t.Writable level) :=
  decidable_of_iff ((∀ line ∈ t.lineLevels level, HasRoom line) ∧
      (t.render level).utf8ByteSize ≤ maxCapacity)
    ⟨fun h => ⟨h.1, h.2⟩, fun h => ⟨h.lines, h.whole⟩⟩

/-- Where there is room, every build gives the text. -/
theorem render?_of_writable (overflow : Overflow) (t : Tree c) {level : UInt64}
    (h : t.Writable level.toNat) : t.render? overflow level = some (t.render level.toNat) := by
  -- a line break at a level or one deeper says that the level is not the last one
  have deeper : ∀ {level : UInt64}, HasRoom level.toNat →
      overflow.next? level = some (level + 1) ∧ (level + 1).toNat = level.toNat + 1 := by
    intro level hroom
    have hne := ne_lastLevel_of_hasRoom hroom
    exact ⟨overflow.next?_of_ne_last hne, toNat_add_one hne⟩
  obtain ⟨hlines, hwhole⟩ := h
  induction t generalizing level with
  | error | skip | nil | noProcedures | noBranches => rfl
  | assign | read | write | call => exact held?_of_le hwhole
  | ofBlock _ ih | ofBranch _ ih => exact ih hlines hwhole
  | list _ ss ih =>
    simp only [lineLevels, List.forall_mem_cons] at hlines
    rw [render?, newLine?_of_hasRoom hlines.1]
    exact ih hlines.2 hwhole
  | branch _ condition body exit ih =>
    have hparts := hwhole
    simp only [render, String.utf8ByteSize_append] at hparts
    rw [render?, ih hlines (by omega)]
    exact held?_of_le hwhole
  | cons s rest ihs ihrest =>
    cases rest with
    | nil => exact ihs hlines hwhole
    | cons next rest =>
      simp only [lineLevels, List.forall_mem_append, List.forall_mem_cons] at hlines
      obtain ⟨hs, hroom, hrest⟩ := hlines
      have hparts := hwhole
      simp only [render, String.utf8ByteSize_append] at hparts
      simp only [render?, ihs hs (by omega), newLine?_of_hasRoom hroom, ihrest hrest (by omega),
        Option.bind_eq_bind, Option.bind_some]
      exact held?_of_le hwhole
  | orBranch b rest ihb ihrest =>
    simp only [lineLevels, List.forall_mem_append, List.forall_mem_cons] at hlines
    obtain ⟨⟨hroom, hb⟩, hrest⟩ := hlines
    have hparts := hwhole
    simp only [render, String.utf8ByteSize_append] at hparts
    simp only [render?, newLine?_of_hasRoom hroom, ihb hb (by omega), ihrest hrest (by omega),
      Option.bind_eq_bind, Option.bind_some]
    exact held?_of_le hwhole
  | conditional _ condition yes no ihyes ihno =>
    simp only [lineLevels, List.forall_mem_append, List.forall_mem_cons] at hlines
    obtain ⟨⟨hline, hyes⟩, hroom, -, hno⟩ := hlines
    obtain ⟨hnext, hsucc⟩ := deeper hroom
    have hparts := hwhole
    simp only [render, String.utf8ByteSize_append] at hparts
    rw [← hsucc] at hline hyes hno hparts
    simp only [render?, hnext, newLine?_of_hasRoom hline, newLine?_of_hasRoom hroom,
      ihyes hyes (by omega), ihno hno (by omega), hsucc, Option.bind_eq_bind, Option.bind_some]
    exact held?_of_le hwhole
  | whileLoop _ condition body ih =>
    simp only [lineLevels, List.forall_mem_cons] at hlines
    obtain ⟨hline, hbody⟩ := hlines
    obtain ⟨hnext, hsucc⟩ := deeper hline.of_succ
    have hparts := hwhole
    simp only [render, String.utf8ByteSize_append] at hparts
    rw [← hsucc] at hline hbody hparts
    simp only [render?, hnext, newLine?_of_hasRoom hline, ih hbody (by omega), hsucc,
      Option.bind_eq_bind, Option.bind_some]
    exact held?_of_le hwhole
  | doLoop _ bs ih =>
    simp only [lineLevels, List.forall_mem_append, List.forall_mem_singleton] at hlines
    obtain ⟨hbs, hroom⟩ := hlines
    obtain ⟨hnext, hsucc⟩ := deeper hroom
    have hparts := hwhole
    simp only [render, String.utf8ByteSize_append] at hparts
    rw [← hsucc] at hbs hparts
    simp only [render?, hnext, newLine?_of_hasRoom hroom, ih hbs (by omega), hsucc,
      Option.bind_eq_bind, Option.bind_some]
    exact held?_of_le hwhole
  | block _ _ ps body ihps ihbody =>
    simp only [lineLevels, List.forall_mem_append, List.forall_mem_cons] at hlines
    obtain ⟨⟨hps, hroom, hline, hbody⟩, -⟩ := hlines
    obtain ⟨hnext, hsucc⟩ := deeper hroom
    have hparts := hwhole
    simp only [render, String.utf8ByteSize_append] at hparts
    rw [← hsucc] at hps hline hbody hparts
    simp only [render?, hnext, newLine?_of_hasRoom hline, newLine?_of_hasRoom hroom,
      ihps hps (by omega), ihbody hbody (by omega), hsucc, Option.bind_eq_bind, Option.bind_some]
    exact held?_of_le hwhole
  | procedure _ name _ body rest ihbody ihrest =>
    simp only [lineLevels, List.forall_mem_append, List.forall_mem_cons] at hlines
    obtain ⟨⟨hroom, hbody⟩, hrest⟩ := hlines
    obtain ⟨hnext, hsucc⟩ := deeper hroom
    have hparts := hwhole
    simp only [render, String.utf8ByteSize_append] at hparts
    rw [← hsucc] at hbody hparts
    simp only [render?, hnext, newLine?_of_hasRoom hroom, ihbody hbody (by omega),
      ihrest hrest (by omega), hsucc, Option.bind_eq_bind, Option.bind_some]
    exact held?_of_le hwhole

/-- Before the last level, a text is given only where there is room, and it is that of the level. -/
theorem writable_of_render? {overflow : Overflow} {t : Tree c} {level : UInt64} {text : String}
    (hlevel : level ≠ lastLevel) (h : t.render? overflow level = some text) :
    t.Writable level.toNat ∧ t.render level.toNat = text := by
  induction t generalizing level text with
  | error | skip | nil | noProcedures | noBranches =>
    obtain rfl := Option.some.inj h
    refine ⟨⟨List.forall_mem_nil _, ?_⟩, rfl⟩
    simp only [render]
    decide
  | assign | read | write | call =>
    obtain ⟨hwhole, rfl⟩ := held?_eq_some_iff.1 h
    exact ⟨⟨List.forall_mem_nil _, hwhole⟩, rfl⟩
  | ofBlock _ ih | ofBranch _ ih =>
    obtain ⟨hb, rfl⟩ := ih hlevel h
    exact ⟨⟨hb.lines, hb.whole⟩, rfl⟩
  | list _ ss ih =>
    obtain ⟨line, hline, htext⟩ := Option.bind_eq_some_iff.1 h
    obtain ⟨hss, rfl⟩ := ih hlevel htext
    have hroom := (newLine?_eq_some_iff.1 hline).1
    exact ⟨⟨List.forall_mem_cons.2 ⟨hroom, hss.lines⟩, hss.whole⟩, rfl⟩
  | branch _ condition body exit ih =>
    obtain ⟨text, htext, hheld⟩ := Option.bind_eq_some_iff.1 h
    obtain ⟨hbody, rfl⟩ := ih hlevel htext
    obtain ⟨hwhole, rfl⟩ := held?_eq_some_iff.1 hheld
    exact ⟨⟨hbody.lines, hwhole⟩, rfl⟩
  | cons s rest ihs ihrest =>
    cases rest with
    | nil =>
      obtain ⟨hs, rfl⟩ := ihs hlevel h
      exact ⟨⟨hs.lines, hs.whole⟩, rfl⟩
    | cons next rest =>
      simp only [render?, Option.bind_eq_bind, Option.bind_eq_some_iff, newLine?_eq_some_iff,
        held?_eq_some_iff] at h
      obtain ⟨first, hfirst, line, ⟨hroom, rfl⟩, more, hmore, hwhole, rfl⟩ := h
      obtain ⟨hs, rfl⟩ := ihs hlevel hfirst
      obtain ⟨hrest, rfl⟩ := ihrest hlevel hmore
      refine ⟨⟨?_, hwhole⟩, rfl⟩
      simp only [lineLevels, List.forall_mem_append, List.forall_mem_cons]
      exact ⟨hs.lines, hroom, hrest.lines⟩
  | orBranch b rest ihb ihrest =>
    simp only [render?, Option.bind_eq_bind, Option.bind_eq_some_iff, newLine?_eq_some_iff,
      held?_eq_some_iff] at h
    obtain ⟨line, ⟨hroom, rfl⟩, first, hfirst, more, hmore, hwhole, rfl⟩ := h
    obtain ⟨hb, rfl⟩ := ihb hlevel hfirst
    obtain ⟨hrest, rfl⟩ := ihrest hlevel hmore
    refine ⟨⟨?_, hwhole⟩, rfl⟩
    simp only [lineLevels, List.forall_mem_append, List.forall_mem_cons]
    exact ⟨⟨hroom, hb.lines⟩, hrest.lines⟩
  | conditional _ condition yes no ihyes ihno =>
    simp only [render?, Option.bind_eq_bind, Option.bind_eq_some_iff, newLine?_eq_some_iff,
      Overflow.next?_eq_some_iff, held?_eq_some_iff] at h
    obtain ⟨deeper, ⟨rfl, -⟩, -, ⟨hline, rfl⟩, first, hfirst, -, ⟨hroom, rfl⟩, -, ⟨-, rfl⟩, more,
      hmore, hwhole, rfl⟩ := h
    obtain ⟨hyes, rfl⟩ := ihyes (ne_lastLevel_of_hasRoom hline) hfirst
    obtain ⟨hno, rfl⟩ := ihno (ne_lastLevel_of_hasRoom hline) hmore
    rw [toNat_add_one hlevel] at hline hyes hno hwhole ⊢
    refine ⟨⟨?_, hwhole⟩, rfl⟩
    simp only [lineLevels, List.forall_mem_append, List.forall_mem_cons]
    exact ⟨⟨hline, hyes.lines⟩, hroom, hline, hno.lines⟩
  | whileLoop _ condition body ih =>
    simp only [render?, Option.bind_eq_bind, Option.bind_eq_some_iff, newLine?_eq_some_iff,
      Overflow.next?_eq_some_iff, held?_eq_some_iff] at h
    obtain ⟨deeper, ⟨rfl, -⟩, -, ⟨hline, rfl⟩, more, hmore, hwhole, rfl⟩ := h
    obtain ⟨hbody, rfl⟩ := ih (ne_lastLevel_of_hasRoom hline) hmore
    rw [toNat_add_one hlevel] at hline hbody hwhole ⊢
    exact ⟨⟨List.forall_mem_cons.2 ⟨hline, hbody.lines⟩, hwhole⟩, rfl⟩
  | doLoop _ bs ih =>
    simp only [render?, Option.bind_eq_bind, Option.bind_eq_some_iff, newLine?_eq_some_iff,
      Overflow.next?_eq_some_iff, held?_eq_some_iff] at h
    obtain ⟨deeper, ⟨rfl, -⟩, more, hmore, -, ⟨hroom, rfl⟩, hwhole, rfl⟩ := h
    obtain ⟨hbs, rfl⟩ := ih (add_one_ne_lastLevel hroom) hmore
    rw [toNat_add_one hlevel] at hbs hwhole ⊢
    refine ⟨⟨?_, hwhole⟩, rfl⟩
    exact List.forall_mem_append.2 ⟨hbs.lines, List.forall_mem_singleton.2 hroom⟩
  | block _ _ ps body ihps ihbody =>
    simp only [render?, Option.bind_eq_bind, Option.bind_eq_some_iff, newLine?_eq_some_iff,
      Overflow.next?_eq_some_iff, held?_eq_some_iff] at h
    obtain ⟨deeper, ⟨rfl, -⟩, first, hfirst, -, ⟨hroom, rfl⟩, -, ⟨hline, rfl⟩, more, hmore,
      -, ⟨-, rfl⟩, hwhole, rfl⟩ := h
    obtain ⟨hps, rfl⟩ := ihps (ne_lastLevel_of_hasRoom hline) hfirst
    obtain ⟨hbody, rfl⟩ := ihbody (ne_lastLevel_of_hasRoom hline) hmore
    rw [toNat_add_one hlevel] at hline hps hbody hwhole ⊢
    refine ⟨⟨?_, hwhole⟩, rfl⟩
    simp only [lineLevels, List.forall_mem_append, List.forall_mem_cons]
    exact ⟨⟨hps.lines, hroom, hline, hbody.lines⟩, hroom, List.forall_mem_nil _⟩
  | procedure _ name _ body rest ihbody ihrest =>
    simp only [render?, Option.bind_eq_bind, Option.bind_eq_some_iff, newLine?_eq_some_iff,
      Overflow.next?_eq_some_iff, held?_eq_some_iff] at h
    obtain ⟨deeper, ⟨rfl, -⟩, -, ⟨hroom, rfl⟩, first, hfirst, more, hmore, hwhole, rfl⟩ := h
    obtain ⟨hbody, rfl⟩ := ihbody (add_one_ne_lastLevel hroom) hfirst
    obtain ⟨hrest, rfl⟩ := ihrest hlevel hmore
    rw [toNat_add_one hlevel] at hbody hwhole ⊢
    refine ⟨⟨?_, hwhole⟩, rfl⟩
    simp only [lineLevels, List.forall_mem_append, List.forall_mem_cons]
    exact ⟨⟨hroom, hbody.lines⟩, hrest.lines⟩

/-- At the last level there is no room for a line. So a text that is given either has only one, or
its first line is begun by a loop, which starts again at the left without overflow checks; then
the text is too short. -/
theorem writable_or_short_of_render?_last {overflow : Overflow} {t : Tree c} {text : String}
    (h : t.render? overflow lastLevel = some text) :
    (t.Writable lastLevel.toNat ∧ t.render lastLevel.toNat = text) ∨
      text.utf8ByteSize < (t.render lastLevel.toNat).utf8ByteSize := by
  have hlast : ∀ {line : String}, newLine? lastLevel ≠ some line := by
    intro line hline
    exact not_hasRoom_lastLevel (newLine?_eq_some_iff.1 hline).1
  induction t generalizing text with
  | error | skip | nil | noProcedures | noBranches =>
    obtain rfl := Option.some.inj h
    refine .inl ⟨⟨List.forall_mem_nil _, ?_⟩, rfl⟩
    simp only [render]
    decide
  | assign | read | write | call =>
    obtain ⟨hwhole, rfl⟩ := held?_eq_some_iff.1 h
    exact .inl ⟨⟨List.forall_mem_nil _, hwhole⟩, rfl⟩
  | ofBlock _ ih | ofBranch _ ih =>
    rcases ih h with ⟨hb, htext⟩ | hshort
    · exact .inl ⟨⟨hb.lines, hb.whole⟩, htext⟩
    · exact .inr hshort
  | branch _ condition body exit ih =>
    obtain ⟨first, hfirst, hheld⟩ := Option.bind_eq_some_iff.1 h
    obtain ⟨hwhole, rfl⟩ := held?_eq_some_iff.1 hheld
    rcases ih hfirst with ⟨hbody, rfl⟩ | hshort
    · exact .inl ⟨⟨hbody.lines, hwhole⟩, rfl⟩
    · right
      simp only [render, String.utf8ByteSize_append]
      omega
  | cons s rest ihs ihrest =>
    cases rest with
    | nil =>
      rcases ihs h with ⟨hs, htext⟩ | hshort
      · exact .inl ⟨⟨hs.lines, hs.whole⟩, htext⟩
      · exact .inr hshort
    | cons next rest => simp [render?, Option.bind_eq_some_iff, hlast] at h
  | list | orBranch | conditional | doLoop | block | procedure =>
    simp [render?, Option.bind_eq_some_iff, hlast] at h
  | whileLoop _ condition body ih =>
    simp only [render?, Option.bind_eq_bind, Option.bind_eq_some_iff, newLine?_eq_some_iff,
      Overflow.next?_eq_some_iff, held?_eq_some_iff] at h
    obtain ⟨deeper, ⟨rfl, -⟩, line, ⟨-, rfl⟩, first, hbody, -, rfl⟩ := h
    have hzero : lastLevel + 1 = 0 := by decide
    rw [hzero] at hbody
    obtain ⟨-, rfl⟩ := writable_of_render? (by decide) hbody
    have hmono := body.utf8ByteSize_render_le (Nat.zero_le (lastLevel.toNat + 1))
    right
    simp only [render, String.utf8ByteSize_append, utf8ByteSize_newLine, indentWidth, hzero,
      UInt64.toNat_zero]
    omega

/-- The program gives the text of the level exactly where there is room for it. -/
theorem render?_eq_some_render_iff {overflow : Overflow} {t : Tree c} {level : UInt64} :
    t.render? overflow level = some (t.render level.toNat) ↔ t.Writable level.toNat := by
  refine ⟨fun h => ?_, render?_of_writable overflow t⟩
  by_cases hlevel : level = lastLevel
  · subst hlevel
    rcases writable_or_short_of_render?_last h with ⟨hwritable, -⟩ | hshort
    · exact hwritable
    · exact absurd hshort (Nat.lt_irrefl _)
  · exact (writable_of_render? hlevel h).1

/-- A block begins a line at its own level, so without room for its text every build panics. -/
theorem render?_block_eq_none (overflow : Overflow) {b : Block} {level : UInt64}
    (h : ¬ b.Writable level.toNat) : b.render? overflow level = none := by
  rw [Option.eq_none_iff_forall_ne_some]
  intro text htext
  by_cases hlevel : level = lastLevel
  · subst hlevel
    cases b with
    | block loc scope ps body =>
      simp only [render?, Option.bind_eq_bind, Option.bind_eq_some_iff,
        newLine?_eq_some_iff] at htext
      obtain ⟨-, -, -, -, -, ⟨hroom, -⟩, -⟩ := htext
      exact not_hasRoom_lastLevel hroom
  · exact h (writable_of_render? hlevel htext).1

/-- The two texts that are given at a level and `k` levels deeper differ by `k` units. -/
def Indents (overflow : Overflow) (t : Tree c) (l k : UInt64) : Prop :=
  ∃ text, t.render? overflow l = some text ∧
    t.render? overflow (l + k) = some (indented k.toNat text)

section Indents

variable {overflow : Overflow} {t : Tree c} {l k : UInt64}
  (hnames : ∀ name ∈ t.names, OneLine name) (hlevel : l.toNat + k.toNat < UInt64.size)
include hnames hlevel

theorem writable_of_indents (hk : k ≠ 0) (h : t.Indents overflow l k) :
    t.Writable (l.toNat + k.toNat) := by
  have hsum := toNat_add_of_lt hlevel
  -- there is a deeper level, so the text at `l` is that of the level
  have hl : l ≠ lastLevel := by
    rintro rfl
    have hpos : k.toNat ≠ 0 := fun hzero => hk (UInt64.toNat_inj.1 hzero)
    rw [toNat_lastLevel] at hlevel
    omega
  obtain ⟨text, htext, hindented⟩ := h
  obtain ⟨-, rfl⟩ := writable_of_render? hl htext
  rw [← t.render_add_level hnames, ← hsum] at hindented
  rw [← hsum]
  exact render?_eq_some_render_iff.1 hindented

end Indents

/-- A loop that does nothing. -/
def skippingLoop : Statement := whileLoop ⟨1, 1⟩ (.identifier ⟨1, 7⟩ "c") (skip ⟨1, 12⟩)

/-- At the last level a build with overflow checks panics, and one without them begins the line of
the body at the left; so neither indents the text of the first level. -/
theorem skippingLoop_at_last_level :
    skippingLoop.render? .panics lastLevel = none ∧
    skippingLoop.render? .wraps lastLevel = some "WHILE c DO\nSKIP" ∧
    ∀ overflow, ¬ skippingLoop.Indents overflow 0 lastLevel := by
  have hnames : ∀ name ∈ skippingLoop.names, OneLine name := by decide
  refine ⟨by decide, by decide, fun overflow h => ?_⟩
  have hwritable := writable_of_indents hnames (by decide) (by decide) h
  exact absurd hwritable.lines (by decide)

-- The lines of this text have room at the level, but not all three of them together.
example :
    let choice := conditional ⟨1, 1⟩ (.identifier ⟨1, 4⟩ "c") (skip ⟨1, 11⟩) (skip ⟨1, 21⟩)
    (∀ line ∈ choice.lineLevels 2305843009213693952, HasRoom line) ∧
      ¬ choice.Writable 2305843009213693952 := by
  refine ⟨by decide, fun h => ?_⟩
  have hwhole := h.whole
  simp only [render, String.utf8ByteSize_append, utf8ByteSize_newLine, indentWidth, maxCapacity,
    UInt64.size] at hwhole
  omega

-- A list makes its separator even if there is nothing to separate, so it may panic for nothing.
example : (list ⟨1, 1⟩ (sequence [skip ⟨1, 1⟩])).render? .panics 4611686018427387904 = none := by
  decide

end Tree

end PlZero
