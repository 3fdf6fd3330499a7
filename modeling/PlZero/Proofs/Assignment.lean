import Mathlib.Data.List.Basic
import PlZero.Tree.Traversal

/-! The slots of an assignment. The two sides are kept in pairs, but they are written like two
arrays that know nothing of each other: a setter gives back what the slot held and writes that one
slot, or refuses an index out of range and writes nothing. So after any calls a slot holds what was
last written to it, and an assignment never changes its location or its length. -/

namespace PlZero

/-- What stands on one side of a pair. -/
def Role.of : Role → Expr × Expr → Expr
  | target, pair => pair.1
  | value, pair => pair.2

namespace Assignment

variable (a : Assignment)

/-! ### Sides -/

/-- The slots of one side. -/
def side (r : Role) : List Expr := a.pairs.map r.of

theorem side_target : a.side .target = a.targets := rfl

theorem side_value : a.side .value = a.values := rfl

theorem length_side (r : Role) : (a.side r).length = a.length := List.length_map _

theorem pair?_eq (i : Nat) :
    a.pair? i = (a.side .target)[i]?.bind fun t => (a.side .value)[i]?.map (t, ·) := by
  simp only [pair?, side, List.getElem?_map]
  cases a.pairs[i]? <;> rfl

variable {a} in
/-- An assignment is its location and its sides. -/
theorem eq_of_sides {b : Assignment} (hloc : a.loc = b.loc) (hside : ∀ r, a.side r = b.side r) :
    a = b := by
  have hpair : ∀ i, a.pair? i = b.pair? i := by
    intro i
    rw [pair?_eq, pair?_eq, hside, hside]
  obtain ⟨loc, pairs⟩ := a
  obtain ⟨loc', pairs'⟩ := b
  obtain rfl : loc = loc' := hloc
  obtain rfl : pairs = pairs' := List.ext_getElem? hpair
  rfl

/-! ### Setters -/

/-- A call of a setter: what it puts into which slot of which side. -/
structure Write where
  side : Role
  index : Nat
  content : Expr
  deriving DecidableEq, Repr

namespace Write

/-- Whether this is the slot that the call is about. -/
abbrev At (w : Write) (r : Role) (i : Nat) : Prop := w.side = r ∧ w.index = i

/-- A pair with one of its sides written. -/
def put (w : Write) (pair : Expr × Expr) : Expr × Expr :=
  match w.side with
  | .target => (w.content, pair.2)
  | .value => (pair.1, w.content)

theorem of_put (w : Write) (r : Role) (pair : Expr × Expr) :
    r.of (w.put pair) = if w.side = r then w.content else r.of pair := by
  obtain ⟨side, index, content⟩ := w
  cases side <;> cases r <;> rfl

end Write

/-- What the call gives back, with the assignment that it leaves. -/
def set (w : Write) : Except Fault (Expr × Assignment) :=
  match w.side with
  | .target => a.setTarget w.index w.content
  | .value => a.setValue w.index w.content

/-- The assignment with the slot written, if it has that slot. -/
def written (w : Write) : Assignment := { a with pairs := a.pairs.modify w.index w.put }

theorem set_eq (w : Write) :
    a.set w = match (a.side w.side)[w.index]? with
      | some old => .ok (old, a.written w)
      | none => .error (.slotOutOfRange w.index a.length a.loc.line) := by
  obtain ⟨r, i, e⟩ := w
  cases h : a.pairs[i]? with
  | none => cases r <;> simp [set, setTarget, setValue, side, h]
  | some pair =>
    have hmodify (f : Expr × Expr → Expr × Expr) : a.pairs.modify i f = a.pairs.set i (f pair) := by
      rw [List.modify_eq_set_getElem?, h]
      rfl
    cases r <;> simp [set, setTarget, setValue, side, h, written, hmodify, Write.put, Role.of]

theorem set_of_lt {w : Write} (h : w.index < a.length) :
    ∃ old, (a.side w.side)[w.index]? = some old ∧ a.set w = .ok (old, a.written w) := by
  have hi : w.index < (a.side w.side).length := by rwa [length_side]
  exact ⟨_, List.getElem?_eq_getElem hi, by rw [set_eq, List.getElem?_eq_getElem hi]⟩

theorem set_of_le {w : Write} (h : a.length ≤ w.index) :
    a.set w = .error (.slotOutOfRange w.index a.length a.loc.line) := by
  rw [set_eq, List.getElem?_eq_none (by rwa [length_side])]

theorem length_written (w : Write) : (a.written w).length = a.length := by
  simp [written, length]

theorem frame_of_set {w : Write} {old : Expr} {b : Assignment} (h : a.set w = .ok (old, b)) :
    b.loc = a.loc ∧ b.length = a.length := by
  rw [set_eq] at h
  split at h
  · obtain ⟨-, rfl⟩ := Prod.mk.inj (Except.ok.inj h)
    exact ⟨rfl, a.length_written w⟩
  · cases h

/-- One slot of one side is written, and all others hold what they held. -/
theorem getElem?_side_written (w : Write) (r : Role) (i : Nat) :
    ((a.written w).side r)[i]? =
      (a.side r)[i]?.map fun e => if w.At r i then w.content else e := by
  simp only [side, written, List.getElem?_map, List.getElem?_modify]
  cases a.pairs[i]? with
  | none => rfl
  | some pair =>
    by_cases hi : w.index = i
    · simp [hi, w.of_put, Write.At]
    · simp [hi, Write.At]

/-- Nothing changes when a slot is written with what it holds. -/
theorem written_self {w : Write} (h : (a.side w.side)[w.index]? = some w.content) :
    a.written w = a := by
  have hloc : (a.written w).loc = a.loc := rfl
  apply eq_of_sides hloc
  intro r
  apply List.ext_getElem?
  intro i
  rw [getElem?_side_written]
  cases hi : (a.side r)[i]? with
  | none => rfl
  | some e =>
    by_cases hw : w.At r i
    · obtain ⟨rfl, rfl⟩ := hw
      obtain rfl : w.content = e := Option.some.inj (h.symm.trans hi)
      simp
    · simp [hw]

/-- Of two calls for one slot the second one counts. -/
theorem written_again (w : Write) (e : Expr) :
    (a.written w).written { w with content := e } = a.written { w with content := e } := by
  have hput : Write.put { w with content := e } ∘ w.put = Write.put { w with content := e } := by
    funext pair
    obtain ⟨side, index, content⟩ := w
    cases side <;> rfl
  simp only [written, List.modify_modify_eq, hput]

/-- A slot that is written with what it held makes the assignment what it was. -/
theorem written_written {w : Write} {old : Expr} (h : (a.side w.side)[w.index]? = some old) :
    (a.written w).written { w with content := old } = a := by
  rw [written_again]
  exact a.written_self h

/-! ### Setters in place -/

/-- The two sides as arrays of their own. -/
structure Arrays where
  loc : Location
  slots : Role → Array Expr

def arrays : Arrays := ⟨a.loc, fun r => (a.side r).toArray⟩

namespace Arrays

def put (s : Arrays) (w : Write) : Arrays where
  loc := s.loc
  slots r := if w.side = r then (s.slots r).setIfInBounds w.index w.content else s.slots r

/-- Replaces a slot in place and gives back what it held. Whatever has been written when it fails
stays written. -/
def replace (w : Write) : EStateM Fault Arrays Expr := do
  let s ← get
  match (s.slots w.side)[w.index]? with
  | some old =>
    modify (·.put w)
    return old
  | none => throw (.slotOutOfRange w.index (s.slots w.side).size s.loc.line)

end Arrays

theorem arrays_written (w : Write) : (a.written w).arrays = a.arrays.put w := by
  have hslots : (a.written w).arrays.slots = (a.arrays.put w).slots := by
    funext r
    apply Array.ext_getElem?
    intro i
    simp only [arrays, Arrays.put, List.getElem?_toArray, getElem?_side_written]
    by_cases hr : w.side = r
    · rw [if_pos hr, List.setIfInBounds_toArray, List.getElem?_toArray, List.set_eq_modify,
        List.getElem?_modify]
      simp [hr, Write.At]
    · simp [hr, Write.At]
  exact congrArg (Arrays.mk a.loc) hslots

/-- The setters do to the sides of an assignment what setters in place do to arrays, and where they
refuse, the arrays are as they were. -/
theorem run_replace (w : Write) : (Arrays.replace w).run a.arrays =
    match a.set w with
    | .ok (old, b) => .ok old b.arrays
    | .error fault => .error fault a.arrays := by
  have hget : (a.arrays.slots w.side)[w.index]? = (a.side w.side)[w.index]? :=
    List.getElem?_toArray
  rw [set_eq, Arrays.replace, EStateM.run_bind]
  change (match (a.arrays.slots w.side)[w.index]? with
    | some old => do modify (·.put w); return old
    | none => throw (.slotOutOfRange w.index (a.arrays.slots w.side).size a.loc.line) :
      EStateM Fault Arrays Expr).run a.arrays = _
  rw [hget]
  cases (a.side w.side)[w.index]? with
  | some old => exact congrArg (EStateM.Result.ok old) (a.arrays_written w).symm
  | none =>
    have hsize : (a.arrays.slots w.side).size = a.length := a.length_side w.side
    rw [hsize]
    rfl

/-! ### Calls in a row -/

/-- The assignment after a call; one that is refused leaves it as it is. -/
def step (w : Write) : Assignment :=
  match a.set w with
  | .ok (_, b) => b
  | .error _ => a

/-- The assignment after some calls, whatever they gave back. -/
def after (ws : List Write) : Assignment := ws.foldl step a

/-- Those of the calls that were not refused when their turn came. -/
def accepted : Assignment → List Write → List Write
  | _, [] => []
  | a, w :: ws =>
    match a.set w with
    | .ok (_, b) => w :: b.accepted ws
    | .error _ => a.accepted ws

/-- What the last of some calls that wrote the slot put there, if one wrote it. -/
def last? (ws : List Write) (r : Role) (i : Nat) : Option Expr :=
  ((ws.filter fun w => w.At r i).getLast?).map Write.content

theorem last?_cons (w : Write) (ws : List Write) (r : Role) (i : Nat) :
    last? (w :: ws) r i = (last? ws r i).or (if w.At r i then some w.content else none) := by
  unfold last?
  by_cases hw : w.At r i
  · rw [List.filter_cons_of_pos (by simpa using hw), List.getLast?_cons, if_pos hw]
    cases (ws.filter fun w => w.At r i).getLast? <;> rfl
  · rw [List.filter_cons_of_neg (by simpa using hw), if_neg hw, Option.or_none]

theorem step_of_lt {w : Write} (h : w.index < a.length) : a.step w = a.written w := by
  obtain ⟨old, -, hset⟩ := a.set_of_lt h
  rw [step, hset]

theorem step_of_le {w : Write} (h : a.length ≤ w.index) : a.step w = a := by
  rw [step, a.set_of_le h]

theorem accepted_cons (w : Write) (ws : List Write) : a.accepted (w :: ws) =
    if w.index < a.length then w :: (a.step w).accepted ws else (a.step w).accepted ws := by
  rw [accepted, step]
  split_ifs with h
  · obtain ⟨old, -, hset⟩ := a.set_of_lt h
    rw [hset]
  · rw [a.set_of_le (Nat.le_of_not_lt h)]

theorem frame_step (w : Write) : (a.step w).loc = a.loc ∧ (a.step w).length = a.length := by
  rw [step]
  split
  · next h => exact a.frame_of_set h
  · exact ⟨rfl, rfl⟩

theorem getElem?_side_step (w : Write) (r : Role) (i : Nat) :
    ((a.step w).side r)[i]? = (a.side r)[i]?.map fun e => if w.At r i then w.content else e := by
  rcases Nat.lt_or_ge w.index a.length with h | h
  · rw [a.step_of_lt h, getElem?_side_written]
  · rw [a.step_of_le h]
    by_cases hw : w.At r i
    · obtain ⟨rfl, rfl⟩ := hw
      rw [List.getElem?_eq_none (by rwa [length_side])]
      rfl
    · simp [hw]

theorem frame_after (ws : List Write) :
    (a.after ws).loc = a.loc ∧ (a.after ws).length = a.length := by
  induction ws generalizing a with
  | nil => exact ⟨rfl, rfl⟩
  | cons w ws ih =>
    have hstep := a.frame_step w
    have hrest := ih (a.step w)
    exact ⟨hrest.1.trans hstep.1, hrest.2.trans hstep.2⟩

/-- A slot holds what was last written to it, and what it held at first if nothing was. -/
theorem getElem?_side_after (ws : List Write) (r : Role) (i : Nat) :
    ((a.after ws).side r)[i]? =
      (a.side r)[i]?.map fun e => (last? (a.accepted ws) r i).getD e := by
  induction ws generalizing a with
  | nil => simp [after, accepted, last?]
  | cons w ws ih =>
    have hafter : a.after (w :: ws) = (a.step w).after ws := rfl
    rw [hafter, ih, getElem?_side_step, accepted_cons]
    cases hi : (a.side r)[i]? with
    | none => rfl
    | some e =>
      have hlt : i < a.length := by
        rw [← a.length_side r]
        exact (List.getElem?_eq_some_iff.1 hi).1
      simp only [Option.map_some]
      by_cases hw : w.At r i
      · -- the slot exists, so the call that writes it is not refused
        have haccepted : w.index < a.length := by rwa [hw.2]
        rw [if_pos haccepted, last?_cons, if_pos hw, if_pos hw]
        cases last? ((a.step w).accepted ws) r i <;> rfl
      · have hlast : last? (w :: (a.step w).accepted ws) r i =
            last? ((a.step w).accepted ws) r i := by
          rw [last?_cons, if_neg hw, Option.or_none]
        rw [if_neg hw]
        split_ifs
        · rw [hlast]
        · rfl

/-! ### Assignments as they are made -/

/-- The assignment is made of the expressions on its sides, or of one on each side. -/
inductive Built : Location → List Expr → List Expr → Assignment → Prop where
  | sides {loc : Location} {targets values : List Expr} {a : Assignment}
      (h : ofSides loc targets values = .ok a) : Built loc targets values a
  | single (loc : Location) (target value : Expr) :
      Built loc [target] [value] (single loc target value)

theorem exists_ofSides_iff (loc : Location) (targets values : List Expr) :
    (∃ a, ofSides loc targets values = .ok a) ↔ targets.length = values.length := by
  unfold ofSides
  split_ifs with h
  · simp [h]
  · simp [h]

theorem Built.sides_eq {loc : Location} {targets values : List Expr} {a : Assignment}
    (h : Built loc targets values a) : a.loc = loc ∧ a.targets = targets ∧ a.values = values := by
  cases h with
  | single => exact ⟨rfl, rfl, rfl⟩
  | sides h =>
    unfold ofSides at h
    split_ifs at h with hlength
    obtain rfl := Except.ok.inj h
    exact ⟨rfl, List.map_fst_zip (Nat.le_of_eq hlength),
      List.map_snd_zip (Nat.le_of_eq hlength.symm)⟩

/-- How an assignment of `n` pairs at `loc` answers a call. An index in range gives back what the
slot held, and the same call with that makes the assignment what it was; any other is refused,
and nothing is written. -/
structure Answers (n : Nat) (loc : Location) (b : Assignment) (w : Write) : Prop where
  refused_iff : (∃ fault, b.set w = .error fault) ↔ n ≤ w.index
  refused : n ≤ w.index →
    b.set w = .error (.slotOutOfRange w.index n loc.line) ∧ b.step w = b ∧
    (Arrays.replace w).run b.arrays = .error (.slotOutOfRange w.index n loc.line) b.arrays
  performed : w.index < n → ∃ old, (b.side w.side)[w.index]? = some old ∧
    b.set w = .ok (old, b.step w) ∧
    (Arrays.replace w).run b.arrays = .ok old (b.step w).arrays ∧
    (b.step w).set { w with content := old } = .ok (w.content, b)

theorem answers (b : Assignment) (w : Write) : b.Answers b.length b.loc w where
  refused_iff := by
    constructor
    · rintro ⟨fault, hfault⟩
      by_contra hlt
      obtain ⟨old, -, hset⟩ := b.set_of_lt (Nat.lt_of_not_le hlt)
      rw [hset] at hfault
      cases hfault
    · intro hle
      exact ⟨_, b.set_of_le hle⟩
  refused hle := by
    have hset := b.set_of_le hle
    exact ⟨hset, b.step_of_le hle, by rw [run_replace, hset]⟩
  performed hlt := by
    obtain ⟨old, hold, hset⟩ := b.set_of_lt hlt
    have hstep := b.step_of_lt hlt
    refine ⟨old, hold, by rw [hset, hstep], by rw [run_replace, hset, hstep], ?_⟩
    have hnew : ((b.written w).side w.side)[w.index]? = some w.content := by
      rw [getElem?_side_written, hold, Option.map_some, if_pos ⟨rfl, rfl⟩]
    rw [hstep, set_eq, hnew, b.written_written hold]

/-- The slots of an assignment behave as two arrays of one length that never changes. Whatever calls
have been made, every call is answered as by arrays, and each slot holds what the last call
that was not refused put there, or what it held when the assignment was made. -/
theorem slots_behave_as_arrays (loc : Location) (targets values : List Expr) :
    ((∃ a, ofSides loc targets values = .ok a) ↔ targets.length = values.length) ∧
    ∀ a, Built loc targets values a → ∀ ws : List Write,
      (∀ w, (a.after ws).Answers targets.length loc w) ∧
      (a.after ws).loc = loc ∧
      (a.after ws).targets.length = targets.length ∧
      (a.after ws).values.length = values.length ∧
      (∀ i target value, targets[i]? = some target → values[i]? = some value →
        (a.after ws).pair? i = some ((last? (a.accepted ws) .target i).getD target,
          (last? (a.accepted ws) .value i).getD value)) ∧
      ∀ i, targets.length ≤ i → (a.after ws).pair? i = none := by
  refine ⟨exists_ofSides_iff loc targets values, ?_⟩
  intro a hbuilt ws
  obtain ⟨rfl, rfl, rfl⟩ := hbuilt.sides_eq
  obtain ⟨hloc, hlength⟩ := a.frame_after ws
  have hsides (b : Assignment) : b.targets.length = b.length ∧ b.values.length = b.length :=
    ⟨b.length_side .target, b.length_side .value⟩
  refine ⟨?_, hloc, ?_, ?_, ?_, ?_⟩
  · intro w
    rw [(hsides a).1, ← hlength, ← hloc]
    exact answers _ w
  · rw [(hsides _).1, (hsides _).1, hlength]
  · rw [(hsides _).2, (hsides _).2, hlength]
  · intro i target value htarget hvalue
    rw [pair?_eq, getElem?_side_after, getElem?_side_after, side_target, side_value, htarget, hvalue]
    rfl
  · intro i hi
    rw [pair?_eq, getElem?_side_after, side_target, List.getElem?_eq_none hi]
    rfl

/-- An exchange of two names. -/
def exchange : Assignment :=
  ⟨⟨4, 1⟩, [(.identifier ⟨4, 1⟩ "x", .identifier ⟨4, 9⟩ "y"),
    (.identifier ⟨4, 4⟩ "y", .identifier ⟨4, 12⟩ "x")]⟩

/-- The second target is written twice, and between that the third value, which there is not. -/
def exchangeWrites : List Write :=
  [⟨.target, 1, .identifier ⟨5, 1⟩ "u"⟩, ⟨.value, 2, .const ⟨5, 5⟩ 3⟩,
    ⟨.target, 1, .identifier ⟨5, 9⟩ "v"⟩]

theorem slots_of_exchange :
    ofSides ⟨4, 1⟩ [.identifier ⟨4, 1⟩ "x", .identifier ⟨4, 4⟩ "y"]
      [.identifier ⟨4, 9⟩ "y", .identifier ⟨4, 12⟩ "x"] = .ok exchange ∧
    (exchange.after exchangeWrites).pair? 1 =
      some (.identifier ⟨5, 9⟩ "v", .identifier ⟨4, 12⟩ "x") ∧
    (exchange.after exchangeWrites).set ⟨.value, 2, .const ⟨5, 5⟩ 3⟩ =
      .error (.slotOutOfRange 2 2 4) := by
  have hmade : ofSides ⟨4, 1⟩ [.identifier ⟨4, 1⟩ "x", .identifier ⟨4, 4⟩ "y"]
      [.identifier ⟨4, 9⟩ "y", .identifier ⟨4, 12⟩ "x"] = .ok exchange := rfl
  obtain ⟨hanswers, -, -, -, hpair, -⟩ :=
    (slots_behave_as_arrays _ _ _).2 exchange (.sides hmade) exchangeWrites
  exact ⟨hmade, hpair 1 _ _ rfl rfl, ((hanswers _).refused (Nat.le_refl 2)).1⟩

end Assignment

end PlZero
