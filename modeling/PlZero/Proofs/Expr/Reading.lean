import PlZero.Proofs.Identifier
import PlZero.Proofs.Tree.Render

/-! Reading an expression back from its text. The text says neither where a node stands nor whether
a name is resolved, and a negative constant looks like a negated one. A phrase is what is left, and
it can be read off the text: a reader that looks ahead only for an operator between blanks returns
the phrase of every expression whose names are identifiers. So two expressions have the same text
exactly if they have the same phrase. -/

namespace PlZero

/-! ### Phrases -/

/-- What the text of an expression says. -/
inductive Phrase where
  | error
  | literal (value : Nat)
  | named (name : String)
  | unary (op : UnaryOp) (operand : Phrase)
  | binary (op : BinaryOp) (left right : Phrase)
  | coerce (coercion : Coercion) (operand : Phrase)
  deriving DecidableEq, Repr

/-- Locations are dropped, a variable is taken by its name, and a constant below zero is the
negation of a literal. -/
def Expr.phrase : Expr → Phrase
  | error _ => .error
  | const _ value =>
    if value.toInt < 0 then .unary .neg (.literal value.toInt.natAbs)
    else .literal value.toInt.natAbs
  | identifier _ name | var _ name _ => .named name
  | unary _ op e => .unary op e.phrase
  | binary _ op l r => .binary op l.phrase r.phrase
  | coerce _ c e => .coerce c e.phrase

namespace Phrase

def chars : Phrase → List Char
  | error => Expr.errorMark.toList
  | literal value => Nat.toDigits 10 value
  | named name => name.toList
  | unary .neg p => '-' :: p.chars
  | unary .odd p => 'o' :: 'd' :: 'd' :: ' ' :: p.chars
  | binary op l r => '(' :: (l.chars ++ ' ' :: (op.symbol.toList ++ ' ' :: (r.chars ++ [')'])))
  | coerce c p => c.name.toList ++ '(' :: (p.chars ++ [')'])

def names : Phrase → List String
  | error | literal _ => []
  | named name => [name]
  | unary _ p | coerce _ p => p.names
  | binary _ l r => l.names ++ r.names

end Phrase

namespace Expr

theorem names_phrase (e : Expr) : e.phrase.names = e.names := by
  induction e with
  | const _ value => by_cases h : value.toInt < 0 <;> simp [phrase, h, Phrase.names, names]
  | _ => simp_all [phrase, Phrase.names, names]

/-- The text depends on the phrase only. -/
theorem toList_text (e : Expr) : e.text.toList = e.phrase.chars := by
  induction e with
  | error | identifier | var => rfl
  | const _ value =>
    rw [text, phrase]
    cases value.toInt with
    | ofNat n => exact Nat.toList_repr
    | negSucc n =>
      have hminus : toString (Int.negSucc n) = "-" ++ (n + 1).repr := rfl
      rw [if_pos (Int.negSucc_lt_zero n), hminus, String.toList_append, Nat.toList_repr]
      rfl
  | unary _ op e ih => cases op <;> simp [text, phrase, Phrase.chars, ih]
  | binary _ op l r ihl ihr => simp [text, phrase, Phrase.chars, ihl, ihr]
  | coerce _ c e ih => simp [text, phrase, Phrase.chars, ih]

end Expr

/-! ### The reader -/

def Coercion.ofName? (name : List Char) : Option Coercion :=
  [narrow, widen].find? (·.name.toList == name)

theorem Coercion.ofName?_name (c : Coercion) : ofName? c.name.toList = some c := by
  cases c <;> decide

theorem Coercion.matchesIdentifier_name (c : Coercion) : MatchesIdentifier c.name := by
  rw [← isIdentifier_iff]
  cases c <;> decide

namespace Phrase

/-- A binary operator with a blank on either side, and what comes after it. -/
def operator? (cs : List Char) : Option (BinaryOp × List Char) :=
  BinaryOp.all.findSome? fun op =>
    (List.isPrefixOf? (' ' :: (op.symbol.toList ++ [' '])) cs).map (op, ·)

/-- The phrase, if a closing parenthesis comes next. -/
def closed (p : Phrase) : List Char → Option (Phrase × List Char)
  | ')' :: rest => some (p, rest)
  | _ => none

/-- What a word begins. Before a parenthesis it is a coercion. Otherwise it is a name, unless
it is the operator `odd`: then a blank comes next, but not a binary operator. -/
def ofWord (read : List Char → Option (Phrase × List Char)) (word : List Char) :
    List Char → Option (Phrase × List Char)
  | '(' :: rest =>
    (Coercion.ofName? word).bind fun c => (read rest).bind fun (p, rest) => closed (coerce c p) rest
  | ' ' :: rest =>
    if word = ['o', 'd', 'd'] ∧ operator? (' ' :: rest) = none then
      (read rest).map fun (p, rest) => (unary .odd p, rest)
    else some (named (.ofList word), ' ' :: rest)
  | rest => some (named (.ofList word), rest)

/-- Reads one phrase from the front of a text, and gives what comes after it. -/
def read? : Nat → List Char → Option (Phrase × List Char)
  | 0, _ | _, [] => none
  | fuel + 1, c :: cs =>
    if c = '<' then (List.isPrefixOf? Expr.errorMark.toList (c :: cs)).map (error, ·)
    else if c = '-' then (read? fuel cs).map fun (p, rest) => (unary .neg p, rest)
    else if c = '(' then
      (read? fuel cs).bind fun (l, rest) => (operator? rest).bind fun (op, rest) =>
        (read? fuel rest).bind fun (r, rest) => closed (binary op l r) rest
    else if c.isDigit then
      some (literal (Nat.ofDigitChars 10 ((c :: cs).takeWhile Char.isDigit) 0),
        (c :: cs).dropWhile Char.isDigit)
    else
      ofWord (read? fuel) ((c :: cs).takeWhile continuesIdentifier)
        ((c :: cs).dropWhile continuesIdentifier)

/-- The phrase that a whole text says. No phrase is deeper than its text is long. -/
def ofText? (text : String) : Option Phrase :=
  match read? text.toList.length text.toList with
  | some (p, []) => some p
  | _ => none

/-! ### What comes next -/

/-- What may come after a phrase inside a text: nothing, a closing parenthesis, or a binary
operator with blanks around it. -/
inductive Follows : List Char → Prop where
  | done : Follows []
  | close (rest : List Char) : Follows (')' :: rest)
  | operator (op : BinaryOp) (rest : List Char) :
      Follows (' ' :: (op.symbol.toList ++ ' ' :: rest))

theorem operator?_symbol (op : BinaryOp) (rest : List Char) :
    operator? (' ' :: (op.symbol.toList ++ ' ' :: rest)) = some (op, rest) := by
  cases op <;> rfl

/-- A stretch of characters of a class ends where the class ends. -/
theorem span_of_stop {p : Char → Bool} {word rest : List Char} (hword : ∀ c ∈ word, p c = true)
    (hrest : ∀ c, rest.head? = some c → p c = false) :
    (word ++ rest).takeWhile p = word ∧ (word ++ rest).dropWhile p = rest := by
  rw [List.takeWhile_append_of_pos hword, List.dropWhile_append_of_pos hword]
  cases rest with
  | nil => simp
  | cons c rest => simp [hrest c rfl]

theorem head_stops {c : Char} {rest : List Char} (h : continuesIdentifier c = false) (d : Char)
    (hd : (c :: rest).head? = some d) : continuesIdentifier d = false := by
  obtain rfl := Option.some.inj hd
  exact h

theorem Follows.stops {rest : List Char} (h : Follows rest) (c : Char) (hc : rest.head? = some c) :
    continuesIdentifier c = false ∧ c.isDigit = false := by
  cases h with
  | done => cases hc
  | close rest => obtain rfl := Option.some.inj hc; decide
  | operator op rest => obtain rfl := Option.some.inj hc; decide

/-! ### What comes first -/

/-- Characters that begin neither a binary operator nor an error mark. -/
def opens (c : Char) : Bool := c == '(' || continuesIdentifier c

theorem exists_head_symbol (op : BinaryOp) :
    ∃ d ds, op.symbol.toList = d :: ds ∧ opens d = false := by
  cases op <;> exact ⟨_, _, rfl, by decide⟩

theorem operator?_of_opens {c : Char} (h : opens c = true) (rest : List Char) :
    operator? (' ' :: c :: rest) = none := by
  rw [operator?, List.findSome?_eq_none_iff]
  intro op _
  obtain ⟨d, ds, hsymbol, hd⟩ := exists_head_symbol op
  have hne : d ≠ c := by
    rintro rfl
    rw [h] at hd
    cases hd
  simp [hsymbol, List.isPrefixOf?, hne]

/-- A minus is an operator only if a blank comes after it. -/
theorem operator?_minus {c : Char} (h : c ≠ ' ') (rest : List Char) :
    operator? (' ' :: '-' :: c :: rest) = none := by
  simp [operator?, BinaryOp.all, BinaryOp.symbol, List.isPrefixOf?, h.symm]

theorem exists_head_toDigits (n : Nat) :
    ∃ c cs, Nat.toDigits 10 n = c :: cs ∧ c.isDigit = true := by
  cases h : Nat.toDigits 10 n with
  | nil => exact absurd h Nat.toDigits_ne_nil
  | cons c cs =>
    have hmem : c ∈ Nat.toDigits 10 n := h ▸ List.mem_cons_self
    exact ⟨c, cs, rfl, Nat.isDigit_of_mem_toDigits (by decide) (by decide) hmem⟩

theorem opens_of_digit {c : Char} (h : c.isDigit = true) : opens c = true := by
  rw [opens, continuesIdentifier, Char.isAlphanum, h, Bool.or_true, Bool.true_or, Bool.or_true]

theorem opens_of_starts {c : Char} (h : startsIdentifier c = true) : opens c = true := by
  rw [opens, continues_of_starts h, Bool.or_true]

/-- Only an error and a negation do not begin with one of those characters. -/
theorem exists_head_chars (p : Phrase) (hp : ∀ name ∈ p.names, MatchesIdentifier name) :
    ∃ c cs, p.chars = c :: cs ∧
      (opens c = true ∨ (c = '<' ∧ p = error) ∨ (c = '-' ∧ ∃ q, p = unary .neg q)) := by
  cases p with
  | error => exact ⟨_, _, rfl, .inr (.inl ⟨rfl, rfl⟩)⟩
  | literal n =>
    obtain ⟨c, cs, hdigits, hc⟩ := exists_head_toDigits n
    exact ⟨c, cs, hdigits, .inl (opens_of_digit hc)⟩
  | named name =>
    obtain ⟨c, cs, hname, hc, -⟩ := exists_chars_of_matches (hp name List.mem_cons_self)
    exact ⟨c, cs, hname, .inl (opens_of_starts hc)⟩
  | unary op q =>
    cases op with
    | neg => exact ⟨_, _, rfl, .inr (.inr ⟨rfl, q, rfl⟩)⟩
    | odd => exact ⟨_, _, rfl, .inl (by decide)⟩
  | binary op l r => exact ⟨_, _, rfl, .inl (by decide)⟩
  | coerce c q => cases c <;> exact ⟨_, _, rfl, .inl (by decide)⟩

/-- After a blank, a phrase is not taken for a binary operator. -/
theorem operator?_chars (p : Phrase) (hp : ∀ name ∈ p.names, MatchesIdentifier name)
    (rest : List Char) : operator? (' ' :: (p.chars ++ rest)) = none := by
  obtain ⟨c, cs, hchars, hopens | ⟨-, rfl⟩ | ⟨-, q, rfl⟩⟩ := exists_head_chars p hp
  · rw [hchars]
    exact operator?_of_opens hopens (cs ++ rest)
  · rfl
  · obtain ⟨d, ds, hq, hd⟩ := exists_head_chars q hp
    have hblank : d ≠ ' ' := by
      rcases hd with hd | ⟨rfl, -⟩ | ⟨rfl, -⟩
      · rintro rfl
        exact absurd hd (by decide)
      · decide
      · decide
    rw [chars, hq]
    exact operator?_minus hblank (ds ++ rest)

/-! ### One form at a time -/

section Read

variable {fuel : Nat} {rest : List Char}

theorem read?_error : read? (fuel + 1) (error.chars ++ rest) = some (error, rest) := rfl

theorem read?_literal (n : Nat) (hrest : Follows rest) :
    read? (fuel + 1) ((literal n).chars ++ rest) = some (literal n, rest) := by
  obtain ⟨c, cs, hdigits, hc⟩ := exists_head_toDigits n
  have hword : ∀ d ∈ c :: cs, d.isDigit = true := by
    intro d hd
    exact Nat.isDigit_of_mem_toDigits (by decide) (by decide) (hdigits ▸ hd)
  obtain ⟨htake, hdrop⟩ := span_of_stop hword fun d hd => (hrest.stops d hd).2
  have hvalue : Nat.ofDigitChars 10 (c :: cs) 0 = n := hdigits ▸ Nat.ofDigitChars_ten_toDigits
  rw [chars, hdigits, List.cons_append, read?]
  rw [if_neg, if_neg, if_neg, if_pos hc, ← List.cons_append, htake, hdrop, hvalue]
  all_goals
    rintro rfl
    exact absurd hc (by decide)

/-- A word is read to its end before the reader decides what it begins. -/
theorem read?_word {word : String} (hword : MatchesIdentifier word)
    (hrest : ∀ d, rest.head? = some d → continuesIdentifier d = false) :
    read? (fuel + 1) (word.toList ++ rest) = ofWord (read? fuel) word.toList rest := by
  obtain ⟨c, cs, hchars, hc, hall⟩ := exists_chars_of_matches hword
  obtain ⟨htake, hdrop⟩ := span_of_stop hall hrest
  rw [hchars, List.cons_append, read?]
  rw [if_neg, if_neg, if_neg, if_neg, ← List.cons_append, htake, hdrop]
  · rw [not_digit_of_starts hc]
    decide
  all_goals
    rintro rfl
    exact absurd hc (by decide)

/-- A name is not taken for `odd`, since no operand comes after it. -/
theorem ofWord_of_follows (read : List Char → Option (Phrase × List Char)) (word : List Char)
    (hrest : Follows rest) : ofWord read word rest = some (named (.ofList word), rest) := by
  cases hrest with
  | done => rfl
  | close rest => rfl
  | operator op rest =>
    rw [ofWord, operator?_symbol, if_neg]
    rintro ⟨-, h⟩
    cases h

theorem read?_named {name : String} (hname : MatchesIdentifier name) (hrest : Follows rest) :
    read? (fuel + 1) ((named name).chars ++ rest) = some (named name, rest) := by
  rw [chars, read?_word hname fun d hd => (hrest.stops d hd).1, ofWord_of_follows _ _ hrest,
    String.ofList_toList]

theorem read?_neg {p : Phrase} (ih : read? fuel (p.chars ++ rest) = some (p, rest)) :
    read? (fuel + 1) ((unary .neg p).chars ++ rest) = some (unary .neg p, rest) := by
  rw [chars, List.cons_append, read?, if_neg (by decide), if_pos rfl, ih]
  rfl

theorem read?_odd {p : Phrase} (hp : ∀ name ∈ p.names, MatchesIdentifier name)
    (ih : read? fuel (p.chars ++ rest) = some (p, rest)) :
    read? (fuel + 1) ((unary .odd p).chars ++ rest) = some (unary .odd p, rest) := by
  have hodd : MatchesIdentifier "odd" := (isIdentifier_iff "odd").1 (by decide)
  have hblank : continuesIdentifier ' ' = false := by decide
  calc read? (fuel + 1) ((unary .odd p).chars ++ rest)
      = ofWord (read? fuel) "odd".toList (' ' :: (p.chars ++ rest)) :=
        read?_word hodd (head_stops hblank)
    _ = some (unary .odd p, rest) := by
      rw [ofWord, if_pos ⟨rfl, operator?_chars p hp rest⟩, ih]
      rfl

theorem read?_coerce (c : Coercion) {p : Phrase}
    (ih : read? fuel (p.chars ++ ')' :: rest) = some (p, ')' :: rest)) :
    read? (fuel + 1) ((coerce c p).chars ++ rest) = some (coerce c p, rest) := by
  have hparen : continuesIdentifier '(' = false := by decide
  have hassoc : (coerce c p).chars ++ rest = c.name.toList ++ '(' :: (p.chars ++ ')' :: rest) := by
    simp [chars]
  rw [hassoc, read?_word c.matchesIdentifier_name (head_stops hparen), ofWord, c.ofName?_name,
    Option.bind_some, ih]
  rfl

theorem read?_binary (op : BinaryOp) {l r : Phrase}
    (ihl : ∀ rest, Follows rest → read? fuel (l.chars ++ rest) = some (l, rest))
    (ihr : ∀ rest, Follows rest → read? fuel (r.chars ++ rest) = some (r, rest)) :
    read? (fuel + 1) ((binary op l r).chars ++ rest) = some (binary op l r, rest) := by
  have hassoc : (binary op l r).chars ++ rest =
      '(' :: (l.chars ++ ' ' :: (op.symbol.toList ++ ' ' :: (r.chars ++ ')' :: rest))) := by
    simp [chars]
  rw [hassoc, read?, if_neg (by decide), if_neg (by decide), if_pos rfl, ihl _ (.operator op _)]
  simp only [Option.bind_some, operator?_symbol]
  rw [ihr _ (.close rest)]
  rfl

end Read

/-! ### Reading back -/

/-- The reader takes exactly the characters of a phrase, whatever may follow it. -/
theorem read?_chars (p : Phrase) (hp : ∀ name ∈ p.names, MatchesIdentifier name) {fuel : Nat}
    (hfuel : p.chars.length ≤ fuel) {rest : List Char} (hrest : Follows rest) :
    read? fuel (p.chars ++ rest) = some (p, rest) := by
  -- each form has a character besides those of its operands, which pays for one step
  induction fuel generalizing p rest with
  | zero =>
    obtain ⟨c, cs, hchars, -⟩ := exists_head_chars p hp
    simp [hchars] at hfuel
  | succ fuel ih =>
    cases p with
    | error => exact read?_error
    | literal n => exact read?_literal n hrest
    | named name => exact read?_named (hp name List.mem_cons_self) hrest
    | unary op q =>
      cases op <;> simp only [chars, List.length_cons] at hfuel
      · exact read?_neg (ih q hp (by omega) hrest)
      · exact read?_odd hp (ih q hp (by omega) hrest)
    | binary op l r =>
      simp only [chars, List.length_cons, List.length_append] at hfuel
      simp only [names, List.forall_mem_append] at hp
      exact read?_binary op (fun _ => ih l hp.1 (by omega)) (fun _ => ih r hp.2 (by omega))
    | coerce c q =>
      simp only [chars, List.length_cons, List.length_append] at hfuel
      exact read?_coerce c (ih q hp (by omega) (.close rest))

end Phrase

namespace Expr

theorem ofText?_text (e : Expr) (he : ∀ name ∈ e.names, MatchesIdentifier name) :
    Phrase.ofText? e.text = some e.phrase := by
  have hread := Phrase.read?_chars e.phrase (by rwa [names_phrase]) (Nat.le_refl _) .done
  rw [List.append_nil] at hread
  rw [Phrase.ofText?, toList_text, hread]

/-- Printing loses exactly what a phrase leaves out, and the rest can be read back. -/
theorem text_eq_iff_phrase_eq {e f : Expr} (he : ∀ name ∈ e.names, MatchesIdentifier name)
    (hf : ∀ name ∈ f.names, MatchesIdentifier name) :
    (e.text = f.text ↔ e.phrase = f.phrase) ∧ Phrase.ofText? e.text = some e.phrase := by
  refine ⟨⟨fun htext => ?_, fun hphrase => ?_⟩, e.ofText?_text he⟩
  · apply Option.some.inj
    rw [← e.ofText?_text he, ← f.ofText?_text hf, htext]
  · apply String.toList_inj.1
    rw [toList_text, toList_text, hphrase]

/-- The name `odd` less the operator `odd` on a negative constant. -/
def oddLessConstant : Expr :=
  .binary ⟨1, 5⟩ .sub (.identifier ⟨1, 2⟩ "odd") (.unary ⟨1, 8⟩ .odd (.const ⟨1, 12⟩ (-5)))

/-- The same with the name resolved and the constant negated, on another line. -/
def oddLessNegation : Expr :=
  .binary ⟨7, 5⟩ .sub (.var ⟨7, 2⟩ "odd" ⟨3⟩)
    (.unary ⟨7, 8⟩ .odd (.unary ⟨7, 12⟩ .neg (.const ⟨7, 13⟩ 5)))

theorem text_oddLess :
    (∀ name ∈ oddLessConstant.names, MatchesIdentifier name) ∧
    (∀ name ∈ oddLessNegation.names, MatchesIdentifier name) ∧
    oddLessConstant ≠ oddLessNegation ∧ oddLessConstant.phrase = oddLessNegation.phrase ∧
    oddLessConstant.text = oddLessNegation.text ∧
    Phrase.ofText? "(odd - odd -5)" = some oddLessConstant.phrase := by
  have hnames : ∀ name ∈ ["odd"], MatchesIdentifier name :=
    List.forall_mem_singleton.2 ((isIdentifier_iff "odd").1 (by decide))
  have hphrase : oddLessConstant.phrase = oddLessNegation.phrase := by decide
  obtain ⟨htext, hread⟩ := text_eq_iff_phrase_eq (e := oddLessConstant) (f := oddLessNegation)
    hnames hnames
  exact ⟨hnames, hnames, by decide, hphrase, htext.2 hphrase, hread⟩

-- A name that is no identifier may look like something else.
example : (identifier ⟨1, 1⟩ "-5").text = (const ⟨1, 1⟩ (-5)).text ∧
    (identifier ⟨1, 1⟩ "-5").phrase ≠ (const ⟨1, 1⟩ (-5)).phrase := by
  decide

end Expr

end PlZero
