/-! # Grammars — ordered choice with the place of the furthest failure

    A rule of a grammar takes a front part of the text or is refused.  Of two
    alternatives the second is tried only where the first is refused, and always
    from the same place.  All the while the furthest place is kept at which
    something else was expected than what stood there: that is where a refused
    text is said to be wrong. -/

namespace DirectoryAccess

namespace Grammar

universe u v

/-- A place in a text: how many characters lie before it, and those after it. -/
structure Place where
  before : Nat
  rest : List Char
  deriving DecidableEq, Inhabited

/-- What became of a rule: it took a front part of the text, or it was refused.
    Either way `far` is the furthest place at which something was expected in vain,
    zero if there was none. -/
inductive Outcome (α : Type u) where
  | taken (value : α) (place : Place) (far : Nat)
  | refused (far : Nat)

namespace Outcome

/-- The outcome with a failure added that was seen on the way to it. -/
def since {α : Type u} (far : Nat) : Outcome α → Outcome α
  | taken a place f => taken a place (max far f)
  | refused f => refused (max far f)

end Outcome

/-- A rule of a grammar. -/
def Rule (α : Type u) := Place → Outcome α

namespace Rule

variable {α : Type u} {β : Type u}

/-- The rule that takes nothing. -/
def pure (a : α) : Rule α := fun place => .taken a place 0

/-- One rule and then, behind what it took, another. -/
def bind (r : Rule α) (f : α → Rule β) : Rule β := fun place =>
  match r place with
  | .taken a next far => (f a next).since far
  | .refused far => .refused far

instance : Monad Rule where
  pure := Rule.pure
  bind := Rule.bind

/-- One rule or, where it is refused, another from the same place. -/
def orElse (r : Rule α) (s : Unit → Rule α) : Rule α := fun place =>
  match r place with
  | .taken a next far => .taken a next far
  | .refused far => (s () place).since far

instance : OrElse (Rule α) := ⟨Rule.orElse⟩

end Rule

/-- What is left of the characters behind a front part, if they start with it. -/
def behind? : List Char → List Char → Option (List Char)
  | [], rest => some rest
  | c :: front, d :: rest => if c == d then behind? front rest else none
  | _ :: _, [] => none

/-- Exactly the given characters. -/
def literal (word : List Char) : Rule Unit := fun place =>
  match behind? word place.rest with
  | some rest => .taken () ⟨place.before + word.length, rest⟩ 0
  | none => .refused place.before

/-- The longest run of characters of a class, possibly none; the character that
    ends it was expected to be another. -/
def run (inClass : Char → Bool) : Rule (List Char) := fun place =>
  let taken := place.rest.takeWhile inClass
  let stop := place.before + taken.length
  .taken taken ⟨stop, place.rest.dropWhile inClass⟩ stop

/-- The longest run of characters of a class, which must have one. -/
def run1 (inClass : Char → Bool) : Rule (List Char) := fun place =>
  match run inClass place with
  | .taken [] _ far => .refused far
  | outcome => outcome

/-- One character of a class. -/
def oneOf (inClass : Char → Bool) : Rule Char := fun place =>
  match place.rest with
  | c :: rest => if inClass c then .taken c ⟨place.before + 1, rest⟩ 0 else .refused place.before
  | [] => .refused place.before

/-- All characters up to one of a class, possibly none.  Only the end of the text is
    a place where another was expected. -/
def upTo (ends : Char → Bool) : Rule (List Char) := fun place =>
  let taken := place.rest.takeWhile fun c => !ends c
  let rest := place.rest.dropWhile fun c => !ends c
  let stop := place.before + taken.length
  .taken taken ⟨stop, rest⟩ (if rest.isEmpty then stop else 0)

/-- All characters up to one of a class, of which there must be one. -/
def upTo1 (ends : Char → Bool) : Rule (List Char) := fun place =>
  match upTo ends place with
  | .taken [] _ far => .refused far
  | outcome => outcome

/-- A blank, a tab or a line end. -/
def isSpacing (c : Char) : Bool := c == ' ' || c == '\t' || c == '\r' || c == '\n'

/-- Any number of blanks, which are never missed. -/
def spacing : Rule Unit := fun place =>
  let taken := place.rest.takeWhile isSpacing
  .taken () ⟨place.before + taken.length, place.rest.dropWhile isSpacing⟩ 0

/-- A rule whose value must pass a check; one that does not is a failure behind what
    was taken. -/
def checked {α : Type u} {β : Type v} (r : Rule α) (check : α → Option β) : Rule β :=
  fun place =>
    match r place with
    | .taken a next far =>
        match check a with
        | some b => .taken b next far
        | none => .refused (max far next.before)
    | .refused far => .refused far

/-- A rule, or nothing where it is refused. -/
def optional {α : Type u} (r : Rule α) : Rule (Option α) := fun place =>
  match r place with
  | .taken a next far => .taken (some a) next far
  | .refused far => .taken none place far

/-- A comma with blanks around it. -/
def comma : Rule Unit := do
  spacing
  literal [',']
  spacing

/-- More of a rule, each behind a comma, at most as often as `bound` says. -/
def commaBefore {α : Type} (r : Rule α) : Nat → Rule (List α)
  | 0 => Rule.pure []
  | bound + 1 => fun place =>
      match Rule.bind comma (fun _ => r) place with
      | .taken a next far =>
          match commaBefore r bound next with
          | .taken as last far' => .taken (a :: as) last (max far far')
          | .refused far' => .refused (max far far')
      | .refused far => .taken [] place far

/-- A rule any number of times, with commas between.  Every comma is a character, so
    there are at most as many as there are characters. -/
def commaSeparated {α : Type} (r : Rule α) : Rule (List α) := fun place =>
  match r place with
  | .taken a next far =>
      match commaBefore r (next.rest.length + 1) next with
      | .taken as last far' => .taken (a :: as) last (max far far')
      | .refused far' => .refused (max far far')
  | .refused far => .taken [] place far

/-- What stands between braces. -/
def braced {α : Type} (r : Rule α) : Rule α := do
  literal ['{']
  spacing
  let a ← r
  spacing
  literal ['}']
  return a

/-- The value of a whole text, or the furthest place at which something was expected
    in vain. -/
def whole {α : Type u} (r : Rule α) (text : List Char) : Except Nat α :=
  match r ⟨0, text⟩ with
  | .taken a place far => if place.rest.isEmpty then .ok a else .error (max far place.before)
  | .refused far => .error far

/-- The line and the column, both from one, of the place behind some characters. -/
def lineAndColumn (before : List Char) : Nat × Nat :=
  let line := before.count '\n' + 1
  let column := (before.reverse.takeWhile fun c => c != '\n').length + 1
  (line, column)

end Grammar

end DirectoryAccess
