/-!
# Lexemes

The first view of a text: seven symbol characters, runs of blanks and runs of
everything else.  Runs are as long as they can be, nothing is lost, and no text
is refused.
-/

namespace Stepwise

/-- The characters that are lexemes of their own. -/
inductive Symbol where
  | plus
  | minus
  | star
  | slash
  | percent
  | opening
  | closing
deriving DecidableEq, Repr

namespace Symbol

def char : Symbol → Char
  | .plus => '+'
  | .minus => '-'
  | .star => '*'
  | .slash => '/'
  | .percent => '%'
  | .opening => '('
  | .closing => ')'

/-- The symbol that a character is, if it is one. -/
def ofChar? (c : Char) : Option Symbol :=
  if c = '+' then some .plus
  else if c = '-' then some .minus
  else if c = '*' then some .star
  else if c = '/' then some .slash
  else if c = '%' then some .percent
  else if c = '(' then some .opening
  else if c = ')' then some .closing
  else none

theorem ofChar?_eq_some_iff {c : Char} {s : Symbol} : ofChar? c = some s ↔ c = s.char := by
  constructor
  · intro h
    simp only [ofChar?] at h
    repeat' split at h
    all_goals first | (injection h with h; subst h; assumption) | contradiction
  · rintro rfl
    cases s <;> decide

@[simp] theorem ofChar?_char (s : Symbol) : ofChar? s.char = some s :=
  ofChar?_eq_some_iff.mpr rfl

end Symbol

/-- A blank ends a literal and means nothing else: space, tab, line feed, form
feed or carriage return.  Other white space belongs to texts. -/
def isBlank (c : Char) : Bool :=
  c == ' ' || c == '\t' || c == '\n' || c == '\x0c' || c == '\r'

inductive Lexeme where
  | symbol (s : Symbol)
  | text (run : List Char)
  | blank (run : List Char)
deriving DecidableEq, Repr

namespace Lexeme

/-- The characters a lexeme was read from. -/
def chars : Lexeme → List Char
  | .symbol s => [s.char]
  | .text run => run
  | .blank run => run

def isSymbol : Lexeme → Bool
  | .symbol _ => true
  | _ => false

/-- Puts a blank in front, extending a leading run of blanks. -/
def consBlank (c : Char) : List Lexeme → List Lexeme
  | .blank run :: rest => .blank (c :: run) :: rest
  | rest => .blank [c] :: rest

/-- Puts a character of a text in front, extending a leading text. -/
def consText (c : Char) : List Lexeme → List Lexeme
  | .text run :: rest => .text (c :: run) :: rest
  | rest => .text [c] :: rest

/-- The lexemes of `c` followed by what `rest` was read from. -/
def consChar (c : Char) (rest : List Lexeme) : List Lexeme :=
  match Symbol.ofChar? c with
  | some s => .symbol s :: rest
  | none => if isBlank c then consBlank c rest else consText c rest

def scan (cs : List Char) : List Lexeme := cs.foldr consChar []

@[simp] theorem scan_nil : scan [] = [] := rfl

@[simp] theorem scan_cons (c : Char) (cs : List Char) :
    scan (c :: cs) = consChar c (scan cs) := rfl

theorem flatMap_chars_consChar (c : Char) (rest : List Lexeme) :
    (consChar c rest).flatMap chars = c :: rest.flatMap chars := by
  unfold consChar
  split
  · next s h => simp [chars, Symbol.ofChar?_eq_some_iff.mp h]
  · split
    · unfold consBlank; split <;> simp [chars]
    · unfold consText; split <;> simp [chars]

/-- Scanning loses nothing. -/
theorem flatMap_chars_scan (cs : List Char) : (scan cs).flatMap chars = cs := by
  induction cs with
  | nil => rfl
  | cons c cs ih => rw [scan_cons, flatMap_chars_consChar, ih]

end Lexeme
end Stepwise
