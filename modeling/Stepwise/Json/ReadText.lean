import Stepwise.Json.Fault

/-!
# Reading JSON texts

A text is read from behind its opening quote to behind its closing one.  A
character beyond the basic plane may be escaped as a pair of surrogates; a
surrogate without its partner is a fault.
-/

namespace Stepwise.Json

/-- What a reader gives: a value and what is left behind it. -/
abbrev Reading (α : Type) := Except Fault (α × List Char)

/-- Blanks between the parts of a JSON text. -/
def isBlank (c : Char) : Bool := c == ' ' || c == '\t' || c == '\n' || c == '\r'

/-- The text from the first character that is not a blank. -/
def skipBlanks (cs : List Char) : List Char := cs.dropWhile isBlank

/-! ## Escapes -/

/-- The character that a one-letter escape stands for. -/
def unescape? (c : Char) : Option Char :=
  if c = '"' || c = '\\' || c = '/' then some c
  else if c = 'b' then some '\x08'
  else if c = 'f' then some '\x0c'
  else if c = 'n' then some '\n'
  else if c = 'r' then some '\r'
  else if c = 't' then some '\t'
  else none

def hexDigit? (c : Char) : Option Nat :=
  if c.isDigit then some (c.toNat - '0'.toNat)
  else if 'a' ≤ c && c ≤ 'f' then some (c.toNat - 'a'.toNat + 10)
  else if 'A' ≤ c && c ≤ 'F' then some (c.toNat - 'A'.toNat + 10)
  else none

/-- The number of four hexadecimal digits. -/
def fourHexDigits? : List Char → Option (Nat × List Char)
  | a :: b :: c :: d :: rest => do
      let a ← hexDigit? a
      let b ← hexDigit? b
      let c ← hexDigit? c
      let d ← hexDigit? d
      some (((a * 16 + b) * 16 + c) * 16 + d, rest)
  | _ => none

/-- A code unit of four hexadecimal digits.  Four bytes are taken whatever they
are, so the text has to be that long. -/
def readCodeUnit (cs : List Char) : Reading Nat :=
  match fourHexDigits? cs with
  | some reading => .ok reading
  | none =>
      if byteCount (cs.take 4) < 4 then .error (.here .endInText [])
      else .error (.into 4 .invalidEscape cs)

def isHighSurrogate (unit : Nat) : Bool := 0xd800 ≤ unit && unit ≤ 0xdbff

def isLowSurrogate (unit : Nat) : Bool := 0xdc00 ≤ unit && unit ≤ 0xdfff

/-- The character of a pair of surrogates. -/
def ofSurrogates (high low : Nat) : Char :=
  .ofNat (0x10000 + (high - 0xd800) * 0x400 + (low - 0xdc00))

/-- The low surrogate that has to follow a high one, with the start of its
escape. -/
def readLowSurrogate : List Char → Reading Nat
  | [] | ['\\'] => .error (.here .endInText [])
  | '\\' :: 'u' :: cs =>
      match readCodeUnit cs with
      | .error fault => .error fault
      | .ok (unit, rest) =>
          if isLowSurrogate unit then .ok (unit, rest)
          else .error (.here .loneSurrogate rest)
  | '\\' :: cs => .error (.into 1 .unfinishedPair cs)
  | cs => .error (.into 1 .unfinishedPair cs)

/-- The character of an escape by code units, from behind its `u`. -/
def readUnicodeEscape (cs : List Char) : Reading Char :=
  match readCodeUnit cs with
  | .error fault => .error fault
  | .ok (unit, rest) =>
      if isLowSurrogate unit then .error (.here .loneSurrogate rest)
      else if isHighSurrogate unit then
        match readLowSurrogate rest with
        | .error fault => .error fault
        | .ok (low, rest) => .ok (ofSurrogates unit low, rest)
      else .ok (.ofNat unit, rest)

/-- The character of an escape, from behind its backslash. -/
def readEscape : List Char → Reading Char
  | [] => .error (.here .endInText [])
  | c :: cs =>
      match unescape? c with
      | some d => .ok (d, cs)
      | none =>
          if c = 'u' then readUnicodeEscape cs
          else .error (.into 1 .invalidEscape (c :: cs))

/-! ## Reading shortens the text -/

theorem length_fourHexDigits?_lt {cs rest : List Char} {unit : Nat}
    (h : fourHexDigits? cs = some (unit, rest)) : rest.length < cs.length := by
  unfold fourHexDigits? at h
  split at h
  · simp only [Option.bind_eq_bind, Option.bind_eq_some_iff, Option.some.injEq,
      Prod.mk.injEq] at h
    obtain ⟨_, -, _, -, _, -, _, -, -, rfl⟩ := h
    simp only [List.length_cons]; omega
  · cases h

theorem length_readCodeUnit_lt {cs rest : List Char} {unit : Nat}
    (h : readCodeUnit cs = .ok (unit, rest)) : rest.length < cs.length := by
  unfold readCodeUnit at h
  split at h
  · next hd => cases h; exact length_fourHexDigits?_lt hd
  · split at h <;> cases h

theorem length_readLowSurrogate_lt {cs rest : List Char} {unit : Nat}
    (h : readLowSurrogate cs = .ok (unit, rest)) : rest.length < cs.length := by
  unfold readLowSurrogate at h
  split at h
  · cases h
  · cases h
  · split at h
    · cases h
    · next hu =>
      split at h
      · cases h
        have := length_readCodeUnit_lt hu
        simp only [List.length_cons]; omega
      · cases h
  · cases h
  · cases h

theorem length_readUnicodeEscape_lt {cs rest : List Char} {c : Char}
    (h : readUnicodeEscape cs = .ok (c, rest)) : rest.length < cs.length := by
  unfold readUnicodeEscape at h
  split at h
  · cases h
  · next hu =>
    have := length_readCodeUnit_lt hu
    split at h
    · cases h
    · split at h
      · split at h
        · cases h
        · next hl =>
          simp only [Except.ok.injEq, Prod.mk.injEq] at h
          have := length_readLowSurrogate_lt hl
          rw [← h.2]; omega
      · simp only [Except.ok.injEq, Prod.mk.injEq] at h
        rw [← h.2]; assumption

theorem length_readEscape_lt {cs rest : List Char} {c : Char}
    (h : readEscape cs = .ok (c, rest)) : rest.length < cs.length := by
  unfold readEscape at h
  split at h
  · cases h
  · split at h
    · cases h; simp
    · split at h
      · have := length_readUnicodeEscape_lt h
        simp only [List.length_cons]; omega
      · cases h

/-! ## Texts -/

/-- The characters of a text, from behind its opening quote. -/
def readText (cs : List Char) : Reading (List Char) :=
  match cs with
  | [] => .error (.here .endInText [])
  | '"' :: rest => .ok ([], rest)
  | '\\' :: rest =>
      match _h : readEscape rest with
      | .error fault => .error fault
      | .ok (c, rest) =>
          match readText rest with
          | .error fault => .error fault
          | .ok (cs, rest) => .ok (c :: cs, rest)
  | c :: rest =>
      if c.toNat < 0x20 then .error (.into 1 .controlCharacter (c :: rest))
      else
        match readText rest with
        | .error fault => .error fault
        | .ok (cs, rest) => .ok (c :: cs, rest)
termination_by cs.length
decreasing_by
  · have := length_readEscape_lt _h
    simp only [List.length_cons]; omega
  · simp

theorem length_readText_lt {cs rest read : List Char}
    (h : readText cs = .ok (read, rest)) : rest.length < cs.length := by
  fun_induction readText cs generalizing rest read with
  | case1 => cases h
  | case2 => cases h; simp
  | case3 => cases h
  | case4 => cases h
  | case5 r c r' he t r'' ht ih =>
    cases h
    have := length_readEscape_lt he
    have := ih ht
    simp only [List.length_cons]; omega
  | case6 => cases h
  | case7 => cases h
  | case8 c r _ _ hc t r' ht ih =>
    cases h
    have := ih ht
    simp only [List.length_cons]; omega

end Stepwise.Json
