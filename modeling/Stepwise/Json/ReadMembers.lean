import Stepwise.Json.ReadNumber

/-!
# Reading a flat object of numbers

The one kind of document that is read is an object whose members are all
numbers.  Any other value is a fault that names what was found instead, once the
value itself has been read far enough to know.
-/

namespace Stepwise.Json

/-! ## Values of another type -/

/-- The text behind a word that has to stand at its start. -/
def expectWord : (word : List Char) → (cs : List Char) → Except Fault (List Char)
  | [], cs => .ok cs
  | _ :: _, [] => .error (.here .endInValue [])
  | w :: word, c :: cs =>
      if c = w then expectWord word cs else .error (.into 1 .misspelledWord (c :: cs))

/-- What stands at the start of a text, and the text behind it.  Of arrays and
objects nothing is read. -/
def readFound (cs : List Char) : Reading Found :=
  match cs with
  | 'n' :: rest => (expectWord "ull".toList rest).map (.null, ·)
  | 't' :: rest => (expectWord "rue".toList rest).map (.boolean true, ·)
  | 'f' :: rest => (expectWord "alse".toList rest).map (.boolean false, ·)
  | '"' :: rest => (readText rest).map fun (cs, rest) => (.text cs, rest)
  | '[' :: _ => .ok (.sequence, cs)
  | '{' :: _ => .ok (.map, cs)
  | '-' :: _ => (readNumber cs).map fun (n, rest) => (n.found, rest)
  | c :: _ =>
      if c.isDigit then (readNumber cs).map fun (n, rest) => (n.found, rest)
      else .error (.into 1 .notAValue cs)
  | [] => .error (.here .endInValue [])

/-- The fault of a text that begins with no value of the expected type. -/
def mismatch (expected : Expected) (cs : List Char) : Fault :=
  match readFound cs with
  | .error fault => fault
  | .ok (found, rest) => .here (.wrongType found expected) rest

/-! ## Members -/

/-- The numeral at the start of a text, blanks aside. -/
def readValue (cs : List Char) : Reading Numeral :=
  match skipBlanks cs with
  | [] => .error (.here .endInValue [])
  | c :: rest =>
      if c = '-' || c.isDigit then readNumber (c :: rest)
      else .error (mismatch .number (c :: rest))

/-- A member of the object: its key and the number it is bound to. -/
abbrev Member := List Char × Binary64

/-- A member, from behind the opening quote of its key. -/
def readMember (cs : List Char) : Reading Member :=
  match readText cs with
  | .error fault => .error fault
  | .ok (key, rest) =>
      match skipBlanks rest with
      | ':' :: rest => (readValue rest).map fun (n, rest) => ((key, n.value), rest)
      | [] => .error (.here .endInObject [])
      | rest => .error (.into 1 .missingColon rest)

theorem length_skipBlanks_le (cs : List Char) : (skipBlanks cs).length ≤ cs.length :=
  (List.dropWhile_sublist _).length_le

theorem length_readMember_lt {cs rest : List Char} {m : Member}
    (h : readMember cs = .ok (m, rest)) : rest.length < cs.length := by
  unfold readMember at h
  split at h
  · cases h
  · next key afterKey hk =>
    have hkey := length_readText_lt hk
    have hskip := length_skipBlanks_le afterKey
    split at h
    · next afterColon hc =>
      rw [hc, List.length_cons] at hskip
      cases hv : readValue afterColon with
      | error fault => rw [hv] at h; cases h
      | ok reading =>
        rw [hv] at h
        cases h
        have hle : reading.2.length ≤ afterColon.length := by
          unfold readValue at hv
          have := length_skipBlanks_le afterColon
          split at hv
          · cases hv
          · next heq =>
            rw [heq] at this
            split at hv
            · exact Nat.le_trans (length_readNumber_le hv) this
            · cases hv
        omega
    · cases h
    · cases h

/-- The members of an object, from behind the opening quote of the first key to
behind the closing brace. -/
def readMembers (cs : List Char) : Reading (List Member) :=
  match _h : readMember cs with
  | .error fault => .error fault
  | .ok (member, afterMember) =>
      match _hs : skipBlanks afterMember with
      | '}' :: rest => .ok ([member], rest)
      | ',' :: afterComma =>
          match _hq : skipBlanks afterComma with
          | '"' :: rest =>
              match readMembers rest with
              | .error fault => .error fault
              | .ok (members, rest) => .ok (member :: members, rest)
          | [] => .error (.here .endInValue [])
          | '}' :: rest => .error (.into 1 .trailingComma ('}' :: rest))
          | rest => .error (.into 1 .keyNotText rest)
      | [] => .error (.here .endInObject [])
      | rest => .error (.into 1 .missingComma rest)
termination_by cs.length
decreasing_by
  have hm := length_readMember_lt _h
  have hs := length_skipBlanks_le afterMember
  have hq := length_skipBlanks_le afterComma
  rw [_hs, List.length_cons] at hs
  rw [_hq, List.length_cons] at hq
  omega

/-- The members of an object, from behind its opening brace. -/
def readObject (cs : List Char) : Reading (List Member) :=
  match skipBlanks cs with
  | '}' :: rest => .ok ([], rest)
  | '"' :: rest => readMembers rest
  | [] => .error (.here .endInObject [])
  | rest => .error (.into 1 .keyNotText rest)

/-- The members of the object that makes up a text. -/
def readDocument (cs : List Char) : Except Fault (List Member) :=
  match skipBlanks cs with
  | [] => .error (.here .endInValue [])
  | '{' :: rest =>
      match readObject rest with
      | .error fault => .error fault
      | .ok (members, rest) =>
          match skipBlanks rest with
          | [] => .ok members
          | rest => .error (.into 1 .trailingCharacters rest)
  | rest => .error (mismatch .map rest)

end Stepwise.Json
