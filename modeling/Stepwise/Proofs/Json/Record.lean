import Stepwise.CommandLine
import Stepwise.Proofs.Json.Rendered

/-!
# Records are read back

A record is what a line of JSON output holds: the report on an input or the outcome of a step.
Whoever reads the line as JSON finds the fields of the record by their names and has the record
again: truth values, the texts of tokens and messages character by character, blocks, and the
value of a step to the bit, if the number in the text is rounded as the nearest one
(`Decimal.rounds_nearest`).  Only a value that is not finite is lost, for which JSON has no
number.

Main statement: `Record.read?_toText_eq`.
-/

namespace Stepwise

/-! ## Fields -/

namespace Json.Tree

/-- The member with this name. -/
def member? (name : String) : Tree → Option Tree
  | .object members => members.lookup name
  | _ => none

def toBool? : Tree → Option Bool
  | .bool b => some b
  | _ => none

def toText? : Tree → Option String
  | .text s => some s
  | _ => none

/-- A number without a sign, a point and an exponent. -/
def toCount? : Tree → Option Nat
  | .number false ⟨n, 0⟩ => some n
  | _ => none

/-- The binary64 number nearest to a number. -/
def toNumber? : Tree → Option Binary64
  | .number negative d => some (d.nearest negative)
  | _ => none

/-- The items of an array, each read by itself. -/
def toList? {α : Type} (read : Tree → Option α) : Tree → Option (List α)
  | .array items => items.mapM read
  | _ => none

end Json.Tree

/-! ## Parts of records -/

def Token.Kind.ofTree? : Json.Tree → Option Token.Kind
  | .text "number" => some .number
  | .text "operator" => some .operator
  | .text "parenthesis" => some .parenthesis
  | .text "error" => some .error
  | _ => none

def Token.ofTree? (v : Json.Tree) : Option Token := do
  let kind ← v.member? "kind" >>= Token.Kind.ofTree?
  let text ← v.member? "value" >>= Json.Tree.toText?
  return ⟨kind, text⟩

def Block.ofTree? (v : Json.Tree) : Option Block := do
  let id ← v.member? "id" >>= Json.Tree.toCount?
  let priority ← v.member? "priority" >>= Json.Tree.toCount?
  let start ← v.member? "start" >>= Json.Tree.toCount?
  let stop ← v.member? "end" >>= Json.Tree.toCount?
  return ⟨id, priority, start, stop⟩

def Evaluation.ofTree? (v : Json.Tree) : Option Evaluation := do
  let complete ← v.member? "complete" >>= Json.Tree.toBool?
  let value ← v.member? "value" >>= Json.Tree.toNumber?
  let tokens ← v.member? "tokens" >>= Json.Tree.toList? Token.ofTree?
  let blocks ← v.member? "blocks" >>= Json.Tree.toList? Block.ofTree?
  return ⟨complete, value, tokens, blocks⟩

def Outcome.ofTree? (v : Json.Tree) : Option Outcome := do
  let success ← v.member? "success" >>= Json.Tree.toBool?
  let message ← v.member? "message" >>= Json.Tree.toText?
  return ⟨success, message⟩

section Parts

open Json (itemTrees memberTrees tree)

theorem Token.Kind.ofTree?_toJson (kind : Token.Kind) :
    Token.Kind.ofTree? kind.toJson.tree = some kind := by
  cases kind <;> rfl

theorem Token.ofTree?_toJson (t : Token) : Token.ofTree? t.toJson.tree = some t := by
  simp [Token.ofTree?, Token.toJson, tree, memberTrees, Json.Tree.member?, List.lookup_cons,
    Token.Kind.ofTree?_toJson, Json.Tree.toText?]

theorem Block.ofTree?_toJson (b : Block) : Block.ofTree? b.toJson.tree = some b := by
  simp [Block.ofTree?, Block.toJson, tree, memberTrees, Json.Tree.member?, List.lookup_cons,
    Json.Tree.toCount?]

theorem Json.toList?_array {α : Type} {write : α → Json} {read : Json.Tree → Option α}
    (h : ∀ a, read (write a).tree = some a) (as : List α) :
    (Json.array (as.map write)).tree.toList? read = some as := by
  show (itemTrees (as.map write)).mapM read = some as
  induction as with
  | nil => rfl
  | cons a as ih => simp [itemTrees, h, ih]

theorem Outcome.ofTree?_toJson (o : Outcome) : Outcome.ofTree? o.toJson.tree = some o := by
  simp [Outcome.ofTree?, Outcome.toJson, tree, memberTrees, Json.Tree.member?, List.lookup_cons,
    Json.Tree.toBool?, Json.Tree.toText?]

theorem Evaluation.ofTree?_toJson (v : Evaluation) (h : v.value.isFinite = true) :
    Evaluation.ofTree? v.toJson.tree = some v := by
  have hvalue : (Json.number v.value).tree.toNumber? = some v.value := by
    rw [tree, if_pos h, Json.Tree.toNumber?, Json.nearest_ofFinite h]
  have htokens := Json.toList?_array Token.ofTree?_toJson v.tokens
  have hblocks := Json.toList?_array Block.ofTree?_toJson v.blocks
  have hread : Evaluation.ofTree? v.toJson.tree = (do
      let value ← (Json.number v.value).tree.toNumber?
      let tokens ← (Token.listToJson v.tokens).tree.toList? Token.ofTree?
      let blocks ← (Block.listToJson v.blocks).tree.toList? Block.ofTree?
      return ⟨v.complete, value, tokens, blocks⟩) := rfl
  rw [hread, hvalue, Token.listToJson, htokens, Block.listToJson, hblocks]
  rfl

end Parts

/-! ## Records -/

/-- What a line of JSON output holds. -/
inductive Record where
  | report (o : Outcome)
  | outcome (v : Evaluation)

namespace Record

def toJson : Record → Json
  | .report o => o.toJson
  | .outcome v => v.toJson

/-- The text of a record, a line of output. -/
def toText (r : Record) : String := r.toJson.toText

/-- If there is a value, it is finite. -/
def IsFinite : Record → Prop
  | .report _ => True
  | .outcome v => v.value.isFinite = true

/-- The record that a tree is, a report or else an outcome. -/
def ofTree? (v : Json.Tree) : Option Record :=
  ((Outcome.ofTree? v).map .report).or ((Evaluation.ofTree? v).map .outcome)

/-- The record that a text is read as. -/
def read? (text : String) : Option Record := Json.read? text.toList >>= ofTree?

variable {r : Record}

theorem ofTree?_toJson (h : r.IsFinite) : ofTree? r.toJson.tree = some r := by
  cases r with
  | report o => rw [ofTree?, toJson, Outcome.ofTree?_toJson, Option.map_some, Option.some_or]
  | outcome v =>
      have hnone : Outcome.ofTree? v.toJson.tree = none := rfl
      rw [ofTree?, toJson, hnone, Evaluation.ofTree?_toJson v h]
      rfl

theorem toList_toText (r : Record) : r.toText.toList = r.toJson.render := String.toList_ofList

theorem isText_toText (r : Record) : Json.IsText r.toJson.tree r.toText.toList := by
  rw [toList_toText]
  exact Json.isText_render r.toJson

/-- Whatever tree the text of a record shows, it is that record. -/
theorem ofTree?_of_isText {v : Json.Tree} (h : r.IsFinite) (hv : Json.IsText v r.toText.toList) :
    ofTree? v = some r := by
  have hread := Json.read?_of_isText (isText_toText r)
  rw [Json.read?_of_isText hv, Option.some.injEq] at hread
  rw [hread, ofTree?_toJson h]

theorem printable_toText (r : Record) : Json.Printable r.toText.toList := by
  rw [toList_toText]
  exact Json.printable_render r.toJson

/-- A text without control characters is one line, whatever comes after it. -/
theorem splitOn_line {text : String} (h : Json.Printable text.toList) (after : String) :
    (CommandLine.line text ++ after).toList.splitOn '\n' =
      text.toList :: after.toList.splitOn '\n' := by
  have hline : '\n' ∉ text.toList := fun hmem => absurd (h '\n' hmem) (by decide)
  have htext : (CommandLine.line text ++ after).toList =
      text.toList ++ '\n' :: after.toList := by
    simp [CommandLine.line]
  rw [htext, List.splitOn_append_cons_self_of_not_mem hline]

theorem read?_toText (h : r.IsFinite) : read? r.toText = some r := by
  rw [read?, toList_toText, Json.read?_render]
  exact ofTree?_toJson h

/-- A record whose value is finite is one line of output, a JSON text without control
characters.  Whoever reads that text as JSON has the record again, all of it, so no other
record has the same text. -/
theorem read?_toText_eq (r : Record) (h : r.IsFinite) :
    Json.Printable r.toText.toList ∧
      (∀ after : String, (CommandLine.line r.toText ++ after).toList.splitOn '\n' =
        r.toText.toList :: after.toList.splitOn '\n') ∧
      Json.IsText r.toJson.tree r.toText.toList ∧
      (∀ v, Json.IsText v r.toText.toList → ofTree? v = some r) ∧
      read? r.toText = some r ∧
      ∀ r' : Record, r'.IsFinite → r'.toText = r.toText → r' = r := by
  refine ⟨printable_toText r, splitOn_line (printable_toText r), isText_toText r,
    fun v hv => ofTree?_of_isText h hv, read?_toText h, ?_⟩
  intro r' h' htext
  have hsame := read?_toText h'
  rw [htext, read?_toText h, Option.some.injEq] at hsame
  exact hsame.symm

/-- An outcome with a token that has a line break, a quote and a letter outside ASCII. -/
theorem read?_toText_eq_three_tenths :
    let r : Record :=
      .outcome ⟨false, .ofBits 0x3fd3333333333333, [⟨.error, "\n\"é"⟩], [⟨1, 0, 0, 1⟩]⟩
    r.IsFinite ∧ Json.Printable r.toText.toList ∧ read? r.toText = some r ∧
      ∀ r' : Record, r'.IsFinite → r'.toText = r.toText → r' = r := by
  intro r
  have hfinite : r.IsFinite := rfl
  obtain ⟨hprintable, -, -, -, hread, hinjective⟩ := read?_toText_eq r hfinite
  exact ⟨hfinite, hprintable, hread, hinjective⟩

end Record
end Stepwise
