import Stepwise.Proofs.CommandLine.Flags
import Stepwise.Proofs.Session.Lifecycle
import Stepwise.Proofs.Text.Trim

/-!
# What the command line prints

The program takes the steps of an input in a loop of its own and prints as it goes what
the options ask for.  What it prints is told here without that loop: by the outcomes that a
walk through the steps hands out, by the last outcome of a run, and by the reason for
rejecting the input.  Lines, columns and reports are written out (`unlines`, `columns`,
`acceptedText`, `rejectedText`).  The program answers every input in this way under all
options, so that none makes it loop or report that a step has failed.
-/

namespace Stepwise.CommandLine

/-! ## Steps, printed -/

/-- The texts, each with a line feed after it. -/
def unlines : List String → String
  | [] => ""
  | text :: rest => text ++ "\n" ++ unlines rest

/-- The walk hands out these outcomes, no failure, and then nothing more. -/
inductive Yields : Expression.Walk → List Evaluation → Prop where
  | ended {w : Expression.Walk} (h : w.next?.1 = none) : Yields w []
  | step {w after : Expression.Walk} {v : Evaluation} {rest : List Evaluation}
      (h : w.next? = (some (.ok v), after)) (hrest : Yields after rest) : Yields w (v :: rest)

variable {o : Options} {e : Expression} {tree : Tree} {v : Evaluation}

theorem unlines_filterMap_cons {α : Type} (f : α → Option String) (a : α) (as : List α) :
    unlines ((a :: as).filterMap f) = (f a).elim "" line ++ unlines (as.filterMap f) := by
  rw [List.filterMap_cons]
  cases f a with
  | none => exact String.empty_append.symm
  | some text => rfl

theorem printSteps_of_next {s after : Session} (h : s.next = (.ok v, after)) :
    printSteps o s = if v.complete then ⟨0, (outcomeText? o v).elim "" line, ""⟩ else
      { printSteps o after with
        output := (outcomeText? o v).elim "" line ++ (printSteps o after).output } := by
  rw [printSteps]
  split
  · next heq => cases h.symm.trans heq
  · next heq =>
    cases h.symm.trans heq
    rfl

/-- A walk and the printing go side by side, step by step, to the last outcome, which is
also that of a run. -/
theorem exists_printSteps (h : Reads 3 e.tokens tree) :
    ∃ items last, Yields e.walk (items ++ [last]) ∧ e.evaluateAll.1 = .ok last ∧
      (∀ v ∈ items, v.complete = false) ∧ last.complete = true ∧
      ∀ o, printSteps o (.accepted e) =
        ⟨0, unlines ((items ++ [last]).filterMap (outcomeText? o)), ""⟩ := by
  induction hlength : e.tokens.length using Nat.strongRecOn generalizing e tree with
  | ind n ih =>
      have hnext := Expression.next_eq h
      have hstep : (Session.accepted e).next =
          (.ok (e.after 1).evaluation, .accepted (e.after 1)) := by
        rw [Session.next, Session.reduceBy, hnext]
      have hwalk : e.walk.next? =
          (some (.ok (e.after 1).evaluation), ⟨e.after 1, (e.after 1).evaluation.complete⟩) := by
        rw [Expression.walk, Expression.Walk.next?, hnext]
        rfl
      have hrun := Expression.evaluateAll_eq_of_next hnext
      cases hcomplete : (e.after 1).evaluation.complete with
      | true =>
          rw [hcomplete] at hwalk hrun
          refine ⟨[], _, .step hwalk (.ended rfl), ?_, ?_, hcomplete, ?_⟩
          · rw [hrun, if_pos rfl]
          · exact fun _ hv => absurd hv List.not_mem_nil
          · intro o
            rw [printSteps_of_next hstep, if_pos hcomplete, List.nil_append,
              unlines_filterMap_cons]
            exact congrArg (Result.mk 0 · "") String.append_empty.symm
      | false =>
          rw [hcomplete] at hwalk hrun
          obtain ⟨tree', htree', _⟩ := Expression.exists_reads_after h 1
          have hlt := hlength ▸ Expression.length_tokens_next_lt hnext hcomplete
          obtain ⟨items, last, hyields, hall, hitems, hlast, hprint⟩ := ih _ hlt htree' rfl
          refine ⟨(e.after 1).evaluation :: items, last, .step hwalk hyields, ?_, ?_, hlast, ?_⟩
          · rw [hrun, if_neg Bool.false_ne_true, hall]
          · exact List.forall_mem_cons.mpr ⟨hcomplete, hitems⟩
          · intro o
            rw [printSteps_of_next hstep, if_neg (Bool.eq_false_iff.mp hcomplete), hprint,
              List.cons_append, unlines_filterMap_cons]

/-! ## What is printed -/

/-- The value of an outcome, filled up to twelve characters, and then each of its tokens
behind a blank. -/
def columns (v : Evaluation) : String :=
  v.value.toText ++ .ofList (List.replicate (12 - v.value.toText.length) ' ') ++ " " ++
    " ".intercalate (v.tokens.map Token.text)

/-- The report on an accepted input, in JSON. -/
def acceptedText : String := "\x7b\"success\":true,\"message\":\"Parsing complete.\"\x7d"

/-- The report on a rejected input, in JSON. -/
def rejectedText (reason : InputError) : String :=
  (Json.object [("success", .bool false), ("message", .text reason.message)]).toText

/-- The lines printed for an accepted input, when its steps have the outcomes `items` and
then `last`. -/
def acceptedLines (o : Options) (items : List Evaluation) (last : Evaluation) : List String :=
  match o.json, o.steps with
  | false, false => [last.value.toText]
  | false, true => (items ++ [last]).map columns
  | true, false => [acceptedText, last.toJson.toText]
  | true, true => acceptedText :: (items ++ [last]).map fun v => v.toJson.toText

/-- The result for an input, told by what the library makes of the input. -/
inductive Answers (o : Options) (input : String) : Result → Prop where
  | rejected {reason : InputError} (h : Expression.parse input = .error reason) :
      Answers o input
        ⟨1, unlines (if o.json then [rejectedText reason] else []),
          unlines ["Parser error: " ++ reason.message]⟩
  | accepted {e : Expression} {items : List Evaluation} {last : Evaluation}
      (h : Expression.parse input = .ok e) (hitems : Yields e.walk (items ++ [last]))
      (hlast : e.evaluateAll.1 = .ok last) (hvalue : Expression.evaluate input = .ok last.value) :
      Answers o input ⟨0, unlines (acceptedLines o items last), ""⟩

theorem toText_accepted : Outcome.accepted.toJson.toText = acceptedText := by decide

theorem reportLine_eq (o : Options) (report : Outcome) :
    reportLine o report = unlines (if o.json then [report.toJson.toText] else []) := by
  rw [reportLine]
  split
  · exact String.append_empty.symm
  · rfl

theorem unlines_append (texts more : List String) :
    unlines (texts ++ more) = unlines texts ++ unlines more := by
  induction texts with
  | nil => exact String.empty_append.symm
  | cons text texts ih => simp only [List.cons_append, unlines, ih, String.append_assoc]

theorem acceptedLines_eq {items : List Evaluation} {last : Evaluation}
    (hitems : ∀ v ∈ items, v.complete = false) (hlast : last.complete = true) :
    acceptedLines o items last = (if o.json then [acceptedText] else []) ++
      (items ++ [last]).filterMap (outcomeText? o) := by
  obtain ⟨file, steps, json⟩ := o
  cases steps with
  | false =>
      -- nothing is printed before the last step
      have hsilent : items.filterMap (outcomeText? ⟨file, false, json⟩) = [] := by
        rw [List.filterMap_eq_nil_iff]
        intro v hv
        simp [outcomeText?, hitems v hv]
      rw [List.filterMap_append, hsilent]
      cases json <;> simp [acceptedLines, outcomeText?, hlast]
  | true =>
      have hall := fun f => congrFun (@List.filterMap_eq_map Evaluation String f) (items ++ [last])
      cases json with
      | false => exact (hall _).symm
      | true => exact congrArg (acceptedText :: ·) (hall _).symm

variable {input : String}

theorem evaluate_of_error {reason : InputError} (h : Expression.parse input = .error reason) :
    evaluate o input =
      ⟨1, reportLine o (.rejected reason), line ("Parser error: " ++ reason.message)⟩ := by
  have hsession : Session.parse input = (.rejected reason, .rejected input reason) := by
    rw [Session.parse, h]
  rw [evaluate, hsession]
  rfl

theorem evaluate_of_ok (h : Expression.parse input = .ok e) :
    evaluate o input = { printSteps o (.accepted e) with
      output := reportLine o .accepted ++ (printSteps o (.accepted e)).output } := by
  have hsession : Session.parse input = (.accepted, .accepted e) := by
    rw [Session.parse, h]
  rw [evaluate, hsession]
  rfl

/-- The result for an input is told by what the library makes of it, under all options. -/
theorem answers_evaluate (o : Options) (input : String) : Answers o input (evaluate o input) := by
  cases hparse : Expression.parse input with
  | error reason =>
      have hline : line ("Parser error: " ++ reason.message) =
          unlines ["Parser error: " ++ reason.message] := String.append_empty.symm
      rw [evaluate_of_error hparse, reportLine_eq, hline]
      exact .rejected hparse
  | ok e =>
      obtain ⟨tree, hreads⟩ := (Expression.Parsed.ofInput hparse).exists_reads
      obtain ⟨items, last, hyields, hrun, hitems, hlast, hprint⟩ := exists_printSteps hreads
      have hvalue : Expression.evaluate input = .ok last.value := by
        simp only [Expression.evaluate, hparse, hrun]
      rw [evaluate_of_ok hparse, hprint, reportLine_eq, toText_accepted]
      simp only [← unlines_append, ← acceptedLines_eq hitems hlast]
      exact .accepted hparse hyields hrun hvalue

/-! ## One answer -/

theorem Yields.unique {w : Expression.Walk} {items items' : List Evaluation}
    (h : Yields w items) (h' : Yields w items') : items = items' := by
  induction h generalizing items' with
  | ended h =>
      cases h' with
      | ended _ => rfl
      | step h' _ =>
          rw [h'] at h
          cases h
  | step h _ ih =>
      cases h' with
      | ended h' =>
          rw [h] at h'
          cases h'
      | step h' hrest' =>
          cases h.symm.trans h'
          rw [ih hrest']

theorem Answers.unique {r r' : Result} (h : Answers o input r) (h' : Answers o input r') :
    r = r' := by
  cases h with
  | rejected h =>
      cases h' with
      | rejected h' =>
          cases h.symm.trans h'
          rfl
      | accepted h' => cases h.symm.trans h'
  | accepted h hitems =>
      cases h' with
      | rejected h' => cases h.symm.trans h'
      | accepted h' hitems' =>
          cases h.symm.trans h'
          obtain ⟨rfl, hlast⟩ := List.append_inj' (hitems.unique hitems') rfl
          cases hlast
          rfl

theorem answers_iff (o : Options) (input : String) (r : Result) :
    Answers o input r ↔ r = evaluate o input := by
  constructor
  · exact fun h => h.unique (answers_evaluate o input)
  · rintro rfl
    exact answers_evaluate o input

/-! ## Running the program -/

/-- The program, run with flags and an argument after a `--`, gives the answer for that
argument as the input, and no other result.  With the flag for files it reads the file that
the argument names, and its input is the text of the file without the white space around
it. -/
theorem answers_of_flags {flags : List String} (hflags : flags ⊆ flagNames)
    (hnodup : flags.Nodup) (argument : String) :
    let request := Request.ofArguments (flags ++ ["--", argument])
    ("--file" ∉ flags → request.path? = none ∧ ∀ content result,
      Answers (.ofFlags flags) argument result ↔ result = request.run content) ∧
    ("--file" ∈ flags → request.path? = some argument ∧
      ∀ content text, String.fromUTF8? content = some text →
        ∃ input, (∀ cs, Text.Trims text.toList cs ↔ cs = input) ∧
          ∀ result, Answers (.ofFlags flags) (.ofList input) result ↔
            result = request.run (some content)) := by
  intro request
  have hrequest : request = .evaluate (.ofFlags flags) argument :=
    ofArguments_flags hflags hnodup argument
  have hfile : (Options.ofFlags flags).file = flags.contains "--file" := Bool.false_or _
  rw [hrequest]
  constructor
  · intro hmem
    rw [List.contains_eq_mem, decide_eq_false hmem] at hfile
    refine ⟨by rw [Request.path?, hfile]; rfl, fun content => ?_⟩
    rw [Request.run, hfile]
    exact answers_iff _ argument
  · intro hmem
    rw [List.contains_eq_mem, decide_eq_true hmem] at hfile
    refine ⟨by rw [Request.path?, hfile]; rfl, fun content text htext => ?_⟩
    have hinput : (some content).bind inputOfFile? = some (.ofList (Text.trim text.toList)) := by
      simp [inputOfFile?, htext]
    refine ⟨Text.trim text.toList, fun cs => Text.trims_iff, ?_⟩
    rw [Request.run, hfile]
    simp only [hinput, if_true]
    exact answers_iff _ _

/-- The steps of an input in columns and in JSON, and a file that is named like a flag and
holds no expression. -/
theorem answers_of_flags_named :
    let content := " 2 3\n".toUTF8
    (["--steps"] ⊆ flagNames ∧ ["--steps"].Nodup ∧ "--file" ∉ ["--steps"] ∧
      Answers (.ofFlags ["--steps"]) "2*(3-(1))"
        ⟨0, "1            2 * ( 3 - 1 )\n2            2 * 2\n4            4\n", ""⟩) ∧
    (["--json"] ⊆ flagNames ∧ ["--json"].Nodup ∧ "--file" ∉ ["--json"] ∧
      Answers (.ofFlags ["--json"]) "7/2"
        ⟨0, "\x7b\"success\":true,\"message\":\"Parsing complete.\"\x7d\n" ++
          "\x7b\"complete\":true,\"value\":3.5,\"tokens\":[\x7b\"kind\":\"number\"," ++
          "\"value\":\"3.5\"\x7d],\"blocks\":[\x7b\"id\":1,\"priority\":0," ++
          "\"start\":0,\"end\":1\x7d]\x7d\n", ""⟩) ∧
    ["--json", "--file"] ⊆ flagNames ∧ ["--json", "--file"].Nodup ∧
      "--file" ∈ ["--json", "--file"] ∧ String.fromUTF8? content = some " 2 3\n" ∧
      (Request.ofArguments (["--json", "--file"] ++ ["--", "-f"])).run (some content) =
        ⟨1, "\x7b\"success\":false,\"message\":" ++
          "\"Missing operator between '2' and '3'.\"\x7d\n",
          "Parser error: Missing operator between '2' and '3'.\n"⟩ := by
  intro content
  have hcontent : String.fromUTF8? content = some " 2 3\n" := by decide
  refine ⟨⟨by decide, by decide, by decide, ?_⟩, ⟨by decide, by decide, by decide, ?_⟩,
    by decide, by decide, by decide, hcontent, ?_⟩
  · obtain ⟨hinline, _⟩ := @answers_of_flags ["--steps"] (by decide) (by decide) "2*(3-(1))"
    obtain ⟨_, hanswers⟩ := hinline (by decide)
    exact (hanswers none _).mpr (by decide +kernel)
  · obtain ⟨hinline, _⟩ := @answers_of_flags ["--json"] (by decide) (by decide) "7/2"
    obtain ⟨_, hanswers⟩ := hinline (by decide)
    exact (hanswers none _).mpr (by decide +kernel)
  · obtain ⟨_, hfile⟩ := @answers_of_flags ["--json", "--file"] (by decide) (by decide) "-f"
    obtain ⟨input, htrims, hanswers⟩ := (hfile (by decide)).2 content _ hcontent
    have hinput : "2 3".toList = input := by
      refine (htrims _).mp ⟨⟨[' '], ['\n'], rfl, ?_, ?_⟩, ?_, ?_⟩
      · exact List.forall_mem_singleton.mpr (by decide)
      · exact List.forall_mem_singleton.mpr (by decide)
      · rintro c ⟨⟩
        decide
      · rintro c ⟨⟩
        decide
    have hanswer : Answers (.ofFlags ["--json", "--file"]) "2 3"
        ⟨1, unlines [rejectedText (.missingOperator "2" "3")],
          unlines ["Parser error: " ++ (InputError.missingOperator "2" "3").message]⟩ :=
      .rejected rfl
    subst hinput
    exact ((hanswers _).mp hanswer).symm.trans (by decide)

end Stepwise.CommandLine
