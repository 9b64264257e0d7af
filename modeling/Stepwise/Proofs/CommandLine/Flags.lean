import Stepwise.CommandLine

/-!
# Flags

Flags by name, each at most once and in whatever order, followed by a `--` and one
argument: they turn on the options of the same names, and what follows the `--` is the
argument, also where it looks like a flag.
-/

namespace Stepwise.CommandLine

/-- The flags that turn options on, by name. -/
def flagNames : List String := ["--file", "--steps", "--json"]

namespace Options

/-- The option that a flag stands for. -/
def isOn (o : Options) (flag : String) : Bool :=
  if flag = "--file" then o.file
  else if flag = "--steps" then o.steps
  else if flag = "--json" then o.json
  else false

/-- The options together with those that flags turn on. -/
def turnOnAll (o : Options) (flags : List String) : Options :=
  ⟨o.file || flags.contains "--file", o.steps || flags.contains "--steps",
    o.json || flags.contains "--json"⟩

/-- The options that are on are those that flags turn on. -/
def ofFlags (flags : List String) : Options := turnOnAll ⟨false, false, false⟩ flags

variable {o : Options} {flag other : String} {flags : List String}

@[simp] theorem turnOnAll_nil (o : Options) : o.turnOnAll [] = o := by simp [turnOnAll]

theorem turnOnAll_turnOnAll (o : Options) (flag : String) (flags : List String) :
    (o.turnOnAll [flag]).turnOnAll flags = o.turnOnAll (flag :: flags) := by
  simp [turnOnAll, Bool.or_assoc]

theorem isOn_turnOnAll_of_ne (hne : other ≠ flag) :
    (o.turnOnAll [flag]).isOn other = o.isOn other := by
  simp only [isOn, turnOnAll]
  split
  · next h => simp [← h, hne]
  · split
    · next h => simp [← h, hne]
    · split
      · next h => simp [← h, hne]
      · rfl

end Options

variable {flag : String} {flags rest : List String} {g : Given}

theorem read_flag (hflag : flag ∈ flagNames) (hoff : g.options.isOn flag = false) :
    g.read flag = .ok ⟨g.options.turnOnAll [flag], g.argument⟩ := by
  simp only [flagNames, List.mem_cons, List.not_mem_nil, or_false] at hflag
  rcases hflag with rfl | rfl | rfl
  · have hread : g.read "--file" = g.turnOn .file := rfl
    have hfile : g.options.file = false := hoff
    rw [hread, Given.turnOn, hfile]
    simp [Options.turnOnAll]
  · have hread : g.read "--steps" = g.turnOn .steps := rfl
    have hsteps : g.options.steps = false := hoff
    rw [hread, Given.turnOn, hsteps]
    simp [Options.turnOnAll]
  · have hread : g.read "--json" = g.turnOn .json := rfl
    have hjson : g.options.json = false := hoff
    rw [hread, Given.turnOn, hjson]
    simp [Options.turnOnAll]

theorem readAll_flags (hflags : flags ⊆ flagNames) (hnodup : flags.Nodup)
    (hoff : ∀ flag ∈ flags, g.options.isOn flag = false) :
    g.readAll (flags ++ rest) = Given.readAll ⟨g.options.turnOnAll flags, g.argument⟩ rest := by
  induction flags generalizing g with
  | nil => simp
  | cons flag flags ih =>
      obtain ⟨hflag, hflags⟩ := List.cons_subset.mp hflags
      obtain ⟨hmem, hnodup⟩ := List.nodup_cons.mp hnodup
      obtain ⟨hoff, hoffs⟩ := List.forall_mem_cons.mp hoff
      have hflag' : flag ≠ "--" := by
        rintro rfl
        exact absurd hflag (by decide)
      rw [List.cons_append, Given.readAll]
      · rw [read_flag hflag hoff]
        simp only [bind, Except.bind]
        rw [ih hflags hnodup, Options.turnOnAll_turnOnAll]
        intro other hother
        have hne : other ≠ flag := by
          rintro rfl
          exact hmem hother
        rw [Options.isOn_turnOnAll_of_ne hne]
        exact hoffs other hother
      · exact hflag'

/-- Flags, in any order, and after a `--` the argument, whatever it begins with. -/
theorem ofArguments_flags (hflags : flags ⊆ flagNames) (hnodup : flags.Nodup) (argument : String) :
    Request.ofArguments (flags ++ ["--", argument]) = .evaluate (.ofFlags flags) argument := by
  have hoff : ∀ flag ∈ flags, Given.nothing.options.isOn flag = false := by
    intro flag _
    simp [Options.isOn, Given.nothing]
  rw [Request.ofArguments, readAll_flags hflags hnodup hoff]
  rfl

end Stepwise.CommandLine
