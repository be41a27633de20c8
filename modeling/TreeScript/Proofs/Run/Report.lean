import TreeScript.Proofs.Run.Limits

/-!
# What is seen of a run

Of a program that was started on some files and some console and has ended one sees its value or
error, what it printed, its records, the files and its own variables: its `Report`.  Which functions
it has registered is not seen, because their bodies are pieces of the program itself.

A program has one report, or none if it runs for ever (`Program.EndsIn.unique`).  So two programs
with the same reports either both run for ever or end in the same way.
-/

namespace TreeScript

/-- What is seen of a run that has ended. -/
structure Report where
  result : Except RunError Value
  console : Console
  /-- The records in their order. -/
  records : List Record
  files : Files
  /-- The variables of the program itself. -/
  bindings : Frame

/-- What is seen of a state, beside the result. -/
def State.report (st : State) (result : Except RunError Value) : Report where
  result := result
  console := st.console
  records := st.records
  files := st.files
  bindings := st.stack.current

/-- What is seen of an outcome, if the run has ended. -/
def Outcome.report? : Outcome Value → Option Report
  | .done value st => some (st.report (.ok value))
  | .failed error st => some (st.report (.error error))
  | .exhausted => none

/-- **A program ends in a report**, when it is started on this console and these files and at most
`limit` calls may be active. -/
def Program.EndsIn (p : Program) (limit : Nat) (console : Console) (files : Files)
    (report : Report) : Prop :=
  ∃ fuel, (Interpreter.execute limit fuel p { console := console, files := files }).report? =
    some report

/-- **A program has one report at most**: with any two amounts of fuel it ends in the same way, or
runs out of one of them. -/
theorem Program.EndsIn.unique {p : Program} {limit : Nat} {console : Console} {files : Files}
    {report report' : Report} (h : p.EndsIn limit console files report)
    (h' : p.EndsIn limit console files report') : report = report' := by
  have hle : ∀ {fuel fuel' : Nat} {r r' : Report}, fuel ≤ fuel' →
      (Interpreter.execute limit fuel p { console := console, files := files }).report? = some r →
      (Interpreter.execute limit fuel' p { console := console, files := files }).report? =
        some r' → r = r' := by
    intro fuel fuel' r r' hfuel hr hr'
    have hends : Interpreter.execute limit fuel p { console := console, files := files } ≠
        .exhausted := by
      intro hexhausted
      rw [hexhausted] at hr
      cases hr
    rw [Interpreter.execute_fuel_le hfuel hends, hr] at hr'
    exact Option.some.inj hr'
  obtain ⟨fuel, hreport⟩ := h
  obtain ⟨fuel', hreport'⟩ := h'
  rcases Nat.le_total fuel fuel' with hfuel | hfuel
  · exact hle hfuel hreport hreport'
  · exact (hle hfuel hreport' hreport).symm

/-! ## Registrations that do not show -/

/-- Whether a record is shown where the registrations under some names are not. -/
def Record.isShown (hidden : String → Bool) : Record → Bool
  | .registered function _ => !hidden function
  | _ => true

/-- A report without the registrations under some names. -/
def Report.hiding (hidden : String → Bool) (report : Report) : Report :=
  { report with records := report.records.filter (Record.isShown hidden) }

/-- Nothing is lost where no name is hidden. -/
theorem Report.hiding_none (report : Report) : report.hiding (fun _ => false) = report := by
  have hshown : ∀ record ∈ report.records, Record.isShown (fun _ => false) record = true := by
    intro record _
    cases record <;> rfl
  unfold Report.hiding
  rw [List.filter_eq_self.mpr hshown]

end TreeScript
