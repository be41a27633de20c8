import TreeScript.Proofs.Run.Regime
import TreeScript.Proofs.Run.Tables

/-!
# What devices do to a run

Two devices can fail under a program.  A console that fails ends the run in an error, and nothing
else ends it in that error.  A file that cannot be read or written does not end the run: the access
has an empty result and leaves one record of an error in the log.

An `Access` either takes the files to other files or fails, and then it has a report.  Whatever
runs, the files that it leaves are those after a list of accesses, and the records of errors that it
adds to the log are the reports of those among them that failed, one for one and in their order
(`Regime.devices`).  So every such record stands for an access that failed on the files as they were
then, and nothing else that happens in a run is recorded as an error.
-/

namespace TreeScript

/-! ## 1. Accesses -/

/-- What is asked of the files. -/
inductive Access where
  | read (path : String)
  | write (path content : String)
  deriving DecidableEq, Repr

namespace Access

/-- The files after an access that succeeds; a read leaves them as they are. -/
def perform (files : Files) : Access → Except FileFailure Files
  | .read path => (files.read path).map fun _ => files
  | .write path content => files.write path content

/-- The files after an access; one that fails has no effect. -/
def after (files : Files) (access : Access) : Files :=
  match access.perform files with
  | .ok later => later
  | .error _ => files

/-- The record of an access that failed. -/
def record (failure : FileFailure) : Access → Record
  | .read path => Builtin.readTable.failureRecord path failure
  | .write path _ => Builtin.writeTable.failureRecord path failure

/-- **The report of an access**: one record if it fails, and none if it succeeds. -/
def report (files : Files) (access : Access) : List Record :=
  match access.perform files with
  | .ok _ => []
  | .error failure => [access.record failure]

/-- The files after a list of accesses. -/
def afterAll (files : Files) : List Access → Files
  | [] => files
  | access :: rest => afterAll (access.after files) rest

/-- The reports of a list of accesses, each on the files that the ones before it have left. -/
def reports (files : Files) : List Access → List Record
  | [] => []
  | access :: rest => access.report files ++ reports (access.after files) rest

theorem after_of_ok {files later : Files} {access : Access}
    (h : access.perform files = .ok later) : access.after files = later := by rw [after, h]

theorem after_of_error {files : Files} {access : Access} {failure : FileFailure}
    (h : access.perform files = .error failure) : access.after files = files := by rw [after, h]

theorem report_of_ok {files later : Files} {access : Access}
    (h : access.perform files = .ok later) : access.report files = [] := by rw [report, h]

theorem report_of_error {files : Files} {access : Access} {failure : FileFailure}
    (h : access.perform files = .error failure) :
    access.report files = [access.record failure] := by rw [report, h]

theorem afterAll_append (files : Files) (accesses more : List Access) :
    afterAll files (accesses ++ more) = afterAll (afterAll files accesses) more := by
  induction accesses generalizing files with
  | nil => rfl
  | cons access rest ih => exact ih (access.after files)

theorem reports_append (files : Files) (accesses more : List Access) :
    reports files (accesses ++ more) =
      reports files accesses ++ reports (afterAll files accesses) more := by
  induction accesses generalizing files with
  | nil => rfl
  | cons access rest ih =>
    simp only [List.cons_append, reports, afterAll, ih, List.append_assoc]

theorem reports_singleton (files : Files) (access : Access) :
    reports files [access] = access.report files := by
  simp [reports]

end Access

/-! ## 2. Records of errors -/

/-- Whether a record reports an error. -/
def Record.isError (record : Record) : Bool := record.level = .error

/-- The records of errors so far, in their order. -/
def State.errors (st : State) : List Record := st.records.filter Record.isError

theorem State.errors_note (st : State) (record : Record) :
    (st.note record).errors = st.errors ++ [record].filter Record.isError := by
  simp [State.errors, State.records, State.note]

@[simp] theorem State.errors_note_record (st : State) (access : Access) (failure : FileFailure) :
    (st.note (access.record failure)).errors = st.errors ++ [access.record failure] := by
  rw [State.errors_note]
  cases access <;> rfl

theorem State.errors_note_of_level {st : State} {record : Record} (h : record.level ≠ .error) :
    (st.note record).errors = st.errors := by
  have hno : record.isError = false := decide_eq_false h
  rw [State.errors_note, List.filter_cons_of_neg (by simp [hno]), List.filter_nil, List.append_nil]

/-- Whether a record tells of cells that will not be read back. -/
def Record.isCellWarning : Record → Bool
  | .unfaithfulCells _ _ => true
  | _ => false

/-- The records of cells that will not be read back, in their order. -/
def State.cellWarnings (st : State) : List Record := st.records.filter Record.isCellWarning

theorem State.cellWarnings_note {st : State} {record : Record} (h : record.isCellWarning = false) :
    (st.note record).cellWarnings = st.cellWarnings := by
  simp [State.cellWarnings, State.records, State.note, h]

/-! ## 3. What devices do -/

/-- **What devices do to a run**: the console keeps failing where it did, and an error of a device
is one of the console; the files go through accesses, and the records of errors are their
reports. -/
structure DevicesAt (st : State) (how : Option RunError) (st' : State) : Prop where
  failure_eq : st'.console.failure = st.console.failure
  printed : ∀ detail, how = some (.inputOutput detail) →
    ∃ n failure, st.console.failure n = some failure ∧ failure.reason = detail
  accessed : ∃ accesses, st'.files = Access.afterAll st.files accesses ∧
    st'.errors = st.errors ++ Access.reports st.files accesses

/-- The change of the devices. -/
def Change.devices : Change where
  holds := DevicesAt
  refl _ := ⟨rfl, nofun, [], rfl, (List.append_nil _).symm⟩
  trans {st st₁ st₂ how} h h₁ := by
    obtain ⟨accesses, hfiles, herrors⟩ := h.accessed
    obtain ⟨more, hfiles₁, herrors₁⟩ := h₁.accessed
    refine ⟨h₁.failure_eq.trans h.failure_eq, fun detail hhow => ?_, accesses ++ more, ?_, ?_⟩
    · rw [← h.failure_eq]
      exact h₁.printed detail hhow
    · rw [hfiles₁, hfiles, Access.afterAll_append]
    · rw [herrors₁, herrors, hfiles, Access.reports_append, List.append_assoc]

/-- Nothing is asked of a device. -/
theorem DevicesAt.of_quiet {st st' : State} {how : Option RunError}
    (hconsole : st'.console = st.console) (hfiles : st'.files = st.files)
    (herrors : st'.errors = st.errors) (hhow : ∀ detail, how ≠ some (.inputOutput detail)) :
    DevicesAt st how st' where
  failure_eq := by rw [hconsole]
  printed detail h := absurd h (hhow detail)
  accessed := ⟨[], hfiles, by rw [herrors]; exact (List.append_nil _).symm⟩

/-- One access is made, and reported if it fails. -/
theorem DevicesAt.of_access {st st' : State} (access : Access)
    (hconsole : st'.console = st.console) (hfiles : st'.files = access.after st.files)
    (herrors : st'.errors = st.errors ++ access.report st.files) : DevicesAt st none st' where
  failure_eq := by rw [hconsole]
  printed := nofun
  accessed := ⟨[access], hfiles, by rw [herrors, Access.reports_singleton]⟩

theorem DevicesAt.of_kind {st : State} {error : RunError} (h : error.kind ≠ .inputOutput) :
    DevicesAt st (some error) st := by
  refine .of_quiet rfl rfl rfl fun detail heq => h ?_
  rw [Option.some.inj heq]
  rfl

namespace Builtin

/-- Printing asks the console. -/
theorem printLine_devices (line : String) (st : State) :
    (printLine line st).Leaves (DevicesAt st) := by
  have hfailure := st.console.failure_print line
  unfold printLine
  rcases hprint : st.console.print line with ⟨_ | reason, console⟩ <;> rw [hprint] at hfailure
  · exact ⟨hfailure, nofun, [], rfl, (List.append_nil _).symm⟩
  · refine ⟨hfailure, fun detail heq => ?_, [], rfl, (List.append_nil _).symm⟩
    cases heq
    exact Console.exists_failure_of_print (congrArg Prod.fst hprint)

/-- **Reading a table** is one access.  If it fails, the table is empty. -/
theorem readRows_access (path : String) (st : State) :
    ∃ v st', readRows path st = .done v st' ∧ st'.console = st.console ∧
      st'.files = (Access.read path).after st.files ∧
      st'.errors = st.errors ++ (Access.read path).report st.files ∧
      ((Access.read path).report st.files ≠ [] → v = .sequence []) := by
  unfold readRows
  cases hread : st.files.read path with
  | ok text =>
    have hperform : (Access.read path).perform st.files = .ok st.files := by
      rw [Access.perform, hread]
      rfl
    rw [Access.after_of_ok hperform, Access.report_of_ok hperform]
    exact ⟨_, st, rfl, rfl, rfl, (List.append_nil _).symm, fun h => absurd rfl h⟩
  | error failure =>
    have hperform : (Access.read path).perform st.files = .error failure := by
      rw [Access.perform, hread]
      rfl
    rw [Access.after_of_error hperform, Access.report_of_error hperform]
    exact ⟨_, _, rfl, rfl, rfl, State.errors_note_record st (.read path) failure, fun _ => rfl⟩

/-- **Writing a table** is one access, and its value is absence in any case. -/
theorem writeRows_access (path : String) (fields : List String)
    (rows : List (List (String × Value))) (st : State) :
    ∃ st', writeRows path fields rows st = .done .absence st' ∧ st'.console = st.console ∧
      st'.files = (Access.write path (Table.render fields rows)).after st.files ∧
      st'.errors = st.errors ++
        (Access.write path (Table.render fields rows)).report st.files := by
  unfold writeRows
  dsimp only
  -- what is noted beforehand is no error and leaves the devices alone
  obtain ⟨noted, hnoted, hconsole, hfiles, herrors⟩ :
      ∃ noted, (if 0 < Table.countUnfaithful rows then
        st.note (.unfaithfulCells path (Table.countUnfaithful rows)) else st) = noted ∧
        noted.console = st.console ∧ noted.files = st.files ∧ noted.errors = st.errors := by
    split
    · exact ⟨_, rfl, rfl, rfl, State.errors_note_of_level (by nofun)⟩
    · exact ⟨st, rfl, rfl, rfl, rfl⟩
  rw [hnoted, ← hconsole, ← hfiles, ← herrors]
  cases hwrite : noted.files.write path (Table.render fields rows) with
  | ok files =>
    have hperform : (Access.write path (Table.render fields rows)).perform noted.files =
      .ok files := hwrite
    rw [Access.after_of_ok hperform, Access.report_of_ok hperform]
    exact ⟨_, rfl, rfl, rfl, (List.append_nil _).symm⟩
  | error failure =>
    have hperform : (Access.write path (Table.render fields rows)).perform noted.files =
      .error failure := hwrite
    rw [Access.after_of_error hperform, Access.report_of_error hperform]
    exact ⟨_, rfl, rfl, rfl, State.errors_note_record noted (.write path _) failure⟩

end Builtin

/-- **Devices are asked by three built-in functions only**, whatever is run. -/
def Regime.devices (limit : Nat) : Regime limit where
  expr _ := True
  stmt _ := True
  change := .devices
  expr_part _ _ := trivial
  stmt_expr _ _ := trivial
  stmt_part _ _ := trivial
  stack _ h := ⟨h.failure_eq, h.printed, h.accessed⟩
  fail _ h _ := .of_kind h.2.2.2
  overflow _ := .of_kind (by nofun)
  literal _ := Action.within_ofResult fun error h _ =>
    .of_kind (by rw [Value.kind_of_ofLiteral h]; nofun)
  note record h st := by
    refine .of_quiet rfl rfl (State.errors_note_of_level ?_) nofun
    rcases h with h | h <;> rw [h] <;> nofun
  print _ := Builtin.printLine_devices
  read _ path st := by
    obtain ⟨v, st', hrun, hconsole, hfiles, herrors, -⟩ := Builtin.readRows_access path st
    rw [hrun]
    exact .of_access (.read path) hconsole hfiles herrors
  write _ path fields rows st := by
    obtain ⟨st', hrun, hconsole, hfiles, herrors⟩ := Builtin.writeRows_access path fields rows st
    rw [hrun]
    exact .of_access (.write path _) hconsole hfiles herrors
  register _ _ _ := .of_quiet rfl rfl (State.errors_note_of_level (by nofun)) nofun
  table _ _ _ h := h trivial

end TreeScript
