import ReviewDiff.Perforce.Connection
import ReviewDiff.Proofs.Program.Within

/-!
# What the Perforce program is run for

Every question to Perforce is answered by runs of its program.  Only the
question whether the program is there runs it with nothing but the option for
its version.
-/

namespace ReviewDiff.Perforce.Connection

variable (connection : Connection)

/-- How the connection looks for its program. -/
def probe : Host.interface.Request :=
  .run connection.program (connection.options ++ ["-V"]) connection.directory

theorem run_ne_probe {arguments : List String} (other : arguments ≠ ["-V"]) :
    Host.Request.run connection.program (connection.options ++ arguments)
        connection.directory ≠
      connection.probe := by
  intro same
  rw [probe, Host.Request.run.injEq, List.append_right_inj] at same
  exact other same.2.1

/-! ## Commands -/

theorem within_run {arguments : List String} (other : arguments ≠ ["-V"]) :
    (connection.run arguments).run.Within (· ≠ connection.probe) fun _ => True := by
  have asked :
      (ask (.run connection.program (connection.options ++ arguments)
          connection.directory)).run.Within (· ≠ connection.probe) fun _ => True :=
    ⟨connection.run_ne_probe other, fun _ => trivial⟩
  refine asked.bindExcept fun outcome => ?_
  cases outcome <;> trivial

theorem within_output {arguments : List String} (other : arguments ≠ ["-V"]) :
    (connection.output arguments).run.Within (· ≠ connection.probe) fun _ => True := by
  refine (connection.within_run other).bindExcept fun completed => ?_
  split <;> trivial

theorem within_records (arguments : List String) :
    (connection.records arguments).run.Within (· ≠ connection.probe) fun _ => True :=
  (connection.within_output (by simp)).bindExcept fun _ => trivial

/-! ## Answers -/

theorem within_settled {α : Type} (outcome : Except Failure α) :
    (settled outcome).run.Within (· ≠ connection.probe) fun _ => True :=
  trivial

theorem within_change (id : String) :
    (connection.change id).run.Within (· ≠ connection.probe) fun _ => True := by
  refine (connection.within_run (by simp)).bindExcept fun completed => ?_
  split
  · split
    · exact (connection.within_settled _).bindExcept fun _ => trivial
    · trivial
  · split <;> trivial

theorem within_describe (arguments : List String) (what : String) :
    (connection.describe arguments what).run.Within (· ≠ connection.probe) fun _ => True := by
  refine (connection.within_records _).bindExcept fun records => ?_
  split
  · exact connection.within_settled _
  · trivial

theorem within_print (spec : String) :
    (connection.print spec).run.Within (· ≠ connection.probe) fun _ => True := by
  have placed :
      (ask .temporaryPath).run.Within (· ≠ connection.probe) fun _ => True :=
    ⟨nofun, fun _ => trivial⟩
  refine placed.bindExcept fun place => ?_
  cases place with
  | error cause => trivial
  | ok place =>
      have printed :
          (connection.printTo spec place).run.Within (· ≠ connection.probe) fun _ => True :=
        (connection.within_output (by simp)).bindExcept fun _ => trivial
      have lifted :
          (ExceptT.lift (connection.printTo spec place).run :
            Command (Except Failure Unit)).run.Within (· ≠ connection.probe) fun _ => True :=
        printed.bind fun _ _ => trivial
      refine lifted.bindExcept fun outcome => ⟨nofun, fun _ => ⟨nofun, fun _ => ?_⟩⟩
      cases outcome <;> trivial

/-- The program is not looked for, unless that is the question. -/
theorem within_serve {request : Service.Request} (other : request ≠ .checkInstalled) :
    (connection.serve request).Within (· ≠ connection.probe) fun _ => True := by
  cases request with
  | checkInstalled => exact absurd rfl other
  | info => exact (connection.within_output (by simp)).bindExcept fun _ => trivial
  | counters => exact (connection.within_records _).bindExcept fun _ => trivial
  | change id => exact connection.within_change id
  | opened id =>
      exact (connection.within_records _).bindExcept fun _ => connection.within_settled _
  | describe id => exact connection.within_describe _ _
  | describeShelved id => exact connection.within_describe _ _
  | submittedChanges after through =>
      exact (connection.within_records _).bindExcept fun _ => trivial
  | fileInfo path =>
      refine (connection.within_records _).bindExcept fun records => ?_
      split <;> trivial
  | localPath path => exact (connection.within_records _).bindExcept fun _ => trivial
  | print spec => exact connection.within_print spec
  | add paths => exact (connection.within_output (by simp)).bindExcept fun _ => trivial
  | delete paths => exact (connection.within_output (by simp)).bindExcept fun _ => trivial

/-! ## The search for the program -/

theorem runs_output
    {connection : Connection} {arguments : List String} {asked : List Host.interface.Request}
    {printed : Except Failure String}
    (runs : (connection.output arguments).run.Runs asked printed) :
    asked =
      [.run connection.program (connection.options ++ arguments) connection.directory] := by
  obtain ⟨answer, behind, rfl, runs⟩ := runs
  cases answer with
  | error cause =>
      obtain ⟨rfl, -⟩ := runs
      rfl
  | ok completed =>
      change
        (if completed.succeeded then pure (Utf8.decodeLossy completed.stdout)
          else throw (connection.failed arguments completed) :
          Command String).run.Runs behind printed at runs
      split at runs <;> (obtain ⟨rfl, -⟩ := runs; rfl)

/-- To look for the program is to run it once. -/
theorem runs_checkInstalled
    {connection : Connection} {asked : List Host.interface.Request}
    {found : Except Failure Unit}
    (runs : (connection.serve .checkInstalled).Runs asked found) :
    asked = [connection.probe] := by
  obtain ⟨before, printed, behind, rfl, first, second⟩ := Program.runs_bind.mp runs
  obtain rfl := runs_output first
  cases printed <;> (obtain ⟨rfl, -⟩ := second; rfl)

/-- Every run of the program starts with a way to connect, or looks for the
program. -/
theorem head_probe_arguments :
    (connection.options ++ ["-V"]).head? ∈ [some "-p", some "-u", some "-c", some "-V"] := by
  obtain ⟨program, directory, address, user, client⟩ := connection
  cases address <;> cases user <;> cases client <;> simp [options]

end ReviewDiff.Perforce.Connection
