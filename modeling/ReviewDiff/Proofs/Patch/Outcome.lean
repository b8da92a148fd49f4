import ReviewDiff.Proofs.Patch.Rejects
import ReviewDiff.Proofs.Program.Within
import ReviewDiff.Proofs.Text.Digits
import ReviewDiff.Proofs.Text.Line

/-!
# What becomes of a diff

The patch program runs once, and its exit code and output decide what happens
then: a fatal result is reported as it is, anything else is left to the hook
for empty files, which is called once at most.  The calls of the hook are
questions beside those to the host, so a run shows them in their place.

* `interpret_watch` says that any hook can be watched in this way.
* `Verdict` is the table of what is asked behind the run of the patch program
  and of what comes of the diff.
* `verdict_judge` says that every finished run is judged by this table.
-/

namespace ReviewDiff.Patch

/-! ## A hook that is watched -/

/-- The calls of a hook for empty files. -/
def hookInterface : Interface where
  Request := Bytes × Option Nat × Bool
  Answer _ := Except Failure Bool

/-- The host and a hook for empty files. -/
abbrev Surroundings : Interface := Host.interface.both hookInterface

namespace Surroundings

/-- A question to the host. -/
def host (q : Host.Request) : Program Surroundings q.Answer :=
  Program.first (I := Host.interface) q

/-- The hook that asks its surroundings. -/
def hook : EmptyFileHook Surroundings := fun diff stripCount revert =>
  ExceptT.mk (Program.second (J := hookInterface) (diff, stripCount, revert))

/-- That hook, or none. -/
def hook? (hooked : Bool) : Option (EmptyFileHook Surroundings) :=
  if hooked then some hook else none

end Surroundings

/-- The call of the hook for a request. -/
def Request.call (request : Request) : hookInterface.Request :=
  (request.diff, request.effectiveStripCount, request.revert)

/-- An applier at work on a request, with or without a hook. -/
def Applier.watch (applier : Applier) (request : Request) (hooked : Bool) :
    Attempt Surroundings Outcome :=
  applier.apply Surroundings.host request (Surroundings.hook? hooked)

section Serving

variable {I : Interface} (host : (q : Host.Request) → Program I q.Answer)
  (hook : Option (EmptyFileHook I))

/-- Programs that answer for the host and for a hook. -/
def Surroundings.supply : (q : Surroundings.Request) → Program I (Surroundings.Answer q)
  | .inl q => host q
  | .inr (diff, stripCount, revert) =>
      match hook with
      | some applies => (applies diff stripCount revert).run
      | none => pure (.ok false)

theorem Surroundings.interpret_host (q : Host.Request) :
    (Surroundings.host q).interpret (Surroundings.supply host hook) = host q :=
  Program.andThen_done _

theorem interpret_judge (request : Request) (line file : String) (completed : Host.Completed) :
    (judge Surroundings.host request (Surroundings.hook? hook.isSome) line file
        completed).interpret (Surroundings.supply host hook) =
      judge host request hook line file completed := by
  unfold judge Surroundings.hook?
  by_cases fatal : isFatal completed.code completed.output = true
  · simp only [fatal, if_true]
    rfl
  simp only [fatal]
  cases hook with
  | none => rfl
  | some applies =>
      simp only [Option.isSome_some, if_true, Bool.false_eq_true, if_false]
      rw [Attempt.interpret_bind, Attempt.interpret_lift, Surroundings.interpret_host]
      refine congrArg _ (funext fun contents => ?_)
      cases contents with
      | error fault => rfl
      | ok diff =>
          simp only [Attempt.interpret_bind]
          have called :
              (Surroundings.hook diff request.effectiveStripCount request.revert).interpret
                  (Surroundings.supply host (some applies)) =
                applies diff request.effectiveStripCount request.revert :=
            Program.andThen_done _
          rw [called]
          refine congrArg _ (funext fun patched => ?_)
          by_cases only : completed.output = onlyGarbage
          · simp only [if_pos only]
            cases patched <;> rfl
          · simp only [if_neg only]
            rfl

/-- Any hook is the watched one with its calls answered. -/
theorem Applier.interpret_watch (applier : Applier) (request : Request) :
    (applier.watch request hook.isSome).interpret (Surroundings.supply host hook) =
      applier.apply host request hook := by
  have written :
      Attempt.interpret (Surroundings.supply host hook)
          (.ofOutcome .io (Surroundings.host (.writeTemporary request.diff))) =
        .ofOutcome .io (host (.writeTemporary request.diff)) :=
    (Attempt.interpret_ofOutcome _ .io _).trans
      (congrArg (Attempt.ofOutcome .io) (Surroundings.interpret_host host hook _))
  unfold Applier.watch Applier.apply
  rw [Attempt.interpret_bind, written]
  refine congrArg _ (funext fun file => ?_)
  simp only [Attempt.interpret_bind, Attempt.interpret_lift, Surroundings.interpret_host]
  refine congrArg
    (fun program : Program I (Except Failure Outcome) =>
      (ExceptT.lift program >>= fun outcome => ExceptT.lift (host (.discard file)) >>= fun _ =>
        ExceptT.mk (pure outcome) : Attempt I Outcome)) ?_
  refine (Program.interpret_andThen _ _ _).trans ?_
  rw [Surroundings.interpret_host]
  refine congrArg (Program.andThen _) (funext fun completed => ?_)
  cases completed with
  | error fault => rfl
  | ok completed =>
      exact congrArg ExceptT.run (interpret_judge host hook request _ file completed)

end Serving

/-! ## Verdicts -/

/-- An exit code and an output that leave nothing to decide. -/
def Fatal (code : Int) (output : String) : Prop :=
  (code ≠ 0 ∧ code ≠ 2) ∨
    ((∃ rest, output = "patch: **** " ++ rest) ∧ output ≠ onlyGarbage)

theorem isFatal_iff {code : Int} {output : String} :
    isFatal code output = true ↔ Fatal code output := by
  have starts :
      Text.startsWith fatalStart output = true ↔ ∃ rest, output = "patch: **** " ++ rest :=
    Text.startsWith_iff
  simp only [isFatal, Bool.or_eq_true, Bool.and_eq_true, decide_eq_true_eq, starts]
  exact Iff.rfl

/-- An outcome shows the output and the rejects that it reports, by its lines
as well as by the pattern. -/
structure Shows (outcome : Outcome) (output : String) : Prop where
  sameOutput : outcome.output = output
  listed : Listed (output.toList.splitOn '\n') outcome.rejectedFiles
  captured : ∀ names, Captures output.toList names ↔ names = outcome.rejectedFiles

theorem shows_ofOutput (applied : Bool) (output : String) :
    Shows (.ofOutput applied output) output :=
  ⟨rfl, listed_reportedRejects output, fun _ => captures_iff⟩

section Judging

variable (serve : (q : Surroundings.Request) → Surroundings.Answer q) (request : Request)
  (hooked : Bool) (line file : String) (completed : Host.Completed)

/-- What is asked behind a run of the patch program, and what comes of the
diff.  The cases exclude each other. -/
inductive Verdict : List Surroundings.Request → Except Failure Outcome → Prop where
  | fatal (isFatal : Fatal completed.code completed.output) :
      Verdict [] (.error (.patch line completed.code completed.output))
  | unhooked {outcome : Outcome} (notFatal : ¬ Fatal completed.code completed.output)
      (absent : hooked = false) (shown : Shows outcome completed.output)
      (applied : outcome.applied = true ↔ completed.code = 0) :
      Verdict [] (.ok outcome)
  | unread {outcome : Outcome} {fault : Host.Fault}
      (notFatal : ¬ Fatal completed.code completed.output) (present : hooked = true)
      (failed : serve (.inl (.contents file)) = .error fault)
      (shown : Shows outcome completed.output) (applied : outcome.applied = false) :
      Verdict [.inl (.contents file)] (.ok outcome)
  | hookFailed {bytes : Bytes} {failure : Failure}
      (notFatal : ¬ Fatal completed.code completed.output) (present : hooked = true)
      (read : serve (.inl (.contents file)) = .ok bytes)
      (called : serve (.inr request.call) = .error failure) :
      Verdict [.inl (.contents file), .inr request.call] (.error failure)
  | garbage {bytes : Bytes}
      (notFatal : ¬ Fatal completed.code completed.output) (present : hooked = true)
      (read : serve (.inl (.contents file)) = .ok bytes)
      (called : serve (.inr request.call) = .ok false)
      (only : completed.output = onlyGarbage) :
      Verdict [.inl (.contents file), .inr request.call]
        (.error (.patch line completed.code completed.output))
  | judged {bytes : Bytes} {patched : Bool} {outcome : Outcome}
      (notFatal : ¬ Fatal completed.code completed.output) (present : hooked = true)
      (read : serve (.inl (.contents file)) = .ok bytes)
      (called : serve (.inr request.call) = .ok patched)
      (something : ¬ (completed.output = onlyGarbage ∧ patched = false))
      (shown : Shows outcome completed.output)
      (applied : outcome.applied = true ↔
        completed.code = 0 ∨ (completed.output = onlyGarbage ∧ patched = true)) :
      Verdict [.inl (.contents file), .inr request.call] (.ok outcome)

end Judging

section Judging

variable {serve : (q : Surroundings.Request) → Surroundings.Answer q} {request : Request}
  {hooked : Bool} {file : String}
  (kept : ∀ bytes, serve (.inl (.contents file)) = .ok bytes → bytes = request.diff)

/-- An exit code tells success just as the program does. -/
theorem succeeded_iff {completed : Host.Completed} :
    completed.succeeded = true ↔ completed.code = 0 := by
  cases shape : completed.exitCode <;>
    simp [Host.Completed.succeeded, Host.Completed.code, shape]

include kept

/-- A finished run is judged by the table, if the temporary file can hold
nothing but the diff. -/
theorem verdict_judge (line : String) (completed : Host.Completed) :
    Verdict serve request hooked line file completed
      ((judge Surroundings.host request (Surroundings.hook? hooked) line file
        completed).run.questions serve)
      ((judge Surroundings.host request (Surroundings.hook? hooked) line file
        completed).run.result serve) := by
  unfold judge Surroundings.hook?
  by_cases fatal : isFatal completed.code completed.output = true
  · simp only [fatal, if_true]
    exact .fatal (isFatal_iff.mp fatal)
  have notFatal : ¬ Fatal completed.code completed.output := mt isFatal_iff.mpr fatal
  simp only [fatal]
  cases hooked with
  | false => exact .unhooked notFatal rfl (shows_ofOutput _ _) succeeded_iff
  | true =>
      simp only [if_true, Bool.false_eq_true, if_false]
      rw [Program.questions_liftBind, Program.result_liftBind]
      have reading :
          (Surroundings.host (.contents file)).result serve = serve (.inl (.contents file)) :=
        rfl
      rw [reading]
      cases read : serve (.inl (.contents file)) with
      | error fault => exact .unread notFatal rfl read (shows_ofOutput _ _) rfl
      | ok bytes =>
          obtain rfl := kept bytes read
          simp only [Program.questions_bindExcept, Program.result_bindExcept]
          have calling :
              (Surroundings.hook request.diff request.effectiveStripCount
                request.revert).run.result serve =
                serve (.inr request.call) :=
            rfl
          rw [calling]
          cases called : serve (.inr request.call) with
          | error failure => exact .hookFailed notFatal rfl read called
          | ok patched =>
              by_cases only : completed.output = onlyGarbage
              · simp only [if_pos only]
                cases patched with
                | false => exact .garbage notFatal rfl read called only
                | true =>
                    refine .judged notFatal rfl read called (by simp) (shows_ofOutput _ _) ?_
                    exact iff_of_true rfl (.inr ⟨only, rfl⟩)
              · simp only [if_neg only]
                refine .judged notFatal rfl read called (fun both => only both.1)
                  (shows_ofOutput _ _) ?_
                rw [or_iff_left fun both => only both.1]
                exact succeeded_iff

end Judging

/-! ## Runs of the applier -/

/-- The diff gets into a temporary file, from which nothing but the diff can be
read, and the patch program runs to its end. -/
structure Starts (serve : (q : Surroundings.Request) → Surroundings.Answer q)
    (applier : Applier) (request : Request) (file : String) (completed : Host.Completed) :
    Prop where
  written : serve (.inl (.writeTemporary request.diff)) = .ok file
  ran :
    serve (.inl (.run applier.program (applier.arguments request file)
      (some applier.directory))) = .ok completed
  kept : ∀ bytes, serve (.inl (.contents file)) = .ok bytes → bytes = request.diff

theorem toList_stripArgument (count : Nat) :
    (s!"-p{count}").toList = '-' :: 'p' :: (toString count).toList := by
  rw [String.toList_append]
  rfl

theorem stripArgument_inj {count other : Nat} :
    s!"-p{count}" = s!"-p{other}" ↔ count = other := by
  constructor
  · intro same
    have texts := congrArg String.toList same
    rw [toList_stripArgument, toList_stripArgument, List.cons.injEq, List.cons.injEq] at texts
    exact Text.toString_injective (String.toList_inj.mp texts.2.2)
  · rintro rfl
    rfl

/-- The strip count is handed over as an argument, if there is one. -/
theorem stripArgument_mem_iff (applier : Applier) (request : Request) (file : String) :
    ∃ options, applier.arguments request file = options ++ ["-i", file] ∧
      ∀ count, s!"-p{count}" ∈ options ↔ request.effectiveStripCount = some count := by
  refine ⟨_, rfl, fun count => ?_⟩
  have other :
      ∀ letter, letter ≠ 'p' → s!"-p{count}" ≠ String.ofList ['-', letter] := by
    intro letter different same
    have texts := congrArg String.toList same
    rw [toList_stripArgument, String.toList_ofList, List.cons.injEq, List.cons.injEq] at texts
    exact different texts.2.1.symm
  have notReverse :
      s!"-p{count}" ∉ if request.revert then ["-R"] else ([] : List String) := by
    split
    · exact mt List.mem_singleton.mp (other 'R' (by decide))
    · exact List.not_mem_nil
  have notRemoval :
      s!"-p{count}" ∉ if applier.removeEmptyFiles then ["-E"] else ([] : List String) := by
    split
    · exact mt List.mem_singleton.mp (other 'E' (by decide))
    · exact List.not_mem_nil
  rw [List.mem_append, List.mem_append, or_iff_right (not_or.mpr ⟨notReverse, notRemoval⟩)]
  cases request.effectiveStripCount with
  | none => exact iff_of_false List.not_mem_nil nofun
  | some given => rw [List.mem_singleton, stripArgument_inj, Option.some.injEq, eq_comm]

section Watching

variable {serve : (q : Surroundings.Request) → Surroundings.Answer q} {applier : Applier}
  {request : Request} {file : String} {completed : Host.Completed}
  (starts : Starts serve applier request file completed) (hooked : Bool)

include starts

theorem result_written :
    (Attempt.ofOutcome .io (Surroundings.host (.writeTemporary request.diff))).run.result
        serve =
      .ok file :=
  (Attempt.result_ofOutcome serve .io _).trans
    (congrArg (Except.mapError Failure.io) starts.written)

theorem result_ran :
    (Surroundings.host (.run applier.program (applier.arguments request file)
      (some applier.directory))).result serve =
      .ok completed :=
  starts.ran

theorem result_watch :
    (applier.watch request hooked).run.result serve =
      (judge Surroundings.host request (Surroundings.hook? hooked)
        (Host.commandLine applier.program (applier.arguments request file)) file
        completed).run.result serve := by
  rw [Applier.watch, Applier.apply, Program.result_bindExcept, result_written starts]
  simp only [Program.result_liftBind, Program.result_bind, result_ran starts]
  rfl

theorem questions_watch :
    (applier.watch request hooked).run.questions serve =
      [.inl (.writeTemporary request.diff),
        .inl (.run applier.program (applier.arguments request file)
          (some applier.directory))] ++
        (judge Surroundings.host request (Surroundings.hook? hooked)
          (Host.commandLine applier.program (applier.arguments request file)) file
          completed).run.questions serve ++
        [.inl (.discard file)] := by
  have asked :
      (Attempt.ofOutcome .io (Surroundings.host (.writeTemporary request.diff))).run.questions
          serve =
        [.inl (.writeTemporary request.diff)] :=
    Attempt.questions_ofOutcome serve .io _
  rw [Applier.watch, Applier.apply, Program.questions_bindExcept, result_written starts, asked]
  simp only [Program.questions_liftBind, Program.questions_bind, result_ran starts]
  rw [List.append_assoc]
  rfl

end Watching

/-- The patch program runs once, between the making and the removal of the
temporary file, and the result is judged by the table.  The strip count of the
hook is the one that the program is told, and any hook may answer the calls. -/
theorem finished_runs_are_judged
    {serve : (q : Surroundings.Request) → Surroundings.Answer q} {applier : Applier}
    {request : Request} {file : String} {completed : Host.Completed}
    (starts : Starts serve applier request file completed) (hooked : Bool) :
    (∀ (I : Interface) (host : (q : Host.Request) → Program I q.Answer)
        (hook : Option (EmptyFileHook I)), hook.isSome = hooked →
      applier.apply host request hook =
        (applier.watch request hooked).interpret (Surroundings.supply host hook)) ∧
    (∃ options, applier.arguments request file = options ++ ["-i", file] ∧
      ∀ count, s!"-p{count}" ∈ options ↔ request.effectiveStripCount = some count) ∧
    ∃ consulted,
      (applier.watch request hooked).run.questions serve =
        [.inl (.writeTemporary request.diff),
          .inl (.run applier.program (applier.arguments request file)
            (some applier.directory))] ++
          consulted ++ [.inl (.discard file)] ∧
      Verdict serve request hooked
        (Host.commandLine applier.program (applier.arguments request file)) file completed
        consulted ((applier.watch request hooked).run.result serve) := by
  have anyHook :
      ∀ (I : Interface) (host : (q : Host.Request) → Program I q.Answer)
        (hook : Option (EmptyFileHook I)), hook.isSome = hooked →
        applier.apply host request hook =
          (applier.watch request hooked).interpret (Surroundings.supply host hook) := by
    rintro I host hook rfl
    exact (applier.interpret_watch host hook request).symm
  refine
    ⟨anyHook, stripArgument_mem_iff applier request file, _, questions_watch starts hooked, ?_⟩
  rw [result_watch starts hooked]
  exact verdict_judge starts.kept _ completed

/-- A diff made of the header for one empty file. -/
def headerOnly : Request :=
  { diff := Utf8.encode "==== //d/a#1 ==A== a ====\n\n", stripCount := some 0 }

/-- The patch program finds only garbage, and the hook finds an empty file. -/
def garbageOnly : (q : Surroundings.Request) → Surroundings.Answer q
  | .inl (.writeTemporary _) => Except.ok "/tmp/d"
  | .inl (.run ..) => Except.ok (⟨some 2, Utf8.encode onlyGarbage, []⟩ : Host.Completed)
  | .inl (.contents _) => Except.ok headerOnly.diff
  | .inl (.createFile _) | .inl (.createDirectories _) | .inl .temporaryPath
  | .inl .temporaryDirectory =>
      Except.error (.os Host.permissionDenied)
  | .inl (.discard _) => ()
  | .inl .now => (⟨1970, 1, 1, 0, 0, 0⟩ : Host.LocalTime)
  | .inr _ => .ok true

theorem header_only_is_judged :
    Starts garbageOnly ⟨"patch", "/ws", true⟩ headerOnly "/tmp/d"
        ⟨some 2, Utf8.encode onlyGarbage, []⟩ ∧
      ∃ consulted,
        ((⟨"patch", "/ws", true⟩ : Applier).watch headerOnly true).run.questions garbageOnly =
          [.inl (.writeTemporary headerOnly.diff),
            .inl (.run "patch" ["-E", "-p0", "-i", "/tmp/d"] (some "/ws"))] ++
            consulted ++ [.inl (.discard "/tmp/d")] ∧
        Verdict garbageOnly headerOnly true "patch -E -p0 -i /tmp/d" "/tmp/d"
          ⟨some 2, Utf8.encode onlyGarbage, []⟩ consulted
          (((⟨"patch", "/ws", true⟩ : Applier).watch headerOnly true).run.result
            garbageOnly) := by
  have starts :
      Starts garbageOnly ⟨"patch", "/ws", true⟩ headerOnly "/tmp/d"
        ⟨some 2, Utf8.encode onlyGarbage, []⟩ :=
    ⟨rfl, rfl, fun bytes read => (Except.ok.inj read).symm⟩
  exact ⟨starts, (finished_runs_are_judged starts true).2.2⟩

end ReviewDiff.Patch
