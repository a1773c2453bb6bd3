import ByteMachine.CommandLine.Pipeline
import ByteMachine.Proofs.Session.Resumption
import ByteMachine.Proofs.Session.Tracing

/-!
# The command line is the pipeline of the library

The command loads its program file, runs a machine on it that the options configure, and reports how
this ended. What it prints and how it exits are a matter of the machine alone: tracing, verbosity
and the journal setting decide which events are shown before the report, and nothing else. The
report is about the machine before the step that failed, which is the machine that this step leaves.
Nothing here depends on how an event is written that is shown.
-/

namespace ByteMachine

/-- The exit status that the end of a run asks for, and what it has printed. -/
def Turn.visible (turn : Turn Unit) : Nat × String :=
  (if turn.answer = .ok () then 0 else 1, turn.machine.sink.text)

/-- A response without what it says on standard error. -/
def Response.visible (response : Response) : Nat × String :=
  (response.exit, response.output)

namespace Machine

/-- Tracing does not show in how a run ends and what it prints. -/
theorem visible_run_withTracing (machine : Machine) (tracing : Bool) :
    (machine.withTracing tracing).run.map Turn.visible = machine.run.map Turn.visible := by
  have huntraced (other : Machine) :
      (other.withTracing false).run.map Turn.visible = other.run.map Turn.visible := by
    rw [run_untraced, Option.map_map]
    rfl
  rw [← huntraced machine, ← huntraced (machine.withTracing tracing)]
  rfl

/-- With an unbounded sink a run that fails leaves the machine before its last step. -/
theorem ending_machine_of_fault {machine : Machine} {last : Nat} {fault : Fault}
    (hunbounded : machine.sink.capacity = none)
    (hfault : (machine.ending last).answer = .error fault) :
    (machine.ending last).machine = machine.stepped last := by
  have hstep := ending_eq_error_iff.mp hfault
  have hcapacity : (machine.stepped last).sink.capacity = none :=
    (machine.stepped_sink last).1.trans hunbounded
  rw [← step_of_fault_of_unbounded hcapacity hstep, ← stepped_succ]
  rfl

end Machine

/-- Loading a file is reported when it yields a program, and only then. -/
theorem ProgramFile.load_eq (path : String) (contents : Except ReadError ByteArray) :
    load path contents =
      match (load path contents).result with
      | .ok image => ⟨.ok image, [.fileParsed path image.size]⟩
      | .error error => ⟨.error error, []⟩ := by
  unfold load
  cases parse path contents with
  | ok image => rfl
  | error error => rfl

/-- Whether a filter shows an event: a warning from the level of warnings on, a trace from that of
information on, all but instructions from that of debugging on, and instructions only with the most
verbose one. -/
def Filter.admits : Filter → Event → Bool
  | .upTo .trace, _ => true
  | .upTo .debug, .dispatched .. => false
  | .upTo .debug, _ => true
  | .upTo .info, .traced _ => true
  | .upTo .info, .revisited _ => true
  | .upTo .warn, .revisited _ => true
  | _, _ => false

/-- The events that are shown are those of the levels that are shown. -/
theorem Filter.admits_eq (filter : Filter) (event : Event) :
    filter.admits event = filter.shows event.level := by
  cases filter with
  | off => rfl
  | upTo level => cases level <;> cases event <;> rfl

namespace CommandLine

/-- The machine that an invocation runs, with its program loaded. -/
def Invocation.library (invocation : Invocation) (tracing : Bool) (image : Image) : Machine :=
  Machine.loaded
    { revisitGuard := !invocation.allowRevisits
      stepLimit := invocation.maxSteps
      tracing } {} image

variable {entry : Nat → Event → String} {invocation : Invocation} {setting : Option Filter}
  {contents : Except ReadError ByteArray}

/-- The command reports a program that could not be loaded, and nothing else. -/
theorem execute_of_error {error : LoadError}
    (h : (ProgramFile.load invocation.program contents).result = .error error) :
    execute entry invocation setting contents = some ⟨1, "", "Load Error: failed to load " ++
      invocation.program ++ ": " ++ error.message ++ "\n"⟩ := by
  have hload := ProgramFile.load_eq invocation.program contents
  rw [h] at hload
  rw [execute, hload]
  simp [Filter.journal, loadReport, Text.unlines]

/-- The command runs a program that could be loaded, behind a journal. -/
theorem execute_of_ok {image : Image}
    (h : (ProgramFile.load invocation.program contents).result = .ok image) :
    execute entry invocation setting contents =
      (invocation.library invocation.trace image).run.map fun turn =>
        runResponse ((invocation.filter setting).journal entry
          (.fileParsed invocation.program image.size :: .programLoaded image.size ::
            turn.events)) turn := by
  have hload := ProgramFile.load_eq invocation.program contents
  rw [h] at hload
  rw [execute, hload]
  rfl

/-- A run shows in its response whatever was reported before it. -/
theorem visible_runResponse (journal : String) (turn : Turn Unit) :
    (runResponse journal turn).visible = turn.visible := by
  unfold runResponse Turn.visible
  cases turn.answer with
  | ok answer => rfl
  | error fault => rfl

/-- The visible part of a response is that of the library's run, traced or not. -/
theorem visible_execute {image : Image} (tracing : Bool)
    (h : (ProgramFile.load invocation.program contents).result = .ok image) :
    (execute entry invocation setting contents).map Response.visible =
      (invocation.library tracing image).run.map Turn.visible := by
  have htraced : invocation.library invocation.trace image =
      (invocation.library tracing image).withTracing invocation.trace := rfl
  rw [execute_of_ok h, Option.map_map, ← Machine.visible_run_withTracing _ invocation.trace,
    ← htraced]
  congr 1
  funext turn
  exact visible_runResponse _ turn

/-- Tracing, verbosity, the journal setting and the form of its entries are not visible. -/
theorem visible_execute_congr (entry' : Nat → Event → String) (setting' : Option Filter)
    (trace verbose : Bool) :
    (execute entry' { invocation with trace, verbose } setting' contents).map Response.visible =
      (execute entry invocation setting contents).map Response.visible := by
  cases hload : (ProgramFile.load invocation.program contents).result with
  | error error =>
    have hother : execute entry' { invocation with trace, verbose } setting' contents = _ :=
      execute_of_error hload
    rw [hother, execute_of_error hload]
  | ok image =>
    have hother : (execute entry' { invocation with trace, verbose } setting' contents).map
        Response.visible = _ := visible_execute false hload
    rw [hother, visible_execute false hload]
    rfl

/-- Under the guard or a limit the command comes to an end. -/
theorem execute_ne_none (h : invocation.allowRevisits = false ∨ invocation.maxSteps ≠ none) :
    execute entry invocation setting contents ≠ none := by
  cases hload : (ProgramFile.load invocation.program contents).result with
  | error error =>
    rw [execute_of_error hload]
    exact Option.some_ne_none _
  | ok image =>
    have hbounded : (invocation.library invocation.trace image).config.revisitGuard = true ∨
        ∃ limit, (invocation.library invocation.trace image).config.stepLimit = some limit := by
      rcases h with hguard | hlimit
      · exact Or.inl (congrArg not hguard)
      · exact Or.inr (Option.ne_none_iff_exists'.mp hlimit)
    obtain ⟨last, hends⟩ := Machine.exists_endsAt_of_bounded hbounded
    rw [execute_of_ok hload, Machine.run_eq_some_iff.mpr ⟨last, hends, rfl⟩]
    exact Option.some_ne_none _

/-- The command line is the pipeline of the library, whatever form the entries of the journal have:
output and exit are those of the machine that the options configure, the events that are shown
precede the report, and the report is about the machine before the step that failed. -/
theorem command_line_is_library_pipeline (entry : Nat → Event → String) (invocation : Invocation)
    (setting : Option Filter) (contents : Except ReadError ByteArray) :
    let program := (ProgramFile.load invocation.program contents).result
    let library (tracing : Bool) (image : Image) : Machine := Machine.loaded
      { revisitGuard := !invocation.allowRevisits
        stepLimit := invocation.maxSteps
        tracing } {} image
    let filter := setting.getD
      (if invocation.verbose = true ∨ invocation.trace = true then .upTo .debug else .upTo .warn)
    let journal (events : List Event) : String :=
      String.join ((events.filter filter.admits).mapIdx entry)
    let response := execute entry invocation setting contents
    (∀ error, program = .error error →
      response = some ⟨1, "", "Load Error: failed to load " ++ invocation.program ++ ": " ++
        error.message ++ "\n"⟩) ∧
    (∀ image, program = .ok image →
      (∀ tracing, response.map Response.visible = (library tracing image).run.map Turn.visible) ∧
      (library false image).run = (library true image).run.map Turn.untraced ∧
      ∀ turn, (library invocation.trace image).run = some turn →
        let shown := journal (.fileParsed invocation.program image.size ::
          .programLoaded image.size :: turn.events)
        (turn.answer = .ok () → response = some ⟨0, turn.machine.sink.text, shown⟩) ∧
        ∀ fault, turn.answer = .error fault →
          ∃ last, (library invocation.trace image).EndsAt last ∧
            turn.machine = (library invocation.trace image).stepped last ∧
            turn.machine.step.answer = .error fault ∧
            response = some ⟨1, turn.machine.sink.text, shown ++
              ("Runtime Error: execution stopped at pc 0x" ++
                Text.lowerHex turn.machine.counter ++ ": " ++ fault.message ++ "\n" ++
                turn.machine.traceLine ++ "\n")⟩) ∧
    (∀ entry' setting' trace verbose,
      (execute entry' { invocation with trace, verbose } setting' contents).map Response.visible =
        response.map Response.visible) ∧
    (invocation.allowRevisits = false ∨ invocation.maxSteps ≠ none → response ≠ none) := by
  intro program library filter journal response
  have hjournal (events : List Event) :
      (invocation.filter setting).journal entry events = journal events := by
    have hfilter : invocation.filter setting = filter := by
      simp only [Invocation.filter, filter, Bool.or_eq_true]
    simp only [Filter.journal, journal, hfilter, ← Filter.admits_eq]
  refine ⟨fun error hload => execute_of_error hload, fun image hload =>
    ⟨fun tracing => visible_execute tracing hload, (library true image).run_untraced,
      fun turn hrun => ?_⟩, fun entry' setting' trace verbose =>
      visible_execute_congr entry' setting' trace verbose, execute_ne_none⟩
  intro shown
  have hrun' : (invocation.library invocation.trace image).run = some turn := hrun
  have hresponse : response = some (runResponse shown turn) := by
    change execute entry invocation setting contents = _
    rw [execute_of_ok hload, hrun', Option.map_some, hjournal]
  rw [hresponse]
  refine ⟨fun hanswer => ?_, fun fault hanswer => ?_⟩
  · rw [runResponse, hanswer]
  · obtain ⟨last, hends, rfl⟩ := Machine.run_eq_some_iff.mp hrun
    have hmachine := Machine.ending_machine_of_fault rfl hanswer
    refine ⟨last, hends, hmachine, ?_, ?_⟩
    · rw [hmachine]
      exact Machine.ending_eq_error_iff.mp hanswer
    · rw [runResponse, hanswer]
      simp [runReport, Text.unlines, String.append_assoc]

/-- A program that prints 8 and then comes to a byte that is no instruction exits with 1. With
tracing, and information shown, three trace lines precede the report, which is about address 5;
without tracing there is the report only. A file that is not there is reported. -/
theorem command_line_is_library_pipeline_unknownOpcode :
    let source := "10000010 # 8\n00000000\n00001000\n01000111\n00000000\n11111111\n"
    let image : Image := ⟨[0x82, 0, 8, 0x47, 0, 0xFF], by decide⟩
    let entry (place : Nat) (event : Event) : String :=
      Text.decimal place ++ " " ++ event.message ++ "\n"
    let traced := "0 TRACE: 00 | 82 00 08 | 00 00 00 00 00 00 00 00\n" ++
      "1 TRACE: 03 | 47 00 FF | 08 00 00 00 00 00 00 00\n" ++
      "2 TRACE: 05 | FF 00 00 | 08 00 00 00 00 00 00 00\n"
    let report := "Runtime Error: execution stopped at pc 0x05: " ++
      "unknown opcode 0b11111111 (0xff)\nTRACE: 05 | FF 00 00 | 08 00 00 00 00 00 00 00\n"
    let invocation : Invocation := { program := "p.ls8", allowRevisits := true, maxSteps := some 9 }
    (ProgramFile.load "p.ls8" (.ok source.toUTF8)).result = .ok image ∧
      execute entry { invocation with trace := true } (some (.upTo .info)) (.ok source.toUTF8) =
        some ⟨1, "8\n", traced ++ report⟩ ∧
      (execute entry invocation none (.ok source.toUTF8)).map Response.visible =
        some (1, "8\n") ∧
      execute entry invocation none (.error .notFound) = some ⟨1, "",
        "Load Error: failed to load p.ls8: " ++
          "cannot read 'p.ls8': No such file or directory (os error 2)\n"⟩ := by
  intro source image entry traced report invocation
  have hparse : ProgramFile.parse "p.ls8" (.ok source.toUTF8) = .ok image := by
    have hsource : Source.parse source = .ok image := by decide +kernel
    exact (ProgramFile.parse_toUTF8 "p.ls8" source).trans hsource
  have hload : (ProgramFile.load "p.ls8" (.ok source.toUTF8)).result = .ok image := by
    rw [ProgramFile.load, hparse]
  have hlost : (ProgramFile.load "p.ls8" (.error .notFound)).result =
      .error (.unreadable "p.ls8" .notFound) := by decide +kernel
  obtain ⟨-, hruns, hsame, -⟩ := command_line_is_library_pipeline entry
    { invocation with trace := true } (some (.upTo .info)) (.ok source.toUTF8)
  obtain ⟨hreports, -⟩ := command_line_is_library_pipeline entry invocation none (.error .notFound)
  obtain ⟨-, -, hends⟩ := hruns image hload
  have hseen : (invocation.library true image).run.map (fun turn =>
      (turn.answer, turn.machine.sink.text, turn.machine.counter, turn.machine.traceLine,
        String.join (((.fileParsed "p.ls8" image.size :: .programLoaded image.size ::
          turn.events).filter (Filter.upTo .info).admits).mapIdx entry))) =
      some (.error (.unknownOpcode 0xFF), "8\n", 5,
        "TRACE: 05 | FF 00 00 | 08 00 00 00 00 00 00 00", traced) := by
    decide +kernel
  obtain ⟨turn, hrun, hturn⟩ := Option.map_eq_some_iff.mp hseen
  simp only [Prod.mk.injEq] at hturn
  obtain ⟨hanswer, htext, hcounter, hline, hjournal⟩ := hturn
  obtain ⟨last, -, -, -, hresponse⟩ := (hends turn hrun).2 _ hanswer
  have hfirst : execute entry { invocation with trace := true } (some (.upTo .info))
      (.ok source.toUTF8) = some ⟨1, "8\n", traced ++ report⟩ := by
    rw [hresponse, htext, hcounter, hline]
    change some (Response.mk 1 "8\n" (String.join (((.fileParsed "p.ls8" image.size ::
      .programLoaded image.size :: turn.events).filter (Filter.upTo .info).admits).mapIdx entry) ++
        _)) = _
    rw [hjournal]
    decide +kernel
  refine ⟨hload, hfirst, ?_, hreports _ hlost⟩
  exact (hsame entry none false false).trans (congrArg (Option.map Response.visible) hfirst)

end CommandLine

end ByteMachine
