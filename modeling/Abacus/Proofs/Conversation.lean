import Mathlib.Algebra.Ring.Parity
import Mathlib.Data.List.DropRight
import Abacus.Proofs.CommandLine
import Abacus.Shell.Session

/-!
The session beside the command line. What a session holds after any lines is said by the lines
alone: its text are those since the last clearing that are no commands, and tracing was turned on
and off by turns. Main statement: at every point of a session its commands show and write what the
command line does with a file that holds this text.
-/

namespace Abacus.Shell

open Bytecode

namespace Job

variable {rounds more : Nat} {program : Program} {state : State} {printed : String}

theorem drive_of_le {outcome : Outcome} (longer : rounds ≤ more)
    (ended : drive program rounds state printed = some outcome) :
    drive program more state printed = some outcome := by
  induction rounds generalizing more state printed with
  | zero => cases ended
  | succ rounds induction =>
      obtain ⟨more, rfl⟩ := Nat.exists_eq_add_of_le' (Nat.zero_lt_of_lt longer)
      have fewer : rounds ≤ more := Nat.le_of_succ_le_succ longer
      simp only [drive] at ended ⊢
      split at ended
      · exact induction fewer ended
      · exact induction fewer ended
      · exact ended
      · exact ended

theorem perform_of_le {disk : Disk} {job : Job} {performed : Outcome × Disk}
    (longer : rounds ≤ more) (done : job.perform rounds disk = some performed) :
    job.perform more disk = some performed := by
  cases job with
  | print | complain | save => exact done
  | run program trace timed =>
      simp only [perform] at done ⊢
      split at done
      · rename_i ended
        rw [drive_of_le longer ended]
        exact done
      · cases done

theorem perform_run (program : Program) (trace : Bool) (rounds : Nat) (disk : Disk) :
    (Job.run program trace false).perform rounds disk =
      (drive program rounds ((State.start program).setTrace trace) "").map fun outcome =>
        ({ outcome with timed := false }, disk) := by
  simp only [perform, Bool.false_and]
  split <;> simp_all

end Job

/-- The disk with these bytes in a file at a place, or as it was if there are none. -/
def Disk.keep (disk : Disk) (place : Path) (bytes? : Option (List UInt8)) : Disk :=
  bytes?.elim disk fun bytes => disk.put place (.file bytes)

/-- Compiling into a file that can be created says the same on every disk. -/
theorem perform_compileTo (program : Program) :
    ∃ outcome : Outcome, outcome.timed = false ∧
      ∀ (rounds : Nat) (disk : Disk) (name : String) (place : Path), disk.Creates name place →
        (Job.compileTo program name false).perform rounds disk =
          some (outcome, disk.keep place (program.compile.toOption.map Container.encode)) := by
  cases compiled : program.compile with
  | error fault =>
      refine ⟨{ complaint? := some fault.message }, rfl, ?_⟩
      intro rounds disk name place _
      simp [Job.compileTo, compiled, Job.perform, Except.toOption, Disk.keep]
  | ok container =>
      refine ⟨{}, rfl, ?_⟩
      intro rounds disk name place creates
      simp [Job.compileTo, compiled, Job.perform, creates.write, Except.toOption, Disk.keep]

/-- A session shows what the command line would print on its two outputs. -/
theorem shown_eq_report {outcome : Outcome} (untimed : outcome.timed = false) (millis : String) :
    outcome.shown = (outcome.report millis).stdout ++ (outcome.report millis).stderr := by
  cases complained : outcome.complaint? <;>
    simp [Outcome.shown, Outcome.report, complained, untimed, String.append_assoc]

namespace Session

def order? (line : String) : Option String :=
  (Text.words line.toList).head?.map fun word => String.ofList (word.map Char.toUpper)

def argument? (line : String) : Option String := (Text.words line.toList)[1]?.map String.ofList

def isCommand (line : String) : Bool :=
  (order? line).any fun word => word ∈ ["RUN", "LIST", "NEW", "TRACE", "COMPILE"]

/-- The lines since the last `NEW` that are no commands, each with a line break. -/
def text (lines : List String) : String :=
  String.join (((lines.rtakeWhile fun line => order? line != some "NEW").filter
    fun line => !isCommand line).map (· ++ "\n"))

theorem ofLine?_eq (line : String) :
    Command.ofLine? line =
      match order? line with
      | some "RUN" => some .run
      | some "LIST" => some .list
      | some "NEW" => some .new
      | some "TRACE" => some .trace
      | some "COMPILE" => some (.compile (argument? line))
      | _ => none := by
  simp only [order?, argument?, Command.ofLine?]
  cases Text.words line.toList with
  | nil => rfl
  | cons first rest =>
      simp only [List.getElem?_cons_succ, List.head?_eq_getElem?]
      split <;> simp_all

theorem line_cases (line : String) :
    order? line = some "RUN" ∨ order? line = some "LIST" ∨ order? line = some "NEW" ∨
      order? line = some "TRACE" ∨ order? line = some "COMPILE" ∨ isCommand line = false := by
  cases named : order? line with
  | none => simp [isCommand, named]
  | some word =>
      simp only [isCommand, named, Option.any_some, Option.some.injEq, decide_eq_false_iff_not,
        List.mem_cons, List.not_mem_nil]
      tauto

section Respond

variable {line : String} (session : Session)

theorem respond_run (named : order? line = some "RUN") :
    session.respond line =
      (.run (Program.ofSource session.source) session.trace false, session) := by
  simp only [respond, ofLine?_eq, named, obey]

theorem respond_list (named : order? line = some "LIST") :
    session.respond line = (.print session.source, session) := by
  simp only [respond, ofLine?_eq, named, obey]

theorem respond_new (named : order? line = some "NEW") :
    session.respond line = (.print "", { session with source := "" }) := by
  simp only [respond, ofLine?_eq, named, obey]

theorem respond_compile (named : order? line = some "COMPILE") :
    session.respond line =
      ((argument? line).elim (.print "COMPILE needs a file name\n") fun name =>
        .compileTo (Program.ofSource session.source) name false, session) := by
  cases given : argument? line <;> simp [respond, ofLine?_eq, named, given, obey]

theorem respond_plain (plain : isCommand line = false) :
    session.respond line =
      (.print "", { session with source := session.source ++ line ++ "\n" }) := by
  have unread : Command.ofLine? line = none := by
    rw [ofLine?_eq]
    split <;> simp_all [isCommand]
  simp only [respond, unread]

end Respond

theorem source_respond (session : Session) (line : String) :
    (session.respond line).2.source =
      if order? line = some "NEW" then ""
      else if isCommand line then session.source
      else session.source ++ line ++ "\n" := by
  rcases line_cases line with named | named | named | named | named | plain
  · simp [respond_run, isCommand, named]
  · simp [respond_list, isCommand, named]
  · simp [respond_new, named]
  · simp [respond, ofLine?_eq, obey, isCommand, named]
  · simp [respond_compile, isCommand, named]
  · have other : order? line ≠ some "NEW" := by
      intro named
      simp [isCommand, named] at plain
    simp [respond_plain, plain, other]

theorem trace_respond (session : Session) (line : String) :
    (session.respond line).2.trace =
      if order? line = some "TRACE" then !session.trace else session.trace := by
  rcases line_cases line with named | named | named | named | named | plain
  · simp [respond_run, named]
  · simp [respond_list, named]
  · simp [respond_new, named]
  · simp [respond, ofLine?_eq, obey, named]
  · simp [respond_compile, named]
  · have other : order? line ≠ some "TRACE" := by
      intro named
      simp [isCommand, named] at plain
    simp [respond_plain, plain, other]

theorem respond_unchanged {line : String} (session : Session)
    (named : order? line ∈ [some "RUN", some "LIST", some "COMPILE"]) :
    (session.respond line).2 = session := by
  simp only [List.mem_cons, List.not_mem_nil, or_false] at named
  rcases named with named | named | named
  · rw [respond_run session named]
  · rw [respond_list session named]
  · rw [respond_compile session named]

/-- What a session holds after some lines, whatever they show and write. -/
def after (lines : List String) : Session :=
  lines.foldl (fun session line => (session.respond line).2) {}

theorem after_concat (lines : List String) (line : String) :
    after (lines ++ [line]) = ((after lines).respond line).2 := by
  simp [after]

theorem text_concat (lines : List String) (line : String) :
    text (lines ++ [line]) =
      if order? line = some "NEW" then ""
      else if isCommand line then text lines
      else text lines ++ line ++ "\n" := by
  by_cases clears : order? line = some "NEW"
  · simp [text, clears]
  · cases command : isCommand line <;>
      simp [text, clears, command, String.join_append, String.append_assoc]

theorem source_after (lines : List String) : (after lines).source = text lines := by
  -- From the right, as `text` reads the lines back to the last clearing.
  induction lines using List.reverseRecOn with
  | nil => rfl
  | append_singleton lines line induction =>
      rw [after_concat, source_respond, text_concat, induction]

theorem trace_after (lines : List String) :
    (after lines).trace = true ↔ Odd (lines.countP fun line => order? line == some "TRACE") := by
  induction lines using List.reverseRecOn with
  | nil => simp [after]
  | append_singleton lines line induction =>
      rw [after_concat, trace_respond, List.countP_append]
      by_cases toggles : order? line = some "TRACE"
      · simp [toggles, Nat.odd_add_one, ← induction]
      · simp [toggles, induction]

section Replay

variable {rounds : Nat} {lines : List String} {start disk : Disk} {shown : Array String}

theorem replay_concat (rounds : Nat) (lines : List String) (line : String) (first : Session)
    (start : Disk) (shown : Array String) :
    replay rounds (lines ++ [line]) first start shown =
      (replay rounds lines first start shown).bind fun point =>
        ((point.2.1.respond line).1.perform rounds point.2.2).map fun performed =>
          (point.1.push performed.1.shown, (point.2.1.respond line).2, performed.2) := by
  induction lines generalizing first start shown with
  | nil =>
      simp only [List.nil_append, replay, Option.bind_some]
      cases (first.respond line).1.perform rounds start <;> rfl
  | cons next lines induction =>
      simp only [List.cons_append, replay]
      cases (first.respond next).1.perform rounds start with
      | none => rfl
      | some performed => exact induction _ _ _

theorem replay_of_le {more : Nat} {first : Session} {point : Array String × Session × Disk}
    (longer : rounds ≤ more) (reached : replay rounds lines first start shown = some point) :
    replay more lines first start shown = some point := by
  induction lines generalizing first start shown with
  | nil => exact reached
  | cons line lines induction =>
      simp only [replay] at reached ⊢
      split at reached
      · rename_i done
        rw [Job.perform_of_le longer done]
        exact induction reached
      · cases reached

theorem session_of_replay {session : Session}
    (reached : replay rounds lines {} start #[] = some (shown, session, disk)) :
    session = after lines := by
  induction lines using List.reverseRecOn generalizing shown session disk with
  | nil =>
      cases reached
      rfl
  | append_singleton lines line induction =>
      rw [replay_concat, Option.bind_eq_some_iff] at reached
      obtain ⟨⟨_, before, _⟩, earlier, done⟩ := reached
      obtain ⟨_, _, last⟩ := Option.map_eq_some_iff.1 done
      cases last
      rw [after_concat, induction earlier]

variable {more : Nat} {session : Session}

theorem replay_next (reached : replay rounds lines {} start #[] = some (shown, session, disk))
    (longer : rounds ≤ more) (line : String) :
    replay more (lines ++ [line]) {} start #[] =
      ((session.respond line).1.perform more disk).map fun performed =>
        (shown.push performed.1.shown, (session.respond line).2, performed.2) := by
  rw [replay_concat, replay_of_le longer reached, Option.bind_some]

theorem replay_list {line : String}
    (reached : replay rounds lines {} start #[] = some (shown, session, disk))
    (named : order? line = some "LIST") :
    replay rounds (lines ++ [line]) {} start #[] =
      some (shown.push session.source, session, disk) := by
  rw [replay_next reached (Nat.le_refl rounds), respond_list session named]
  rfl

section Batch

variable {other : Disk} {file line : String}
  (reached : replay rounds lines {} start #[] = some (shown, session, disk))
  (uncompiled : ¬ magic <+: Text.utf8 session.source)
  (held : other.read file = .ok (Text.utf8 session.source))
  (plain : Invocation.isValue file = true)
include reached uncompiled held plain

/-- Running in the session and on the command line, to the end or not. -/
theorem replay_run (millis : String) (named : order? line = some "RUN") (longer : rounds ≤ more) :
    replay more (lines ++ [line]) {} start #[] =
      (batch more millis (if session.trace then ["--trace", file] else [file]) other).map
        fun ended => (shown.push (ended.1.stdout ++ ended.1.stderr), session, disk) := by
  rw [replay_next reached longer, respond_run session named,
    batch_eq (Invocation.read_run session.trace plain) rfl millis, ofRead_source _ held uncompiled,
    Job.perform_run]
  simp only [Bool.false_eq_true, if_false, Job.perform_run, Option.map_map]
  -- The two differ in what they make of an outcome only.
  congr 1
  funext outcome
  have same : ({ outcome with timed := false } : Outcome).shown = _ := shown_eq_report rfl millis
  simp only [Function.comp, same]

theorem replay_compile {path : String} {place there : Path} (millis : String)
    (named : order? line = some "COMPILE") (given : argument? line = some path)
    (plainPath : Invocation.isValue path = true) (creates : disk.Creates path place)
    (createsThere : other.Creates path there) :
    ∃ report : Report,
      replay rounds (lines ++ [line]) {} start #[] =
        some (shown.push (report.stdout ++ report.stderr), session, disk.keep place
          ((Program.ofSource session.source).compile.toOption.map Container.encode)) ∧
      batch rounds millis ["-c", path, file] other =
        some (report, other.keep there
          ((Program.ofSource session.source).compile.toOption.map Container.encode)) := by
  obtain ⟨outcome, untimed, performed⟩ := perform_compileTo (Program.ofSource session.source)
  refine ⟨outcome.report millis, ?_, ?_⟩
  · rw [replay_next reached (Nat.le_refl rounds), respond_compile session named, given,
      Option.elim_some, performed rounds disk path place creates, ← shown_eq_report untimed,
      Option.map_some]
  · rw [batch_eq (Invocation.read_compile plainPath plain) rfl millis,
      ofRead_source _ held uncompiled]
    simp only [performed rounds other path there createsThere, Option.map_some]

end Batch

end Replay

end Session

open Session

/-- A session beside the command line. The names given to the command line are not written like
options. A run may need more rounds than the lines before it did. -/
theorem session_matches_batch {rounds : Nat} {lines : List String} {start disk : Disk}
    {shown : Array String} {session : Session}
    (reached : replay rounds lines {} start #[] = some (shown, session, disk)) :
    session.source = text lines ∧
      (session.trace = true ↔ Odd (lines.countP fun line => order? line == some "TRACE")) ∧
      (∀ line more point, order? line ∈ [some "RUN", some "LIST", some "COMPILE"] →
        rounds ≤ more → replay more (lines ++ [line]) {} start #[] = some point →
        point.2.1 = session) ∧
      (∀ line, order? line = some "LIST" →
        replay rounds (lines ++ [line]) {} start #[] =
          some (shown.push session.source, session, disk)) ∧
      (¬ magic <+: Text.utf8 session.source →
        ∀ (other : Disk) (file millis : String), Invocation.isValue file = true →
          other.read file = .ok (Text.utf8 session.source) →
          (∀ line more, order? line = some "RUN" → rounds ≤ more →
            replay more (lines ++ [line]) {} start #[] =
              (batch more millis (if session.trace then ["--trace", file] else [file]) other).map
                fun ended => (shown.push (ended.1.stdout ++ ended.1.stderr), session, disk)) ∧
          ∀ line path place there, order? line = some "COMPILE" → argument? line = some path →
            Invocation.isValue path = true → disk.Creates path place → other.Creates path there →
            ∃ report : Report,
              replay rounds (lines ++ [line]) {} start #[] =
                some (shown.push (report.stdout ++ report.stderr), session, disk.keep place
                  ((Program.ofSource session.source).compile.toOption.map Container.encode)) ∧
              batch rounds millis ["-c", path, file] other =
                some (report, other.keep there
                  ((Program.ofSource session.source).compile.toOption.map Container.encode))) := by
  have kept := session_of_replay reached
  refine ⟨?_, ?_, ?_, ?_, ?_⟩
  · rw [kept, source_after]
  · rw [kept, trace_after]
  · intro line more point named longer next
    rw [replay_next reached longer, respond_unchanged session named] at next
    obtain ⟨_, _, last⟩ := Option.map_eq_some_iff.1 next
    rw [← last]
  · intro line named
    exact replay_list reached named
  · intro uncompiled other file millis plain held
    constructor
    · intro line more named longer
      exact replay_run reached uncompiled held plain millis named longer
    · intro line path place there named given plainPath creates createsThere
      exact replay_compile reached uncompiled held plain millis named given plainPath creates
        createsThere

def desk : Disk := { nodes := [(["s.bb"], .file (Text.utf8 "incr x\n"))] }

def typed : List String := ["clear y", "new", "incr x", "Trace"]

theorem session_matches_batch_desk :
    replay 2 typed {} desk #[] =
      some (#["", "", "", "TRACE ON\n"], { source := "incr x\n", trace := true }, desk) ∧
    replay 3 (typed ++ ["run"]) {} desk #[] =
      some (#["", "", "", "TRACE ON\n", "incr x\nx = 1\nx = 1\n"],
        { source := "incr x\n", trace := true }, desk) ∧
    replay 2 (typed ++ ["List "]) {} desk #[] =
      some (#["", "", "", "TRACE ON\n", "incr x\n"],
        { source := "incr x\n", trace := true }, desk) ∧
    ∃ report after left, replay 2 (typed ++ ["compile o"]) {} desk #[] = some after ∧
      batch 2 "" ["-c", "o", "s.bb"] desk = some (report, left) ∧
      after.2.2 = left ∧ left.read "o" = .ok (magic ++ [0, 1, 0, 0, 0, 7, 128, 0, 0, 0, 0, 0, 0,
        48, 61, 120, 59]) := by
  have reached : replay 2 typed {} desk #[] =
      some (#["", "", "", "TRACE ON\n"], { source := "incr x\n", trace := true }, desk) := by
    decide +kernel
  have creates : desk.Creates "o" ["o"] := ⟨by decide +kernel, by decide +kernel⟩
  have ran : batch 3 "" ["--trace", "s.bb"] desk =
      some ({ exit := 0, stdout := "incr x\nx = 1\nx = 1\n" }, desk) := by decide +kernel
  obtain ⟨_, _, _, lists, work⟩ := session_matches_batch reached
  obtain ⟨runs, compiles⟩ :=
    work (by decide +kernel) desk "s.bb" "" (by decide) (by decide +kernel)
  obtain ⟨report, written, there⟩ := compiles "compile o" "o" ["o"] ["o"] (by decide +kernel)
    (by decide +kernel) (by decide) creates creates
  refine ⟨reached, ?_, lists "List " (by decide +kernel), report, _, _, written, there, rfl, ?_⟩
  · rw [runs "run" 3 (by decide +kernel) (by decide), if_pos rfl, ran]
    simp
  · decide +kernel

/-- A session writes a file under a name that is written like an option; the command line does
not take it for the name of a file. -/
theorem session_writes_dash :
    replay 1 ["incr x"] {} desk #[] = some (#[""], { source := "incr x\n" }, desk) ∧
      ¬ magic <+: Text.utf8 "incr x\n" ∧ desk.read "s.bb" = .ok (Text.utf8 "incr x\n") ∧
      order? "COMPILE -x" = some "COMPILE" ∧ argument? "COMPILE -x" = some "-x" ∧
      desk.Creates "-x" ["-x"] ∧
      (replay 1 ["incr x", "COMPILE -x"] {} desk #[]).map (fun point => point.2.2.read "-x") =
        some (.ok (magic ++ [0, 1, 0, 0, 0, 7, 128, 0, 0, 0, 0, 0, 0, 48, 61, 120, 59])) ∧
      batch 1 "" ["-c", "-x", "s.bb"] desk = some ({ exit := 2 }, desk) ∧
      desk.read "-x" = .error .missing := by
  exact ⟨by decide +kernel, by decide +kernel, by decide +kernel, by decide +kernel,
    by decide +kernel, ⟨by decide +kernel, by decide +kernel⟩, by decide +kernel,
    by decide +kernel, by decide +kernel⟩

end Abacus.Shell
