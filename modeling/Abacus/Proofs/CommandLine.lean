import Abacus.Proofs.Detection
import Abacus.Proofs.Files
import Abacus.Proofs.RoundTrip
import Abacus.Shell.Batch

/-!
The command line from end to end. Main statement: a command that compiles one file into another
either writes exactly the encoding of the compiled source and nothing else, and the file it wrote
is listed as the source is, or it reports the fault of the compilation and leaves the disk as it
was.
-/

namespace Abacus

namespace Bytecode

theorem decode_encode_of_compile {source : String} {container : Container}
    (compiled : (Program.ofSource source).compile = .ok container) :
    Container.decode container.encode = .ok container := by
  obtain ⟨_, _, _, _, symbols⟩ :=
    Program.compiles_of_compile (Program.wellLinked_ofPhrases _) compiled
  rw [Container.decode_encode_iff, symbols]
  exact Program.semicolon_not_mem_symbols source

end Bytecode

namespace Shell

open Bytecode

namespace Invocation

variable {name : String} {invocation : Invocation}

theorem readArgument_of_isValue (plain : isValue name = true) :
    readArgument name invocation = .ofFlag (invocation.setFile name) := by
  simp only [isValue] at plain
  simp only [readArgument]
  split
  · simp_all
  · simp_all
  · rfl

theorem readFrom_file (plain : isValue name = true) (invocation : Invocation)
    (first : invocation.file? = none) :
    readFrom [name] invocation = .work { invocation with file? := some name } := by
  have word : name ≠ "--" := by
    rintro rfl
    cases plain
  simp [readFrom, word, readArgument_of_isValue plain, setFile, first, Progress.ofFlag]

theorem read_compile {out file : String} (plainOut : isValue out = true)
    (plainFile : isValue file = true) :
    read ["-c", out, file] = .work { file? := some file, out? := some out } := by
  have flag : readArgument "-c" {} = .wantsOut {} := rfl
  rw [read, readFrom, if_neg (by decide), flag]
  simp only [plainOut, if_true, setOut]
  exact readFrom_file plainFile { out? := some out } rfl

theorem read_list {file : String} (plain : isValue file = true) :
    read ["--list", file] = .work { file? := some file, list := true } := by
  have flag : readArgument "--list" {} = .read { list := true } := rfl
  rw [read, readFrom, if_neg (by decide), flag]
  exact readFrom_file plain { list := true } rfl

theorem read_alone {file : String} (plain : isValue file = true) :
    read [file] = .work { file? := some file } :=
  readFrom_file plain {} rfl

theorem read_run {file : String} (trace : Bool) (plain : isValue file = true) :
    read (if trace then ["--trace", file] else [file]) = .work { file? := some file, trace } := by
  cases trace with
  | false => exact read_alone plain
  | true =>
      have flag : readArgument "--trace" {} = .read { trace := true } := rfl
      rw [if_pos rfl, read, readFrom, if_neg (by decide), flag]
      exact readFrom_file plain { trace := true } rfl

end Invocation

@[simp] theorem report_printed (millis text : String) :
    Outcome.report millis { printed := text } = { exit := 0, stdout := text } := by
  simp [Outcome.report]

@[simp] theorem report_complaint (millis complaint : String) :
    Outcome.report millis { complaint? := some complaint } =
      { exit := 1, stderr := bold complaint ++ "\n" } := by
  simp [Outcome.report]

theorem batch_eq {arguments : List String} {invocation : Invocation} {file : String}
    {disk : Disk} {rounds : Nat} (asked : Invocation.read arguments = .work invocation)
    (named : invocation.file? = some file) (millis : String) :
    batch rounds millis arguments disk =
      ((Job.ofRead invocation (disk.read file)).perform rounds disk).map fun performed =>
        (performed.1.report millis, performed.2) := by
  simp only [batch, asked, named]
  split <;> simp_all

theorem batch_of_work {arguments : List String} {invocation : Invocation} {file : String}
    {outcome : Outcome} {disk after : Disk} {rounds : Nat}
    (asked : Invocation.read arguments = .work invocation) (named : invocation.file? = some file)
    (performed : (Job.ofRead invocation (disk.read file)).perform rounds disk =
      some (outcome, after)) (millis : String) :
    batch rounds millis arguments disk = some (outcome.report millis, after) := by
  rw [batch_eq asked named, performed, Option.map_some]

section Source

variable {disk : Disk} {file out source : String} {container : Container}

theorem ofRead_source (invocation : Invocation) (held : disk.read file = .ok (Text.utf8 source))
    (text : ¬ magic <+: Text.utf8 source) :
    Job.ofRead invocation (disk.read file) =
      match invocation.out? with
      | some name => .compileTo (Program.ofSource source) name invocation.list
      | none =>
        if invocation.list then .listCompiled (Program.ofSource source).compile
        else .run (Program.ofSource source) invocation.trace invocation.timed := by
  have uncompiled : isCompiled (Text.utf8 source) = false := by
    rwa [← isCompiled_iff, Bool.not_eq_true] at text
  cases named : invocation.out? <;>
    simp [held, Job.ofRead, Job.ofFile, uncompiled, Text.ofUtf8?_utf8, named]

variable (compiled : (Program.ofSource source).compile = .ok container)
include compiled

theorem ofRead_encode (invocation : Invocation) (held : disk.read file = .ok container.encode) :
    Job.ofRead invocation (disk.read file) = .print container.listing := by
  simp only [held, Job.ofRead, Job.ofFile, isCompiled_encode, if_true,
    decode_encode_of_compile compiled, Job.listCompiled]

theorem batch_encode (rounds : Nat) (millis : String) {arguments : List String}
    {invocation : Invocation} (asked : Invocation.read arguments = .work invocation)
    (named : invocation.file? = some file) (held : disk.read file = .ok container.encode) :
    batch rounds millis arguments disk =
      some ({ exit := 0, stdout := container.listing }, disk) := by
  have performed : (Job.ofRead invocation (disk.read file)).perform rounds disk =
      some ({ printed := container.listing }, disk) := by
    rw [ofRead_encode compiled invocation held, Job.perform]
  rw [batch_of_work asked named performed, report_printed]

theorem batch_list_source (rounds : Nat) (millis : String)
    (plain : Invocation.isValue file = true) (held : disk.read file = .ok (Text.utf8 source))
    (text : ¬ magic <+: Text.utf8 source) :
    batch rounds millis ["--list", file] disk =
      some ({ exit := 0, stdout := container.listing }, disk) := by
  have performed : (Job.ofRead { file? := some file, list := true } (disk.read file)).perform
      rounds disk = some ({ printed := container.listing }, disk) := by
    simp only [ofRead_source _ held text, if_true, compiled, Job.listCompiled, Job.perform]
  rw [batch_of_work (Invocation.read_list plain) rfl performed, report_printed]

end Source

/-- Compiling a file into another one. The two names are not written like options. -/
theorem compile_command_all_or_nothing {disk : Disk} {file out source : String} {place : Path}
    (rounds : Nat) (millis : String) (plainOut : Invocation.isValue out = true)
    (plainFile : Invocation.isValue file = true)
    (held : disk.read file = .ok (Text.utf8 source)) (text : ¬ magic <+: Text.utf8 source)
    (creates : disk.Creates out place) :
    ∃ report after, batch rounds millis ["-c", out, file] disk = some (report, after) ∧
      (report.exit = 0 ↔ ∃ container, (Program.ofSource source).compile = .ok container) ∧
      (∀ container, (Program.ofSource source).compile = .ok container →
        after.read out = .ok container.encode ∧
          (∀ other, other ≠ place → after.node? other = disk.node? other) ∧
          ∃ listing,
            batch rounds millis [out] after = some ({ exit := 0, stdout := listing }, after) ∧
            batch rounds millis ["--list", file] disk =
              some ({ exit := 0, stdout := listing }, disk) ∧
            batch rounds millis ["--list", file] after =
              some ({ exit := 0, stdout := listing }, after)) ∧
      ∀ fault, (Program.ofSource source).compile = .error fault →
        report = { exit := 1, stderr := bold fault.message ++ "\n" } ∧ after = disk := by
  have asked := Invocation.read_compile plainOut plainFile
  have job := ofRead_source { file? := some file, out? := some out } held text
  cases compiled : (Program.ofSource source).compile with
  | error fault =>
      have performed : (Job.ofRead { file? := some file, out? := some out }
          (disk.read file)).perform rounds disk =
            some ({ complaint? := some fault.message }, disk) := by
        simp only [job, Job.compileTo, compiled, Job.perform]
      refine ⟨_, _, batch_of_work asked rfl performed millis, ?_, ?_, ?_⟩
      · simp
      · simp
      · intro other same
        cases same
        exact ⟨report_complaint _ _, rfl⟩
  | ok container =>
      have performed : (Job.ofRead { file? := some file, out? := some out }
          (disk.read file)).perform rounds disk =
            some ({ printed := "" }, disk.put place (.file container.encode)) := by
        simp [job, Job.compileTo, compiled, Job.perform, creates.write]
      refine ⟨_, _, batch_of_work asked rfl performed millis, ?_, ?_, ?_⟩
      · simp
      · intro other same
        cases same
        refine ⟨creates.read_put, fun other apart => Disk.node?_put_of_ne apart,
          container.listing, ?_, ?_, ?_⟩
        · exact batch_encode compiled rounds millis (Invocation.read_alone plainOut) rfl
            creates.read_put
        · exact batch_list_source compiled rounds millis plainFile held text
        · rcases creates.read_put_other held with written | unchanged
          · exact batch_encode compiled rounds millis (Invocation.read_list plainFile) rfl written
          · exact batch_list_source compiled rounds millis plainFile unchanged text
      · simp

def shelf : Disk :=
  { nodes := [(["p.bb"], .file (Text.utf8 "incr x")), (["q.bb"], .file (Text.utf8 "end")),
      (["o"], .file [7])] }

theorem compile_command_on_shelf :
    shelf.Creates "o" ["o"] ∧ shelf.read "p.bb" = .ok (Text.utf8 "incr x") ∧
      shelf.read "q.bb" = .ok (Text.utf8 "end") ∧
      (∃ report after, batch 1 "" ["-c", "o", "p.bb"] shelf = some (report, after) ∧
        report.exit = 0 ∧ after.read "o" = .ok (magic ++ [0, 1, 0, 0, 0, 7, 128, 0, 0, 0, 0, 0, 0,
          48, 61, 120, 59])) ∧
      ∃ report, batch 1 "" ["-c", "o", "q.bb"] shelf = some (report, shelf) ∧ report.exit = 1 := by
  have creates : shelf.Creates "o" ["o"] := ⟨by decide +kernel, by decide +kernel⟩
  have good : shelf.read "p.bb" = .ok (Text.utf8 "incr x") := by decide +kernel
  have bad : shelf.read "q.bb" = .ok (Text.utf8 "end") := by decide +kernel
  have compiled : (Program.ofSource "incr x").compile =
      .ok ⟨1, [.inc 0], [(0, "x")], by decide⟩ := by decide +kernel
  have refused : ∃ fault, (Program.ofSource "end").compile = .error fault := by
    refine ⟨⟨.endWithoutWhile, .statement 1 "end", .none⟩, ?_⟩
    decide +kernel
  refine ⟨creates, good, bad, ?_, ?_⟩
  · obtain ⟨report, after, ran, exits, written, _⟩ :=
      compile_command_all_or_nothing 1 "" (by decide) (by decide) good (by decide +kernel) creates
    refine ⟨report, after, ran, exits.2 ⟨_, compiled⟩, (written _ compiled).1.trans ?_⟩
    decide +kernel
  · obtain ⟨report, after, ran, _, _, failed⟩ :=
      compile_command_all_or_nothing 1 "" (by decide) (by decide) bad (by decide +kernel) creates
    obtain ⟨fault, refused⟩ := refused
    obtain ⟨rfl, rfl⟩ := failed fault refused
    exact ⟨_, ran, rfl⟩

/-- A file can be made under a name that is written like an option, but the command line does not
take it for the name of a file. -/
theorem compile_command_refuses_dash :
    shelf.read "p.bb" = .ok (Text.utf8 "incr x") ∧ ¬ magic <+: Text.utf8 "incr x" ∧
      shelf.Creates "-x" ["-x"] ∧ "-x" ≠ "p.bb" ∧
      (∃ container, (Program.ofSource "incr x").compile = .ok container) ∧
      batch 1 "" ["-c", "-x", "p.bb"] shelf = some ({ exit := 2 }, shelf) := by
  have compiled : (Program.ofSource "incr x").compile =
      .ok ⟨1, [.inc 0], [(0, "x")], by decide⟩ := by decide +kernel
  exact ⟨by decide +kernel, by decide +kernel, ⟨by decide +kernel, by decide +kernel⟩, by decide,
    ⟨_, compiled⟩, by decide +kernel⟩

end Shell

end Abacus
