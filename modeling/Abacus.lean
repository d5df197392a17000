import Abacus.Text.Blank
import Abacus.Text.CaseTable
import Abacus.Text.LowerCase
import Abacus.Text.Decimal
import Abacus.Fault
import Abacus.Keyword
import Abacus.Phrase
import Abacus.Phrase.Scan
import Abacus.Statement
import Abacus.Outline
import Abacus.Slots
import Abacus.Variables
import Abacus.Stack
import Abacus.Program
import Abacus.Interpreter.State
import Abacus.Interpreter.Step
import Abacus.Interpreter.Execute
import Abacus.Text.Utf8
import Abacus.Bytecode.Word
import Abacus.Bytecode.Record
import Abacus.Bytecode.Container
import Abacus.Bytecode.Detect
import Abacus.Bytecode.Layout
import Abacus.Bytecode.Compile
import Abacus.Bytecode.Machine
import Abacus.Journal
import Abacus.Shell.Disk
import Abacus.Shell.Invocation
import Abacus.Shell.Job
import Abacus.Shell.Batch
import Abacus.Shell.Session
import Abacus.Main
import Abacus.Proofs.Linking
import Abacus.Proofs.Moves
import Abacus.Proofs.Runs
import Abacus.Proofs.CodeLayout
import Abacus.Proofs.Coherence
import Abacus.Proofs.Acceptance
import Abacus.Proofs.CompiledRuns
import Abacus.Proofs.FlatPrograms
import Abacus.Proofs.CodeShape
import Abacus.Proofs.Numerals
import Abacus.Proofs.SymbolTable
import Abacus.Proofs.FileFormat
import Abacus.Proofs.PlaceReading
import Abacus.Proofs.SourceNames
import Abacus.Proofs.RoundTrip
import Abacus.Proofs.LifeCycle
import Abacus.Proofs.CheckedRuns
import Abacus.Proofs.CheckedCode
import Abacus.Proofs.Stripping
import Abacus.Proofs.StrippedRuns
import Abacus.Proofs.StrippedCode
import Abacus.Proofs.CommandLine
import Abacus.Proofs.Budgets
import Abacus.Proofs.Tracing
import Abacus.Proofs.FailedStatements
import Abacus.Proofs.Conversation
import Abacus.Proofs.Openers
import Abacus.Proofs.LinkedPhrases
import Abacus.Proofs.Pieces
import Abacus.Proofs.Chains
import Abacus.Proofs.CaseForms
import Abacus.Proofs.LowerText
import Abacus.Proofs.Unlined
import Abacus.Proofs.CanonicalText
import Abacus.Proofs.StatementForms
import Abacus.Proofs.LetterCase
import Abacus.Proofs.NameLookup
import Abacus.Proofs.Siblings
import Abacus.Proofs.Detection
import Abacus.Proofs.Listings
import Abacus.Proofs.MarkedTexts
import Abacus.Proofs.SlotTable
