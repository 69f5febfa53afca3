import Treewalk.Text.Glyph
import Treewalk.Text.Blank
import Treewalk.Text.Letter
import Treewalk.Text.Printable
import Treewalk.Text.Lowercase
import Treewalk.Text.Quoted
import Treewalk.Decimal.Layout
import Treewalk.Token.Lexer
import Treewalk.Tree.Printer
import Treewalk.Program
import Treewalk.Scope
import Treewalk.Machine.Evaluator
import Treewalk.Session
import Treewalk.CommandLine.Outcome
import Treewalk.Main
import Treewalk.Proofs.ParserLikeness
import Treewalk.Proofs.Relocation
import Treewalk.Proofs.ParserRelocation
import Treewalk.Proofs.ParserSteps
import Treewalk.Proofs.ParserReading
import Treewalk.Proofs.Grammar
import Treewalk.Proofs.GrammarSoundness
import Treewalk.Proofs.GrammarCompleteness
import Treewalk.Proofs.ProgramGrammar
import Treewalk.Proofs.RunChanges
import Treewalk.Proofs.SessionSteps
import Treewalk.Proofs.RestoredFrames
import Treewalk.Proofs.SourceCut
import Treewalk.Proofs.ViablePrefix
import Treewalk.Proofs.IncompleteInput
import Treewalk.Proofs.MachineRelocation
import Treewalk.Proofs.RunMirror
import Treewalk.Proofs.PlainRun
import Treewalk.Proofs.SourceJoin
import Treewalk.Proofs.ChunkedFeeding
import Treewalk.Proofs.RunFailures
import Treewalk.Proofs.RunKinship
import Treewalk.Proofs.CallLimit
import Treewalk.Proofs.HeldValues
import Treewalk.Proofs.HiddenFrames
import Treewalk.Proofs.ParsedTrees
import Treewalk.Proofs.PlacedKeywords
import Treewalk.Proofs.RegularSessions
import Treewalk.Proofs.SourceEvaluation
import Treewalk.Proofs.GlyphBytes
import Treewalk.Proofs.SourcePieces
import Treewalk.Proofs.SourceTiling
import Treewalk.Proofs.ProgramJoin
import Treewalk.Proofs.BlockEnds
import Treewalk.Proofs.LocatedErrors
import Treewalk.Proofs.ScriptRuns
import Treewalk.Proofs.TextLines
import Treewalk.Proofs.SharedInput
import Treewalk.Proofs.DecimalValues
import Treewalk.Proofs.RoundingIntervals
import Treewalk.Proofs.QuotedText
import Treewalk.Proofs.TreeShapes
import Treewalk.Proofs.TreeReading
import Treewalk.Proofs.LegibleTrees
import Treewalk.Proofs.ShownPrograms
import Treewalk.Proofs.ContainedErrors
import Treewalk.Proofs.JoinedScans
import Treewalk.Proofs.SpacedTokens
import Treewalk.Proofs.StringLiterals
import Treewalk.Proofs.ProperValues
import Treewalk.Proofs.DeclaredNames
import Treewalk.Proofs.CallTrace
import Treewalk.Proofs.FrameTrees
import Treewalk.Proofs.VisibleNames
import Treewalk.Proofs.ScopeUpdates
import Treewalk.Proofs.EditDistance
import Treewalk.Proofs.NameGuesses
import Treewalk.Proofs.RootedFrames
import Treewalk.Proofs.ReaderProgress
