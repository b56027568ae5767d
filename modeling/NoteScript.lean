import NoteScript.Chunk
import NoteScript.Command.Run
import NoteScript.Main
import NoteScript.Note
import NoteScript.Transpile
import NoteScript.Tree.Check
import NoteScript.Proofs.Lossless
import NoteScript.Proofs.Actions
import NoteScript.Proofs.Guarantee
import NoteScript.Proofs.Keeping
import NoteScript.Proofs.Jumps
import NoteScript.Proofs.Characters
import NoteScript.Proofs.Spelling
import NoteScript.Proofs.Course
import NoteScript.Proofs.Units
import NoteScript.Proofs.Clauses
import NoteScript.Proofs.Script
import NoteScript.Proofs.Translation
import NoteScript.Proofs.Operand
import NoteScript.Proofs.Expression
import NoteScript.Proofs.Entries
import NoteScript.Proofs.Suffixes
import NoteScript.Proofs.Rewriting
import NoteScript.Proofs.Sentence
import NoteScript.Proofs.Neighbours
import NoteScript.Proofs.Advance
import NoteScript.Proofs.Progress
import NoteScript.Proofs.Termination
import NoteScript.Proofs.Passage
import NoteScript.Proofs.Polishing
import NoteScript.Proofs.Pairing
import NoteScript.Proofs.Quoting
import NoteScript.Proofs.Restoring
import NoteScript.Proofs.Places
import NoteScript.Proofs.FaultLines
import NoteScript.Proofs.Lines
import NoteScript.Proofs.Comments
import NoteScript.Proofs.Survey
import NoteScript.Proofs.Files
import NoteScript.Proofs.Outcomes
import NoteScript.Proofs.Hindsight
import NoteScript.Proofs.FunctionForms
import NoteScript.Proofs.Cutting
import NoteScript.Proofs.Arrays
import NoteScript.Proofs.Desugaring
import NoteScript.Proofs.Compound
import NoteScript.Proofs.Spans
import NoteScript.Proofs.Frame
import NoteScript.Proofs.Counting
import NoteScript.Proofs.Subscript
import NoteScript.Proofs.Literals
import NoteScript.Proofs.Chains
import NoteScript.Proofs.Sealing
import NoteScript.Proofs.LuaPatterns
import NoteScript.Proofs.StringValues
import NoteScript.Proofs.Bodies
import NoteScript.Proofs.RegularExpressions
import NoteScript.Proofs.Phrases
import NoteScript.Proofs.ReservedNames
import NoteScript.Proofs.Balance
import NoteScript.Proofs.Templates
import NoteScript.Proofs.Extents
import NoteScript.Proofs.Groups
import NoteScript.Proofs.Declarations
import NoteScript.Proofs.Designators
import NoteScript.Proofs.Updates
import NoteScript.Proofs.Alternatives
import NoteScript.Proofs.Sets
import NoteScript.Proofs.Parentheses
import NoteScript.Proofs.Fences
import NoteScript.Proofs.PlainPatterns
import NoteScript.Proofs.SortedKeys
import NoteScript.Proofs.Arguments
import NoteScript.Proofs.QuotedText
import NoteScript.Proofs.Headings
