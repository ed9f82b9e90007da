import RegexEngine.Cache
import RegexEngine.CharSet.Basic
import RegexEngine.CharSet.ByteSet
import RegexEngine.CharSet.Text
import RegexEngine.Dialect
import RegexEngine.Encoding.Basic
import RegexEngine.Encoding.Characters
import RegexEngine.Encoding.Kind
import RegexEngine.Encoding.Utf8
import RegexEngine.Error.Basic
import RegexEngine.Error.Cause
import RegexEngine.GroupNames
import RegexEngine.Limits
import RegexEngine.Matcher.Context
import RegexEngine.Matcher.Machine
import RegexEngine.Matcher.Run
import RegexEngine.Matcher.Stack
import RegexEngine.Options
import RegexEngine.Pattern.Bracket
import RegexEngine.Pattern.Escape
import RegexEngine.Pattern.Group
import RegexEngine.Pattern.Item
import RegexEngine.Pattern.Length
import RegexEngine.Pattern.LookBehind
import RegexEngine.Pattern.Node
import RegexEngine.Pattern.Parse
import RegexEngine.Pattern.Position
import RegexEngine.Pattern.Reference
import RegexEngine.Pattern.Repeat
import RegexEngine.Pattern.Scan
import RegexEngine.Pattern.State
import RegexEngine.Pattern.Text
import RegexEngine.Program.Basic
import RegexEngine.Program.Code
import RegexEngine.Program.Compile
import RegexEngine.Program.Emit
import RegexEngine.Program.Instr
import RegexEngine.Program.Text
import RegexEngine.Regex.Builder
import RegexEngine.Regex.Find
import RegexEngine.Search.Basic
import RegexEngine.Search.Named
import RegexEngine.Search.Region
import RegexEngine.Search.Scan
import RegexEngine.Text.Hex
import RegexEngine.Text.Quoted
import RegexEngine.Text.Scalars
import RegexEngine.Unicode.Alphabetic
import RegexEngine.Unicode.Extending
import RegexEngine.Unicode.Ignorable
import RegexEngine.Unicode.Lowercase
import RegexEngine.Unicode.Numeric
import RegexEngine.Unicode.Property
import RegexEngine.Unicode.Stretch
import RegexEngine.Unicode.ToLower
import RegexEngine.Unicode.Unprintable
import RegexEngine.Unicode.Uppercase
import RegexEngine.Proofs.Tree.Induction
import RegexEngine.Proofs.Outcome.Basic
import RegexEngine.Proofs.Outcome.Progress
import RegexEngine.Proofs.Coding.Character
import RegexEngine.Proofs.Coding.Walk
import RegexEngine.Proofs.Control.Basic
import RegexEngine.Proofs.Control.Step
import RegexEngine.Proofs.Control.Run
import RegexEngine.Proofs.Fragment.Registers
import RegexEngine.Proofs.Fragment.Basic
import RegexEngine.Proofs.Fragment.Choice
import RegexEngine.Proofs.Fragment.Mark
import RegexEngine.Proofs.Fragment.Loop
import RegexEngine.Proofs.Emission.Basic
import RegexEngine.Proofs.Emission.Layout
import RegexEngine.Proofs.Emission.Correct
import RegexEngine.Proofs.Program.Attempt
import RegexEngine.Proofs.Reading.Draft
import RegexEngine.Proofs.Program.Compile
import RegexEngine.Proofs.Program.Matching
import RegexEngine.Proofs.Safety.Attempt
import RegexEngine.Proofs.Search.Scan
import RegexEngine.Proofs.Safety.Looks
import RegexEngine.Proofs.Search.Answer
import RegexEngine.Proofs.Search.Effects
import RegexEngine.Proofs.Search.Hints
import RegexEngine.Proofs.Search.Spans
import RegexEngine.Proofs.Search.Carried
import RegexEngine.Proofs.Search.Leftmost
import RegexEngine.Proofs.Caching.Answers
import RegexEngine.Proofs.Reading.Refusal
import RegexEngine.Proofs.Reading.Total
import RegexEngine.Proofs.Program.Total
import RegexEngine.Proofs.Limited.Lockstep
import RegexEngine.Proofs.Limited.Retries
import RegexEngine.Proofs.Backtracking.Entries
import RegexEngine.Proofs.Backtracking.Restore
import RegexEngine.Proofs.Emission.Leaves
import RegexEngine.Proofs.Reference.Compiled
import RegexEngine.Proofs.Boundary.Text
import RegexEngine.Proofs.Boundary.Positions
import RegexEngine.Proofs.Boundary.Answers
import RegexEngine.Proofs.Reference.Named
import RegexEngine.Proofs.Lines.Answer
import RegexEngine.Proofs.Range.Walk
import RegexEngine.Proofs.Range.Agree
import RegexEngine.Proofs.Range.Answer
import RegexEngine.Proofs.Class.Closure
import RegexEngine.Proofs.Reading.Levels
import RegexEngine.Proofs.Outcome.Schemes
import RegexEngine.Proofs.Emission.Exists
import RegexEngine.Proofs.Search.Twins
import RegexEngine.Proofs.Longest.Ends
import RegexEngine.Proofs.Longest.Reorder
import RegexEngine.Proofs.Longest.Outcomes
import RegexEngine.Proofs.Longest.Answer
import RegexEngine.Proofs.Unrolled.Firsts
import RegexEngine.Proofs.Unrolled.Closing
import RegexEngine.Proofs.Unrolled.Settled
import RegexEngine.Proofs.Unrolled.Answer
import RegexEngine.Proofs.Search.Alike
import RegexEngine.Proofs.Unrolled.Copies
import RegexEngine.Proofs.Fragment.HandsOn
import RegexEngine.Proofs.Emission.Alone
import RegexEngine.Proofs.LookBehind.Parts
import RegexEngine.Proofs.LookBehind.Sealed
import RegexEngine.Proofs.LookBehind.Answer
import RegexEngine.Proofs.Coding.Ahead
import RegexEngine.Proofs.LookBehind.Length
import RegexEngine.Proofs.LookBehind.Ends
import RegexEngine.Proofs.Quoted.Reading
import RegexEngine.Proofs.Quoted.Search
import RegexEngine.Proofs.Reading.Interval
import RegexEngine.Proofs.Iteration.Basic
import RegexEngine.Proofs.Iteration.Answer
import RegexEngine.Proofs.Iteration.Walk
import RegexEngine.Proofs.Reading.Numbering
import RegexEngine.Proofs.Class.Written
import RegexEngine.Proofs.Class.Union
import RegexEngine.Proofs.Class.Words
import RegexEngine.Proofs.Coding.WellFormed
import RegexEngine.Proofs.Emission.Size
import RegexEngine.Proofs.Caching.Newest
import RegexEngine.Proofs.Caching.Tables
import RegexEngine.Proofs.Emission.Targets
import RegexEngine.Proofs.Emission.Fragments
import RegexEngine.Proofs.Emission.Advance
