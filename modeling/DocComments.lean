import DocComments.Text.Basic
import DocComments.Text.Offset
import DocComments.Text.Case
import DocComments.Text.Utf8
import DocComments.Syntax.Language
import DocComments.Syntax.Tree
import DocComments.Syntax.Snapshot
import DocComments.Entity
import DocComments.Pattern.Property
import DocComments.Pattern.Basic
import DocComments.Pattern.Expr
import DocComments.Pattern.Ranges
import DocComments.Pattern.Octets
import DocComments.Pattern.Normal
import DocComments.Pattern.Network
import DocComments.Pattern.Quote
import DocComments.Pattern.Reader
import DocComments.Json.Basic
import DocComments.Rule.Basic
import DocComments.Rule.Prune
import DocComments.Rule.Written
import DocComments.Rule.Search
import DocComments.Comment.Fence
import DocComments.Comment.Block
import DocComments.Comment.Docstring
import DocComments.Comment.Slashes
import DocComments.Comment.Style
import DocComments.Diff.Block
import DocComments.Diff.Script
import DocComments.Diff.Tidy
import DocComments.Diff.Unified
import DocComments.Edit.Changeset
import DocComments.Edit.Commit
import DocComments.Declaration.Target
import DocComments.Declaration.Locate
import DocComments.Declaration.Label
import DocComments.Declaration.Plan
import DocComments.Prompt.Tokens
import DocComments.Prompt.Basic
import DocComments.Prompt.Wording
import DocComments.Model.Labels
import DocComments.Decimal.Fixed
import DocComments.Files.Path
import DocComments.Files.Entry
import DocComments.Files.Source
import DocComments.Files.Glob
import DocComments.Files.Discover
import DocComments.Model.Usage
import DocComments.Report.Basic
import DocComments.Report.Table
import DocComments.Run.Budget
import DocComments.Yaml.Basic
import DocComments.Yaml.Tag
import DocComments.Yaml.Scalar
import DocComments.Yaml.Layout
import DocComments.Yaml.Reader
import DocComments.Decimal.Read
import DocComments.Settings.Basic
import DocComments.Settings.Written
import DocComments.Settings.Load
import DocComments.Settings.Config
import DocComments.Json.Reader
import DocComments.Model.Completion
import DocComments.Model.Call
import DocComments.Model.Chat
import DocComments.Run.Session
import DocComments.Run.Treatment
import DocComments.Run.FilePass
import DocComments.Run.Basic
import DocComments.CommandLine.Basic
import DocComments.CommandLine.Reader
import DocComments.CommandLine.Configure
import DocComments.Program
import DocComments.Syntax.Written
import DocComments.Checkout
import DocComments.Main
import DocComments.Proofs.Settings.Precedence
import DocComments.Proofs.Text.Utf8
import DocComments.Proofs.Text.Cut
import DocComments.Proofs.Text.Line
import DocComments.Proofs.Text.Position
import DocComments.Proofs.Text.Lines
import DocComments.Proofs.Text.Occurrences
import DocComments.Proofs.Text.Places
import DocComments.Proofs.Text.Case
import DocComments.Proofs.Edit.Weave
import DocComments.Proofs.Edit.Insertion
import DocComments.Proofs.Diff.Hunk
import DocComments.Proofs.Diff.Lines
import DocComments.Proofs.Diff.Patch
import DocComments.Proofs.Diff.Aligned
import DocComments.Proofs.Edit.Commit
import DocComments.Proofs.Comment.Fence
import DocComments.Proofs.Comment.Indent
import DocComments.Proofs.Edit.Location
import DocComments.Proofs.Comment.Quoting
import DocComments.Proofs.Comment.Margin
import DocComments.Proofs.Comment.Docstring
import DocComments.Proofs.Comment.Block
import DocComments.Proofs.Comment.Slashes
import DocComments.Proofs.Comment.Closing
import DocComments.Proofs.Comment.Literal
import DocComments.Proofs.Comment.Returns
import DocComments.Proofs.Pattern.Search
import DocComments.Proofs.Pattern.Anchored
import DocComments.Proofs.Comment.Fenced
import DocComments.Proofs.Prompt.Fixed
import DocComments.Proofs.Prompt.Truncate
import DocComments.Proofs.Prompt.Fit
import DocComments.Proofs.Prompt.Trim
import DocComments.Proofs.Model.Labels
import DocComments.Proofs.Model.Conclusion
import DocComments.Proofs.Rule.Prune
import DocComments.Proofs.Rule.Matches
import DocComments.Proofs.Rule.Written
import DocComments.Proofs.Syntax.Layout
import DocComments.Proofs.Rule.Search
import DocComments.Proofs.Rule.Kinds
import DocComments.Proofs.Rule.Exact
import DocComments.Proofs.Declaration.Target
import DocComments.Proofs.Declaration.Select
import DocComments.Proofs.Declaration.Partition
import DocComments.Proofs.Declaration.Request
import DocComments.Proofs.Declaration.Exported
import DocComments.Proofs.Declaration.Label
import DocComments.Proofs.Declaration.Method
import DocComments.Proofs.Declaration.Agree
import DocComments.Proofs.Declaration.Comments
import DocComments.Proofs.Declaration.Preceding
import DocComments.Proofs.Run.Batch
import DocComments.Proofs.Run.Addition
import DocComments.Proofs.Run.Pass
import DocComments.Proofs.Run.Update
import DocComments.Proofs.Run.Missing
import DocComments.Proofs.Run.Budget
import DocComments.Proofs.Run.Journal
import DocComments.Proofs.Run.Visit
import DocComments.Proofs.Run.Exhaustion
import DocComments.Proofs.Run.Staged
import DocComments.Proofs.Run.Prefix
import DocComments.Proofs.Run.Course
import DocComments.Proofs.Run.Account
import DocComments.Proofs.Run.Unchanged
import DocComments.Proofs.Run.Hollow
import DocComments.Proofs.Run.OwnLine
import DocComments.Proofs.Files.Tree
import DocComments.Proofs.Files.Order
import DocComments.Proofs.Files.Names
import DocComments.Proofs.Files.Discover
import DocComments.Proofs.Files.Repeats
import DocComments.Proofs.Run.Frame
import DocComments.Proofs.Run.Tree
import DocComments.Proofs.Run.Append
import DocComments.Proofs.Run.Unplannable
import DocComments.Proofs.Run.Usage
import DocComments.Proofs.Run.Preview
import DocComments.Proofs.Run.Order
