import PubspecTidy.Address.Basic
import PubspecTidy.Address.Host
import PubspecTidy.Address.Label
import PubspecTidy.Address.Punycode
import PubspecTidy.Analysis
import PubspecTidy.Apply
import PubspecTidy.Backup
import PubspecTidy.Category.Assignment
import PubspecTidy.Category.Cache
import PubspecTidy.Category.Priority
import PubspecTidy.Category.Resolver
import PubspecTidy.Category.Rules
import PubspecTidy.Category.Service
import PubspecTidy.CommandLine.Command
import PubspecTidy.CommandLine.Confirm
import PubspecTidy.CommandLine.Options
import PubspecTidy.CommandLine.Report
import PubspecTidy.CommandLine.Run
import PubspecTidy.FileTree
import PubspecTidy.FileTree.Search
import PubspecTidy.Grouping.Basic
import PubspecTidy.Grouping.Sections
import PubspecTidy.Json.Printer
import PubspecTidy.Json.Reader
import PubspecTidy.Json.Text
import PubspecTidy.Json.Value
import PubspecTidy.Logging
import PubspecTidy.Main
import PubspecTidy.Manifest.Change
import PubspecTidy.Manifest.Declaration
import PubspecTidy.Manifest.Editor
import PubspecTidy.Manifest.Line
import PubspecTidy.Manifest.Section
import PubspecTidy.Number.Double
import PubspecTidy.Number.Fixed
import PubspecTidy.Number.Layout
import PubspecTidy.Number.Power
import PubspecTidy.Number.Reader
import PubspecTidy.Number.Shortest
import PubspecTidy.Overrides
import PubspecTidy.Plan
import PubspecTidy.Project
import PubspecTidy.Settings
import PubspecTidy.Table
import PubspecTidy.Text.Affix
import PubspecTidy.Text.Blank
import PubspecTidy.Text.Case
import PubspecTidy.Text.Control
import PubspecTidy.Text.Digit
import PubspecTidy.Text.Encoding
import PubspecTidy.Text.Glob
import PubspecTidy.Text.Letter
import PubspecTidy.Text.Lines
import PubspecTidy.Text.Percent
import PubspecTidy.Text.Printable
import PubspecTidy.Text.Quoted
import PubspecTidy.Text.Surrogate
import PubspecTidy.Text.Utf8
import PubspecTidy.Time.Calendar
import PubspecTidy.Time.Iso
import PubspecTidy.Time.Stamp
import PubspecTidy.Usage.Import
import PubspecTidy.Usage.Record
import PubspecTidy.Usage.Role
import PubspecTidy.Usage.Scan
import PubspecTidy.Yaml.Cursor
import PubspecTidy.Yaml.Document
import PubspecTidy.Yaml.Fault
import PubspecTidy.Yaml.Formation
import PubspecTidy.Yaml.Node
import PubspecTidy.Yaml.Outline
import PubspecTidy.Yaml.Printer
import PubspecTidy.Yaml.Scalar
import PubspecTidy.Yaml.SetOrder
import PubspecTidy.Yaml.Tag
import PubspecTidy.Yaml.Text
import PubspecTidy.Yaml.Token
import PubspecTidy.Yaml.Token.Block
import PubspecTidy.Yaml.Token.Name
import PubspecTidy.Yaml.Token.Plain
import PubspecTidy.Yaml.Token.Quoted
import PubspecTidy.Yaml.Token.Scan
import PubspecTidy.Yaml.Value
import PubspecTidy.Proofs.FileTree.Frame
import PubspecTidy.Proofs.Apply.Transaction
import PubspecTidy.Proofs.Manifest.Headers
import PubspecTidy.Proofs.Manifest.Sections
import PubspecTidy.Proofs.Manifest.Bodies
import PubspecTidy.Proofs.Manifest.Tracking
import PubspecTidy.Proofs.Manifest.Splices
import PubspecTidy.Proofs.Manifest.Repeating
import PubspecTidy.Proofs.Manifest.Removals
import PubspecTidy.Proofs.Manifest.Moving
import PubspecTidy.Proofs.Manifest.Sorting
import PubspecTidy.Proofs.Manifest.Comments
import PubspecTidy.Proofs.Manifest.OpenBlock
import PubspecTidy.Proofs.Manifest.Tiling
import PubspecTidy.Proofs.Text.Returns
import PubspecTidy.Proofs.Manifest.LineEnds
import PubspecTidy.Proofs.Yaml.Cursor
import PubspecTidy.Proofs.Yaml.Plain
import PubspecTidy.Proofs.Yaml.Quoted
import PubspecTidy.Proofs.Yaml.Name
import PubspecTidy.Proofs.Yaml.Block
import PubspecTidy.Proofs.Yaml.Frame
import PubspecTidy.Proofs.Yaml.Tokens
import PubspecTidy.Proofs.Yaml.BlockEnd
import PubspecTidy.Proofs.Yaml.Entering
import PubspecTidy.Proofs.Yaml.Joined
import PubspecTidy.Proofs.Yaml.Key
import PubspecTidy.Proofs.Yaml.Parts
import PubspecTidy.Proofs.Yaml.Printing
import PubspecTidy.Proofs.Sheet.Meaning
import PubspecTidy.Proofs.Analysis.Verdict
import PubspecTidy.Proofs.Apply.SecondPass
import PubspecTidy.Proofs.Apply.Report
import PubspecTidy.Proofs.Grouping.Lines
import PubspecTidy.Proofs.Grouping.Windows
import PubspecTidy.Proofs.Grouping.Again
import PubspecTidy.Proofs.Grouping.LineEnds
import PubspecTidy.Proofs.Category.Faults
import PubspecTidy.Proofs.Grouping.Partition
import PubspecTidy.Proofs.Sheet.Regrouping
import PubspecTidy.Proofs.Category.Lifetime
import PubspecTidy.Proofs.Category.Runs
import PubspecTidy.Proofs.Category.Keys
import PubspecTidy.Proofs.Category.Requests
import PubspecTidy.Proofs.Category.Documents
import PubspecTidy.Proofs.Category.Mirror
import PubspecTidy.Proofs.FileTree.Search
import PubspecTidy.Proofs.Time.Iso
import PubspecTidy.Proofs.Usage.Coverage
import PubspecTidy.Proofs.Usage.Imports
import PubspecTidy.Proofs.CommandLine.Endings
import PubspecTidy.Proofs.Json.Documents
import PubspecTidy.Proofs.Json.Numbers
import PubspecTidy.Proofs.Json.Strings
import PubspecTidy.Proofs.Analysis.Planning
