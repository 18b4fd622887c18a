import SearchCompiler.Aggregation
import SearchCompiler.Classifier.Membership
import SearchCompiler.Classifier.Registry
import SearchCompiler.Classifier.Shape
import SearchCompiler.Cleanup
import SearchCompiler.Draft.Assembly
import SearchCompiler.Draft.Basic
import SearchCompiler.Draft.Build
import SearchCompiler.Draft.Session
import SearchCompiler.Error
import SearchCompiler.Expr.Basic
import SearchCompiler.Expr.Encoding
import SearchCompiler.Expr.Equality
import SearchCompiler.Expr.Reading
import SearchCompiler.Highlight
import SearchCompiler.Json.Basic
import SearchCompiler.Json.Decimal
import SearchCompiler.Json.Document
import SearchCompiler.Json.Double
import SearchCompiler.Json.Numeral
import SearchCompiler.Json.Printer
import SearchCompiler.Json.Reader
import SearchCompiler.Json.Record
import SearchCompiler.Namespaces
import SearchCompiler.Node.Basic
import SearchCompiler.Node.Compile
import SearchCompiler.Node.Encoding
import SearchCompiler.Node.Walk
import SearchCompiler.Profile
import SearchCompiler.Query
import SearchCompiler.Reach
import SearchCompiler.Rescore
import SearchCompiler.Settings
import SearchCompiler.SortedSet
import SearchCompiler.Table
import SearchCompiler.Text.Digits
import SearchCompiler.Text.Words
import SearchCompiler.Proofs.Draft.History
import SearchCompiler.Proofs.Expr.Truth
import SearchCompiler.Proofs.Draft.Demands
import SearchCompiler.Proofs.Node.Occurrence
import SearchCompiler.Proofs.Node.TextTree
import SearchCompiler.Proofs.Node.Compilation
import SearchCompiler.Proofs.Draft.Meaning
import SearchCompiler.Proofs.Node.Lifting
import SearchCompiler.Proofs.Draft.Lifting
import SearchCompiler.Proofs.Classifier.Settlement
import SearchCompiler.Proofs.Classifier.Caching
import SearchCompiler.Proofs.Classifier.Strays
import SearchCompiler.Proofs.Classifier.Runs
import SearchCompiler.Proofs.Classifier.Ownership
import SearchCompiler.Proofs.Draft.Features
import SearchCompiler.Proofs.Draft.Merge
import SearchCompiler.Proofs.Draft.Reads
import SearchCompiler.Proofs.Draft.Cleanness
import SearchCompiler.Proofs.Draft.Highlighting
import SearchCompiler.Proofs.Draft.Refusals
import SearchCompiler.Proofs.Node.Regrouping
import SearchCompiler.Proofs.Draft.Regrouping
import SearchCompiler.Proofs.Node.Leaves
import SearchCompiler.Proofs.Node.Events
import SearchCompiler.Proofs.Classifier.Shapes
import SearchCompiler.Proofs.Draft.Agreement
import SearchCompiler.Proofs.Node.Ways
import SearchCompiler.Proofs.Node.Yields
import SearchCompiler.Proofs.Draft.Routing
import SearchCompiler.Proofs.Text.Splitting
import SearchCompiler.Proofs.Draft.Rescoring
import SearchCompiler.Proofs.Draft.Recording
import SearchCompiler.Proofs.Node.NormalForm
import SearchCompiler.Proofs.Draft.Conservation
import SearchCompiler.Proofs.Node.Containment
import SearchCompiler.Proofs.Classifier.Partition
import SearchCompiler.Proofs.Query.Inference
import SearchCompiler.Proofs.Draft.SearchType
import SearchCompiler.Proofs.Expr.Separable
import SearchCompiler.Proofs.Json.Canonical
import SearchCompiler.Proofs.Expr.Canonical
import SearchCompiler.Proofs.Expr.Decoding
import SearchCompiler.Proofs.Query.Namespaces
import SearchCompiler.Proofs.Draft.Scoring
import SearchCompiler.Proofs.Profile.Registrations
import SearchCompiler.Proofs.Draft.Stages
import SearchCompiler.Proofs.Node.Dump
import SearchCompiler.Proofs.Folds
import SearchCompiler.Proofs.Node.Preorder
import SearchCompiler.Proofs.Json.Records
import SearchCompiler.Proofs.Json.Written
import SearchCompiler.Proofs.Json.Reordering
import SearchCompiler.Proofs.Settings.Storage
import SearchCompiler.Proofs.Profile.Storage
