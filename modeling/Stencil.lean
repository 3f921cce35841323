import Stencil.Asset.Collect
import Stencil.Asset.Index
import Stencil.Asset.Module
import Stencil.Asset.Name
import Stencil.Asset.Stylesheet
import Stencil.Build.Basic
import Stencil.Build.Project
import Stencil.Build.Task
import Stencil.Code.Check
import Stencil.Code.Generate
import Stencil.Code.Module
import Stencil.Code.Scope
import Stencil.Code.Stmt
import Stencil.CommandLine.Options
import Stencil.CommandLine.Run
import Stencil.Config.Basic
import Stencil.Config.Load
import Stencil.Data.Basic
import Stencil.Data.Json
import Stencil.Data.Scalar
import Stencil.Decimal.Binary64
import Stencil.Decimal.Read
import Stencil.Decimal.Shortest
import Stencil.Digest.Base64
import Stencil.Digest.Md5
import Stencil.Disk.Basic
import Stencil.Disk.Glob
import Stencil.Disk.Tree
import Stencil.Disk.Walk
import Stencil.Error
import Stencil.Expr.Basic
import Stencil.Expr.Code
import Stencil.Expr.Literal
import Stencil.Expr.Parser
import Stencil.Expr.Token
import Stencil.Main
import Stencil.Order
import Stencil.Output
import Stencil.Package.File
import Stencil.Package.Generate
import Stencil.Path
import Stencil.Pattern.Basic
import Stencil.Pattern.Code
import Stencil.Pattern.Parser
import Stencil.Problem
import Stencil.Proofs.AlikeContexts
import Stencil.Proofs.AllOrNothing
import Stencil.Proofs.BlamedLines
import Stencil.Proofs.BlockEnds
import Stencil.Proofs.BlockStructure
import Stencil.Proofs.BranchChains
import Stencil.Proofs.BuiltinNames
import Stencil.Proofs.CallNames
import Stencil.Proofs.CaseMeaning
import Stencil.Proofs.ChainReading
import Stencil.Proofs.ClosedPackage
import Stencil.Proofs.CodeMeaning
import Stencil.Proofs.ControlFlow
import Stencil.Proofs.CutText
import Stencil.Proofs.Declarations
import Stencil.Proofs.DiskWays
import Stencil.Proofs.EditedTemplate
import Stencil.Proofs.EmbeddedReading
import Stencil.Proofs.Embedding
import Stencil.Proofs.EmptyKeys
import Stencil.Proofs.EnoughSteps
import Stencil.Proofs.ErrorPlaces
import Stencil.Proofs.Escaping
import Stencil.Proofs.Hygiene
import Stencil.Proofs.ImportOrder
import Stencil.Proofs.JoinedText
import Stencil.Proofs.KeptImports
import Stencil.Proofs.LiteralText
import Stencil.Proofs.LoadedSettings
import Stencil.Proofs.Nesting
import Stencil.Proofs.OpenBlocks
import Stencil.Proofs.PackageLayout
import Stencil.Proofs.ExprRoundTrip
import Stencil.Proofs.ParsePattern
import Stencil.Proofs.PatternGrammar
import Stencil.Proofs.PatternMeaning
import Stencil.Proofs.ReachableArms
import Stencil.Proofs.ReachedIndex
import Stencil.Proofs.Rebuild
import Stencil.Proofs.RecordedTypes
import Stencil.Proofs.References
import Stencil.Proofs.ReservedNames
import Stencil.Proofs.StaticPaths
import Stencil.Proofs.StaticsModule
import Stencil.Proofs.TemplateFailures
import Stencil.Proofs.TemplateOrder
import Stencil.Proofs.TemplateRoundTrip
import Stencil.Proofs.TextAccount
import Stencil.Proofs.TextPlaces
import Stencil.Proofs.UsableParameters
import Stencil.Proofs.WalkedFiles
import Stencil.Proofs.Whitespace
import Stencil.Proofs.Wildcards
import Stencil.Proofs.WriteOutcomes
import Stencil.Proofs.WrittenPattern
import Stencil.Render.Value
import Stencil.Report
import Stencil.Source
import Stencil.Template.Basic
import Stencil.Template.Lexical
import Stencil.Template.Name
import Stencil.Template.Parser
import Stencil.Text.Blank
import Stencil.Text.CodePoint
import Stencil.Text.DecimalDigit
import Stencil.Text.Identifier
import Stencil.Text.Printable
import Stencil.Text.Quoted
import Stencil.Text.Utf8
import Stencil.Text.Word
import Stencil.Yaml.Basic
import Stencil.Yaml.Lexer
import Stencil.Yaml.Node
import Stencil.Yaml.Scalar
import Stencil.Yaml.Schema
