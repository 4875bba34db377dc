import SourceAtlas.Main
import SourceAtlas.Proofs.Classification
import SourceAtlas.Proofs.RelationMap
import SourceAtlas.Proofs.DeclaredRelations
import SourceAtlas.Proofs.FileIndex
import SourceAtlas.Proofs.ImportJoin
import SourceAtlas.Proofs.DeclaredNames
import SourceAtlas.Proofs.BraceBodies
import SourceAtlas.Proofs.BraceExtent
import SourceAtlas.Proofs.TextLines
import SourceAtlas.Proofs.IndentedBodies
import SourceAtlas.Proofs.InnermostScope
import SourceAtlas.Proofs.UsedWords
import SourceAtlas.Proofs.ClassListing
import SourceAtlas.Proofs.PatternMatches
import SourceAtlas.Proofs.ClassNesting
import SourceAtlas.Proofs.EncodedTexts
import SourceAtlas.Proofs.FileNames
import SourceAtlas.Proofs.OrderedTrees
import SourceAtlas.Proofs.ScannedFiles
import SourceAtlas.Proofs.StructuralSources
import SourceAtlas.Proofs.DirectoryDiagram
import SourceAtlas.Proofs.ReportDepth
import SourceAtlas.Proofs.RuleTimeouts
import SourceAtlas.Proofs.SurveyTimeouts
import SourceAtlas.Proofs.CallableOrder
import SourceAtlas.Proofs.DroppedProperties
import SourceAtlas.Proofs.RestrictedScans
import SourceAtlas.Proofs.WrittenFiles
import SourceAtlas.Proofs.DiagramDepth
import SourceAtlas.Proofs.GroupedEntries
import SourceAtlas.Proofs.MergedCalls
import SourceAtlas.Proofs.UsageSection
import SourceAtlas.Proofs.PreferredMatches
import SourceAtlas.Proofs.ImportLists
import SourceAtlas.Proofs.FromImports
import SourceAtlas.Proofs.ImportLayout
import SourceAtlas.Proofs.LegibleImports
import SourceAtlas.Proofs.CompactText
import SourceAtlas.Proofs.BraceSplitting
import SourceAtlas.Proofs.UseGroups
import SourceAtlas.Proofs.CapturedText
import SourceAtlas.Proofs.UseNames
import SourceAtlas.Proofs.UseAliases
import SourceAtlas.Proofs.QuotedNames
import SourceAtlas.Proofs.OfferedLists
import SourceAtlas.Proofs.FirstCaptures
import SourceAtlas.Proofs.ScannedText
import SourceAtlas.Proofs.ProjectElements
import SourceAtlas.Proofs.ProjectLayouts
import SourceAtlas.Proofs.RequiredModules
import SourceAtlas.Proofs.SpacedWords
import SourceAtlas.Proofs.ExportedDeclarations
import SourceAtlas.Proofs.ExportedKeywords
import SourceAtlas.Proofs.BracketedNames
import SourceAtlas.Proofs.NumberedFiles
import SourceAtlas.Proofs.WordClasses
import SourceAtlas.Proofs.MentionedNames
import SourceAtlas.Proofs.ProjectReferences
import SourceAtlas.Proofs.FirstPlaces
import SourceAtlas.Proofs.InsertedSymbols
import SourceAtlas.Proofs.PushedRelations
import SourceAtlas.Proofs.BoundedSlices
import SourceAtlas.Proofs.LastSegments
