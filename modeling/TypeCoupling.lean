import TypeCoupling.Facts
import TypeCoupling.Main
import TypeCoupling.Query.Pack
import TypeCoupling.Proofs.Index
import TypeCoupling.Proofs.Link
import TypeCoupling.Proofs.Walk
import TypeCoupling.Proofs.Declaration
import TypeCoupling.Proofs.Relationship
import TypeCoupling.Proofs.Run
import TypeCoupling.Proofs.EdgeIntegrity
import TypeCoupling.Proofs.ImportTable
import TypeCoupling.Proofs.InputOrder
import TypeCoupling.Proofs.EdgeOrder
import TypeCoupling.Proofs.FileEdges
import TypeCoupling.Proofs.SameLanguage
import TypeCoupling.Proofs.EdgeIdentity
import TypeCoupling.Proofs.Isolation
import TypeCoupling.Proofs.FirstOfKey
import TypeCoupling.Proofs.IndexView
import TypeCoupling.Proofs.SharedKeys
import TypeCoupling.Proofs.Nesting
import TypeCoupling.Proofs.Extraction
import TypeCoupling.Proofs.ImportKeys
import TypeCoupling.Proofs.SeenKeys
import TypeCoupling.Proofs.ChainPrefix
import TypeCoupling.Proofs.UsagePass
import TypeCoupling.Proofs.DirectEdges
import TypeCoupling.Proofs.Inheritance
import TypeCoupling.Proofs.NameLookup
import TypeCoupling.Proofs.ArgumentScan
import TypeCoupling.Proofs.CallChains
import TypeCoupling.Proofs.AncestorCap
import TypeCoupling.Proofs.ImportGroups
import TypeCoupling.Proofs.ImportedNames
import TypeCoupling.Proofs.BaseLists
import TypeCoupling.Proofs.StepwiseExtraction
import TypeCoupling.Proofs.Coupling
import TypeCoupling.Proofs.CanonicalEdges
import TypeCoupling.Proofs.PatternEnds
import TypeCoupling.Proofs.PatternLayout
import TypeCoupling.Proofs.PatternPieces
import TypeCoupling.Proofs.QuotedText
import TypeCoupling.Proofs.WrittenLines
import TypeCoupling.Proofs.ConfigFile
import TypeCoupling.Proofs.IdleCaptures
import TypeCoupling.Proofs.PathNames
import TypeCoupling.Proofs.ReportKeys
