import ScopedStyle.Assignment
import ScopedStyle.Binary64
import ScopedStyle.CapitalForm
import ScopedStyle.CommandArguments
import ScopedStyle.CommandHost
import ScopedStyle.CommandLine
import ScopedStyle.Compilation
import ScopedStyle.ControlSequence
import ScopedStyle.DecimalReading
import ScopedStyle.DecimalText
import ScopedStyle.Declaration
import ScopedStyle.Fault
import ScopedStyle.JsonDocument
import ScopedStyle.JsonToken
import ScopedStyle.Key
import ScopedStyle.LeafShape
import ScopedStyle.Main
import ScopedStyle.Mapping
import ScopedStyle.NameSource
import ScopedStyle.Override
import ScopedStyle.PseudoClassCatalog
import ScopedStyle.PseudoClasses
import ScopedStyle.QuotedText
import ScopedStyle.RuleTree
import ScopedStyle.Selector
import ScopedStyle.ShownCharacters
import ScopedStyle.Spec
import ScopedStyle.SpecMerge
import ScopedStyle.SpecSnapshot
import ScopedStyle.Style
import ScopedStyle.Value
import ScopedStyle.ValueEquality
import ScopedStyle.ValueLiteral
import ScopedStyle.Workshop
import ScopedStyle.Proofs.MergeAlgebra
import ScopedStyle.Proofs.TextKeys
import ScopedStyle.Proofs.SpecReading
import ScopedStyle.Proofs.Snapshots
import ScopedStyle.Proofs.OverrideChains
import ScopedStyle.Proofs.SpecScopes
import ScopedStyle.Proofs.CompiledOutline
import ScopedStyle.Proofs.GivenLeaves
import ScopedStyle.Proofs.Separators
import ScopedStyle.Proofs.ClassNames
import ScopedStyle.Proofs.IssuedNames
import ScopedStyle.Proofs.WorkshopRuns
import ScopedStyle.Proofs.CompilingInTurn
import ScopedStyle.Proofs.ClassAttributes
import ScopedStyle.Proofs.SharedClasses
import ScopedStyle.Proofs.EntryOrder
import ScopedStyle.Proofs.LeafFaults
import ScopedStyle.Proofs.SelectorLookups
import ScopedStyle.Proofs.CompileFaults
import ScopedStyle.Proofs.MergeConflicts
import ScopedStyle.Proofs.DistinctKeys
import ScopedStyle.Proofs.MergeLoop
import ScopedStyle.Proofs.OverrideFaults
import ScopedStyle.Proofs.MergeMonoid
import ScopedStyle.Proofs.ScopePlaces
import ScopedStyle.Proofs.OverrideFrame
import ScopedStyle.Proofs.MappingPlaces
import ScopedStyle.Proofs.MergePlaces
import ScopedStyle.Proofs.LastDeclarations
import ScopedStyle.Proofs.ArrayLeaves
import ScopedStyle.Proofs.OverridePrecedence
import ScopedStyle.Proofs.DataFiles
import ScopedStyle.Proofs.CommandRuns
import ScopedStyle.Proofs.IndependentPatches
import ScopedStyle.Proofs.ActiveVariants
import ScopedStyle.Proofs.SafeSeparators
import ScopedStyle.Proofs.PropertyNames
import ScopedStyle.Proofs.NumberTexts
import ScopedStyle.Proofs.OverrideNames
import ScopedStyle.Proofs.SelectorSplits
