import Sela.Checked
import Sela.Grouping
import Sela.Association
import Sela.LengthPrefixed
import Sela.Json
import Sela.Targets
import Sela.Type
import Sela.Module
import Sela.Domains
import Sela.DomainVerification
import Sela.ConditionalSpecialization
import Sela.ScopedFactoring
import Sela.Partitions
import Sela.Artifact
import Sela.Link
import Sela.Build
import Sela.Publication
import Sela.PairedCFG
import Sela.SymbolIdentities
import Sela.Canonicalize
import Sela.DomainSpecialization
import Sela.NativeX86Agreement
import Sela.NativeArmVariadic
import Sela.NativePieces
import Sela.NativeRegisters
import Sela.IntegerConstants
import Sela.TypeText
import Sela.NativeArmHomogeneous
import Sela.CreateArtifact
import Sela.IndexMerge
import Sela.OverlapEvidence
import Sela.PackageArchive
import Sela.NativeObject
import Sela.NativeLink
import Sela.NativeCoverage
import Sela.NativeCalls
import Sela.ReadBack
import Sela.Correspondence
import Sela.TypeMerge
import Sela.MergeRoundTrip
import Sela.CommonGraph
import Sela.FunctionMerge
import Sela.FunctionRoundTrip
import Sela.ModuleRoundTrip
import Sela.Admission
import Sela.References
import Sela.CompilationUnits
import Sela.OverlapStorage
import Sela.NativeTypes
import Sela.NativeImport
import Sela.TypeRoundTrip
