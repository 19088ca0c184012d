import ScopedConfig.Main
import ScopedConfig.Proofs.Transparency
import ScopedConfig.Proofs.Saved
import ScopedConfig.Proofs.Staleness
import ScopedConfig.Proofs.CheckedSave
import ScopedConfig.Proofs.Outcome
import ScopedConfig.Proofs.Conformity
import ScopedConfig.Proofs.Checked
import ScopedConfig.Proofs.Failure
import ScopedConfig.Proofs.Order
import ScopedConfig.Proofs.Precedence
import ScopedConfig.Proofs.VersionCount
import ScopedConfig.Proofs.Isolation
import ScopedConfig.Proofs.Resolution
import ScopedConfig.Proofs.Removal
import ScopedConfig.Proofs.Alike
import ScopedConfig.Proofs.Fingerprint
import ScopedConfig.Proofs.Pairing
import ScopedConfig.Proofs.ReadBack
import ScopedConfig.Proofs.Collections
import ScopedConfig.Proofs.Distinct
import ScopedConfig.Proofs.Again
import ScopedConfig.Proofs.Stable
import ScopedConfig.Proofs.Resave
import ScopedConfig.Proofs.JsonText
import ScopedConfig.Proofs.NodeJson
import ScopedConfig.Proofs.Files
import ScopedConfig.Proofs.Interchange
import ScopedConfig.Proofs.Traces
import ScopedConfig.Proofs.PathText
import ScopedConfig.Proofs.FaithfulForm
import ScopedConfig.Proofs.ReferenceGraph
import ScopedConfig.Proofs.ReferenceWalk
import ScopedConfig.Proofs.ReferenceCycles
import ScopedConfig.Proofs.ReferenceVerdict
import ScopedConfig.Proofs.Rising
import ScopedConfig.Proofs.Origins
import ScopedConfig.Proofs.Places
import ScopedConfig.Proofs.RuntimeTypes
import ScopedConfig.Proofs.SavedTwice
import ScopedConfig.Proofs.Unversioned
import ScopedConfig.Proofs.Unmixed
import ScopedConfig.Proofs.Canonical
import ScopedConfig.Proofs.Agreement
import ScopedConfig.Proofs.KeyedMerge
import ScopedConfig.Proofs.MergedSet
import ScopedConfig.Proofs.Recency
import ScopedConfig.Proofs.Rearranged
import ScopedConfig.Proofs.StalePairs
import ScopedConfig.Proofs.Defaults
import ScopedConfig.Proofs.PathShape
import ScopedConfig.Proofs.FilesApart
import ScopedConfig.Proofs.Labels
import ScopedConfig.Proofs.RegisteredChains
import ScopedConfig.Proofs.SegmentTexts
import ScopedConfig.Proofs.Bookkeeping
import ScopedConfig.Proofs.StrategyChains
import ScopedConfig.Proofs.Building
import ScopedConfig.Proofs.ReferenceEffort
import ScopedConfig.Proofs.Everywhere
import ScopedConfig.Proofs.WellFormed
import ScopedConfig.Proofs.JsonDepth
import ScopedConfig.Proofs.Admission
import ScopedConfig.Proofs.SavedFile
import ScopedConfig.Proofs.SetProperty
