import EventSchema.Main
import EventSchema.Proofs.Addresses
import EventSchema.Proofs.Aliases
import EventSchema.Proofs.BannerComments
import EventSchema.Proofs.BaseChains
import EventSchema.Proofs.Caches
import EventSchema.Proofs.CanonicalPaths
import EventSchema.Proofs.DistinctNames
import EventSchema.Proofs.DocComments
import EventSchema.Proofs.Flattening
import EventSchema.Proofs.InheritedTypes
import EventSchema.Proofs.JoinedItems
import EventSchema.Proofs.KeptDocuments
import EventSchema.Proofs.Legibility
import EventSchema.Proofs.LoweringExact
import EventSchema.Proofs.LoweringSound
import EventSchema.Proofs.NestedCalls
import EventSchema.Proofs.NormalParts
import EventSchema.Proofs.OrderedDocuments
import EventSchema.Proofs.OrderedTrees
import EventSchema.Proofs.PropertyKeys
import EventSchema.Proofs.Recompilation
import EventSchema.Proofs.ReferenceKeys
import EventSchema.Proofs.ReferenceTables
import EventSchema.Proofs.Relocation
import EventSchema.Proofs.RequiredNames
import EventSchema.Proofs.Rewriting
import EventSchema.Proofs.Substitution
