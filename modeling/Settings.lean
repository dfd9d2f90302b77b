import Settings.SortedMap.Lemmas
import Settings.Script.Schema
import Settings.Spec.Describe
import Settings.Store
import Settings.Layer.Source
import Settings.Metadata.Encoding
import Settings.Proofs.Callbacks
import Settings.Proofs.Candidate
import Settings.Proofs.Commit
import Settings.Proofs.Defaults
import Settings.Proofs.History
import Settings.Proofs.Shape
import Settings.Proofs.Admission
import Settings.Proofs.Coherence
import Settings.Proofs.Change
import Settings.Proofs.Effect
import Settings.Proofs.Projection
import Settings.Proofs.Original
import Settings.Proofs.Derived
import Settings.Proofs.Completeness
import Settings.Proofs.Applies
import Settings.Proofs.Layers
import Settings.Proofs.Starters
import Settings.Proofs.Alike
import Settings.Proofs.Likeness
import Settings.Proofs.Lockstep
import Settings.Proofs.LockstepChange
import Settings.Proofs.Play
import Settings.Proofs.Recording
import Settings.Proofs.Influence
import Settings.Proofs.Kinds
import Settings.Proofs.Provenance
import Settings.Proofs.Longhand
import Settings.Proofs.Transparency
import Settings.Proofs.Commutation
import Settings.Proofs.Repetition
import Settings.Proofs.Atomicity
import Settings.Proofs.Validity
import Settings.Proofs.Pipeline
import Settings.Proofs.Independence
import Settings.Proofs.Growth
import Settings.Proofs.MapperCalls
import Settings.Proofs.Remapping
import Settings.Proofs.Locations
import Settings.Proofs.Acceptance
import Settings.Proofs.Merging
import Settings.Proofs.InitialCommit
import Settings.Proofs.Speakers
import Settings.Proofs.EmptyStarters
import Settings.Proofs.InitialValues
import Settings.Proofs.DottedPaths
import Settings.Proofs.Marks
import Settings.Proofs.Shadows
