import SimplyTyped.Main
import SimplyTyped.Proofs.Nameless
import SimplyTyped.Proofs.Freshness
import SimplyTyped.Proofs.Renaming
import SimplyTyped.Proofs.Substitution
import SimplyTyped.Proofs.Composition
import SimplyTyped.Proofs.Evaluates
import SimplyTyped.Proofs.SmallStep
import SimplyTyped.Proofs.HasType
import SimplyTyped.Proofs.NamelessStep
import SimplyTyped.Proofs.Normalization
import SimplyTyped.Proofs.Soundness
import SimplyTyped.Proofs.FirstFault
import SimplyTyped.Proofs.NamelessReduction
import SimplyTyped.Proofs.Denotation
import SimplyTyped.Proofs.RecordFormat
import SimplyTyped.Proofs.Rendering
import SimplyTyped.Proofs.Spans
import SimplyTyped.Proofs.Unambiguity
import SimplyTyped.Proofs.PromptSafety
import SimplyTyped.Proofs.Lifetime
import SimplyTyped.Proofs.ExactlyOnce
import SimplyTyped.Proofs.Culprits
import SimplyTyped.Proofs.Independence
import SimplyTyped.Proofs.TextForm
import SimplyTyped.Proofs.FileText
import SimplyTyped.Proofs.DataFiles
import SimplyTyped.Proofs.Flags
import SimplyTyped.Proofs.FileRuns
import SimplyTyped.Proofs.ClosedTerms
import SimplyTyped.Proofs.StepBound
import SimplyTyped.Proofs.WeakHeadNormal
import SimplyTyped.Proofs.Replacement
import SimplyTyped.Proofs.Scoping
import SimplyTyped.Proofs.FirstFlaw
import SimplyTyped.Proofs.ContextFormat
import SimplyTyped.Proofs.Marking
import SimplyTyped.Proofs.CurrentLine
import SimplyTyped.Proofs.Quoting
import SimplyTyped.Proofs.TreeText
