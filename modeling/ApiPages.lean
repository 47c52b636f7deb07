import ApiPages.Main
import ApiPages.Host.FileSystem
import ApiPages.Proofs.Grouping
import ApiPages.Proofs.MemberCorrection
import ApiPages.Proofs.Cutting
import ApiPages.Proofs.Decoding
import ApiPages.Proofs.ShortReference
import ApiPages.Proofs.WhiteSpace
import ApiPages.Proofs.DefaultPool
import ApiPages.Proofs.ReferenceName
import ApiPages.Proofs.IndexAgreement
import ApiPages.Proofs.Merging
import ApiPages.Proofs.Modes
import ApiPages.Proofs.Layout
import ApiPages.Proofs.TypeRules
import ApiPages.Proofs.CodeFences
import ApiPages.Proofs.SeparatorAgreement
import ApiPages.Proofs.Prose
import ApiPages.Proofs.InputOrder
import ApiPages.Proofs.Rerunning
import ApiPages.Proofs.DeclaringTypes
import ApiPages.Proofs.CallingPools
import ApiPages.Proofs.FailingRuns
import ApiPages.Proofs.Spelling
import ApiPages.Proofs.SpelledGlyphs
import ApiPages.Proofs.SpelledTags
import ApiPages.Proofs.SpelledContent
import ApiPages.Proofs.SpelledTrees
import ApiPages.Proofs.SpelledProlog
import ApiPages.Proofs.SpelledDocuments
import ApiPages.Proofs.Spellable
import ApiPages.Proofs.Omission
import ApiPages.Proofs.IdentifierGrammar
import ApiPages.Proofs.CrossReferences
import ApiPages.Proofs.CutTargets
import ApiPages.Proofs.Lines
import ApiPages.Proofs.ByteSlices
import ApiPages.Proofs.NormalForm
import ApiPages.Proofs.Reindenting
import ApiPages.Proofs.VisitedDescendants
import ApiPages.Proofs.FinalSigmas
import ApiPages.Proofs.Collapsing
