import ClausalForm.Main
import ClausalForm.Proofs.Truth
import ClausalForm.Proofs.Separation
import ClausalForm.Proofs.Renaming
import ClausalForm.Proofs.Chains
import ClausalForm.Proofs.Coalescing
import ClausalForm.Proofs.Merging
import ClausalForm.Proofs.TakingOut
import ClausalForm.Proofs.Hoisting
import ClausalForm.Proofs.SharedVariables
import ClausalForm.Proofs.NegationNormal
import ClausalForm.Proofs.ConjunctiveNormal
import ClausalForm.Proofs.Prenexing
import ClausalForm.Proofs.BoundNames
import ClausalForm.Proofs.AlphaEquivalence
import ClausalForm.Proofs.Standardization
import ClausalForm.Proofs.Flattening
import ClausalForm.Proofs.FunctionElimination
import ClausalForm.Proofs.Normalization
import ClausalForm.Proofs.SymbolNames
import ClausalForm.Proofs.Sentences
import ClausalForm.Proofs.ReadStatements
import ClausalForm.Proofs.ValidNormalForms
import ClausalForm.Proofs.Reports
import ClausalForm.Proofs.AlphaInvariance
import ClausalForm.Proofs.ReplacedVariables
import ClausalForm.Proofs.LooserSettings
import ClausalForm.Proofs.KeptNormalForms
import ClausalForm.Proofs.Renormalization
import ClausalForm.Proofs.SentenceGrammar
import ClausalForm.Proofs.SentenceMeaning
import ClausalForm.Proofs.AppendedTexts
import ClausalForm.Proofs.AppendedDocuments
import ClausalForm.Proofs.MatrixForms
import ClausalForm.Proofs.StandardizedForms
import ClausalForm.Proofs.Slices
import ClausalForm.Proofs.KeptSources
import ClausalForm.Proofs.Renderings
import ClausalForm.Proofs.NegationForms
import ClausalForm.Proofs.FunctionFreeForms
import ClausalForm.Proofs.StandardizedNames
import ClausalForm.Proofs.RefusedQuantifiers
import ClausalForm.Proofs.RepeatedDistribution
import ClausalForm.Proofs.MergedConnectives
import ClausalForm.Proofs.ClauseViews
import ClausalForm.Proofs.FaultPlaces
import ClausalForm.Proofs.NamesInOrder
import ClausalForm.Proofs.SharedSupply
