import ClassLang.Command.Run
import ClassLang.Compile
import ClassLang.Main
import ClassLang.Program.Outline
import ClassLang.Proofs.Ancestry
import ClassLang.Proofs.HierarchyFaults
import ClassLang.Proofs.MethodLookup
import ClassLang.Proofs.DispatchSlots
import ClassLang.Proofs.SlotTables
import ClassLang.Proofs.TableConstruction
import ClassLang.Proofs.Erasure
import ClassLang.Proofs.TypingRules
import ClassLang.Proofs.RulePremises
import ClassLang.Proofs.TypingExactness
import ClassLang.Proofs.Subtyping
import ClassLang.Proofs.LoweringTotality
import ClassLang.Proofs.LoweringFaults
import ClassLang.Proofs.GrammarRules
import ClassLang.Proofs.ProductionExactness
import ClassLang.Proofs.GrammarExactness
import ClassLang.Proofs.PreciseProduction
import ClassLang.Proofs.ErrorPosition
import ClassLang.Proofs.Scoping
import ClassLang.Proofs.NameResolution
import ClassLang.Proofs.ReceiverIntegrity
import ClassLang.Proofs.TopLevelNames
import ClassLang.Proofs.Lexemes
import ClassLang.Proofs.MaximalMunch
import ClassLang.Proofs.Respacing
import ClassLang.Proofs.ProgramPoints
import ClassLang.Proofs.CodeEmission
import ClassLang.Proofs.Pointwise
import ClassLang.Proofs.ScopeAgreement
import ClassLang.Proofs.WrittenVariables
import ClassLang.Proofs.ScopesInStep
import ClassLang.Proofs.ReferenceTexts
import ClassLang.Proofs.Linking
import ClassLang.Proofs.WrittenForms
import ClassLang.Proofs.Inclusion
import ClassLang.Proofs.Modularity
import ClassLang.Proofs.Juxtaposition
import ClassLang.Proofs.Identifiers
import ClassLang.Proofs.IndentedLines
import ClassLang.Proofs.OutlineReadback
import ClassLang.Proofs.ExpressionCode
import ClassLang.Proofs.BlockLayout
import ClassLang.Proofs.BlockStructure
import ClassLang.Proofs.SequenceNesting
import ClassLang.Proofs.LocalProduction
import ClassLang.Proofs.Positions
import ClassLang.Proofs.ReadingProgress
import ClassLang.Proofs.StatementAlternatives
import ClassLang.Proofs.AllOrNothing
import ClassLang.Proofs.Inheritance
