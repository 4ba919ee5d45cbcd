import SurveyForms.Files.FileSet
import SurveyForms.Main
import SurveyForms.Registry.Session
import SurveyForms.Proofs.Occurrences
import SurveyForms.Proofs.Scope
import SurveyForms.Proofs.Visibility
import SurveyForms.Proofs.Nesting
import SurveyForms.Proofs.CommentedLine
import SurveyForms.Proofs.Blocks
import SurveyForms.Proofs.Wrapping
import SurveyForms.Proofs.StatementLines
import SurveyForms.Proofs.TrailingComments
import SurveyForms.Proofs.BlockHeaders
import SurveyForms.Proofs.Acceptance
import SurveyForms.Proofs.Writing
import SurveyForms.Proofs.Layout
import SurveyForms.Proofs.WrittenChoices
import SurveyForms.Proofs.KeptFiles
import SurveyForms.Proofs.Migrations
import SurveyForms.Proofs.Session
import SurveyForms.Proofs.BlockTrees
import SurveyForms.Proofs.OpenFiles
import SurveyForms.Proofs.Paths
import SurveyForms.Proofs.Cycles
import SurveyForms.Proofs.Obstacles
import SurveyForms.Proofs.FaultPlaces
import SurveyForms.Proofs.IncludePath
import SurveyForms.Proofs.Renaming
import SurveyForms.Proofs.RenamedForms
import SurveyForms.Proofs.Relocation
import SurveyForms.Proofs.TextPlaces
import SurveyForms.Proofs.ErrorPlaces
import SurveyForms.Proofs.Inheritance
import SurveyForms.Proofs.ChoiceRows
import SurveyForms.Proofs.Settings
import SurveyForms.Proofs.Columns
import SurveyForms.Proofs.ReadBack
import SurveyForms.Proofs.FileTrees
import SurveyForms.Proofs.Jobs
import SurveyForms.Proofs.RegistryFiles
import SurveyForms.Proofs.RegistryCommands
import SurveyForms.Proofs.RegistryHistory
import SurveyForms.Proofs.FailedSaves
import SurveyForms.Proofs.Spacing
import SurveyForms.Proofs.TokenColumns
import SurveyForms.Proofs.Reindentation
import SurveyForms.Proofs.WholeLineComments
import SurveyForms.Proofs.DeeperLines
import SurveyForms.Proofs.WrappedQuestions
import SurveyForms.Proofs.JoinedLines
import SurveyForms.Proofs.DocumentedLines
import SurveyForms.Proofs.QuestionLines
import SurveyForms.Proofs.LaterLines
import SurveyForms.Proofs.Substitution
import SurveyForms.Proofs.ByteOrder
import SurveyForms.Proofs.DefinedNames
import SurveyForms.Proofs.Succession
import SurveyForms.Proofs.SplitLists
import SurveyForms.Proofs.ColumnOrder
import SurveyForms.Proofs.Origins
import SurveyForms.Proofs.CellKeys
import SurveyForms.Proofs.WrittenChecks
import SurveyForms.Proofs.ConditionReferences
import SurveyForms.Proofs.Calendar
import SurveyForms.Proofs.StampFields
import SurveyForms.Proofs.BuildHistory
import SurveyForms.Proofs.VersionStamps
import SurveyForms.Proofs.IgnoreFile
import SurveyForms.Proofs.Outlines
import SurveyForms.Proofs.TokenTiling
import SurveyForms.Proofs.ByteOffsets
