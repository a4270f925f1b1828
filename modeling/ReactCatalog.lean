import ReactCatalog.Component.Decode
import ReactCatalog.Main
import ReactCatalog.Files.Draft
import ReactCatalog.Proofs.Dictionary
import ReactCatalog.Proofs.FileTree
import ReactCatalog.Proofs.Writing
import ReactCatalog.Proofs.Shape
import ReactCatalog.Proofs.Batch
import ReactCatalog.Proofs.Properties
import ReactCatalog.Proofs.Places
import ReactCatalog.Proofs.Resolution
import ReactCatalog.Proofs.TypeExpansion
import ReactCatalog.Proofs.ExportedNames
import ReactCatalog.Proofs.Records
import ReactCatalog.Proofs.Utf8
import ReactCatalog.Proofs.Descent
import ReactCatalog.Proofs.Selection
import ReactCatalog.Proofs.Registration
import ReactCatalog.Proofs.RelativeNames
import ReactCatalog.Proofs.ModuleNames
import ReactCatalog.Proofs.JsonText
import ReactCatalog.Proofs.ReadBack
import ReactCatalog.Proofs.Validators
import ReactCatalog.Proofs.Inheritance
import ReactCatalog.Proofs.Passing
import ReactCatalog.Proofs.Repetition
import ReactCatalog.Proofs.Likeness
import ReactCatalog.Proofs.LikeMembers
import ReactCatalog.Proofs.LikeModules
import ReactCatalog.Proofs.LikeDocuments
import ReactCatalog.Proofs.Wrappers
import ReactCatalog.Proofs.Spreads
import ReactCatalog.Proofs.ValidatorForms
import ReactCatalog.Proofs.RequiredMarks
import ReactCatalog.Proofs.InsertedComments
import ReactCatalog.Proofs.CommentedModules
import ReactCatalog.Proofs.Docblocks
import ReactCatalog.Proofs.CandidateFilters
import ReactCatalog.Proofs.PathModules
import ReactCatalog.Proofs.GroundedDocuments
import ReactCatalog.Proofs.Mentions
import ReactCatalog.Proofs.ScopeTables
import ReactCatalog.Proofs.TypeElements
import ReactCatalog.Proofs.Extensions
import ReactCatalog.Proofs.FlawSearch
