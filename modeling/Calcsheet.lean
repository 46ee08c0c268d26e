import Calcsheet.Main
import Calcsheet.Proofs.Batch.Failure
import Calcsheet.Proofs.Batch.Inputs
import Calcsheet.Proofs.Code.Acceptance
import Calcsheet.Proofs.Code.Brackets
import Calcsheet.Proofs.Code.Meaning
import Calcsheet.Proofs.Code.Readback
import Calcsheet.Proofs.Code.SourceFile
import Calcsheet.Proofs.Document.Links
import Calcsheet.Proofs.ReadWritten
import Calcsheet.Proofs.Code.Agreement
import Calcsheet.Proofs.Code.CommaLists
import Calcsheet.Proofs.Code.ComplexPairs
import Calcsheet.Proofs.Code.Dependence
import Calcsheet.Proofs.Document.Finished
import Calcsheet.Proofs.Document.Traversal
import Calcsheet.Proofs.Text.OuterCommas
import Calcsheet.Proofs.Code.Parts
import Calcsheet.Proofs.Code.MatrixCells
import Calcsheet.Proofs.Kind
import Calcsheet.Proofs.Code.Warnings
import Calcsheet.Proofs.Code.Wrappers
import Calcsheet.Proofs.Code.ElementType
import Calcsheet.Proofs.Code.Leaves
import Calcsheet.Proofs.Base64
import Calcsheet.Proofs.Batch.Search
import Calcsheet.Proofs.Extraction
import Calcsheet.Proofs.Gzip.Locality
import Calcsheet.Proofs.Gzip.Member
import Calcsheet.Proofs.AttachmentCodec
import Calcsheet.Proofs.Xml.Continuation
import Calcsheet.Proofs.Xml.References
import Calcsheet.Proofs.AttributesAndText
import Calcsheet.Proofs.ClassName
import Calcsheet.Proofs.Code.Guards
import Calcsheet.Proofs.Code.UnitComments
