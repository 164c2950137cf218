import Conformance.Main
import Conformance.Proofs.Check.Conforms
import Conformance.Proofs.Check.FirstFault
import Conformance.Proofs.Gate
import Conformance.Proofs.Double.Shortest
import Conformance.Proofs.Double.WholeNumbers
import Conformance.Proofs.Json.Quoted
import Conformance.Proofs.Json.Numeral
import Conformance.Proofs.Json.ReadBack
import Conformance.Proofs.Json.TextLength
import Conformance.Proofs.Shape.Decoding
import Conformance.Proofs.Shape.WireDocuments
import Conformance.Proofs.Shape.Roles
import Conformance.Proofs.Shape.Encoding
import Conformance.Proofs.Shape.RoundTrip
import Conformance.Proofs.Shape.Tidy
import Conformance.Proofs.Shape.FirstViolation
import Conformance.Proofs.Shape.NumberLiterals
import Conformance.Proofs.Value.Equality
import Conformance.Proofs.Check.EqualValues
import Conformance.Proofs.Command.CheckRun
import Conformance.Proofs.Check.Inclusion
import Conformance.Proofs.Shape.Alternatives
import Conformance.Proofs.Shape.ToldApart
import Conformance.Proofs.Shape.Unambiguous
import Conformance.Proofs.Check.UndeclaredKeys
import Conformance.Proofs.Json.ReadDocuments
import Conformance.Proofs.Shape.NotFinite
import Conformance.Proofs.Json.RereadNumbers
import Conformance.Proofs.Shape.PassedOn
import Conformance.Proofs.Fixtures.LoadedCases
import Conformance.Proofs.Fixtures.Runs
import Conformance.Proofs.Check.Widening
import Conformance.Proofs.Files.Contents
import Conformance.Proofs.Command.Changes
import Conformance.Proofs.Check.SameShapes
import Conformance.Proofs.Fixtures.Summary
import Conformance.Proofs.Check.Flattening
import Conformance.Proofs.Check.Reordering
import Conformance.Proofs.Double.Integers
import Conformance.Proofs.Shape.IntegerLiterals
import Conformance.Proofs.RelatedLists
import Conformance.Proofs.Entries
import Conformance.Proofs.Places
import Conformance.Proofs.Value.PartialEquivalence
import Conformance.Proofs.Value.Documents
import Conformance.Proofs.Shape.DeclaredMembers
import Conformance.Proofs.Json.TypedReaders
import Conformance.Proofs.Json.Mirroring
import Conformance.Proofs.Shape.ShapesInLists
import Conformance.Proofs.Check.QuotedTexts
import Conformance.Proofs.Json.AddressTexts
import Conformance.Proofs.Shape.BasePaths
import Conformance.Proofs.Json.EntryPaths
import Conformance.Proofs.Check.Faults
