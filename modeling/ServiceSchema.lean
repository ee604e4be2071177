import ServiceSchema.Cbor.Decoder
import ServiceSchema.Main
import ServiceSchema.Proofs.Cbor.Recoding
import ServiceSchema.Proofs.Service.Copies
import ServiceSchema.Proofs.Service.Record
import ServiceSchema.Proofs.Service.Reordering
import ServiceSchema.Proofs.Service.Naming
import ServiceSchema.Proofs.Service.Respelling
import ServiceSchema.Proofs.Json.Source
import ServiceSchema.Proofs.Json.Rearrangement
import ServiceSchema.Proofs.Json.Canonical
import ServiceSchema.Proofs.Service.Formatting
import ServiceSchema.Proofs.Command.Records
import ServiceSchema.Proofs.Command.Failures
import ServiceSchema.Proofs.Command.Agreement
import ServiceSchema.Proofs.DeclaredType
import ServiceSchema.Proofs.Command.ExitCode
import ServiceSchema.Proofs.Service.Selection
import ServiceSchema.Proofs.Service.Codecs
import ServiceSchema.Proofs.CArray
import ServiceSchema.Proofs.Shape.Location
import ServiceSchema.Proofs.Service.Numerals
import ServiceSchema.Proofs.Includes
import ServiceSchema.Proofs.SchemaError
import ServiceSchema.Proofs.Service.Handlers
import ServiceSchema.Proofs.Service.Warnings
import ServiceSchema.Proofs.Profile.Lines
