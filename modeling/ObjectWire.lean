import ObjectWire.Config.Reader
import ObjectWire.Decimal.Parser
import ObjectWire.Decimal.Printer
import ObjectWire.Proofs.AllOrNothing
import ObjectWire.Proofs.BackReferences
import ObjectWire.Proofs.BulkWrites
import ObjectWire.Proofs.ById
import ObjectWire.Proofs.CheckedWrites
import ObjectWire.Proofs.Cycles
import ObjectWire.Proofs.Decimal.Magnitude
import ObjectWire.Proofs.Decimal.Printing
import ObjectWire.Proofs.Detached
import ObjectWire.Proofs.DistinctFields
import ObjectWire.Proofs.Excerpts
import ObjectWire.Proofs.FieldIds
import ObjectWire.Proofs.FirstPositions
import ObjectWire.Proofs.Footer
import ObjectWire.Proofs.HashCodes
import ObjectWire.Proofs.InlineNames
import ObjectWire.Proofs.NameHash
import ObjectWire.Proofs.Placement
import ObjectWire.Proofs.RoundTrip
import ObjectWire.Proofs.SchemaCache
import ObjectWire.Proofs.SchemaHistory
import ObjectWire.Proofs.SchemaIds
import ObjectWire.Proofs.Stability
import ObjectWire.Proofs.StrictTypes
import ObjectWire.Proofs.Strip
import ObjectWire.Proofs.TimeOfDay
import ObjectWire.Proofs.Utf16.Recovery
import ObjectWire.Proofs.WriteInRange
