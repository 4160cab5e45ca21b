import RecordRules.Formula.Json
import RecordRules.Guard.Allowlist
import RecordRules.Limits.Toml
import RecordRules.Engine.Fleet
import RecordRules.Main
import RecordRules.Proofs.Grammar
import RecordRules.Proofs.Names
import RecordRules.Proofs.Reading
import RecordRules.Proofs.Lookups
import RecordRules.Proofs.Guarding
import RecordRules.Proofs.ReadBack
import RecordRules.Proofs.Scanning
import RecordRules.Proofs.Printing
import RecordRules.Proofs.RoundTrip
import RecordRules.Engine.Session
import RecordRules.Proofs.Entries
import RecordRules.Proofs.Equality
import RecordRules.Proofs.Nesting
import RecordRules.Proofs.Sessions
import RecordRules.Proofs.Canonical
import RecordRules.Proofs.JsonReading
import RecordRules.Proofs.JsonDecoded
import RecordRules.Proofs.Persistence
import RecordRules.Proofs.Functions
import RecordRules.Proofs.StoredFormulas
import RecordRules.Proofs.Spelling
import RecordRules.Proofs.Munching
import RecordRules.Engine.Interleaving
import RecordRules.Proofs.Interleavings
import RecordRules.Proofs.Places
import RecordRules.Proofs.Limiting
import RecordRules.Proofs.Shallow
import RecordRules.Proofs.Viability
import RecordRules.Proofs.Ungrouping
import RecordRules.Proofs.Calendar
import RecordRules.Proofs.Timestamps
import RecordRules.Proofs.Rereading
import RecordRules.Proofs.Normalizing
import RecordRules.Proofs.Mirroring
import RecordRules.Proofs.Descent
import RecordRules.Proofs.Restoring
import RecordRules.Proofs.Ordering
import RecordRules.Proofs.ScalarTexts
import RecordRules.Proofs.Flattening
import RecordRules.Proofs.Permitting
import RecordRules.Proofs.Asking
import RecordRules.Proofs.Sharing
import RecordRules.Proofs.Seams
import RecordRules.Proofs.Outlooks
import RecordRules.Proofs.Cursors
import RecordRules.Proofs.Following
import RecordRules.Proofs.Literals
import RecordRules.Proofs.DecimalTexts
import RecordRules.Proofs.Readings
import RecordRules.Proofs.Conditions
