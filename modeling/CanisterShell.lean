import CanisterShell.Bytes
import CanisterShell.Candid.Build
import CanisterShell.Candid.Cast
import CanisterShell.Candid.Label
import CanisterShell.Candid.Printer
import CanisterShell.Candid.Quoted
import CanisterShell.Candid.Scope
import CanisterShell.Candid.Ty
import CanisterShell.Candid.Value
import CanisterShell.Candid.Wire.Align
import CanisterShell.Candid.Wire.Decode
import CanisterShell.Candid.Wire.Encode
import CanisterShell.Candid.Wire.Leb128
import CanisterShell.Candid.Wire.TypeTable
import CanisterShell.Canister.FunctionNames
import CanisterShell.Canister.Routing
import CanisterShell.CommandLine.Arguments
import CanisterShell.CommandLine.Console
import CanisterShell.CommandLine.Program
import CanisterShell.Compression.Deflate
import CanisterShell.Compression.Huffman
import CanisterShell.Document.Cbor
import CanisterShell.Document.Datum
import CanisterShell.Document.Format
import CanisterShell.Document.Json
import CanisterShell.Document.Toml
import CanisterShell.Document.Yaml
import CanisterShell.Document.YamlScalar
import CanisterShell.Error
import CanisterShell.File.Disk
import CanisterShell.File.Path
import CanisterShell.Hash.Crc32
import CanisterShell.Hash.Sha2
import CanisterShell.Interface
import CanisterShell.Ledger
import CanisterShell.Main
import CanisterShell.Management
import CanisterShell.Message
import CanisterShell.Number.Decimal
import CanisterShell.Number.Double
import CanisterShell.Number.Modular
import CanisterShell.Number.Rounding
import CanisterShell.Offline.Log
import CanisterShell.Offline.SignedCall
import CanisterShell.Order
import CanisterShell.Principal
import CanisterShell.Profiling.Cost
import CanisterShell.Profiling.Trace
import CanisterShell.Proofs.Attempt
import CanisterShell.Proofs.Bytes
import CanisterShell.Proofs.Candid.Annotated
import CanisterShell.Proofs.Candid.Casting
import CanisterShell.Proofs.Candid.Complete
import CanisterShell.Proofs.Candid.Conforming
import CanisterShell.Proofs.Candid.Conveyed
import CanisterShell.Proofs.Candid.Decoding
import CanisterShell.Proofs.Candid.Emitted
import CanisterShell.Proofs.Candid.Equality
import CanisterShell.Proofs.Candid.Evolution
import CanisterShell.Proofs.Candid.Failure
import CanisterShell.Proofs.Candid.Grounded
import CanisterShell.Proofs.Candid.Header
import CanisterShell.Proofs.Candid.Layout
import CanisterShell.Proofs.Candid.Leaf
import CanisterShell.Proofs.Candid.Leb128
import CanisterShell.Proofs.Candid.Likeness
import CanisterShell.Proofs.Candid.Nesting
import CanisterShell.Proofs.Candid.Normal
import CanisterShell.Proofs.Candid.Ordered
import CanisterShell.Proofs.Candid.Place
import CanisterShell.Proofs.Candid.Proper
import CanisterShell.Proofs.Candid.Reader
import CanisterShell.Proofs.Candid.Repacking
import CanisterShell.Proofs.Candid.Resolving
import CanisterShell.Proofs.Candid.RoundTrip
import CanisterShell.Proofs.Candid.Scope
import CanisterShell.Proofs.Candid.SelfDescribed
import CanisterShell.Proofs.Candid.Shortest
import CanisterShell.Proofs.Candid.Table
import CanisterShell.Proofs.Candid.WellFormed
import CanisterShell.Proofs.Compiling
import CanisterShell.Proofs.Document.Cbor
import CanisterShell.Proofs.Document.Json
import CanisterShell.Proofs.File.Disk
import CanisterShell.Proofs.Importing
import CanisterShell.Proofs.Interface
import CanisterShell.Proofs.Number.Rounding
import CanisterShell.Proofs.Offline.Log
import CanisterShell.Proofs.Offline.Replay
import CanisterShell.Proofs.Offline.SignedCall
import CanisterShell.Proofs.Order
import CanisterShell.Proofs.Principal
import CanisterShell.Proofs.Profiling.Trace
import CanisterShell.Proofs.Random.Drawing
import CanisterShell.Proofs.Random.Fitting
import CanisterShell.Proofs.Random.Printable
import CanisterShell.Proofs.Request.HashTree
import CanisterShell.Proofs.Request.Id
import CanisterShell.Proofs.Request.Waiting
import CanisterShell.Proofs.Shell.Addressing
import CanisterShell.Proofs.Shell.Agreement
import CanisterShell.Proofs.Shell.Alteration
import CanisterShell.Proofs.Shell.Completing
import CanisterShell.Proofs.Shell.Concatenation
import CanisterShell.Proofs.Shell.Discovery
import CanisterShell.Proofs.Shell.Effectless
import CanisterShell.Proofs.Shell.Existence
import CanisterShell.Proofs.Shell.Giving
import CanisterShell.Proofs.Shell.Harmless
import CanisterShell.Proofs.Shell.Heedless
import CanisterShell.Proofs.Shell.Isolation
import CanisterShell.Proofs.Shell.Keeping
import CanisterShell.Proofs.Shell.Logging
import CanisterShell.Proofs.Shell.Pairing
import CanisterShell.Proofs.Shell.Piecewise
import CanisterShell.Proofs.Shell.Proxy
import CanisterShell.Proofs.Shell.Relaying
import CanisterShell.Proofs.Shell.Repacking
import CanisterShell.Proofs.Shell.Rereading
import CanisterShell.Proofs.Shell.Resemblance
import CanisterShell.Proofs.Shell.Restoring
import CanisterShell.Proofs.Shell.Results
import CanisterShell.Proofs.Shell.Script
import CanisterShell.Proofs.Shell.Silence
import CanisterShell.Proofs.Shell.Simulation
import CanisterShell.Proofs.Shell.Soundness
import CanisterShell.Proofs.Shell.Steps
import CanisterShell.Proofs.Shell.Traversal
import CanisterShell.Proofs.Shell.Wallet
import CanisterShell.Proofs.Shell.Watching
import CanisterShell.Proofs.Syntax.Arguments
import CanisterShell.Proofs.Syntax.Asking
import CanisterShell.Proofs.Syntax.Blanking
import CanisterShell.Proofs.Syntax.Building
import CanisterShell.Proofs.Syntax.Comments
import CanisterShell.Proofs.Syntax.Deciding
import CanisterShell.Proofs.Syntax.Deriving
import CanisterShell.Proofs.Syntax.Ebnf
import CanisterShell.Proofs.Syntax.Escapes
import CanisterShell.Proofs.Syntax.Joining
import CanisterShell.Proofs.Syntax.Legible
import CanisterShell.Proofs.Syntax.Meaning
import CanisterShell.Proofs.Syntax.Naming
import CanisterShell.Proofs.Syntax.Numeral
import CanisterShell.Proofs.Syntax.Offending
import CanisterShell.Proofs.Syntax.Phrasing
import CanisterShell.Proofs.Syntax.Placing
import CanisterShell.Proofs.Syntax.PrintedTypes
import CanisterShell.Proofs.Syntax.Printing
import CanisterShell.Proofs.Syntax.Quoting
import CanisterShell.Proofs.Syntax.Respelling
import CanisterShell.Proofs.Syntax.Scanning
import CanisterShell.Proofs.Syntax.Sound
import CanisterShell.Proofs.Syntax.Viable
import CanisterShell.Proofs.Syntax.Writing
import CanisterShell.Proofs.Syntax.Written
import CanisterShell.Proofs.Table
import CanisterShell.Proofs.Text.Lines
import CanisterShell.Proofs.Text.Utf8
import CanisterShell.Random.Config
import CanisterShell.Random.Generator
import CanisterShell.Random.Twister
import CanisterShell.Replica
import CanisterShell.Request.Agent
import CanisterShell.Request.Envelope
import CanisterShell.Request.HashTree
import CanisterShell.Request.Http
import CanisterShell.Shell.Builtin
import CanisterShell.Shell.Directory
import CanisterShell.Shell.Evaluation
import CanisterShell.Shell.Execution
import CanisterShell.Shell.Hint
import CanisterShell.Shell.Invocation
import CanisterShell.Shell.Measurement
import CanisterShell.Shell.Numeral
import CanisterShell.Shell.Script
import CanisterShell.Shell.Selection
import CanisterShell.Shell.Session
import CanisterShell.Signing.Der
import CanisterShell.Signing.Ed25519
import CanisterShell.Signing.Identity
import CanisterShell.Signing.PrivateKey
import CanisterShell.Signing.Secp256k1
import CanisterShell.Syntax.Grammar
import CanisterShell.Syntax.Literal
import CanisterShell.Syntax.Parse
import CanisterShell.Syntax.Rule
import CanisterShell.Syntax.Source
import CanisterShell.Syntax.Token
import CanisterShell.Syntax.Tree
import CanisterShell.Table
import CanisterShell.Text.Classes
import CanisterShell.Text.Printable
import CanisterShell.Text.Quote
import CanisterShell.Text.Radix
import CanisterShell.Text.Span
import CanisterShell.Text.Utf8
import CanisterShell.Text.Word
import CanisterShell.Timing
