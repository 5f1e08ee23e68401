import CanisterShell.Candid.Printer
import CanisterShell.Error

/-!
# Messages

The words for each failure, and the name of the kind that an error belongs to.
-/

namespace CanisterShell

open Candid

def Principal.Fault.message : Principal.Fault → String
  | empty => "empty principal text"
  | malformed text => "invalid principal text " ++ Text.quoted text
  | tooLong n => "principal too long: " ++ toString n ++ " bytes"
  | checksum text => "invalid principal checksum " ++ Text.quoted text
  | indexTooLarge => "int too big to convert"

/-! ## Reading -/

def ParseCause.words : ParseCause → String
  | unterminatedComment => "unterminated block comment"
  | unsetVariable name => "environment variable " ++ name ++ " is not set"
  | danglingEscape => "dangling escape at end of literal"
  | badUnicodeEscape body => "invalid unicode escape in " ++ Text.quoted body
  | unicodeEscapeRange digits => "unicode escape out of range: " ++ digits
  | unknownEscape c => "unknown escape \\" ++ c.toString
  | textNotUtf8 token => "text literal is not valid UTF-8: " ++ token
  | unexpectedToken token => "unexpected token " ++ Text.quoted token
  | unexpectedCharacter c => "unexpected character " ++ Text.quoted c.toString
  | unexpectedEnd => "unexpected end of input"
  | principal fault => fault.message
  | badFieldId token => "invalid field id " ++ token
  | unlabelledTypeCase t => "variant field needs a label: " ++ t.toText
  | unlabelledCase => "variant field needs a label"
  | unknownMode name => "unknown function annotation " ++ name
  | repeatedParameter function => "duplicate parameter in function " ++ function
  | selectorNeedsFunction selector => "." ++ selector ++ "() expects a function name"
  | unknownSelector selector n =>
    "unknown selector ." ++ selector ++ "() with " ++ toString n ++ " argument(s)"

/-- Whether the message goes on with what could have stood there. -/
def ParseCause.listsExpected : ParseCause → Bool
  | unexpectedToken _ | unexpectedCharacter _ | unexpectedEnd => true
  | _ => false

def ParseError.message (e : ParseError) : String :=
  if e.cause.listsExpected && !e.expected.isEmpty then
    e.cause.words ++ ", expected one of: " ++ ", ".intercalate e.expected
  else e.cause.words

/-! ## Evaluation -/

/-- The words behind "malformed candid: ". -/
def Malformed.words : Malformed → String
  | ended => "unexpected end of input"
  | notUtf8 => "text is not valid UTF-8"
  | noMagic => "missing DIDL magic"
  | unknownConstructor code => "unknown type constructor " ++ toString code
  | indexRange index => "type index " ++ toString index ++ " out of range"
  | unknownCode code => "unknown type code " ++ toString code
  | opaqueReference => "opaque reference"
  | opaqueFunction => "opaque function reference"
  | emptyValue => "value of type empty"
  | badBool => "invalid bool"
  | variantIndex index => "variant index " ++ toString index ++ " out of range"
  | trailing => "trailing bytes after arguments"

/-- The number of arguments, in words. -/
def Arity.words : Arity → String
  | exactly n => toString n
  | between least most => toString least ++ " to " ++ toString most
  | atLeast n => "at least " ++ toString n

def EvalCause.message : EvalCause → String
  | expectedFailure => "expected failure, but the expression succeeded"
  | unknownFunction name => "Unknown function " ++ name
  | decodeNeedsBlob => "decode expects a blob"
  | conditionNotBool keyword => keyword ++ " condition is not a boolean expression"
  | needsPrincipal builtin => builtin ++ " expects a principal"
  | needsText builtin => builtin ++ " expects text"
  | needsBool builtin => builtin ++ " expects a boolean"
  | needsNumbers builtin got => builtin ++ " expects numbers, got " ++ got.toText
  | tooLargeForFloat builtin => builtin ++ ": int too large to convert to float"
  | noText value => "Cannot stringify " ++ value.toText
  | badNonce => "neuron_account expects a nat64 nonce"
  | cannotRead path failure => "Cannot read " ++ path.toText ++ ": " ++ failure.message
  | cannotWrite path failure => "Cannot write " ++ path.toText ++ ": " ++ failure.message
  | gzipNeedsBlob => "gzip expects a blob"
  | profilingArguments => "wasm_profiling expects a path and an optional vec of function names"
  | profilingNames => "wasm_profiling expects a vec of function names"
  | notConnected => "flamegraph needs a connected replica"
  | noInstrumenter => "wasm instrumentation is not available in this session"
  | concatKinds => "concat expects two values of the same kind: text, blob, vec or record"
  | divisionByZero => "division by zero"
  | repeatedTypeField label => "duplicate field " ++ label.toText ++ " in type"
  | repeatedField label => "duplicate field " ++ label.toText ++ " in record"
  | cyclicType name => "type " ++ name ++ " is not well-founded"
  | unboundType name => "unbound type identifier " ++ name
  | notFunction t => t.toText ++ " is not a function type"
  | notService t => t.toText ++ " is not a service type"
  | notCanister name => name ++ " is not a canister id"
  | interCanisterOnly method => method ++ " can only be called via inter-canister call."
  | noCanisterField method => method ++ " needs a canister_id field to route the call"
  | tooManyArguments args results modes =>
    "too many arguments: " ++ Ty.signature args results modes ++ " takes " ++ toString args.length
  | negativeLength n => "cannot LEB128-encode negative number " ++ toString n
  | malformed how => "malformed candid: " ++ how.words
  | undecodableType t => "cannot decode type " ++ t.toText
  | missingDecodedField label => "decoded record is missing field " ++ label.toText
  | unknownDecodedCase label t =>
    "decoded variant label " ++ label.toText ++ " is not in " ++ t.toText
  | tooFewResults expected got =>
    "expected " ++ toString expected ++ " result value(s), got " ++ toString got
  | traceUnderflow => "profiling trace pops an empty stack"
  | traceMismatch => "profiling trace function id mismatch"
  | noValueOfEmpty => "cannot generate a value of type empty"
  | noValueOfEmptyVariant => "cannot generate a value of an empty variant"

def CastCause.message : CastCause → String
  | range n kind => toString n ++ " is out of range for " ++ kind.name
  | realRange x kind => x.toText ++ " is out of range for " ++ kind.name
  | notFinite x kind => "cannot cast " ++ x.toText ++ " to " ++ kind.name
  | notCastable v t => v.toText ++ " cannot be cast to type " ++ t.toText
  | unsupported t => "casting to " ++ t.toText ++ " is not supported"
  | blobNotUtf8 => "blob is not valid UTF-8 text"
  | mismatch v t => "type mismatch: " ++ v.toText ++ " cannot be encoded as " ++ t.toText
  | unexpectedField label t => "unexpected field " ++ label.toText ++ " for " ++ t.toText
  | missingField label t =>
    "record is missing field " ++ label.toText ++ " of type " ++ t.toText
  | unknownCase label t => "variant label " ++ label.toText ++ " is not in " ++ t.toText
  | argumentCount expected got =>
    "expected " ++ toString expected ++ " argument(s), got " ++ toString got

def SelectorName.toText : SelectorName → String
  | index => "[...]"
  | field label => "." ++ label.toText
  | unwrap => "?"
  | size => ".size()"
  | map function => ".map(" ++ function ++ ")"
  | filter function => ".filter(" ++ function ++ ")"
  | fold function => ".fold(..., " ++ function ++ ")"

def SelectorCause.message : SelectorCause → String
  | mismatch selector v =>
    "selector " ++ selector.toText ++ " cannot be applied to " ++ v.toBrief
  | indexNotNumber v => "index must be a number, got " ++ v.toBrief
  | labelNotKey v => "field label must be a number or text, got " ++ v.toBrief
  | notText v => "expected function to return text, got " ++ v.toBrief
  | notPair v => "expected function to return record \x7b key; value \x7d, got " ++ v.toBrief
  | unwrapNull => "cannot unwrap ? on null"
  | bounds index length => "index " ++ toString index ++ " out of bound " ++ toString length

/-! ## Network and configuration -/

def NetworkCause.message : NetworkCause → String
  | noAgent => "no replica agent is configured"
  | unreachable url reason => "cannot reach " ++ url ++ ": " ++ reason
  | badStatus code url preview => "HTTP " ++ toString code ++ " for " ++ url ++ ": " ++ preview
  | badQueryResponse response => "unexpected query response: " ++ response.display
  | noCertificate => "read_state response has no certificate"
  | badCbor detail => "invalid CBOR from replica: " ++ detail
  | noReply => "replied status without a reply"
  | replyGone => "call is done but its reply is no longer available"
  | other text => text

def CallSite.attach (message : String) : Option CallSite → String
  | none => message
  | some site =>
    if site.method = "" then message
    else message ++ " (calling " ++ site.canister.toText ++ "." ++ site.method ++ ")"

def ConfigCause.message : ConfigCause → String
  | badDocument format => "invalid " ++ format ++ " document: it cannot be read"
  | unknownFormat format => "unsupported format: " ++ Text.quoted format
  | cannotReadConfig path failure =>
    "cannot read config file " ++ path.toText ++ ": " ++ failure.message
  | notTable => "config must be a table of settings"
  | notNatural key => "config " ++ key ++ " must be a non-negative integer"
  | badRange => "config range must be [low, high]"
  | badTextKind => "config text must be one of ascii, name, alphanumeric, emoji"
  | cannotReadIdentity path failure =>
    "cannot read identity file " ++ path ++ ": " ++ failure.message
  | badPem path => "invalid PEM identity " ++ path ++ ": no private key can be read"
  | unsupportedKey path =>
    "unsupported key type in " ++ path ++ ": only Ed25519 and secp256k1 are supported"
  | hardwareRecord => "hardware identity needs record \x7b slot_index = nat; key_id = text \x7d"
  | identitySource => "identity expects a PEM file path or a hardware key record"
  | noPin => "no HSM PIN given (set DFX_HSM_PIN)"
  | noHardware library =>
    "no hardware security module support is configured (library " ++ library ++ ")"
  | badMessage => "invalid message content: it is no signed call"
  | badMessageFile => "invalid messages file: it holds no messages"
  | noStatusRequest => "update message has no request_status to poll"
  | cannotWriteMessages path failure => "cannot write " ++ path.toText ++ ": " ++ failure.message

/-! ## All errors -/

inductive Error.Kind where
  | parseError | evalError | undefinedVariable | arityMismatch | selectorError | fieldNotFound
  | castError | assertionFailed | networkError | rejectError | callTimeout | interfaceError
  | configError
  deriving DecidableEq

def Error.Kind.name : Error.Kind → String
  | parseError => "ParseError" | evalError => "EvalError"
  | undefinedVariable => "UndefinedVariable" | arityMismatch => "ArityMismatch"
  | selectorError => "SelectorError" | fieldNotFound => "FieldNotFound"
  | castError => "CastError" | assertionFailed => "AssertionFailed"
  | networkError => "NetworkError" | rejectError => "RejectError"
  | callTimeout => "CallTimeout" | interfaceError => "InterfaceError"
  | configError => "ConfigError"

namespace Error

def kind : Error → Kind
  | parse _ => .parseError
  | eval _ | undecodableArguments .. => .evalError
  | undefinedVariable _ => .undefinedVariable
  | arity .. => .arityMismatch
  | selector _ => .selectorError
  | fieldNotFound .. => .fieldNotFound
  | cast _ => .castError
  | assertion .. => .assertionFailed
  | network .. => .networkError
  | reject .. => .rejectError
  | timeout .. => .callTimeout
  | badInterface _ | badService _ | unreadableInterface .. | unreadableImport ..
  | importWithoutBase _ => .interfaceError
  | config _ => .configError

def message : Error → String
  | parse e => e.message
  | eval cause => cause.message
  | undecodableArguments method cause =>
    "cannot decode the arguments of " ++ method ++ ": " ++ message cause
  | undefinedVariable name => "Undefined variable " ++ name
  | arity function takes got =>
    function ++ " expects " ++ takes.words ++ " argument(s), got " ++ toString got
  | selector cause => cause.message
  | fieldNotFound label v => "field " ++ label.toText ++ " not found in " ++ v.toBrief
  | cast cause => cause.message
  | assertion left op right =>
    "assertion failed: " ++ left.toText ++ " " ++ op ++ " " ++ right.toText
  | network cause site => CallSite.attach cause.message site
  | reject code text site =>
    CallSite.attach ("rejected with code " ++ code.plain ++ ": " ++ text.plain) site
  | timeout seconds site =>
    CallSite.attach ("no reply after " ++ seconds.toGeneral ++ "s") site
  | badInterface e => "invalid candid interface: " ++ e.message
  | badService cause => "invalid service definition: " ++ message cause
  | unreadableInterface path failure =>
    "cannot read interface file " ++ path.toText ++ ": " ++ failure.message
  | unreadableImport path failure =>
    "cannot read imported interface " ++ path.toText ++ ": " ++ failure.message
  | importWithoutBase path =>
    "cannot resolve import " ++ Text.quoted path ++ " without a base directory"
  | config cause => cause.message

def describe (e : Error) : String := e.kind.name ++ ": " ++ e.message

end Error

def Fault.message : Fault → String
  | badValue text => text
  | overflow => "number too large"
  | wrongType => "unexpected type"
  | missingKey => "missing key"
  | missingAttribute => "missing attribute"
  | notUtf8 => "bytes are not UTF-8"
  | insideLiteral => "a literal cannot be read"
  | outOfRange => "index out of range"
  | endOfInput => "the input has ended"
  | file failure => failure.message

/-- What a failure is called before its message, and the message. -/
def Failure.describe : Failure → String
  | error e => e.describe
  | fault f => "InternalError: " ++ f.message
  | exhausted => "InternalError: the computation does not end"

end CanisterShell
