import CanisterShell.Candid.Value
import CanisterShell.Document.Datum
import CanisterShell.File.Disk
import CanisterShell.Text.Span

/-!
# Failures

What can go wrong, by cause.  An *error* is a failure that the language foresees: scripts can catch
it and it has a kind.  A *fault* is one that it does not foresee; it passes through everything that
catches errors.  Messages are put into words in `CanisterShell.Message`.

## Idealizations

The library describes a shell whose machine has no limits, and nothing fails for want of room:
* numbers have as many digits as it takes, read or written;
* evaluation, values, types and syntax nest as deep as it takes.  Where a recursion needs a bound to
  end, the bound lies beyond anything in reach (`mostDepth`) or is found from the input, and whatever
  does reach it is cut off as `exhausted`, as what would nest without end is.  So is what a bound of
  another kind stops: a trace with more pages than `Measurement.mostPages`, random numbers refused
  more often than `Random.Twister.mostTries`, and a call that costs what is no integer
  (`Cost.toValue`);
* texts are sequences of Unicode scalar values, none of which is a surrogate;
* the wall clock stands at one second for as long as a session lasts, and the expiries of what is
  signed follow from it (`Request.Expiries.ofSecond`) unless they are given.
-/

namespace CanisterShell

open Candid

/-! ## Errors of reading -/

/-- Why a source text is refused. -/
inductive ParseCause where
  | unterminatedComment
  | unsetVariable (name : String)
  | danglingEscape
  | badUnicodeEscape (body : String)
  | unicodeEscapeRange (digits : String)
  | unknownEscape (c : Char)
  | textNotUtf8 (token : String)
  | unexpectedToken (token : String)
  | unexpectedCharacter (c : Char)
  | unexpectedEnd
  | principal (fault : Principal.Fault)
  | badFieldId (token : String)
  | unlabelledTypeCase (t : Ty)
  | unlabelledCase
  | unknownMode (name : String)
  | repeatedParameter (function : String)
  | selectorNeedsFunction (selector : String)
  | unknownSelector (selector : String) (arguments : Nat)
  deriving Inhabited

/-- An error of reading: the cause, the place, and what could have stood there. -/
structure ParseError where
  cause : ParseCause
  span : Option Text.Span := none
  expected : List String := []
  deriving Inhabited

/-! ## Errors of evaluation -/

/-- How encoded bytes fail to be a message. -/
inductive Malformed where
  | ended
  | notUtf8
  | noMagic
  | unknownConstructor (code : Int)
  | indexRange (index : Int)
  | unknownCode (code : Int)
  | opaqueReference
  | opaqueFunction
  | emptyValue
  | badBool
  | variantIndex (index : Nat)
  | trailing
  deriving DecidableEq

/-- The number of arguments that a function takes. -/
inductive Arity where
  | exactly (n : Nat)
  | between (least most : Nat)
  | atLeast (n : Nat)
  deriving DecidableEq

/-- Why evaluation fails. -/
inductive EvalCause where
  | expectedFailure
  | unknownFunction (name : String)
  | decodeNeedsBlob
  | conditionNotBool (keyword : String)
  | needsPrincipal (builtin : String)
  | needsText (builtin : String)
  | needsBool (builtin : String)
  | needsNumbers (builtin : String) (got : Value)
  | tooLargeForFloat (builtin : String)
  | noText (value : Value)
  | badNonce
  | cannotRead (path : File.Path) (failure : File.Failure)
  | cannotWrite (path : File.Path) (failure : File.Failure)
  | gzipNeedsBlob
  | profilingArguments
  | profilingNames
  | notConnected
  | noInstrumenter
  | concatKinds
  | divisionByZero
  | repeatedTypeField (label : Label)
  | repeatedField (label : Label)
  | cyclicType (name : String)
  | unboundType (name : String)
  | notFunction (t : Ty)
  | notService (t : Ty)
  | notCanister (name : String)
  | interCanisterOnly (method : String)
  | noCanisterField (method : String)
  | tooManyArguments (args results : List Ty) (modes : List Mode)
  | negativeLength (n : Int)
  | malformed (how : Malformed)
  | undecodableType (t : Ty)
  | missingDecodedField (label : Label)
  | unknownDecodedCase (label : Label) (t : Ty)
  | tooFewResults (expected got : Nat)
  | traceUnderflow
  | traceMismatch
  | noValueOfEmpty
  | noValueOfEmptyVariant

/-- Why a value does not fit a type. -/
inductive CastCause where
  | range (n : Int) (kind : IntKind)
  | realRange (x : Double) (kind : IntKind)
  | notFinite (x : Double) (kind : IntKind)
  | notCastable (v : Value) (t : Ty)
  | unsupported (t : Ty)
  | blobNotUtf8
  | mismatch (v : Value) (t : Ty)
  | unexpectedField (label : Label) (t : Ty)
  | missingField (label : Label) (t : Ty)
  | unknownCase (label : Label) (t : Ty)
  | argumentCount (expected got : Nat)

/-- A selector, as messages name it. -/
inductive SelectorName where
  | index
  | field (label : Label)
  | unwrap
  | size
  | map (function : String)
  | filter (function : String)
  | fold (function : String)

/-- Why a selector fails. -/
inductive SelectorCause where
  | mismatch (selector : SelectorName) (v : Value)
  | indexNotNumber (v : Value)
  | labelNotKey (v : Value)
  | notText (v : Value)
  | notPair (v : Value)
  | unwrapNull
  | bounds (index : Int) (length : Nat)

/-! ## Errors of the network -/

/-- The call in the course of which a network error arose. -/
structure CallSite where
  canister : Principal
  method : String

/-- Why a replica cannot be talked to. -/
inductive NetworkCause where
  | noAgent
  | unreachable (url : String) (reason : String)
  | badStatus (code : Nat) (url : String) (preview : String)
  | badQueryResponse (response : Datum)
  | noCertificate
  | badCbor (detail : String)
  | noReply
  | replyGone
  | other (text : String)

/-! ## Errors of configuration -/

/-- Why a configuration, an identity or a message file is refused. -/
inductive ConfigCause where
  | badDocument (format : String)
  | unknownFormat (format : String)
  | cannotReadConfig (path : File.Path) (failure : File.Failure)
  | notTable
  | notNatural (key : String)
  | badRange
  | badTextKind
  | cannotReadIdentity (path : String) (failure : File.Failure)
  | badPem (path : String)
  | unsupportedKey (path : String)
  | hardwareRecord
  | identitySource
  | noPin
  | noHardware (library : String)
  | badMessage
  | badMessageFile
  | noStatusRequest
  | cannotWriteMessages (path : File.Path) (failure : File.Failure)

/-! ## Errors and faults -/

/-- A failure that the language foresees. -/
inductive Error where
  | parse (e : ParseError)
  | eval (cause : EvalCause)
  | undecodableArguments (method : String) (cause : Error)
  | undefinedVariable (name : String)
  | arity (function : String) (takes : Arity) (got : Nat)
  | selector (cause : SelectorCause)
  | fieldNotFound (label : Label) (v : Value)
  | cast (cause : CastCause)
  | assertion (left : Value) (op : String) (right : Value)
  | network (cause : NetworkCause) (site : Option CallSite)
  | reject (code message : Datum) (site : Option CallSite)
  | timeout (seconds : Double) (site : Option CallSite)
  | badInterface (e : ParseError)
  | badService (cause : Error)
  | unreadableInterface (path : File.Path) (failure : File.Failure)
  | unreadableImport (path : File.Path) (failure : File.Failure)
  | importWithoutBase (path : String)
  | config (cause : ConfigCause)

/-- A failure that the language does not foresee. -/
inductive Fault where
  | badValue (text : String)
  | overflow
  | wrongType
  | missingKey
  | missingAttribute
  | notUtf8
  | insideLiteral
  | outOfRange
  | endOfInput
  | file (failure : File.Failure)
  deriving DecidableEq

/-- How a computation ends without a result; `exhausted` is for one that was cut off, be it that it
nests too deep or that it goes on with something that is no value. -/
inductive Failure where
  | error (e : Error)
  | fault (f : Fault)
  | exhausted

/-- A computation that may fail. -/
abbrev Attempt (α : Type) := Except Failure α

namespace Failure

def eval (cause : EvalCause) : Failure := error (.eval cause)

def cast (cause : CastCause) : Failure := error (.cast cause)

def config (cause : ConfigCause) : Failure := error (.config cause)

/-- The error of bytes that are no message. -/
def malformed (how : Malformed) : Failure := eval (.malformed how)

end Failure

end CanisterShell
