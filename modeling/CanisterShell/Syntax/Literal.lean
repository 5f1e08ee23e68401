import CanisterShell.Error
import CanisterShell.Text.Classes

/-!
# Literals

The values of texts, byte strings and numbers as they are written.  Between quotes a backslash
begins an escape: a letter for a control character, two hexadecimal digits for a byte, or a scalar
value in braces; all else stands for its bytes in UTF-8.
-/

namespace CanisterShell.Literal

/-- A parse error without a place. -/
def refuse (cause : ParseCause) : Failure := .error (.parse ⟨cause, none, []⟩)

/-- The byte of an escape by letter. -/
def simpleEscape? (c : Char) : Option UInt8 :=
  if c = 'n' then some 10
  else if c = 'r' then some 13
  else if c = 't' then some 9
  else if c = '\\' then some 92
  else if c = '"' then some 34
  else if c = '\'' then some 39
  else none

/-- A hexadecimal digit, or an underscore between such. -/
def isHexOrUnderscore (c : Char) : Bool := (Bytes.hexValue? c).isSome || c = '_'

def hexNumber (digits : List Char) : Nat :=
  (digits.filterMap Bytes.hexValue?).foldl (fun n d => 16 * n + d) 0

/-- A number that is the code of a character. -/
def isScalar (n : Nat) : Bool := n ≤ 0x10FFFF && !(0xD800 ≤ n && n ≤ 0xDFFF)

/-- The digits between braces in front, if there are any and both braces. -/
def braced? : List Char → Option (List Char)
  | '\x7b' :: rest =>
    let digits := rest.takeWhile isHexOrUnderscore
    match digits, rest.drop digits.length with
    | _ :: _, '\x7d' :: _ => some digits
    | _, _ => none
  | _ => none

/-- The bytes of the characters between quotes; `body` is all of them, for messages. -/
def unescapeFrom (body : String) (cs : List Char) : Attempt Bytes :=
  match cs with
  | [] => .ok []
  | ['\\'] => .error (refuse .danglingEscape)
  | '\\' :: e :: rest =>
    match simpleEscape? e with
    | some b => do return b :: (← unescapeFrom body rest)
    | none =>
      if e = 'u' then
        match braced? rest with
        | none => .error (refuse (.badUnicodeEscape body))
        | some digits =>
          if digits.all (· = '_') then
            .error (.fault (.badValue "invalid literal for int() with base 16: ''"))
          else
            let code := hexNumber digits
            if isScalar code then do
              return String.utf8EncodeChar (Char.ofNat code)
                ++ (← unescapeFrom body (rest.drop (digits.length + 2)))
            else .error (refuse (.unicodeEscapeRange (String.ofList digits)))
      else
        match Bytes.hexValue? e, rest with
        | some hi, d :: rest' =>
          match Bytes.hexValue? d with
          | some lo => do return UInt8.ofNat (16 * hi + lo) :: (← unescapeFrom body rest')
          | none => .error (refuse (.unknownEscape e))
        | _, _ => .error (refuse (.unknownEscape e))
  | c :: rest => do return String.utf8EncodeChar c ++ (← unescapeFrom body rest)
termination_by cs.length
decreasing_by all_goals simp; try omega

/-- The bytes that the characters between quotes stand for. -/
def unescape (body : String) : Attempt Bytes := unescapeFrom body body.toList

/-- The characters between the quotes of a token. -/
def inner (token : String) : String := String.ofList (token.toList.drop 1).dropLast

def unquoteBytes (token : String) : Attempt Bytes := unescape (inner token)

/-- The text of a quoted token, whose bytes have to be UTF-8. -/
def unquoteText (token : String) : Attempt String := do
  match Utf8.decode? (← unquoteBytes token) with
  | some s => return s
  | none => throw (refuse (.textNotUtf8 token))

/-! ## Numbers -/

/-- The number of ASCII digits. -/
def digitNumber (digits : List Char) : Nat :=
  digits.foldl (fun n c => 10 * n + (c.toNat - 48)) 0

/-- A sign in front, and what follows it. -/
def splitSign : List Char → Bool × List Char
  | '-' :: rest => (true, rest)
  | '+' :: rest => (false, rest)
  | cs => (false, cs)

/-- A whole number with a sign. -/
def signed (negative : Bool) (n : Nat) : Int := if negative then -(n : Int) else n

/-- The floating-point number of digits with a point or an exponent, and of the names of the numbers
that are not finite. -/
def double? (text : List Char) : Option Double :=
  let (negative, cs) := splitSign text
  let lower := cs.map Char.toLower
  if lower = "inf".toList || lower = "infinity".toList then some (.infinity negative)
  else if lower = "nan".toList then
    some (if negative then ⟨0xFFF8000000000000, .unnumbered⟩ else .nanRead)
  else
    let whole := cs.takeWhile Char.isDigit
    let rest := cs.drop whole.length
    let (places, rest) := match rest with
      | '.' :: tail => (tail.takeWhile Char.isDigit, tail.dropWhile Char.isDigit)
      | _ => ([], rest)
    if whole.isEmpty && places.isEmpty then none
    else
      let value (e : Int) := Double.ofDecimal negative (digitNumber (whole ++ places))
        (e - places.length)
      match rest with
      | [] => some (value 0)
      | c :: tail =>
        let (down, digits) := splitSign tail
        if (c = 'e' || c = 'E') && !digits.isEmpty && digits.all Char.isDigit then
          some (value (signed down (digitNumber digits)))
        else none

/-- A decimal whole number with a sign. -/
def int? (text : List Char) : Option Int :=
  let (negative, digits) := splitSign text
  if !digits.isEmpty && digits.all Char.isDigit then some (signed negative (digitNumber digits))
  else none

/-- The value of a number, with an optional sign, underscores anywhere, and hexadecimal behind `0x`:
a point or an exponent makes it a floating-point number. -/
def number (text : String) : Attempt Candid.Value :=
  let compact := text.toList.filter (· ≠ '_')
  let (negative, digits) := splitSign compact
  match digits with
  | '0' :: x :: hex =>
    if x = 'x' || x = 'X' then
      if !hex.isEmpty && hex.all fun c => (Bytes.hexValue? c).isSome then
        .ok (.number (signed negative (hexNumber hex)))
      else
        let shown := String.ofList ((if negative then ['-'] else []) ++ hex)
        .error (.fault (.badValue
          ("invalid literal for int() with base 16: " ++ Text.quoted shown)))
    else decimal compact
  | _ => decimal compact
where
  /-- The value of a number without underscores that is not hexadecimal. -/
  decimal (cs : List Char) : Attempt Candid.Value :=
    if cs.any fun c => c = '.' || c = 'e' || c = 'E' then
      match double? cs with
      | some x => .ok (.float .float64 x)
      | none => .error (.fault (.badValue
          ("could not convert string to float: " ++ Text.quoted (String.ofList cs))))
    else match int? cs with
      | some n => .ok (.number n)
      | none => .error (.fault (.badValue
          ("invalid literal for int() with base 10: " ++ Text.quoted (String.ofList cs))))

end CanisterShell.Literal
