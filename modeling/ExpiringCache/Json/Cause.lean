import ExpiringCache.Text.Quoted
import ExpiringCache.Text.Shortest

/-! Why a document is refused: it ends too early, it breaks the grammar, or it does not
hold the data that was asked for. Each cause has its wording. -/

namespace ExpiringCache.Json

/-- A value that was found where another was expected. -/
inductive Found where
  | null
  | boolean (b : Bool)
  | integer (n : Int)
  | float (x : Float)
  | text (s : String)
  | sequence
  | map
deriving Repr

def Found.description : Found → String
  | null => "null"
  | boolean b => "boolean `" ++ toString b ++ "`"
  | integer n => "integer `" ++ toString n ++ "`"
  | float x => "floating point `" ++ Text.floatText x ++ "`"
  | text s => "string " ++ Text.quoted s
  | sequence => "sequence"
  | map => "map"

inductive Bracket where
  | list
  | object
deriving DecidableEq, Repr

inductive Cause where
  | endInValue
  | endInString
  | endIn (b : Bracket)
  | expectedValue
  | expectedLiteral
  | expectedColon
  | expectedCommaOrEnd (b : Bracket)
  | keyNotString
  | trailingComma
  | trailingText
  | invalidNumber
  | numberOutOfRange
  | invalidEscape
  | controlCharacter
  | loneSurrogate
  | unpairedSurrogate
  | wrongType (found : Found) (expected : String)
  | wrongValue (found : Found) (expected : String)
  | wrongLength (length : Nat) (expected : String)
  | missingField (name : String)
  | duplicateField (name : String)
deriving Repr

/-- A text that ends too early, one that is no document, and a document that does not hold
the data. -/
inductive Category where
  | endOfText
  | grammar
  | data
deriving DecidableEq, Repr

def Category.label : Category → String
  | endOfText => "Eof"
  | grammar => "Syntax"
  | data => "Data"

namespace Cause

def category : Cause → Category
  | endInValue | endInString | endIn _ => .endOfText
  | wrongType .. | wrongValue .. | wrongLength .. | missingField _ | duplicateField _ => .data
  | _ => .grammar

def message : Cause → String
  | endInValue => "EOF while parsing a value"
  | endInString => "EOF while parsing a string"
  | endIn .list => "EOF while parsing a list"
  | endIn .object => "EOF while parsing an object"
  | expectedValue => "expected value"
  | expectedLiteral => "expected ident"
  | expectedColon => "expected `:`"
  | expectedCommaOrEnd .list => "expected `,` or `]`"
  | expectedCommaOrEnd .object => "expected `,` or `\x7d`"
  | keyNotString => "key must be a string"
  | trailingComma => "trailing comma"
  | trailingText => "trailing characters"
  | invalidNumber => "invalid number"
  | numberOutOfRange => "number out of range"
  | invalidEscape => "invalid escape"
  | controlCharacter => "control character (\\u0000-\\u001F) found while parsing a string"
  | loneSurrogate => "lone leading surrogate in hex escape"
  | unpairedSurrogate => "unexpected end of hex escape"
  | wrongType found expected => "invalid type: " ++ found.description ++ ", expected " ++ expected
  | wrongValue found expected =>
    "invalid value: " ++ found.description ++ ", expected " ++ expected
  | wrongLength length expected =>
    "invalid length " ++ toString length ++ ", expected " ++ expected
  | missingField name => "missing field `" ++ name ++ "`"
  | duplicateField name => "duplicate field `" ++ name ++ "`"

end Cause

end ExpiringCache.Json
