import ConditionalForms.Text.Duration
import ConditionalForms.Text.Quoted

/-!
# Faults

Everything that can go wrong, as causes.  `Fault.message` is the one place where a cause gets its
wording.
-/

namespace ConditionalForms

/-- What is wrong at a place of a JSON text. -/
inductive JsonProblem where
  | byteOrderMark
  | expectingValue
  | expectingName
  | expectingColon
  | expectingComma
  | extraData
  | unterminatedString
  | controlCharacter
  | unknownEscape
  | malformedCodeEscape
deriving DecidableEq, Repr

namespace JsonProblem

/-- The wording of a problem. -/
def message : JsonProblem → String
  | .byteOrderMark => "Unexpected UTF-8 BOM (decode using utf-8-sig)"
  | .expectingValue => "Expecting value"
  | .expectingName => "Expecting property name enclosed in double quotes"
  | .expectingColon => "Expecting ':' delimiter"
  | .expectingComma => "Expecting ',' delimiter"
  | .extraData => "Extra data"
  | .unterminatedString => "Unterminated string starting at"
  | .controlCharacter => "Invalid control character at"
  | .unknownEscape => "Invalid \\escape"
  | .malformedCodeEscape => "Invalid \\uXXXX escape"

end JsonProblem

/-- A place in a text: line and column count from one, the offset from zero, all in characters. -/
structure Place where
  line : Nat
  column : Nat
  offset : Nat
deriving DecidableEq, Repr

/-- The closed vocabularies that names are read in. -/
inductive Vocabulary where
  | fieldKinds
  | operators
  | modes
deriving DecidableEq, Repr

namespace Vocabulary

/-- The word for a member of the vocabulary. -/
def memberWord : Vocabulary → String
  | .fieldKinds => "FieldType"
  | .operators => "ConditionOperator"
  | .modes => "ConditionMode"

end Vocabulary

/-- What an edit addresses. -/
inductive Subject where
  | form
  | step
  | field
deriving DecidableEq, Repr

namespace Subject

/-- The word for a subject. -/
def word : Subject → String
  | .form => "form"
  | .step => "step"
  | .field => "field"

end Subject

/-- The causes of failure. -/
inductive Fault where
  /-- An integer lies beyond the finite doubles. -/
  | integerBeyondDouble
  /-- An integer has more digits than may be written. -/
  | integerTooLongToWrite
  /-- An integer text has more digits than may be read. -/
  | integerTooLongToRead (digits : Nat)
  /-- A text of digits holds one that is no decimal digit. -/
  | notDecimal (text : String)
  /-- A name is not in its vocabulary. -/
  | unknownName (vocabulary : Vocabulary) (name : String)
  /-- A participant is addressed by a negative index. -/
  | participantOutOfRange (index : Int)
  /-- A document is not an object. -/
  | documentNotObject (found : String)
  /-- A member of a document is not a list. -/
  | memberNotList (member found : String)
  /-- A value is gone through item by item, and its kind has no items. -/
  | notIterable (found : String)
  /-- A document has none of the known shapes. -/
  | unknownShape
  /-- A text is not JSON. -/
  | malformedJson (problem : JsonProblem) (place : Place)
  /-- A text is not YAML. -/
  | malformedYaml
  /-- A text holds the code of no character. -/
  | noSuchCode
  /-- A text holds a code that takes more than 31 bits. -/
  | codeTooLarge
  /-- A time of day is a whole day or more away from universal time. -/
  | offsetOutOfRange (minutes : Int)
  /-- A date is none of the calendar, or its time none of the clock. -/
  | noSuchYear (year : Nat)
  | noSuchMonth
  | noSuchDay
  | noSuchHour
  | noSuchMinute
  | noSuchSecond
  /-- A number in a text has digits that its base does not have. -/
  | notInBase (base : Nat) (text : String)
  /-- An edit addresses a step that is not there. -/
  | noStep (index : Int)
  /-- An edit addresses a field that is not there. -/
  | noField (index : Int) (stepKey : String)
  /-- An edit changes attributes that its subject does not have. -/
  | unknownAttributes (subject : Subject) (names : List String)
deriving DecidableEq, Repr

namespace Fault

/-- The wording of a fault. -/
def message : Fault → String
  | .integerBeyondDouble => "int too large to convert to float"
  | .integerTooLongToWrite =>
      "Exceeds the limit (4300 digits) for integer string conversion; " ++
        "use sys.set_int_max_str_digits() to increase the limit"
  | .integerTooLongToRead digits =>
      "Exceeds the limit (4300 digits) for integer string conversion: value has " ++
        toString digits ++ " digits; use sys.set_int_max_str_digits() to increase the limit"
  | .notDecimal text =>
      "invalid literal for int() with base 10: " ++
        String.ofList ((Text.quote text).toList.take 200)
  | .unknownName vocabulary name =>
      Text.quote name ++ " is not a valid " ++ vocabulary.memberWord
  | .participantOutOfRange index => "Participant index out of range: " ++ toString index
  | .documentNotObject found => "Form payload must be an object, got " ++ found
  | .memberNotList member found => "'" ++ member ++ "' must be a list, got " ++ found
  | .notIterable found => "'" ++ found ++ "' object is not iterable"
  | .unknownShape => "Unrecognized form payload shape"
  | .malformedJson problem place =>
      "Invalid form JSON: " ++ problem.message ++ ": line " ++ toString place.line ++
        " column " ++ toString place.column ++ " (char " ++ toString place.offset ++ ")"
  | .malformedYaml => "Invalid form YAML"
  | .noSuchCode => "chr() arg not in range(0x110000)"
  | .codeTooLarge => "Python int too large to convert to C int"
  | .offsetOutOfRange minutes =>
      "offset must be a timedelta strictly between -timedelta(hours=24) and " ++
        "timedelta(hours=24), not " ++ Duration.literal minutes ++ "."
  | .noSuchYear year => "year " ++ toString year ++ " is out of range"
  | .noSuchMonth => "month must be in 1..12"
  | .noSuchDay => "day is out of range for month"
  | .noSuchHour => "hour must be in 0..23"
  | .noSuchMinute => "minute must be in 0..59"
  | .noSuchSecond => "second must be in 0..59"
  | .notInBase base text =>
      "invalid literal for int() with base " ++ toString base ++ ": " ++ Text.quote text
  | .noStep index => "No step at index " ++ toString index
  | .noField index stepKey =>
      "No field at index " ++ toString index ++ " in step '" ++ stepKey ++ "'"
  | .unknownAttributes subject names =>
      "Unknown " ++ subject.word ++ " attribute(s): " ++ String.intercalate ", " names

end Fault

end ConditionalForms
