/-!
# Complaints about input

Data that comes from outside is checked before use. Each finding is a `Complaint`: what is wrong
(`Defect`) and where, as the path of field names and list positions that leads to it.
-/

namespace GuardClause

/-- One step into nested data. -/
inductive PathStep where
  | field (name : String)
  | item (position : Nat)
deriving DecidableEq, Repr

/-- What can be wrong with a value. -/
inductive Defect where
  | missing
  | notText
  /-- The value is of a shape that no integer can be read from. -/
  | notInteger
  /-- The value is a text that does not spell an integer. -/
  | unreadableInteger
  /-- The value is a number between two integers. -/
  | fractional
  /-- The value is an integer below zero. -/
  | negative
  /-- The value is none of the given choices. -/
  | noChoice (choices : List String)
  | unknownField
  | notRecord
  /-- The value is no record of a named type. -/
  | notOfType (type : String)
  | notList
  /-- The value is no table of names and values. -/
  | notTable
deriving DecidableEq, Repr

namespace Defect

def code : Defect → String
  | missing => "missing"
  | notText => "string_type"
  | notInteger => "int_type"
  | unreadableInteger => "int_parsing"
  | fractional => "int_from_float"
  | negative => "greater_than_equal"
  | noChoice _ => "enum"
  | unknownField => "extra_forbidden"
  | notRecord => "model_attributes_type"
  | notOfType _ => "model_type"
  | notList => "list_type"
  | notTable => "dict_type"

/-- Choices in quotes, the last one after "or". -/
def listChoices : List String → String
  | [] => ""
  | [a] => "'" ++ a ++ "'"
  | [a, b] => "'" ++ a ++ "' or '" ++ b ++ "'"
  | a :: rest => "'" ++ a ++ "', " ++ listChoices rest

def message : Defect → String
  | missing => "Field required"
  | notText => "Input should be a valid string"
  | notInteger => "Input should be a valid integer"
  | unreadableInteger =>
      "Input should be a valid integer, unable to parse string as an integer"
  | fractional => "Input should be a valid integer, got a number with a fractional part"
  | negative => "Input should be greater than or equal to 0"
  | noChoice choices => "Input should be " ++ listChoices choices
  | unknownField => "Extra inputs are not permitted"
  | notRecord => "Input should be a valid dictionary or object to extract fields from"
  | notOfType type => "Input should be a valid dictionary or instance of " ++ type
  | notList => "Input should be a valid list"
  | notTable => "Input should be a valid dictionary"

end Defect

/-- A defect and the path to it. -/
structure Complaint where
  path : List PathStep
  defect : Defect
deriving DecidableEq, Repr

/-- The complaint seen from one step further out. -/
def Complaint.under (step : PathStep) (c : Complaint) : Complaint :=
  { c with path := step :: c.path }

end GuardClause
