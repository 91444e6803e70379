import DefiBackend.Common.BigNumber

/-! # Results of contract calls

`multicall.handleInBatches` maps labels to calls whose outputs have been decoded. Reading what is
not there throws. -/

namespace DefiBackend

/-- What `decodeOutput` makes of an output: a big number for integers, a record for several
outputs, by name and by position, and other values as they are, texts with the number they stand
for. -/
inductive Datum
  | number (n : JsNumber)
  | text (s : String) (n : JsNumber)
  | flag (b : Bool)
  | record (fields : List (String × Datum))

/-- The outputs by label. -/
abbrev CallResults := String → Option Datum

/-- `TypeError`, for reading a property of what is undefined or calling what is no function. -/
def typeError : String := "TypeError"

namespace Datum

/-- `new BigNumber(datum.toString())`. -/
def toStringNumber : Datum → JsNumber
  | number n | text _ n => n
  | flag _ | record _ => .nan

/-- `Number(datum)`. -/
def toNumber : Datum → JsNumber
  | number n | text _ n => n
  | flag b => if b then 1 else 0
  | record _ => .nan

/-- A field with the methods of big numbers. -/
def bigNumber : Datum → Except String JsNumber
  | number n => .ok n
  | _ => .error typeError

def field (name : String) : Datum → Option Datum
  | record fields => fields.lookup name
  | _ => none

/-- A big number in a record. -/
def numberField (name : String) (datum : Datum) : Except String JsNumber :=
  match datum.field name with
  | some value => value.bigNumber
  | none => .error typeError

/-- `new BigNumber(datum[name].toString())`. -/
def toStringField (name : String) (datum : Datum) : Except String JsNumber :=
  match datum.field name with
  | some value => .ok value.toStringNumber
  | none => .error typeError

def truthy : Datum → Bool
  | number _ | record _ => true
  | text s _ => s != ""
  | flag b => b

end Datum

/-- `data.get(label).output.data`. -/
def CallResults.output (data : CallResults) (label : String) : Except String Datum :=
  match data label with
  | some datum => .ok datum
  | none => .error typeError

end DefiBackend
