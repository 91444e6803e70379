import DefiBackend.Common.BigNumber
import DefiBackend.Common.JsMap

/-! # Outputs of contract functions

`utils/multicall.ts`: what becomes of the outputs that web3 has decoded. Integers become big
numbers, several outputs become an object that has each under its name and under its position. -/

namespace DefiBackend

/-- A parameter of an ABI item. -/
structure AbiParameter where
  name : String
  type : String
  deriving DecidableEq

structure AbiItem where
  name : String
  inputs : List AbiParameter
  outputs : List AbiParameter
  deriving DecidableEq

/-- A value that web3 has decoded. A text is given with the number it stands for. -/
inductive AbiValue
  | undefined
  | text (s : String) (n : JsNumber)
  | flag (b : Bool)
  | array (items : List AbiValue)

/-- `new BigNumber(value)`. An array counts as the text of its items. -/
def AbiValue.toBigNumber : AbiValue → JsNumber
  | text _ n => n
  | array [item] => item.toBigNumber
  | undefined | flag _ | array [] | array (_ :: _ :: _) => .nan

/-- `abi.decodeParameters`: values by position and by name. -/
structure DecodedParameters where
  positions : List AbiValue
  names : String → Option AbiValue

/-- What `decodeOutput` makes of values. -/
inductive OutputData
  | bigNumber (n : JsNumber)
  | value (v : AbiValue)
  | array (items : List OutputData)
  | object (fields : List (String × OutputData))

/-- Whether a value counts as true. -/
def OutputData.truthy : OutputData → Bool
  | .value .undefined | .value (.flag false) => false
  | .value (.text s _) => s != ""
  | .value (.flag true) | .value (.array _) | .bigNumber _ | .array _ | .object _ => true

/-- `type.includes(part)`. -/
def includes (type part : String) : Bool := type.toList.tails.any part.toList.isPrefixOf

mutual
def toInternalDataType (type : String) : AbiValue → OutputData
  | .array items =>
    if includes type "[" then
      .array (toInternalDataTypes (String.ofList (type.toList.takeWhile (· ≠ '['))) items)
    else if includes type "int" then .bigNumber (AbiValue.array items).toBigNumber
    else .value (.array items)
  | value => if includes type "int" then .bigNumber value.toBigNumber else .value value

def toInternalDataTypes (type : String) : List AbiValue → List OutputData
  | [] => []
  | item :: items => toInternalDataType type item :: toInternalDataTypes type items
end

/-- `decodeOutput`. A single output has no name. -/
def decodeOutput (abi : AbiItem) (outputResult : DecodedParameters) : OutputData :=
  let position (idx : Nat) := outputResult.positions.getD idx .undefined
  match abi.outputs with
  | [output] => toInternalDataType output.type (position 0)
  | outputs =>
    .object <| outputs.zipIdx.foldl (fun (decoded : JsMap String OutputData) (o, idx) =>
      (decoded.set o.name (toInternalDataType o.type ((outputResult.names o.name).getD .undefined))).set
        (toString idx) (toInternalDataType o.type (position idx))) []

end DefiBackend
