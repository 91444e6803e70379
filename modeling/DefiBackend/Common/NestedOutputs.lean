import Mathlib.Data.List.Infix
import DefiBackend.Common.AbiDecoding
import DefiBackend.Common.CacheKey

/-! # Outputs that are arrays of integers

`toInternalDataType` peels a dimension of the type for a nesting level of the value, `decodeOutput`
stores what it gives for each output.

* `toInternalDataType_elementwise`: in one dimension the integers become big numbers in place;
* `decodeOutput_spec`: one output is returned itself, several are stored under their positions and
  their names.

The values come as `abi.decodeParameters` of web3 gives them. -/

namespace DefiBackend

/-- An integer type in any number of array dimensions. -/
inductive IntegerType
  | base (signed : Bool) (bits : Nat)
  | array (element : IntegerType) (size : Option Nat)

namespace IntegerType

/-- How the ABI writes a type. -/
def text : IntegerType → String
  | .base signed bits => (if signed then "int" else "uint") ++ toString bits
  | .array element size => element.text ++ ("[" ++ size.elim "" toString ++ "]")

def dimensions : IntegerType → Nat
  | .base .. => 0
  | .array element _ => element.dimensions + 1

/-- The values of a type: texts of integers, nested as the type is. -/
def OfType : IntegerType → AbiValue → Prop
  | .base .., value => ∃ s n, value = .text s n
  | .array element size, value => ∃ items, value = .array items ∧
      (∀ n ∈ size, items.length = n) ∧ ∀ item ∈ items, element.OfType item

end IntegerType

mutual

/-- Every integer as its big number, in the same nesting. -/
def elementwise : AbiValue → OutputData
  | .text _ n => .bigNumber n
  | .array items => .array (elementwises items)
  | value => .value value

def elementwises : List AbiValue → List OutputData
  | [] => []
  | item :: items => elementwise item :: elementwises items

end

/-- An output of a function, of any type, with its value. -/
structure TypedOutput where
  name : String
  type : String
  value : AbiValue

/-- The outputs of a function: names are identifiers, each given once. An output may have no name.
An object's `__proto__` is no name to store under. -/
structure TypedOutputs where
  outputs : List TypedOutput
  identifiers : ∀ o ∈ outputs,
    o.name.toList.head?.any Char.isDigit = false ∧ o.name ≠ "__proto__"
  distinct : outputs.Pairwise fun o o' => o.name ≠ "" → o.name ≠ o'.name

def TypedOutput.parameter (o : TypedOutput) : AbiParameter := ⟨o.name, o.type⟩

/-- The last output with a name gives its value. -/
def TypedOutputs.decodeParameters (os : TypedOutputs) : DecodedParameters where
  positions := os.outputs.map (·.value)
  names name :=
    if name = "" then none
    else (JsMap.lastWith TypedOutput.name os.outputs name).map (·.value)

def TypedOutputs.item (os : TypedOutputs) (name : String) : AbiItem :=
  { name, inputs := [], outputs := os.outputs.map TypedOutput.parameter }

/-! ## Types as texts -/

theorem includes_iff {type part : String} :
    includes type part = true ↔ part.toList <:+: type.toList := by
  unfold includes
  rw [List.any_eq_true, List.infix_iff_prefix_suffix]
  simp only [List.mem_tails, List.isPrefixOf_iff_prefix, and_comm]

namespace IntegerType

theorem includes_int (type : IntegerType) : includes type.text "int" = true := by
  rw [includes_iff]
  induction type with
  | base signed bits =>
    rw [text, String.toList_append]
    cases signed with
    | true => exact ⟨[], _, rfl⟩
    | false => exact ⟨['u'], _, rfl⟩
  | array element size ih =>
    rw [text, String.toList_append]
    exact ih.trans (List.infix_append_left ..)

theorem not_mem_base (signed : Bool) (bits : Nat) : '[' ∉ (base signed bits).text.toList := by
  rw [text, String.toList_append, List.mem_append]
  rintro (h | h)
  · cases signed with
    | true => exact absurd h (by decide)
    | false => exact absurd h (by decide)
  · rw [Nat.toString_eq_ofList_toDigits, String.toList_ofList] at h
    exact absurd (Nat.isDigit_of_mem_toDigits (by decide) (by decide) h) (by decide)

theorem toList_array (element : IntegerType) (size : Option Nat) :
    (array element size).text.toList =
      element.text.toList ++ '[' :: ((size.elim "" toString).toList ++ [']']) := by
  rw [text, String.toList_append, String.toList_append, String.toList_append]
  rfl

theorem includes_bracket (element : IntegerType) (size : Option Nat) :
    includes (array element size).text "[" = true := by
  rw [includes_iff, toList_array]
  exact ⟨_, _, (List.append_assoc ..).trans rfl⟩

/-- What `split` leaves of a one-dimensional type. -/
theorem takeWhile_base (signed : Bool) (bits : Nat) (size : Option Nat) :
    (array (base signed bits) size).text.toList.takeWhile (· ≠ '[') =
      (base signed bits).text.toList := by
  have hall : ∀ c ∈ (base signed bits).text.toList, decide (c ≠ '[') = true := by
    intro c hc
    apply decide_eq_true
    rintro rfl
    exact not_mem_base signed bits hc
  rw [toList_array, List.takeWhile_append_of_pos hall, List.takeWhile_cons_of_neg (by decide),
    List.append_nil]

theorem ofType_array {element : IntegerType} {items : List AbiValue}
    (h : ∀ item ∈ items, element.OfType item) : (array element none).OfType (.array items) :=
  ⟨items, rfl, fun _ hn => (nomatch hn), h⟩

end IntegerType

theorem toInternalDataTypes_eq_map (type : String) (items : List AbiValue) :
    toInternalDataTypes type items = items.map (toInternalDataType type) := by
  induction items with
  | nil => rw [toInternalDataTypes, List.map_nil]
  | cons item items ih => rw [toInternalDataTypes, ih, List.map_cons]

theorem elementwises_eq_map (items : List AbiValue) :
    elementwises items = items.map elementwise := by
  induction items with
  | nil => rw [elementwises, List.map_nil]
  | cons item items ih => rw [elementwises, ih, List.map_cons]

theorem toInternalDataType_base (signed : Bool) (bits : Nat) {value : AbiValue}
    (h : (IntegerType.base signed bits).OfType value) :
    toInternalDataType (IntegerType.base signed bits).text value = elementwise value := by
  obtain ⟨s, n, rfl⟩ := h
  rw [toInternalDataType, if_pos (IntegerType.includes_int _), elementwise, AbiValue.toBigNumber]
  exact fun _ h => nomatch h

/-- In one dimension, and of an empty array, the integers become big numbers in place. -/
theorem toInternalDataType_elementwise {type : IntegerType} {value : AbiValue}
    (h : type.OfType value) (hplain : type.dimensions ≤ 1 ∨ value = .array []) :
    toInternalDataType type.text value = elementwise value := by
  cases type with
  | base signed bits => exact toInternalDataType_base signed bits h
  | array element size =>
    obtain ⟨items, rfl, -, hitems⟩ := h
    rw [toInternalDataType, if_pos (IntegerType.includes_bracket element size), elementwise,
      toInternalDataTypes_eq_map, elementwises_eq_map]
    apply congrArg
    apply List.map_congr_left
    intro item hitem
    rcases hplain with hdimensions | hempty
    · cases element with
      | base signed bits =>
        rw [IntegerType.takeWhile_base, String.ofList_toList]
        exact toInternalDataType_base signed bits (hitems item hitem)
      | array element size' =>
        simp only [IntegerType.dimensions] at hdimensions
        omega
    · cases hempty
      cases hitem

/-! ## Storing -/

namespace TypedOutputs
variable (os : TypedOutputs)

theorem name_ne {i j : Nat} {o o' : TypedOutput} (ho : os.outputs[i]? = some o)
    (ho' : os.outputs[j]? = some o') (hne : i ≠ j) (hname : o.name ≠ "") : o'.name ≠ o.name := by
  have hdistinct := List.pairwise_iff_getElem.mp os.distinct
  obtain ⟨hi, rfl⟩ := List.getElem?_eq_some_iff.mp ho
  obtain ⟨hj, rfl⟩ := List.getElem?_eq_some_iff.mp ho'
  intro hsame
  rcases Nat.lt_or_gt_of_ne hne with hlt | hlt
  · exact hdistinct i j hi hj hlt hname hsame.symm
  · exact hdistinct j i hj hi hlt (hsame ▸ hname) hsame

theorem name_ne_toString {o : TypedOutput} (ho : o ∈ os.outputs) (n : Nat) :
    o.name ≠ toString n := by
  intro h
  obtain ⟨hdigit, -⟩ := os.identifiers o ho
  rw [h, Nat.toString_eq_ofList_toDigits, String.toList_ofList] at hdigit
  obtain ⟨c, cs, hcs⟩ := List.exists_cons_of_ne_nil (Nat.toDigits_ne_nil (n := n) (b := 10))
  have hc : c.isDigit = true := by
    apply Nat.isDigit_of_mem_toDigits (b := 10) (n := n) (by decide) (by decide)
    rw [hcs]
    exact List.mem_cons_self ..
  rw [hcs, List.head?_cons, Option.any_some, hc] at hdigit
  cases hdigit

theorem names_name {o : TypedOutput} (ho : o ∈ os.outputs) (hname : o.name ≠ "") :
    os.decodeParameters.names o.name = some o.value := by
  obtain ⟨o', ho'⟩ := JsMap.exists_lastWith TypedOutput.name ho
  obtain ⟨hsame, hmem⟩ := JsMap.lastWith_eq_some ho'
  have heq : o' = o := by
    obtain ⟨i, hi⟩ := List.mem_iff_getElem?.mp ho
    obtain ⟨j, hj⟩ := List.mem_iff_getElem?.mp hmem
    rcases eq_or_ne i j with rfl | hne
    · exact Option.some.inj (hj.symm.trans hi)
    · exact absurd hsame (os.name_ne hi hj hne hname)
  show (if o.name = "" then none else (JsMap.lastWith TypedOutput.name os.outputs o.name).map _) = _
  rw [if_neg hname, ho', heq]
  rfl

/-- What `decodeOutput` stores for an output. -/
def entries (e : TypedOutput × Nat) : List (String × OutputData) :=
  [(e.1.name,
      toInternalDataType e.1.type ((os.decodeParameters.names e.1.name).getD .undefined)),
    (toString e.2,
      toInternalDataType e.1.type (os.decodeParameters.positions.getD e.2 .undefined))]

theorem decodeOutput_single (name : String) {o : TypedOutput} (h : os.outputs = [o]) :
    decodeOutput (os.item name) os.decodeParameters = toInternalDataType o.type o.value := by
  unfold decodeOutput item decodeParameters
  rw [h]
  rfl

theorem decodeOutput_several (name : String) (h : os.outputs.length ≠ 1) :
    decodeOutput (os.item name) os.decodeParameters =
      .object (JsMap.ofEntries (os.outputs.zipIdx.flatMap os.entries)) := by
  have hfold : JsMap.ofEntries (os.outputs.zipIdx.flatMap os.entries) =
      (os.item name).outputs.zipIdx.foldl (fun (decoded : JsMap String OutputData) e =>
        (decoded.set e.1.name (toInternalDataType e.1.type
          ((os.decodeParameters.names e.1.name).getD .undefined))).set
          (toString e.2) (toInternalDataType e.1.type
            (os.decodeParameters.positions.getD e.2 .undefined))) [] := by
    unfold item
    rw [JsMap.ofEntries, List.foldl_flatMap, List.zipIdx_map, List.foldl_map]
    rfl
  have hlength : (os.item name).outputs.length ≠ 1 := by
    unfold item
    rwa [List.length_map]
  unfold decodeOutput
  split
  · next output houtput =>
    rw [houtput] at hlength
    exact absurd rfl hlength
  · rw [hfold]

theorem lastWith_idx {idx : Nat} {o : TypedOutput} (ho : os.outputs[idx]? = some o) :
    JsMap.lastWith Prod.snd os.outputs.zipIdx idx = some (o, idx) := by
  have hmem : (o, idx) ∈ os.outputs.zipIdx := List.mk_mem_zipIdx_iff_getElem?.mpr ho
  obtain ⟨⟨o', idx'⟩, hlast⟩ := JsMap.exists_lastWith Prod.snd hmem
  obtain ⟨rfl, hmem'⟩ := JsMap.lastWith_eq_some hlast
  have ho' := List.mk_mem_zipIdx_iff_getElem?.mp hmem'
  obtain rfl := Option.some.inj (ho'.symm.trans ho)
  exact hlast

/-- Each of several outputs is stored under its position and, if it has one, its name. -/
theorem get_entries {idx : Nat} {o : TypedOutput} (ho : os.outputs[idx]? = some o) :
    (JsMap.ofEntries (os.outputs.zipIdx.flatMap os.entries)).get (toString idx) =
        some (toInternalDataType o.type o.value) ∧
      (o.name ≠ "" → (JsMap.ofEntries (os.outputs.zipIdx.flatMap os.entries)).get o.name =
        some (toInternalDataType o.type o.value)) := by
  have hmem : o ∈ os.outputs := List.mem_of_getElem? ho
  have hposition : os.decodeParameters.positions.getD idx .undefined = o.value := by
    unfold decodeParameters
    rw [List.getD_eq_getElem?_getD, List.getElem?_map, ho]
    rfl
  constructor
  · apply JsMap.get_ofEntries_flatMap (os.lastWith_idx ho)
    · unfold entries
      rw [hposition]
      exact List.mem_cons_of_mem _ (List.mem_singleton_self _)
    · intro e he hkey
      rcases List.mem_pair.mp he with rfl | rfl
      · exact absurd hkey (os.name_ne_toString hmem idx)
      · exact congrArg _ hposition
    · rintro ⟨o', idx'⟩ hb hne e he
      have ho' := List.mk_mem_zipIdx_iff_getElem?.mp hb
      rcases List.mem_pair.mp he with rfl | rfl
      · exact os.name_ne_toString (List.mem_of_getElem? ho') idx
      · intro hkey
        apply hne
        rw [Nat.toString_eq_ofList_toDigits, Nat.toString_eq_ofList_toDigits] at hkey
        exact toDigits_inj (String.ofList_inj.mp hkey)
  · intro hname
    have hvalue : (os.decodeParameters.names o.name).getD .undefined = o.value := by
      rw [os.names_name hmem hname]
      rfl
    apply JsMap.get_ofEntries_flatMap (os.lastWith_idx ho)
    · unfold entries
      rw [hvalue]
      exact List.mem_cons_self ..
    · intro e he hkey
      rcases List.mem_pair.mp he with rfl | rfl
      · exact congrArg _ hvalue
      · exact absurd hkey.symm (os.name_ne_toString hmem idx)
    · rintro ⟨o', idx'⟩ hb hne e he
      have ho' := List.mk_mem_zipIdx_iff_getElem?.mp hb
      rcases List.mem_pair.mp he with rfl | rfl
      · exact os.name_ne ho ho' hne.symm hname
      · exact (os.name_ne_toString hmem idx').symm

end TypedOutputs

/-- Integers in one dimension become big numbers in place. A single output is returned itself, each
of several is stored under its position and, if it has one, its name. -/
theorem outputs_decoded :
    (∀ (type : IntegerType) (value : AbiValue), type.OfType value →
        type.dimensions ≤ 1 ∨ value = .array [] →
        toInternalDataType type.text value = elementwise value) ∧
      ∀ (os : TypedOutputs) (name : String),
        (∀ o : TypedOutput, os.outputs = [o] →
          decodeOutput (os.item name) os.decodeParameters =
            toInternalDataType o.type o.value) ∧
        (os.outputs.length ≠ 1 → ∃ fields : JsMap String OutputData,
          decodeOutput (os.item name) os.decodeParameters = .object fields ∧
            ∀ (idx : Nat) (o : TypedOutput), os.outputs[idx]? = some o →
              fields.get (toString idx) = some (toInternalDataType o.type o.value) ∧
                (o.name ≠ "" →
                  fields.get o.name = some (toInternalDataType o.type o.value))) := by
  refine ⟨fun _ _ => toInternalDataType_elementwise, fun os name => ⟨?_, ?_⟩⟩
  · intro o h
    exact os.decodeOutput_single name h
  · intro h
    exact ⟨_, os.decodeOutput_several name h, fun _ _ ho => os.get_entries ho⟩

/-! ## Two balances -/

/-- `uint256[]`. -/
def listType : IntegerType := .array (.base false 256) none

def twoBalances : AbiValue := .array [.text "1" (.finite 1), .text "2" (.finite 2)]

theorem twoBalances_ofType : listType.OfType twoBalances := by
  apply IntegerType.ofType_array
  intro item hitem
  rcases List.mem_pair.mp hitem with rfl | rfl
  · exact ⟨_, _, rfl⟩
  · exact ⟨_, _, rfl⟩

/-- An owner, the balances under a name, and balances without one. -/
def balancesOutputs : TypedOutputs where
  outputs := [⟨"owner", "address", .text "0x0000000000000000000000000000000000000000" 0⟩,
    ⟨"balances", listType.text, twoBalances⟩, ⟨"", listType.text, twoBalances⟩]
  identifiers := by decide
  distinct := by decide

theorem balances_decoded :
    ∃ fields : JsMap String OutputData,
      decodeOutput (balancesOutputs.item "get") balancesOutputs.decodeParameters =
          .object fields ∧
        fields.get "owner" =
            some (.value (.text "0x0000000000000000000000000000000000000000" 0)) ∧
          fields.get "balances" = some (elementwise twoBalances) ∧
            fields.get "2" = some (elementwise twoBalances) := by
  obtain ⟨hplain, hstored⟩ := outputs_decoded
  have hvalue := hplain listType twoBalances twoBalances_ofType (.inl (by decide))
  obtain ⟨fields, hfields, hget⟩ := (hstored balancesOutputs "get").2 (by decide)
  obtain ⟨-, howner⟩ := hget 0 _ rfl
  obtain ⟨-, hname⟩ := hget 1 _ rfl
  obtain ⟨hposition, -⟩ := hget 2 _ rfl
  rw [hvalue] at hname hposition
  have haddress : toInternalDataType "address"
      (.text "0x0000000000000000000000000000000000000000" 0) =
        .value (.text "0x0000000000000000000000000000000000000000" 0) := by
    rw [toInternalDataType, if_neg (by decide)]
    exact fun _ h => nomatch h
  exact ⟨fields, hfields, (howner (by decide)).trans (congrArg some haddress), hname (by decide),
    hposition⟩

/-! ## A matrix -/

/-- `uint256[][]`. -/
def matrixType : IntegerType := .array (.array (.base false 256) none) none

def oneByOne : AbiValue := .array [.array [.text "1" (.finite 1)]]

theorem oneByOne_ofType : matrixType.OfType oneByOne := by
  apply IntegerType.ofType_array
  intro row hrow
  obtain rfl := List.mem_singleton.mp hrow
  apply IntegerType.ofType_array
  intro item hitem
  obtain rfl := List.mem_singleton.mp hitem
  exact ⟨_, _, rfl⟩

def matrixOutput : TypedOutputs where
  outputs := [⟨"matrix", matrixType.text, oneByOne⟩]
  identifiers := by
    intro o ho
    obtain rfl := List.mem_singleton.mp ho
    decide
  distinct := List.pairwise_singleton ..

/-- The row becomes a big number, and the single output is not stored under its name. -/
theorem matrixOutput_not_decoded :
    matrixType.OfType oneByOne ∧
      toInternalDataType matrixType.text oneByOne ≠ elementwise oneByOne ∧
      ∀ fields : JsMap String OutputData,
        decodeOutput (matrixOutput.item "get") matrixOutput.decodeParameters ≠ .object fields := by
  have hdecoded : toInternalDataType matrixType.text oneByOne =
      .array [.bigNumber (.finite 1)] := by
    have hbase : String.ofList (matrixType.text.toList.takeWhile (· ≠ '[')) = "uint256" := by
      decide
    have hrow : toInternalDataType "uint256" (.array [.text "1" (.finite 1)]) =
        .bigNumber (.finite 1) := by
      rw [toInternalDataType, if_neg (by decide), if_pos (by decide)]
      rfl
    have hbracket : includes matrixType.text "[" = true := IntegerType.includes_bracket _ _
    rw [oneByOne, toInternalDataType, if_pos hbracket, hbase, toInternalDataTypes_eq_map,
      List.map_singleton, hrow]
  have helementwise : elementwise oneByOne = .array [.array [.bigNumber (.finite 1)]] := by
    simp [oneByOne, elementwise, elementwises]
  rw [hdecoded, helementwise]
  refine ⟨oneByOne_ofType, fun h => (nomatch h), ?_⟩
  intro fields h
  rw [matrixOutput.decodeOutput_single "get" rfl, hdecoded] at h
  cases h

end DefiBackend
