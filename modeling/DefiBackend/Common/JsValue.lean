import Mathlib.Data.List.Basic

/-! # Dynamic values

The values that metadata and contract results hold: `JSON.stringify`, assignment to a property of an
object, and the conversions that contexts are formatted with. An object is its fields in their
order. Numbers are integers, as all those in contexts are, or `NaN`. -/

namespace DefiBackend

inductive JsValue
  | undefined
  | null
  | bool (b : Bool)
  | num (n : Int)
  | nan
  | str (s : String)
  | arr (items : List JsValue)
  | obj (fields : List (String × JsValue))

abbrev JsObject := List (String × JsValue)

namespace JsObject

/-- `object[name]`. -/
def get (o : JsObject) (name : String) : JsValue := (o.lookup name).getD .undefined

/-- `object[name] = value`: a field keeps its place, a new one comes last. -/
def assign : JsObject → String → JsValue → JsObject
  | [], name, value => [(name, value)]
  | field :: fields, name, value =>
    if field.1 = name then (name, value) :: fields else field :: assign fields name value

theorem get_cons (field : String × JsValue) (o : JsObject) (name : String) :
    get (field :: o) name = if field.1 = name then field.2 else get o name := by
  rw [get, List.lookup_cons]
  by_cases h : field.1 = name
  · rw [if_pos h, h, beq_self_eq_true]
    rfl
  · rw [if_neg h, beq_false_of_ne (Ne.symm h)]
    rfl

theorem get_assign (o : JsObject) (name : String) (value : JsValue) (name' : String) :
    (o.assign name value).get name' = if name = name' then value else o.get name' := by
  induction o with
  | nil => rw [assign, get_cons]
  | cons field o ih =>
    rw [assign]
    split
    · next h =>
      rw [get_cons, get_cons, h]
      split <;> rfl
    · next h =>
      rw [get_cons, get_cons, ih]
      by_cases hname : name = name'
      · rw [if_pos hname, if_neg fun h' => h (h'.trans hname.symm), if_pos hname]
      · rw [if_neg hname, if_neg hname]

/-- Assigning what is there. -/
theorem assign_get {o : JsObject} {name : String} (h : o.get name ≠ .undefined) :
    o.assign name (o.get name) = o := by
  induction o with
  | nil => exact absurd rfl h
  | cons field o ih =>
    rw [get_cons] at h ⊢
    rw [assign]
    by_cases hname : field.1 = name
    · rw [if_pos hname, if_pos hname]
      exact congrArg (· :: o) (Prod.ext hname.symm rfl)
    · rw [if_neg hname] at h ⊢
      rw [if_neg hname, ih h]

/-- Assignments in order. -/
def assignAll (o : JsObject) (fields : List (String × JsValue)) : JsObject :=
  fields.foldl (fun o field => assign o field.1 field.2) o

end JsObject

namespace JsValue

/-- A string in quotes, escaped. -/
def quote (s : String) : String :=
  let escape (c : Char) : List Char :=
    if c = '"' ∨ c = '\\' then ['\\', c]
    else if c = '\n' then ['\\', 'n']
    else if c = '\r' then ['\\', 'r']
    else if c = '\t' then ['\\', 't']
    else [c]
  "\"" ++ String.ofList (s.toList.flatMap escape) ++ "\""

mutual
/-- `JSON.stringify`. Fields that are undefined are left out, items print as null. -/
def stringify : JsValue → Option String
  | undefined => none
  | null | nan => some "null"
  | bool b => some (if b then "true" else "false")
  | num n => some (toString n)
  | str s => some (quote s)
  | arr items => some ("[" ++ ",".intercalate (stringifyItems items) ++ "]")
  | obj fields => some ("\x7b" ++ ",".intercalate (stringifyFields fields) ++ "\x7d")

def stringifyItems : List JsValue → List String
  | [] => []
  | item :: items => (stringify item).getD "null" :: stringifyItems items

def stringifyField : String × JsValue → Option String
  | (name, value) => (stringify value).map (quote name ++ ":" ++ ·)

def stringifyFields : List (String × JsValue) → List String
  | [] => []
  | field :: fields =>
    match stringifyField field with
    | some text => text :: stringifyFields fields
    | none => stringifyFields fields
end

/-- Whether a value counts as true. -/
def truthy : JsValue → Bool
  | undefined | null | nan => false
  | bool b => b
  | num n => n != 0
  | str s => s != ""
  | arr _ | obj _ => true

mutual
/-- `String(value)`. -/
def toText : JsValue → String
  | undefined => "undefined"
  | null => "null"
  | nan => "NaN"
  | bool b => if b then "true" else "false"
  | num n => toString n
  | str s => s
  | arr items => ",".intercalate (toTextItems items)
  | obj _ => "[object Object]"

def toTextItems : List JsValue → List String
  | [] => []
  | undefined :: items | null :: items => "" :: toTextItems items
  | item :: items => toText item :: toTextItems items
end

/-- `parseInt(value, 10)`: leading space, a sign and as many digits as there are. -/
def parseInt (value : JsValue) : JsValue :=
  let read (neg : Bool) (text : List Char) : JsValue :=
    match text.takeWhile Char.isDigit with
    | [] => nan
    | digits =>
      let n := digits.foldl (fun n c => 10 * n + (c.toNat - '0'.toNat)) 0
      num (if neg then -n else n)
  match (toText value).toList.dropWhile Char.isWhitespace with
  | '-' :: text => read true text
  | '+' :: text => read false text
  | text => read false text

/-- `value.toLowerCase()`, which only strings have. -/
def toLowerCase : JsValue → Option JsValue
  | str s => some (str (String.ofList (s.toList.map Char.toLower)))
  | _ => none

/-! ## Quoted texts -/

/-- What a character of a quoted text is written as. -/
def escapeChar (c : Char) : List Char :=
  if c = '"' ∨ c = '\\' then ['\\', c]
  else if c = '\n' then ['\\', 'n']
  else if c = '\r' then ['\\', 'r']
  else if c = '\t' then ['\\', 't']
  else [c]

theorem quote_eq (s : String) :
    quote s = "\"" ++ String.ofList (s.toList.flatMap escapeChar) ++ "\"" := rfl

theorem escapeChar_cases (c : Char) :
    (c ≠ '"' ∧ escapeChar c = [c]) ∨ ∃ d, escapeChar c = ['\\', d] := by
  rw [escapeChar]
  split
  · exact .inr ⟨_, rfl⟩
  · next h =>
    split
    · exact .inr ⟨_, rfl⟩
    split
    · exact .inr ⟨_, rfl⟩
    split
    · exact .inr ⟨_, rfl⟩
    · exact .inl ⟨fun hc => h (.inl hc), rfl⟩

theorem escapeChar_append_inj {c d : Char} {s t : List Char}
    (h : escapeChar c ++ s = escapeChar d ++ t) : c = d ∧ s = t := by
  unfold escapeChar at h
  grind

/-- Texts that are written alike are the same. -/
theorem flatMap_escapeChar_inj {s t : List Char} (h : s.flatMap escapeChar = t.flatMap escapeChar) :
    s = t := by
  have hne : ∀ c (l : List Char), escapeChar c ++ l ≠ [] := by
    intro c l hnil
    rcases escapeChar_cases c with ⟨-, hc⟩ | ⟨_, hc⟩ <;> simp [hc] at hnil
  induction s generalizing t with
  | nil =>
    cases t with
    | nil => rfl
    | cons d t => exact absurd h.symm (hne d _)
  | cons c s ih =>
    cases t with
    | nil => exact absurd h (hne c _)
    | cons d t =>
      obtain ⟨rfl, htail⟩ := escapeChar_append_inj h
      rw [ih htail]

theorem flatMap_escapeChar_ne_quote (s z : List Char) : s.flatMap escapeChar ≠ '"' :: z := by
  intro h
  cases s with
  | nil => cases h
  | cons c s =>
    rw [List.flatMap_cons] at h
    rcases escapeChar_cases c with ⟨hquote, hc⟩ | ⟨d, hc⟩
    · rw [hc] at h
      exact hquote (List.cons.inj h).1
    · rw [hc] at h
      have hback : '\\' = '"' := (List.cons.inj h).1
      exact absurd hback (by decide)

/-- No quote inside comes after a bracket. -/
theorem flatMap_escapeChar_ne (s y z : List Char) :
    s.flatMap escapeChar ≠ y ++ '[' :: '"' :: z := by
  induction s generalizing y with
  | nil => simp
  | cons c s ih =>
    intro h
    rw [List.flatMap_cons] at h
    rcases escapeChar_cases c with ⟨-, hc⟩ | ⟨d, hc⟩
    · rw [hc] at h
      cases y with
      | nil => exact flatMap_escapeChar_ne_quote s z (List.cons.inj h).2
      | cons _ y => exact ih y (List.cons.inj h).2
    · rw [hc] at h
      rcases y with _ | ⟨_, _ | ⟨_, y⟩⟩
      · have hback : '\\' = '[' := (List.cons.inj h).1
        exact absurd hback (by decide)
      · exact flatMap_escapeChar_ne_quote s z (List.cons.inj (List.cons.inj h).2).2
      · exact ih y (List.cons.inj (List.cons.inj h).2).2

/-- A text is told apart from what stands before the array that has it as its item. -/
theorem append_quote_inj {p p' s s' : List Char}
    (h : p ++ '[' :: '"' :: s.flatMap escapeChar = p' ++ '[' :: '"' :: s'.flatMap escapeChar) :
    p = p' ∧ s = s' := by
  have hsame : ∀ (y t t' : List Char), '[' :: '"' :: t.flatMap escapeChar =
      y ++ '[' :: '"' :: t'.flatMap escapeChar → y = [] ∧ t = t' := by
    intro y t t' h
    rcases y with _ | ⟨_, _ | ⟨_, y⟩⟩
    · exact ⟨rfl, flatMap_escapeChar_inj (List.cons.inj (List.cons.inj h).2).2⟩
    · have hbracket : '"' = '[' := (List.cons.inj (List.cons.inj h).2).1
      exact absurd hbracket (by decide)
    · exact absurd (List.cons.inj (List.cons.inj h).2).2 (flatMap_escapeChar_ne t y _)
  rcases List.append_eq_append_iff.mp h with ⟨y, rfl, hy⟩ | ⟨y, rfl, hy⟩
  · obtain ⟨rfl, rfl⟩ := hsame y s s' hy
    exact ⟨(List.append_nil p).symm, rfl⟩
  · obtain ⟨rfl, rfl⟩ := hsame y s' s hy
    exact ⟨List.append_nil p', rfl⟩

end JsValue
end DefiBackend
