import DefiBackend.Common.HexText
import DefiBackend.Common.JsMap
import DefiBackend.Theory.Fuel

/-! # Object literals in the sources of Frax

`FraxStaking` reads the addresses of its contracts from an object literal. `formatObjectFromText`
goes over the fields of an object, `getField` reads a name or a value from an index on, and both
call each other for nested objects.

* `getField_word`, `getField_object`: what `getField` reads up to the mark behind it;
* `formatLoop_name`: the loop over the fields reads a name up to its colon;
* `formatLoop_spaces`: behind a nested object it takes other white space than blanks for a field,
  whose name is empty. -/

namespace DefiBackend
namespace Integration
namespace FraxObjects
open Theory

/-- The values that are read, and what stands in a field or a value before. An object's prototype is
not kept. -/
inductive Parsed
  | undefined
  | null
  | number (n : Nat)
  | text (s : String)
  | object (fields : List (String × Parsed))

abbrev Fields := JsMap String Parsed

structure Result where
  value : Parsed
  length : Nat

/-- What a call ends with. -/
inductive Outcome
  | returned (result : Result)
  | undefined
  | threw

def Parsed.truthy : Parsed → Bool
  | .undefined | .null => false
  | .number n => n != 0
  | .text s => s != ""
  | .object _ => true

/-- What follows a call whose result is read: reading from `undefined` throws. -/
def Outcome.read (next : Result → Option Outcome) : Outcome → Option Outcome
  | .returned result => next result
  | .undefined | .threw => some .threw

/-- What follows a call whose result is read by `?.`: without an index the loop ends. -/
def Outcome.readOptional (next : Result → Option Outcome) : Outcome → Option Outcome
  | .returned result => next result
  | .undefined => some .undefined
  | .threw => some .threw

/-- The name of the property `object[field]`: none where an object's own `toString` is called. -/
def propertyKey : Parsed → Option String
  | .undefined => some "undefined"
  | .null => some "null"
  | .number n => some (toString n)
  | .text s => some s
  | .object fields => if fields.any (·.1 = "toString") then none else some "[object Object]"

/-- `testObj[name] = value`: `__proto__` is no property. -/
def put (testObj : Fields) (name : String) (value : Parsed) : Fields :=
  if name = "__proto__" then testObj else testObj.set name value

/-- `testObj[field] = value`. -/
def setProperty (testObj : Fields) (field value : Parsed) : Option Fields :=
  (propertyKey field).map fun name => put testObj name value

/-- `Object.assign(testObj, fieldObj)` for what a call gave. -/
def assignResult (testObj : Fields) : Outcome → Option Fields
  | .returned result =>
    some ((put (put testObj "value" result.value) "length" (.number result.length)))
  | .undefined => some testObj
  | .threw => none

/-- `/['"]/`. -/
def isQuote (c : Char) : Bool := c = '\'' || c = '"'

/-- `/\w/`. -/
def isWord (c : Char) : Bool := c.isAlphanum || c = '_'

def getArrayObject (index : Nat) (array : List Char) : Outcome :=
  match (array.drop index).findIdx? (· = ']') with
  | none => .undefined
  | some n =>
    .returned ⟨.text (String.ofList ((array.drop index).take (n + 1))), index + n + 1⟩

section
variable (array : List Char)

mutual

/-- The loop of `formatObjectFromText` from an index on. -/
def formatLoop : Nat → Nat → Parsed → Parsed → Fields → Option Outcome
  | 0, _, _, _, _ => none
  | fuel + 1, i, field, value, testObj =>
    match array[i]? with
    | none => some .undefined
    | some c =>
      if c = ' ' ∨ isQuote c then formatLoop fuel (i + 1) field value testObj
      else if c = '}' then
        match if field.truthy then setProperty testObj field value else some testObj with
        | none => some .threw
        | some testObj => some (.returned ⟨.object testObj, i + 1⟩)
      else if c = ':' then
        (getField fuel i).bind fun result => result.read fun result =>
          formatLoop fuel result.length field result.value testObj
      else if c = ',' then
        match setProperty testObj field value with
        | none => some .threw
        | some testObj =>
          (getField fuel i).bind fun returnData => returnData.readOptional fun returnData =>
            formatLoop fuel returnData.length returnData.value value testObj
      else
        (if c = '{' then
          (formatLoop fuel (i + 1) .undefined .undefined []).map (assignResult testObj)
        else some (some testObj)).bind fun
          | none => some .threw
          | some testObj =>
            (getField fuel (i - 1)).bind fun returnData => returnData.read fun returnData =>
              formatLoop fuel returnData.length returnData.value value testObj

def getField : Nat → Nat → Option Outcome
  | 0, _ => none
  | fuel + 1, index =>
    if array.length ≤ index + 1 then some (.returned ⟨.null, index + 1⟩)
    else getFieldLoop fuel (index + 1) []

/-- The loop of `getField` from an index on. -/
def getFieldLoop : Nat → Nat → List Char → Option Outcome
  | 0, _, _ => none
  | fuel + 1, i, strArray =>
    match array[i]? with
    | none => some .undefined
    | some c =>
      if c = '[' ∧ strArray = [] then some (getArrayObject i array)
      else if isSpace c.toNat ∧ strArray ≠ [] ∧ array[i + 1]? = none then some .threw
      else if isSpace c.toNat ∧ strArray ≠ [] ∧ array[i + 1]?.any isWord then
        getFieldLoop fuel (i + 1) (strArray ++ [c])
      else if isSpace c.toNat ∨ isQuote c then getFieldLoop fuel (i + 1) strArray
      else if c = '{' then formatLoop fuel (i + 1) .undefined .undefined []
      else if c ∈ [',', ':', ';', '}'] then
        some (.returned ⟨.text (String.ofList strArray), i⟩)
      else getFieldLoop fuel (i + 1) (strArray ++ [c])

end

/-- `formatObjectFromText`. -/
def formatObjectFromText (fuel index : Nat) : Option Outcome :=
  formatLoop array fuel (index + 1) .undefined .undefined []

end

/-! ## Texts in the array -/

/-- A text stands in the array at an index. -/
def At (array : List Char) (i : Nat) (text : List Char) : Prop := text <+: array.drop i

section
variable {array : List Char} {i : Nat} {c : Char} {text text' : List Char}

theorem At.getElem? (h : At array i (c :: text)) : array[i]? = some c := by
  obtain ⟨rest, hrest⟩ := h
  rw [← List.head?_drop, ← hrest]
  rfl

theorem At.left (h : At array i (text ++ text')) : At array i text :=
  (List.prefix_append ..).trans h

theorem At.right (h : At array i (text ++ text')) : At array (i + text.length) text' := by
  obtain ⟨rest, hrest⟩ := h
  refine ⟨rest, ?_⟩
  rw [← List.drop_drop, ← hrest, List.append_assoc, List.drop_left]

theorem At.tail (h : At array i (c :: text)) : At array (i + 1) text :=
  At.right (show At array i ([c] ++ text) from h)

theorem At.head (h : At array i (c :: text)) : At array i [c] :=
  At.left (show At array i ([c] ++ text) from h)

/-- A text and the character behind it. -/
theorem At.stop (h : At array i (text ++ c :: text')) : At array i (text ++ [c]) := by
  rw [List.append_cons] at h
  exact h.left

theorem At.lt_length (h : At array i text) (hne : text ≠ []) : i < array.length := by
  obtain ⟨c, text, rfl⟩ := List.exists_cons_of_ne_nil hne
  obtain ⟨hi, -⟩ := List.getElem?_eq_some_iff.mp h.getElem?
  exact hi

end

/-- A character that ends what `getField` reads. -/
def isStop (c : Char) : Bool := c = ',' || c = ':' || c = ';' || c = '}'

/-- White space and quotes. -/
def isGap (c : Char) : Bool := isSpace c.toNat || isQuote c

/-- A character of a name or a leaf: neither white space nor a quote nor a mark of the format. -/
def isPlain (c : Char) : Bool := !isGap c && !isStop c && c != '{' && c != '['

section
variable {c : Char}

theorem code_of_isAlphanum (h : c.isAlphanum = true) :
    0x30 ≤ c.toNat ∧ c.toNat ≤ 0x39 ∨ 0x41 ≤ c.toNat ∧ c.toNat ≤ 0x5a ∨
      0x61 ≤ c.toNat ∧ c.toNat ≤ 0x7a := by
  rcases Bool.or_eq_true_iff.mp h with halpha | hdigit
  · rcases Bool.or_eq_true_iff.mp halpha with hupper | hlower
    · obtain ⟨hge, hle⟩ := of_decide_eq_true hupper
      have hge := UInt32.le_iff_toNat_le.mp hge
      have hle := UInt32.le_iff_toNat_le.mp hle
      exact .inr (.inl ⟨hge, hle⟩)
    · obtain ⟨hge, hle⟩ := Bool.and_eq_true_iff.mp hlower
      have hge := UInt32.le_iff_toNat_le.mp (of_decide_eq_true hge)
      have hle := UInt32.le_iff_toNat_le.mp (of_decide_eq_true hle)
      exact .inr (.inr ⟨hge, hle⟩)
  · obtain ⟨hge, hle⟩ := Bool.and_eq_true_iff.mp hdigit
    have hge := UInt32.le_iff_toNat_le.mp (of_decide_eq_true hge)
    have hle := UInt32.le_iff_toNat_le.mp (of_decide_eq_true hle)
    exact .inl ⟨hge, hle⟩

theorem code_of_isSpace {code : Nat} (h : isSpace code = true) : code ≤ 0x20 ∨ 0xa0 ≤ code := by
  simp only [isSpace, Bool.or_eq_true, Bool.and_eq_true, decide_eq_true_eq,
    List.contains_iff_mem, List.mem_cons, List.not_mem_nil, or_false] at h
  omega

theorem ne_of_isSpace (h : isSpace c.toNat = true) {d : Char} (hd : isSpace d.toNat = false) :
    c ≠ d := by
  rintro rfl
  rw [h] at hd
  cases hd

theorem isWord_of_isSpace (h : isSpace c.toNat = true) : isWord c = false := by
  apply Bool.eq_false_iff.mpr
  intro hword
  rcases Bool.or_eq_true_iff.mp hword with halnum | hunder
  · have hspace := code_of_isSpace h
    have hcode := code_of_isAlphanum halnum
    omega
  · exact ne_of_isSpace h (by decide) (of_decide_eq_true hunder)

theorem isStop_of_isSpace (h : isSpace c.toNat = true) : isStop c = false := by
  simp only [isStop, ne_of_isSpace h (d := ',') (by decide), ne_of_isSpace h (d := ':') (by decide),
    ne_of_isSpace h (d := ';') (by decide), ne_of_isSpace h (d := '}') (by decide), decide_false,
    Bool.or_false]

theorem isGap_of_isSpace (h : isSpace c.toNat = true) : isGap c = true := by
  rw [isGap, h, Bool.true_or]

theorem eq_of_isQuote (h : isQuote c = true) : c = '\'' ∨ c = '"' := by
  simpa only [isQuote, Bool.or_eq_true, decide_eq_true_eq] using h

theorem eq_of_isStop (h : isStop c = true) : c = ',' ∨ c = ':' ∨ c = ';' ∨ c = '}' := by
  simpa only [isStop, Bool.or_eq_true, decide_eq_true_eq, or_assoc] using h

/-- A gap and what ends a field are told apart, and from what starts an object or a word. -/
theorem isGap_spec (h : isGap c = true) :
    isStop c = false ∧ isWord c = false ∧ c ≠ '{' ∧ c ≠ '[' := by
  rcases Bool.or_eq_true_iff.mp h with hspace | hquote
  · exact ⟨isStop_of_isSpace hspace, isWord_of_isSpace hspace, ne_of_isSpace hspace (by decide),
      ne_of_isSpace hspace (by decide)⟩
  · rcases eq_of_isQuote hquote with rfl | rfl
    · decide
    · decide

theorem isStop_spec (h : isStop c = true) :
    isGap c = false ∧ isWord c = false ∧ c ≠ '{' ∧ c ≠ '[' := by
  rcases eq_of_isStop h with rfl | rfl | rfl | rfl
  all_goals decide

theorem isPlain_spec (h : isPlain c = true) :
    isGap c = false ∧ isStop c = false ∧ c ≠ '{' ∧ c ≠ '[' := by
  simpa only [isPlain, Bool.and_eq_true, Bool.not_eq_true', bne_iff_ne, ne_eq, and_assoc] using h

/-- Letters, digits and the other characters of identifiers and leaves. -/
theorem isPlain_of_isAlphanum
    (h : c.isAlphanum = true ∨ c = '.' ∨ c = '-' ∨ c = '_' ∨ c = '$') : isPlain c = true := by
  rcases h with h | rfl | rfl | rfl | rfl
  · have hcode := code_of_isAlphanum h
    have hne : ∀ d : Char, d.isAlphanum = false → c ≠ d := by
      rintro d hd rfl
      rw [h] at hd
      cases hd
    have hspace : isSpace c.toNat = false := by
      apply Bool.eq_false_iff.mpr
      intro hspace
      have := code_of_isSpace hspace
      omega
    simp only [isPlain, isGap, isStop, isQuote, hspace, hne ',' (by decide), hne ':' (by decide),
      hne ';' (by decide), hne '}' (by decide), hne '\'' (by decide), hne '"' (by decide),
      decide_false, Bool.or_false, Bool.not_false, Bool.true_and, Bool.and_eq_true, bne_iff_ne]
    exact ⟨hne '{' (by decide), hne '[' (by decide)⟩
  all_goals decide

end

/-! ## Reading a field -/

section
variable {array : List Char} {i : Nat}

/-- Gaps after what has been read, up to the end of the field. -/
theorem getFieldLoop_trail {trail : List Char} {stop : Char} (strArray : List Char)
    (htrail : ∀ c ∈ trail, isGap c = true) (hstop : isStop stop = true)
    (h : At array i (trail ++ [stop])) :
    Answers (fun fuel => getFieldLoop array fuel i strArray)
      (.returned ⟨.text (String.ofList strArray), i + trail.length⟩) := by
  induction trail generalizing i with
  | nil =>
    have hget : array[i]? = some stop := h.getElem?
    obtain ⟨hgap, -, hbrace, hbracket⟩ := isStop_spec hstop
    obtain ⟨hspace, hquote⟩ := Bool.or_eq_false_iff.mp hgap
    have hmem : stop ∈ [',', ':', ';', '}'] := by
      rcases eq_of_isStop hstop with rfl | rfl | rfl | rfl
      all_goals decide
    apply Answers.succ (fun fuel => ?_) (Answers.pure _)
    simp only [getFieldLoop, hget, hspace, hquote, hbrace, hbracket, hmem, Bool.false_eq_true,
      false_and, or_self, if_false, if_true, List.length_nil, Nat.add_zero]
  | cons c trail ih =>
    obtain ⟨hc, htrail⟩ := List.forall_mem_cons.mp htrail
    have hget : array[i]? = some c := h.getElem?
    obtain ⟨d, hnext, hd⟩ : ∃ d, array[i + 1]? = some d ∧ isWord d = false := by
      cases trail with
      | nil => exact ⟨stop, h.tail.getElem?, (isStop_spec hstop).2.1⟩
      | cons d trail =>
        exact ⟨d, h.tail.getElem?, (isGap_spec (htrail d (List.mem_cons_self ..))).2.1⟩
    have hgap : isSpace c.toNat = true ∨ isQuote c = true := Bool.or_eq_true_iff.mp hc
    have hrest := ih htrail h.tail
    rw [List.length_cons, Nat.add_comm trail.length, ← Nat.add_assoc]
    apply Answers.succ (fun fuel => ?_) hrest
    simp only [getFieldLoop, hget, (isGap_spec hc).2.2.2, hnext, hd, Option.any_some, hgap,
      reduceCtorEq, Bool.false_eq_true, false_and, and_false, if_false, if_true]

/-- A word and the gaps after it. -/
theorem getFieldLoop_word {word trail : List Char} {stop : Char} (strArray : List Char)
    (hword : ∀ c ∈ word, isPlain c = true) (htrail : ∀ c ∈ trail, isGap c = true)
    (hstop : isStop stop = true) (h : At array i (word ++ (trail ++ [stop]))) :
    Answers (fun fuel => getFieldLoop array fuel i strArray)
      (.returned ⟨.text (String.ofList (strArray ++ word)), i + (word ++ trail).length⟩) := by
  induction word generalizing i strArray with
  | nil =>
    rw [List.append_nil, List.nil_append]
    exact getFieldLoop_trail strArray htrail hstop h
  | cons c word ih =>
    obtain ⟨hc, hword⟩ := List.forall_mem_cons.mp hword
    have hget : array[i]? = some c := h.getElem?
    obtain ⟨hgap, hnot, hbrace, hbracket⟩ := isPlain_spec hc
    obtain ⟨hspace, hquote⟩ := Bool.or_eq_false_iff.mp hgap
    have hmem : c ∉ [',', ':', ';', '}'] := by
      intro hmem
      simp only [List.mem_cons, List.not_mem_nil, or_false] at hmem
      rcases hmem with rfl | rfl | rfl | rfl
      all_goals exact absurd hnot (by decide)
    have hrest := ih (strArray ++ [c]) hword h.tail
    rw [List.append_cons, List.cons_append, List.length_cons,
      Nat.add_comm (word ++ trail).length, ← Nat.add_assoc]
    apply Answers.succ (fun fuel => ?_) hrest
    simp only [getFieldLoop, hget, hspace, hquote, hbrace, hbracket, hmem, Bool.false_eq_true,
      false_and, or_self, if_false]

/-- Gaps before a word or an object. -/
theorem getFieldLoop_lead {lead text : List Char} {outcome : Outcome}
    (hlead : ∀ c ∈ lead, isGap c = true) (h : At array i (lead ++ text))
    (H : Answers (fun fuel => getFieldLoop array fuel (i + lead.length) []) outcome) :
    Answers (fun fuel => getFieldLoop array fuel i []) outcome := by
  induction lead generalizing i with
  | nil => exact H
  | cons c lead ih =>
    obtain ⟨hc, hlead⟩ := List.forall_mem_cons.mp hlead
    have hget : array[i]? = some c := h.getElem?
    have hgap : isSpace c.toNat = true ∨ isQuote c = true := Bool.or_eq_true_iff.mp hc
    rw [List.length_cons, Nat.add_comm lead.length, ← Nat.add_assoc] at H
    apply Answers.succ (fun fuel => ?_) (ih hlead h.tail H)
    simp only [getFieldLoop, hget, (isGap_spec hc).2.2.2, hgap, ne_eq, not_true, false_and,
      and_false, if_false, if_true]

theorem getField_loop {index : Nat} {text : List Char} {outcome : Outcome}
    (h : At array (index + 1) text) (hne : text ≠ [])
    (H : Answers (fun fuel => getFieldLoop array fuel (index + 1) []) outcome) :
    Answers (fun fuel => getField array fuel index) outcome := by
  apply Answers.succ (fun fuel => ?_) H
  rw [getField, if_neg (Nat.not_le_of_lt (h.lt_length hne))]

theorem getField_word {index : Nat} {lead word trail : List Char} {stop : Char}
    (hlead : ∀ c ∈ lead, isGap c = true) (hword : ∀ c ∈ word, isPlain c = true)
    (htrail : ∀ c ∈ trail, isGap c = true) (hstop : isStop stop = true)
    (h : At array (index + 1) (lead ++ (word ++ (trail ++ [stop])))) :
    Answers (fun fuel => getField array fuel index)
      (.returned ⟨.text (String.ofList word), index + 1 + (lead ++ (word ++ trail)).length⟩) := by
  apply getField_loop h (by simp)
  apply getFieldLoop_lead hlead h
  rw [List.length_append, ← Nat.add_assoc]
  exact getFieldLoop_word [] hword htrail hstop h.right

/-- A field without a word. -/
theorem getField_empty {index : Nat} {gap : List Char} {stop : Char}
    (hgap : ∀ c ∈ gap, isGap c = true) (hstop : isStop stop = true)
    (h : At array (index + 1) (gap ++ [stop])) :
    Answers (fun fuel => getField array fuel index)
      (.returned ⟨.text "", index + 1 + gap.length⟩) :=
  getField_loop h (by simp) (getFieldLoop_trail [] hgap hstop h)

theorem getField_object {index : Nat} {lead text : List Char} {outcome : Outcome}
    (hlead : ∀ c ∈ lead, isGap c = true) (h : At array (index + 1) (lead ++ '{' :: text))
    (H : Answers (fun fuel => formatLoop array fuel (index + 1 + lead.length + 1) .undefined
      .undefined []) outcome) :
    Answers (fun fuel => getField array fuel index) outcome := by
  apply getField_loop h (by simp)
  apply getFieldLoop_lead hlead h
  have hget : array[index + 1 + lead.length]? = some '{' := h.right.getElem?
  have hspace : isSpace '{'.toNat = false := by decide
  have hquote : isQuote '{' = false := by decide
  have hbracket : '{' ≠ '[' := by decide
  apply Answers.succ (fun fuel => ?_) H
  simp only [getFieldLoop, hget, hspace, hquote, hbracket, Bool.false_eq_true, false_and, or_self,
    if_false, if_true]

end

/-! ## The loop over the fields -/

section
variable {array : List Char} {i : Nat} {field value : Parsed} {testObj : Fields}
  {text : List Char} {outcome : Outcome}

theorem formatLoop_skip {c : Char} (hc : c = ' ' ∨ isQuote c = true) (h : At array i (c :: text))
    (H : Answers (fun fuel => formatLoop array fuel (i + 1) field value testObj) outcome) :
    Answers (fun fuel => formatLoop array fuel i field value testObj) outcome := by
  apply Answers.succ (fun fuel => ?_) H
  simp only [formatLoop, h.getElem?, if_pos hc]

theorem formatLoop_close {o : Fields} (h : At array i ('}' :: text))
    (hset : (if field.truthy then setProperty testObj field value else some testObj) = some o) :
    Answers (fun fuel => formatLoop array fuel i field value testObj)
      (.returned ⟨.object o, i + 1⟩) := by
  have hblank : ¬('}' = ' ' ∨ isQuote '}' = true) := by decide
  apply Answers.succ (fun fuel => ?_) (Answers.pure _)
  simp only [formatLoop, h.getElem?, if_neg hblank, if_true, hset]

theorem formatLoop_colon {result : Result} (h : At array i (':' :: text))
    (hvalue : Answers (fun fuel => getField array fuel i) (.returned result))
    (H : Answers (fun fuel => formatLoop array fuel result.length field result.value testObj)
      outcome) :
    Answers (fun fuel => formatLoop array fuel i field value testObj) outcome := by
  have hblank : ¬(':' = ' ' ∨ isQuote ':' = true) := by decide
  have hbrace : ':' ≠ '}' := by decide
  have hcalls := Answers.bind (k := fun outcome fuel => outcome.read fun result =>
    formatLoop array fuel result.length field result.value testObj) hvalue H
  apply Answers.succ (fun fuel => ?_) hcalls
  simp only [formatLoop, h.getElem?, if_neg hblank, if_neg hbrace, if_true]

theorem formatLoop_comma {result : Result} {o : Fields} (h : At array i (',' :: text))
    (hset : setProperty testObj field value = some o)
    (hfield : Answers (fun fuel => getField array fuel i) (.returned result))
    (H : Answers (fun fuel => formatLoop array fuel result.length result.value value o) outcome) :
    Answers (fun fuel => formatLoop array fuel i field value testObj) outcome := by
  have hblank : ¬(',' = ' ' ∨ isQuote ',' = true) := by decide
  have hbrace : ',' ≠ '}' := by decide
  have hcolon : ',' ≠ ':' := by decide
  have hcalls := Answers.bind (k := fun outcome fuel => outcome.readOptional fun result =>
    formatLoop array fuel result.length result.value value o) hfield H
  apply Answers.succ (fun fuel => ?_) hcalls
  simp only [formatLoop, h.getElem?, if_neg hblank, if_neg hbrace, if_neg hcolon, if_true, hset]

theorem formatLoop_field {result : Result} {c : Char} (h : At array (i + 1) (c :: text))
    (hblank : ¬(c = ' ' ∨ isQuote c = true)) (hstop : isStop c = false) (hbrace : c ≠ '{')
    (hfield : Answers (fun fuel => getField array fuel i) (.returned result))
    (H : Answers (fun fuel => formatLoop array fuel result.length result.value value testObj)
      outcome) :
    Answers (fun fuel => formatLoop array fuel (i + 1) field value testObj) outcome := by
  have hne : ∀ d : Char, isStop d = true → c ≠ d := by
    rintro d hd rfl
    rw [hstop] at hd
    cases hd
  have hcalls := Answers.bind (k := fun outcome fuel => outcome.read fun result =>
    formatLoop array fuel result.length result.value value testObj) hfield H
  apply Answers.succ (fun fuel => ?_) hcalls
  simp only [formatLoop, h.getElem?, if_neg hblank, if_neg (hne '}' rfl), if_neg (hne ':' rfl),
    if_neg (hne ',' rfl), if_neg hbrace, Option.bind_some, Nat.add_sub_cancel]

/-! ## Gaps and names -/

/-- The field after white space that stands behind a nested object: the loop skips nothing but
blanks, and other white space is read as a field. -/
def fieldAfter (spaces : List Char) (field : Parsed) : Parsed :=
  if spaces.all (· = ' ') then field else .text ""

theorem formatLoop_spaces {spaces : List Char} {stop : Char}
    (hspaces : ∀ c ∈ spaces, isSpace c.toNat = true) (hstop : isStop stop = true)
    (h : At array (i + 1) (spaces ++ [stop]))
    (H : Answers (fun fuel => formatLoop array fuel (i + 1 + spaces.length)
      (fieldAfter spaces field) value testObj) outcome) :
    Answers (fun fuel => formatLoop array fuel (i + 1) field value testObj) outcome := by
  induction spaces generalizing i with
  | nil => exact H
  | cons c spaces ih =>
    obtain ⟨hc, hrest⟩ := List.forall_mem_cons.mp hspaces
    by_cases hblank : c = ' '
    · have hafter : fieldAfter (c :: spaces) field = fieldAfter spaces field := by
        unfold fieldAfter
        rw [List.all_cons, decide_eq_true hblank, Bool.true_and]
      rw [hafter, List.length_cons, Nat.add_comm spaces.length, ← Nat.add_assoc] at H
      exact formatLoop_skip (.inl hblank) h (ih hrest h.tail H)
    · have hafter : fieldAfter (c :: spaces) field = .text "" := by
        unfold fieldAfter
        rw [List.all_cons, decide_eq_false hblank, Bool.false_and]
        rfl
      have hquote : isQuote c = false := by
        apply Bool.eq_false_iff.mpr
        intro hquote
        rcases eq_of_isQuote hquote with rfl | rfl
        all_goals exact absurd hc (by decide)
      have hgap : ∀ d ∈ c :: spaces, isGap d = true := fun d hd => isGap_of_isSpace (hspaces d hd)
      have hskip : ¬(c = ' ' ∨ isQuote c = true) := by
        rw [hquote]
        simp [hblank]
      rw [hafter] at H
      exact formatLoop_field h hskip (isStop_of_isSpace hc) (ne_of_isSpace hc (by decide))
        (getField_empty hgap hstop h) H

/-- A name is read up to its colon. -/
theorem formatLoop_name {lead word trail : List Char} (hlead : ∀ c ∈ lead, isGap c = true)
    (hword : ∀ c ∈ word, isPlain c = true) (hne : word ≠ [])
    (htrail : ∀ c ∈ trail, isGap c = true)
    (h : At array (i + 1) (lead ++ (word ++ (trail ++ [':']))))
    (H : Answers (fun fuel => formatLoop array fuel (i + 1 + (lead ++ (word ++ trail)).length)
      (.text (String.ofList word)) value testObj) outcome) :
    Answers (fun fuel => formatLoop array fuel (i + 1) field value testObj) outcome := by
  have hfield := getField_word hlead hword htrail (show isStop ':' = true from rfl) h
  induction lead generalizing i with
  | nil =>
    obtain ⟨c, word, rfl⟩ := List.exists_cons_of_ne_nil hne
    obtain ⟨hgap, hstop, hbrace, -⟩ := isPlain_spec (hword c (List.mem_cons_self ..))
    have hblank : ¬(c = ' ' ∨ isQuote c = true) := by
      rintro (rfl | hquote)
      · cases hgap
      · rw [isGap, hquote, Bool.or_true] at hgap
        cases hgap
    exact formatLoop_field h hblank hstop hbrace hfield H
  | cons c lead ih =>
    obtain ⟨hc, hlead⟩ := List.forall_mem_cons.mp hlead
    by_cases hblank : c = ' ' ∨ isQuote c = true
    · have hrest := getField_word hlead hword htrail (show isStop ':' = true from rfl) h.tail
      rw [List.cons_append, List.length_cons, Nat.add_comm (lead ++ (word ++ trail)).length,
        ← Nat.add_assoc] at H
      exact formatLoop_skip hblank h (ih hlead h.tail H hrest)
    · obtain ⟨hstop, -, hbrace, -⟩ := isGap_spec hc
      exact formatLoop_field h hblank hstop hbrace hfield H

end

end FraxObjects
end Integration
end DefiBackend
