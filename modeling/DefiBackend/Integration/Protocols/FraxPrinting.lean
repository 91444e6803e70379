import DefiBackend.Integration.Protocols.FraxObjects

/-! # Printed object literals

Records as object literals: with quotes or without, with a comma after the last field or without,
and with any white space between tokens.

* `starts_body`: from the opening brace or a comma on, a printed body is read to its closing brace;
* `Body.weightOf_read`: how many fields are lost;
* `formatObjectFromText_iff`: a record is read back when only blanks stand behind nested objects,
  and no key is `__proto__`. -/

namespace DefiBackend
namespace Integration
namespace FraxObjects
open Theory

/-! ## Printed objects -/

/-- White space between tokens. -/
structure Gap where
  chars : List Char
  spaces : ∀ c ∈ chars, isSpace c.toNat = true

/-- A name or a leaf. -/
structure Word where
  chars : List Char
  nonempty : chars ≠ []
  plain : ∀ c ∈ chars, isPlain c = true

inductive Quotes
  | none
  | single
  | double

def Quotes.text : Quotes → List Char
  | .none => []
  | .single => ['\'']
  | .double => ['"']

/-- A name or a leaf with the white space around it. -/
structure Token where
  before : Gap
  quotes : Quotes
  word : Word
  after : Gap

namespace Token
variable (token : Token)

def lead : List Char := token.before.chars ++ token.quotes.text

def trail : List Char := token.quotes.text ++ token.after.chars

def text : List Char := token.lead ++ (token.word.chars ++ token.trail)

def name : String := String.ofList token.word.chars

end Token

/-- What stands behind the opening brace of an object, its closing brace included: fields, the last
of which may have a comma after it. -/
inductive Body
  | close (space : Gap)
  | lastText (key value : Token)
  | moreText (key value : Token) (rest : Body)
  | lastObject (key : Token) (before : Gap) (value : Body) (after : Gap)
  | moreObject (key : Token) (before : Gap) (value : Body) (after : Gap) (rest : Body)

namespace Body

def text : Body → List Char
  | .close space => space.chars ++ ['}']
  | .lastText key value => key.text ++ ':' :: (value.text ++ ['}'])
  | .moreText key value rest => key.text ++ ':' :: (value.text ++ ',' :: rest.text)
  | .lastObject key before value after =>
    key.text ++ ':' :: (before.chars ++ '{' :: (value.text ++ (after.chars ++ ['}'])))
  | .moreObject key before value after rest =>
    key.text ++ ':' :: (before.chars ++ '{' :: (value.text ++ (after.chars ++ ',' :: rest.text)))

/-- The record that is printed. -/
def record : Body → Fields
  | .close _ => []
  | .lastText key value => [(key.name, .text value.name)]
  | .moreText key value rest => (key.name, .text value.name) :: rest.record
  | .lastObject key _ value _ => [(key.name, .object value.record)]
  | .moreObject key _ value _ rest => (key.name, .object value.record) :: rest.record

/-- The keys of each object are pairwise different. -/
def Distinct : Body → Prop
  | .close _ | .lastText .. => True
  | .moreText key _ rest => key.name ∉ JsMap.keys rest.record ∧ rest.Distinct
  | .lastObject _ _ value _ => value.Distinct
  | .moreObject key _ value _ rest =>
    key.name ∉ JsMap.keys rest.record ∧ value.Distinct ∧ rest.Distinct

/-- Only blanks stand between a nested object and what comes after it, and no key is
`__proto__`. -/
def Sound : Body → Prop
  | .close _ => True
  | .lastText key _ => key.name ≠ "__proto__"
  | .moreText key _ rest => key.name ≠ "__proto__" ∧ rest.Sound
  | .lastObject key _ value after =>
    key.name ≠ "__proto__" ∧ after.chars.all (· = ' ') = true ∧ value.Sound
  | .moreObject key _ value after rest =>
    key.name ≠ "__proto__" ∧ after.chars.all (· = ' ') = true ∧ value.Sound ∧ rest.Sound

/-- The record that is read: a nested object with other white space behind it loses its key. -/
def read : Body → Fields → Fields
  | .close _, testObj => testObj
  | .lastText key value, testObj => put testObj key.name (.text value.name)
  | .moreText key value rest, testObj => rest.read (put testObj key.name (.text value.name))
  | .lastObject key _ value after, testObj =>
    if after.chars.all (· = ' ') then put testObj key.name (.object (value.read [])) else testObj
  | .moreObject key _ value after rest, testObj =>
    rest.read (put testObj (if after.chars.all (· = ' ') then key.name else "")
      (.object (value.read [])))

end Body

/-! ## Reading printed objects -/

theorem Gap.isGap (gap : Gap) : ∀ c ∈ gap.chars, isGap c = true :=
  fun c hc => isGap_of_isSpace (gap.spaces c hc)

theorem Quotes.isGap_text (quotes : Quotes) : ∀ c ∈ quotes.text, isGap c = true := by
  cases quotes
  all_goals exact List.all_eq_true.mp rfl

namespace Token
variable (token : Token)

theorem isGap_lead : ∀ c ∈ token.lead, isGap c = true := by
  intro c hc
  rcases List.mem_append.mp hc with hc | hc
  · exact token.before.isGap c hc
  · exact token.quotes.isGap_text c hc

theorem isGap_trail : ∀ c ∈ token.trail, isGap c = true := by
  intro c hc
  rcases List.mem_append.mp hc with hc | hc
  · exact token.quotes.isGap_text c hc
  · exact token.after.isGap c hc

theorem name_ne : token.name ≠ "" := by
  intro h
  apply token.word.nonempty
  exact String.ofList_inj.mp h

theorem truthy : (Parsed.text token.name).truthy = true := by
  apply bne_iff_ne.mpr
  exact token.name_ne

end Token

section
variable {array : List Char} {i : Nat} {value : Parsed} {testObj : Fields} {outcome : Outcome}

/-- From the opening brace or the comma before an index on, a run ends with an outcome. -/
def Starts (array : List Char) (i : Nat) (value : Parsed) (testObj : Fields) (outcome : Outcome) :
    Prop :=
  (∀ field : Parsed, field.truthy = false →
    Answers (fun fuel => formatLoop array fuel (i + 1) field value testObj) outcome) ∧
  ∀ (field : Parsed) (before : Fields), At array i [','] →
    setProperty before field value = some testObj →
    Answers (fun fuel => formatLoop array fuel i field value before) outcome

theorem getField_token {token : Token} {stop : Char} (hstop : isStop stop = true)
    (h : At array (i + 1) (token.text ++ [stop])) :
    Answers (fun fuel => getField array fuel i)
      (.returned ⟨.text token.name, i + 1 + token.text.length⟩) := by
  unfold Token.text at h
  rw [List.append_assoc, List.append_assoc] at h
  exact getField_word token.isGap_lead token.word.plain token.isGap_trail hstop h

theorem starts_key {key : Token} (h : At array (i + 1) (key.text ++ [':']))
    (H : Answers (fun fuel => formatLoop array fuel (i + 1 + key.text.length) (.text key.name) value
      testObj) outcome) : Starts array i value testObj outcome := by
  constructor
  · intro field _
    unfold Token.text at h
    rw [List.append_assoc, List.append_assoc] at h
    exact formatLoop_name key.isGap_lead key.word.plain key.word.nonempty key.isGap_trail h H
  · intro field before hcomma hset
    exact formatLoop_comma hcomma hset (getField_token rfl h) H

/-- A field whose value is a leaf is read up to the mark behind it. -/
theorem starts_text {key leaf : Token} {stop : Char} {rest : List Char}
    (hstop : isStop stop = true)
    (h : At array (i + 1) (key.text ++ ':' :: (leaf.text ++ stop :: rest)))
    (H : Answers (fun fuel => formatLoop array fuel
      (i + 1 + key.text.length + 1 + leaf.text.length) (.text key.name) (.text leaf.name) testObj)
      outcome) : Starts array i value testObj outcome := by
  have hcolon : At array (i + 1 + key.text.length) (':' :: (leaf.text ++ stop :: rest)) := h.right
  apply starts_key h.stop
  exact formatLoop_colon hcolon (getField_token hstop hcolon.tail.stop) H

/-- A field whose value is an object is read up to the mark behind it. -/
theorem starts_object {key : Token} {before after : Gap} {stop : Char} {nested rest : List Char}
    {fields : Fields} {p : Nat} (hstop : isStop stop = true)
    (h : At array (i + 1)
      (key.text ++ ':' :: (before.chars ++ '{' :: (nested ++ (after.chars ++ stop :: rest)))))
    (hp : p = i + 1 + key.text.length + 1 + before.chars.length)
    (hnested : Starts array p .undefined [] (.returned ⟨.object fields, p + 1 + nested.length⟩))
    (H : Answers (fun fuel => formatLoop array fuel (p + 1 + nested.length + after.chars.length)
      (fieldAfter after.chars (.text key.name)) (.object fields) testObj) outcome) :
    Starts array i value testObj outcome := by
  subst hp
  have hcolon : At array (i + 1 + key.text.length)
      (':' :: (before.chars ++ '{' :: (nested ++ (after.chars ++ stop :: rest)))) := h.right
  have hafter : At array (i + 1 + key.text.length + 1 + before.chars.length + nested.length + 1)
      (after.chars ++ stop :: rest) := by
    rw [Nat.add_right_comm]
    exact hcolon.tail.right.tail.right
  apply starts_key h.stop
  apply formatLoop_colon hcolon
    (getField_object before.isGap hcolon.tail (hnested.1 .undefined rfl))
  rw [Nat.add_right_comm _ 1 nested.length] at H ⊢
  exact formatLoop_spaces after.spaces hstop hafter.stop H

theorem starts_close {space : Gap} (h : At array (i + 1) (space.chars ++ ['}'])) :
    Starts array i value testObj
      (.returned ⟨.object testObj, i + 1 + space.chars.length + 1⟩) := by
  have hclose : At array (i + 1 + space.chars.length) ['}'] := h.right
  constructor
  · intro field hfield
    have hafter : (fieldAfter space.chars field).truthy = false := by
      unfold fieldAfter
      split
      · exact hfield
      · rfl
    apply formatLoop_spaces space.spaces rfl h
    apply formatLoop_close hclose
    rw [hafter]
    rfl
  · intro field before hcomma hset
    exact formatLoop_comma hcomma hset (getField_empty space.isGap rfl h)
      (formatLoop_close hclose rfl)

/-- Reading a printed body. -/
theorem starts_body (b : Body) {i : Nat} {value : Parsed} {testObj : Fields}
    (h : At array (i + 1) b.text) :
    Starts array i value testObj
      (.returned ⟨.object (b.read testObj), i + 1 + b.text.length⟩) := by
  induction b generalizing i value testObj with
  | close space =>
    have hlength : i + 1 + (Body.close space).text.length = i + 1 + space.chars.length + 1 := by
      simp only [Body.text, List.length_append, List.length_cons, List.length_nil]
      omega
    rw [hlength]
    exact starts_close h
  | lastText key leaf =>
    have hclose : At array (i + 1 + key.text.length + 1 + leaf.text.length) ['}'] :=
      h.right.tail.right
    have hlength : i + 1 + (Body.lastText key leaf).text.length =
        i + 1 + key.text.length + 1 + leaf.text.length + 1 := by
      simp only [Body.text, List.length_append, List.length_cons, List.length_nil]
      omega
    rw [hlength]
    apply starts_text (show isStop '}' = true from rfl) h
    apply formatLoop_close hclose
    rw [key.truthy]
    rfl
  | moreText key leaf rest ih =>
    have hcomma : At array (i + 1 + key.text.length + 1 + leaf.text.length) (',' :: rest.text) :=
      h.right.tail.right
    have hlength : i + 1 + (Body.moreText key leaf rest).text.length =
        i + 1 + key.text.length + 1 + leaf.text.length + 1 + rest.text.length := by
      simp only [Body.text, List.length_append, List.length_cons]
      omega
    rw [hlength]
    apply starts_text (show isStop ',' = true from rfl) h
    exact (ih hcomma.tail).2 _ testObj hcomma.head rfl
  | lastObject key before nested after ih =>
    obtain ⟨p, hp⟩ : ∃ p, p = i + 1 + key.text.length + 1 + before.chars.length := ⟨_, rfl⟩
    have hopen : At array p ('{' :: (nested.text ++ (after.chars ++ ['}']))) := by
      rw [hp]
      exact h.right.tail.right
    have hclose : At array (p + 1 + nested.text.length + after.chars.length) ['}'] :=
      hopen.tail.right.right
    have hlength : i + 1 + (Body.lastObject key before nested after).text.length =
        p + 1 + nested.text.length + after.chars.length + 1 := by
      simp only [Body.text, List.length_append, List.length_cons, List.length_nil, hp]
      omega
    rw [hlength]
    apply starts_object (show isStop '}' = true from rfl) h hp (ih hopen.tail.left)
    apply formatLoop_close hclose
    rw [Body.read]
    unfold fieldAfter
    split
    · rw [key.truthy]
      rfl
    · rfl
  | moreObject key before nested after rest ihnested ihrest =>
    obtain ⟨p, hp⟩ : ∃ p, p = i + 1 + key.text.length + 1 + before.chars.length := ⟨_, rfl⟩
    have hopen : At array p ('{' :: (nested.text ++ (after.chars ++ ',' :: rest.text))) := by
      rw [hp]
      exact h.right.tail.right
    have hcomma : At array (p + 1 + nested.text.length + after.chars.length) (',' :: rest.text) :=
      hopen.tail.right.right
    have hlength : i + 1 + (Body.moreObject key before nested after rest).text.length =
        p + 1 + nested.text.length + after.chars.length + 1 + rest.text.length := by
      simp only [Body.text, List.length_append, List.length_cons, hp]
      omega
    rw [hlength]
    apply starts_object (show isStop ',' = true from rfl) h hp (ihnested hopen.tail.left)
    apply (ihrest hcomma.tail).2 _ testObj hcomma.head
    unfold fieldAfter
    split
    · rfl
    · rfl

end

/-! ## What is lost -/

mutual

/-- How many fields with a name a value has, those of nested objects included. -/
def Parsed.weight : Parsed → Nat
  | .object fields => weightOf fields
  | _ => 0

def weightOf : List (String × Parsed) → Nat
  | [] => 0
  | (name, value) :: fields => (if name = "" then 0 else 1) + value.weight + weightOf fields

end

theorem weightOf_set_le (testObj : Fields) (name : String) (value : Parsed) :
    weightOf (testObj.set name value) ≤
      weightOf testObj + ((if name = "" then 0 else 1) + value.weight) := by
  induction testObj with
  | nil =>
    simp only [JsMap.set, weightOf]
    omega
  | cons e testObj ih =>
    obtain ⟨name', value'⟩ := e
    rw [JsMap.set]
    split
    · next hname =>
      obtain rfl : name' = name := hname
      rw [weightOf, weightOf]
      omega
    · rw [weightOf, weightOf]
      omega

/-- A field under a key adds its weight, unless it is dropped. -/
theorem weightOf_put_key (testObj : Fields) (key : Token) (value : Parsed) :
    weightOf (put testObj key.name value) + (if key.name = "__proto__" then 1 else 0) ≤
      weightOf testObj + (1 + value.weight) := by
  unfold put
  split
  · omega
  · have hle := weightOf_set_le testObj key.name value
    rwa [if_neg key.name_ne] at hle

theorem weightOf_put_empty (testObj : Fields) (value : Parsed) :
    weightOf (put testObj "" value) ≤ weightOf testObj + value.weight := by
  have hle := weightOf_set_le testObj "" value
  rwa [if_pos rfl, Nat.zero_add] at hle

namespace Body

/-- The fields that are lost for their key or for the white space behind them. -/
def lost : Body → Nat
  | .close _ => 0
  | .lastText key _ => if key.name = "__proto__" then 1 else 0
  | .moreText key _ rest => (if key.name = "__proto__" then 1 else 0) + rest.lost
  | .lastObject key _ value after =>
    (if after.chars.all (· = ' ') then if key.name = "__proto__" then 1 else 0 else 1) + value.lost
  | .moreObject key _ value after rest =>
    (if after.chars.all (· = ' ') then if key.name = "__proto__" then 1 else 0 else 1) +
      value.lost + rest.lost

theorem sound_iff_lost (b : Body) : b.Sound ↔ b.lost = 0 := by
  induction b with
  | close space => exact ⟨fun _ => rfl, fun _ => trivial⟩
  | lastText key leaf => simp [Sound, lost]
  | moreText key leaf rest ih => simp [Sound, lost, ih]
  | lastObject key before nested after ih =>
    rw [Sound, lost, ih]
    split
    · next hblank => simp [hblank]
    · next hblank => simp [hblank]
  | moreObject key before nested after rest ihnested ihrest =>
    rw [Sound, lost, ihnested, ihrest]
    split
    · next hblank => simp [hblank, and_assoc]
    · next hblank => simp [hblank]

/-- The fields that are read and those that are lost are at most the fields of the record. -/
theorem weightOf_read (b : Body) (testObj : Fields) :
    weightOf (b.read testObj) + b.lost ≤ weightOf testObj + weightOf b.record := by
  induction b generalizing testObj with
  | close space => exact Nat.le_refl _
  | lastText key leaf =>
    have hput := weightOf_put_key testObj key (.text leaf.name)
    simp only [read, lost, record, weightOf, if_neg key.name_ne, Parsed.weight] at hput ⊢
    omega
  | moreText key leaf rest ih =>
    have hput := weightOf_put_key testObj key (.text leaf.name)
    have hrest := ih (put testObj key.name (.text leaf.name))
    simp only [read, lost, record, weightOf, if_neg key.name_ne, Parsed.weight] at hput hrest ⊢
    omega
  | lastObject key before nested after ih =>
    have hput := weightOf_put_key testObj key (.object (nested.read []))
    have hnested := ih []
    simp only [read, lost, record, weightOf, if_neg key.name_ne, Parsed.weight] at hput hnested ⊢
    split
    · omega
    · omega
  | moreObject key before nested after rest ihnested ihrest =>
    have hput := weightOf_put_key testObj key (.object (nested.read []))
    have hempty := weightOf_put_empty testObj (.object (nested.read []))
    have hnested := ihnested []
    simp only [read, lost, record, weightOf, if_neg key.name_ne, Parsed.weight]
      at hput hempty hnested ⊢
    split
    · have hrest := ihrest (put testObj key.name (.object (nested.read [])))
      omega
    · have hrest := ihrest (put testObj "" (.object (nested.read [])))
      omega

theorem put_new {testObj : Fields} {name : String} (hname : name ≠ "__proto__")
    (hnew : name ∉ JsMap.keys testObj) (value : Parsed) :
    put testObj name value = testObj ++ [(name, value)] := by
  rw [put, if_neg hname, JsMap.set_of_notMem hnew]

/-- Keys that come later are new after a field, too. -/
theorem new_append {testObj fields : Fields} {name : String} {value : Parsed}
    (hname : name ∉ JsMap.keys fields)
    (hnew : ∀ name' ∈ name :: JsMap.keys fields, name' ∉ JsMap.keys testObj) :
    ∀ name' ∈ JsMap.keys fields, name' ∉ JsMap.keys (testObj ++ [(name, value)]) := by
  intro name' hmem hold
  rw [JsMap.keys, List.map_append] at hold
  rcases List.mem_append.mp hold with hold | hold
  · exact hnew name' (List.mem_cons_of_mem _ hmem) hold
  · rw [List.mem_singleton.mp hold] at hmem
    exact hname hmem

/-- What is read of a sound body: its record, behind the fields that are there. -/
theorem Sound.read_eq {b : Body} (hsound : b.Sound) (hdistinct : b.Distinct) {testObj : Fields}
    (hnew : ∀ name ∈ JsMap.keys b.record, name ∉ JsMap.keys testObj) :
    b.read testObj = testObj ++ b.record := by
  induction b generalizing testObj with
  | close space => exact (List.append_nil _).symm
  | lastText key leaf => exact put_new hsound (hnew _ (List.mem_singleton_self _)) _
  | moreText key leaf rest ih =>
    obtain ⟨hname, hrest⟩ := hsound
    obtain ⟨hkey, hdistinct⟩ := hdistinct
    rw [read, put_new hname (hnew _ (List.mem_cons_self ..)),
      ih hrest hdistinct (new_append hkey hnew), record, List.append_assoc]
    rfl
  | lastObject key before nested after ih =>
    obtain ⟨hname, hblank, hnested⟩ := hsound
    rw [read, if_pos hblank, ih hnested hdistinct fun _ _ => List.not_mem_nil,
      put_new hname (hnew _ (List.mem_singleton_self _))]
    rfl
  | moreObject key before nested after rest ihnested ihrest =>
    obtain ⟨hname, hblank, hnested, hrest⟩ := hsound
    obtain ⟨hkey, hdistinct, hdistinct'⟩ := hdistinct
    rw [read, if_pos hblank, ihnested hnested hdistinct fun _ _ => List.not_mem_nil,
      put_new hname (hnew _ (List.mem_cons_self ..)),
      ihrest hrest hdistinct' (new_append hkey hnew), record, List.append_assoc]
    rfl

end Body

section
variable (b : Body) (before after : List Char)

/-- Applied at the opening brace, `formatObjectFromText` returns what is read of the body, and the
index behind the closing brace. -/
theorem formatObjectFromText_read :
    Answers (fun fuel => formatObjectFromText (before ++ '{' :: (b.text ++ after)) fuel
      before.length) (.returned ⟨.object (b.read []), before.length + 1 + b.text.length⟩) := by
  have hat : At (before ++ '{' :: (b.text ++ after)) (before.length + 1) b.text := by
    refine ⟨after, ?_⟩
    have hlength : (before ++ ['{']).length = before.length + 1 := List.length_append
    rw [List.append_cons, List.drop_left' hlength]
  have hstarts : Starts (before ++ '{' :: (b.text ++ after)) before.length .undefined []
      (.returned ⟨.object (b.read []), before.length + 1 + b.text.length⟩) := starts_body b hat
  exact hstarts.1 .undefined rfl

/-- A printed record is read back exactly if its body is sound. -/
theorem formatObjectFromText_iff (hdistinct : b.Distinct) :
    Answers (fun fuel => formatObjectFromText (before ++ '{' :: (b.text ++ after)) fuel
      before.length) (.returned ⟨.object b.record, before.length + 1 + b.text.length⟩) ↔
        b.Sound := by
  have hread := formatObjectFromText_read b before after
  constructor
  · intro h
    have hsame : b.record = b.read [] := by
      simpa only [Outcome.returned.injEq, Result.mk.injEq, Parsed.object.injEq, and_true]
        using h.unique hread
    have hweight := b.weightOf_read []
    rw [← hsame, weightOf] at hweight
    apply b.sound_iff_lost.mpr
    omega
  · intro hsound
    rw [hsound.read_eq hdistinct fun _ _ => List.not_mem_nil] at hread
    exact hread

end

/-! ## A nested object -/

/-- A word of letters, digits and the other characters of identifiers and leaves. -/
def Word.of (chars : List Char) (nonempty : chars ≠ [])
    (h : ∀ c ∈ chars, c.isAlphanum = true ∨ c = '.' ∨ c = '-' ∨ c = '_' ∨ c = '$') : Word where
  chars
  nonempty
  plain c hc := isPlain_of_isAlphanum (h c hc)

def Gap.none : Gap := ⟨[], fun _ h => nomatch h⟩

def Gap.single (c : Char) (h : isSpace c.toNat = true) : Gap :=
  ⟨[c], List.forall_mem_singleton.mpr h⟩

/-- A word of one character with nothing around it. -/
def letter (c : Char) (h : c.isAlphanum = true) : Token where
  before := .none
  quotes := .none
  word := .of [c] (List.cons_ne_nil _ _) fun d hd => by
    rw [List.mem_singleton.mp hd]
    exact .inl h
  after := .none

/-- `{a:{b:1}}`, with white space behind the nested object. -/
def nestedObject (space : Gap) : Body :=
  .lastObject (letter 'a' rfl) .none (.lastText (letter 'b' rfl) (letter '1' rfl)) space

def nestedRecord : Fields := [("a", .object [("b", .text "1")])]

theorem nestedObject_read :
    Answers (fun fuel => formatObjectFromText "\x7ba:\x7bb:1\x7d \x7d".toList fuel 0)
      (.returned ⟨.object nestedRecord, 10⟩) := by
  refine (formatObjectFromText_iff (nestedObject (.single ' ' rfl)) [] [] trivial).mpr ?_
  have hkey : (letter 'b' rfl).name ≠ "__proto__" := by decide
  exact ⟨by decide, by decide, hkey⟩

/-- With a line break the nested object is lost. -/
theorem nestedObject_not_read :
    ¬ Answers (fun fuel => formatObjectFromText "\x7ba:\x7bb:1\x7d\n\x7d".toList fuel 0)
        (.returned ⟨.object nestedRecord, 10⟩) ∧
      ¬ Answers (fun fuel => formatObjectFromText "\x7ba:\x7bb:1\x7d\r\x7d".toList fuel 0)
        (.returned ⟨.object nestedRecord, 10⟩) := by
  constructor
  · intro h
    have hread := formatObjectFromText_read (nestedObject (.single '\n' rfl)) [] []
    have hsame := h.unique hread
    cases hsame
  · intro h
    have hread := formatObjectFromText_read (nestedObject (.single '\r' rfl)) [] []
    have hsame := h.unique hread
    cases hsame

end FraxObjects
end Integration
end DefiBackend
