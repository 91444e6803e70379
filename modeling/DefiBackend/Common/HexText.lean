import Mathlib.Data.List.DropRight
import DefiBackend.Common.Chunking
import DefiBackend.Theory.Fallible

/-! # Text as hexadecimal digits

`stringToHex` writes each character's code with as many digits as it has, `hexToString` reads two
digits for each character. Strings are lists of code units.

* `hexToString_stringToHex_iff`: the text comes back when every code fits into two digits and all
  but the last need both;
* `lossless_iff`: when chunks and texts come back. -/

namespace DefiBackend
open Theory

abbrev CodeUnit := UInt16

/-- White space and line terminators, as `\s` matches them and `Number` trims them. -/
def isSpace (code : Nat) : Bool :=
  (0x2000 ≤ code && code ≤ 0x200a) ||
    [0x9, 0xa, 0xb, 0xc, 0xd, 0x20, 0xa0, 0x1680, 0x2028, 0x2029, 0x202f, 0x205f, 0x3000,
      0xfeff].contains code

/-- The value of a hexadecimal digit. -/
def digitValue (c : CodeUnit) : Option Nat :=
  if 0x30 ≤ c.toNat ∧ c.toNat ≤ 0x39 then some (c.toNat - 0x30)
  else if 0x61 ≤ c.toNat ∧ c.toNat ≤ 0x66 then some (c.toNat - 0x61 + 10)
  else if 0x41 ≤ c.toNat ∧ c.toNat ≤ 0x46 then some (c.toNat - 0x41 + 10)
  else none

/-- A number read by its digits to the base 16. -/
def hexValue (digits : List Nat) : Nat := digits.foldl (fun num digit => 16 * num + digit) 0

/-- `Number('0x' + text)`: none for `NaN`. -/
def hexNumber (text : List CodeUnit) : Option Nat :=
  match text.rdropWhile fun c => isSpace c.toNat with
  | [] => none
  | c :: text => ((c :: text).mapM digitValue).map hexValue

/-- `String.fromCharCode(num)`: `NaN` counts as zero. -/
def fromCharCode (num : Option Nat) : CodeUnit := UInt16.ofNat (num.getD 0)

/-- `code.toString(16)`. -/
def hexDigits (code : CodeUnit) : List CodeUnit :=
  (Nat.toDigits 16 code.toNat).map fun c => UInt16.ofNat c.toNat

def stringToHex (string : List CodeUnit) : List CodeUnit := (string.map hexDigits).flatten

def hexToString (hex : List CodeUnit) : List CodeUnit :=
  (chunk (hex.map Element.leaf) (Nat.toPNat 2 Nat.two_pos)).map fun ch =>
    fromCharCode (hexNumber (ch.filterMap Element.leaf?))

/-! ## Reading digits -/

theorem digitValue_lt {c : CodeUnit} {digit : Nat} (h : digitValue c = some digit) :
    digit < 16 := by
  unfold digitValue at h
  split at h
  · next hc =>
    obtain rfl := Option.some.inj h
    omega
  · split at h
    · next hc =>
      obtain rfl := Option.some.inj h
      omega
    · split at h
      · next hc =>
        obtain rfl := Option.some.inj h
        omega
      · cases h

theorem foldl_hexValue_lt {digits : List Nat} (h : ∀ digit ∈ digits, digit < 16) (num : Nat) :
    digits.foldl (fun num digit => 16 * num + digit) num < (num + 1) * 16 ^ digits.length := by
  induction digits generalizing num with
  | nil => simp
  | cons digit digits ih =>
    have hdigit : digit < 16 := h digit (List.mem_cons_self ..)
    have hrest := ih (fun d hd => h d (List.mem_cons_of_mem _ hd)) (16 * num + digit)
    rw [List.foldl_cons, List.length_cons]
    calc _ < (16 * num + digit + 1) * 16 ^ digits.length := hrest
      _ ≤ ((num + 1) * 16) * 16 ^ digits.length := Nat.mul_le_mul_right _ (by omega)
      _ = (num + 1) * 16 ^ (digits.length + 1) := by rw [Nat.pow_succ', Nat.mul_assoc]

theorem hexValue_lt {digits : List Nat} (h : ∀ digit ∈ digits, digit < 16) :
    hexValue digits < 16 ^ digits.length := by
  have hlt := foldl_hexValue_lt h 0
  rwa [Nat.zero_add, Nat.one_mul] at hlt

theorem hexNumber_lt {text : List CodeUnit} {num : Nat} (h : hexNumber text = some num) :
    num < 16 ^ text.length := by
  unfold hexNumber at h
  have hprefix := List.rdropWhile_prefix (fun c : CodeUnit => isSpace c.toNat) (l := text)
  split at h
  · cases h
  · next c rest htrim =>
    rw [htrim] at hprefix
    obtain ⟨digits, hdigits, rfl⟩ := Option.map_eq_some_iff.mp h
    have hlength : digits.length ≤ text.length := by
      rw [length_of_mapM hdigits]
      exact hprefix.length_le
    have hall : ∀ digit ∈ digits, digit < 16 := by
      intro digit hdigit
      obtain ⟨c, -, hc⟩ := (mem_of_mapM hdigits).2 digit hdigit
      exact digitValue_lt hc
    calc hexValue digits < 16 ^ digits.length := hexValue_lt hall
      _ ≤ 16 ^ text.length := Nat.pow_le_pow_right (by decide) hlength

/-- A character that is read from some digits. -/
theorem fromCharCode_lt (text : List CodeUnit) :
    (fromCharCode (hexNumber text)).toNat < 16 ^ text.length := by
  unfold fromCharCode
  rw [UInt16.toNat_ofNat']
  apply Nat.lt_of_le_of_lt (Nat.mod_le ..)
  cases h : hexNumber text with
  | none => exact Nat.pow_pos (by decide)
  | some num => exact hexNumber_lt h

theorem hexToString_eq (hex : List CodeUnit) :
    hexToString hex = (chunks 1 hex).map fun ch => fromCharCode (hexNumber ch) := by
  unfold hexToString
  rw [chunk_leaves, List.map_map]
  refine List.map_congr_left fun ch _ => ?_
  have hch : (ch.map Element.leaf).filterMap Element.leaf? = ch := by
    rw [List.filterMap_map]
    exact List.filterMap_some
  rw [Function.comp_apply, hch]

@[simp] theorem hexToString_nil : hexToString [] = [] := rfl

theorem hexToString_pair (c c' : CodeUnit) (hex : List CodeUnit) :
    hexToString (c :: c' :: hex) = fromCharCode (hexNumber [c, c']) :: hexToString hex := by
  rw [hexToString_eq, hexToString_eq, chunks]
  rfl

theorem hexToString_single (c : CodeUnit) :
    hexToString [c] = [fromCharCode (hexNumber [c])] := by
  rw [hexToString_eq, chunks, List.take_nil, List.drop_nil, chunks]
  rfl

/-- What any digits are read as: a character for two of them, and the last from one when their
number is odd. -/
theorem hexToString_shape (hex : List CodeUnit) :
    (hexToString hex).length = (hex.length + 1) / 2 ∧
      (∀ c ∈ hexToString hex, c.toNat < 0x100) ∧
        (hex.length % 2 = 1 → ∀ c ∈ (hexToString hex).getLast?, c.toNat < 0x10) := by
  induction hex using List.twoStepInduction with
  | nil => simp
  | singleton c =>
    rw [hexToString_single]
    have hlt := fromCharCode_lt [c]
    refine ⟨by simp, fun c' hc' => ?_, fun _ c' hc' => ?_⟩
    · obtain rfl := List.mem_singleton.mp hc'
      rw [List.length_singleton] at hlt
      omega
    · obtain rfl := Option.some.inj hc'
      exact hlt
  | cons_cons c c' hex ih _ =>
    obtain ⟨hlength, hall, hlast⟩ := ih
    rw [hexToString_pair]
    refine ⟨?_, ?_, ?_⟩
    · rw [List.length_cons, hlength, List.length_cons, List.length_cons]
      omega
    · exact List.forall_mem_cons.mpr ⟨fromCharCode_lt [c, c'], hall⟩
    · intro hodd
      rw [List.length_cons, List.length_cons, Nat.add_assoc, Nat.add_mod_right] at hodd
      have hne : hexToString hex ≠ [] := by
        intro hnil
        rw [hnil, List.length_nil] at hlength
        omega
      obtain ⟨d, rest, hrest⟩ := List.exists_cons_of_ne_nil hne
      rw [hrest, List.getLast?_cons_cons, ← hrest]
      exact hlast hodd

/-! ## Writing digits -/

/-- The digit of a value below the base. -/
def digit (value : Nat) : CodeUnit := UInt16.ofNat (Nat.digitChar value).toNat

theorem digit_spec {value : Nat} (h : value < 16) :
    digitValue (digit value) = some value ∧ isSpace (digit value).toNat = false := by
  revert value
  decide

theorem toDigits_twoDigits {n : Nat} (h : 0x10 ≤ n) (hlt : n < 0x100) :
    Nat.toDigits 16 n = [Nat.digitChar (n / 16), Nat.digitChar (n % 16)] := by
  rw [Nat.toDigits_of_base_le (by decide) h, Nat.toDigits_of_lt_base (by omega)]
  rfl

theorem hexDigits_of_lt {code : CodeUnit} (h : code.toNat < 0x10) :
    hexDigits code = [digit code.toNat] := by
  unfold hexDigits
  rw [Nat.toDigits_of_lt_base h]
  rfl

theorem hexDigits_of_le {code : CodeUnit} (h : 0x10 ≤ code.toNat) (hlt : code.toNat < 0x100) :
    hexDigits code = [digit (code.toNat / 16), digit (code.toNat % 16)] := by
  unfold hexDigits
  rw [toDigits_twoDigits h hlt]
  rfl

theorem hexNumber_digits {values : List Nat} (hne : values ≠ [])
    (h : ∀ value ∈ values, value < 16) : hexNumber (values.map digit) = some (hexValue values) := by
  have htrim : (values.map digit).rdropWhile (fun c => isSpace c.toNat) = values.map digit := by
    apply List.rdropWhile_eq_self_iff.mpr
    intro hne'
    rw [List.getLast_map, (digit_spec (h _ (List.getLast_mem hne))).2]
    decide
  have hread : (values.map digit).mapM digitValue = some values := by
    clear htrim hne
    induction values with
    | nil => rfl
    | cons value values ih =>
      obtain ⟨hvalue, hvalues⟩ := List.forall_mem_cons.mp h
      rw [List.map_cons, List.mapM_cons, (digit_spec hvalue).1, ih hvalues]
      rfl
  obtain ⟨value, rest, rfl⟩ := List.exists_cons_of_ne_nil hne
  unfold hexNumber
  rw [htrim]
  rw [List.map_cons] at hread ⊢
  simp only [hread, Option.map_some]

theorem fromCharCode_toNat (code : CodeUnit) : fromCharCode (some code.toNat) = code :=
  UInt16.ofNat_toNat

theorem read_hexDigits {code : CodeUnit} (hlt : code.toNat < 0x100) :
    fromCharCode (hexNumber (hexDigits code)) = code := by
  rcases Nat.lt_or_ge code.toNat 0x10 with hsmall | hlarge
  · have hvalues : ∀ value ∈ [code.toNat], value < 16 := List.forall_mem_singleton.mpr hsmall
    have hread : hexNumber ([code.toNat].map digit) = some code.toNat := by
      rw [hexNumber_digits (List.cons_ne_nil _ _) hvalues]
      simp [hexValue]
    rw [hexDigits_of_lt hsmall]
    exact (congrArg fromCharCode hread).trans (fromCharCode_toNat code)
  · have hvalues : ∀ value ∈ [code.toNat / 16, code.toNat % 16], value < 16 := by
      intro value hvalue
      rcases List.mem_pair.mp hvalue with rfl | rfl
      · omega
      · omega
    have hread : hexNumber ([code.toNat / 16, code.toNat % 16].map digit) = some code.toNat := by
      rw [hexNumber_digits (List.cons_ne_nil _ _) hvalues]
      simp [hexValue, Nat.div_add_mod]
    rw [hexDigits_of_le hlarge hlt]
    exact (congrArg fromCharCode hread).trans (fromCharCode_toNat code)

/-! ## The round trip -/

/-- Every code fits into two digits, and all but the last need both. -/
def TwoDigits (string : List CodeUnit) : Prop :=
  (∀ code ∈ string, code.toNat < 0x100) ∧ ∀ code ∈ string.dropLast, 0x10 ≤ code.toNat

theorem TwoDigits.round_trip {string : List CodeUnit} (h : TwoDigits string) :
    hexToString (stringToHex string) = string := by
  obtain ⟨hall, hfull⟩ := h
  induction string with
  | nil => rfl
  | cons code rest ih =>
    obtain ⟨hcode, hrest⟩ := List.forall_mem_cons.mp hall
    cases rest with
    | nil =>
      have hread := read_hexDigits hcode
      unfold stringToHex
      rw [List.map_singleton, List.flatten_singleton]
      rcases Nat.lt_or_ge code.toNat 0x10 with hsmall | hlarge
      · rw [hexDigits_of_lt hsmall] at hread ⊢
        rw [hexToString_single, hread]
      · rw [hexDigits_of_le hlarge hcode] at hread ⊢
        rw [hexToString_pair, hread, hexToString_nil]
    | cons next rest =>
      rw [List.dropLast_cons_cons] at hfull
      obtain ⟨hlarge, hfull⟩ := List.forall_mem_cons.mp hfull
      have hread := read_hexDigits hcode
      have hcons : stringToHex (code :: next :: rest) =
          hexDigits code ++ stringToHex (next :: rest) := rfl
      rw [hcons]
      rw [hexDigits_of_le hlarge hcode] at hread ⊢
      rw [List.cons_append, List.cons_append, List.nil_append, hexToString_pair, hread,
        ih hrest hfull]

theorem length_hexDigits {code : CodeUnit} (h : code.toNat < 0x100) :
    (hexDigits code).length = if code.toNat < 0x10 then 1 else 2 := by
  split
  · next hsmall => rw [hexDigits_of_lt hsmall]; rfl
  · next hlarge => rw [hexDigits_of_le (Nat.le_of_not_lt hlarge) h]; rfl

/-- Two digits for each character at most, and one less for one with a small code. -/
theorem length_stringToHex_le {string : List CodeUnit} (h : ∀ code ∈ string, code.toNat < 0x100) :
    (stringToHex string).length ≤ 2 * string.length ∧
      ∀ code ∈ string, code.toNat < 0x10 → (stringToHex string).length < 2 * string.length := by
  induction string with
  | nil => exact ⟨Nat.le_refl _, fun _ hcode => nomatch hcode⟩
  | cons code string ih =>
    obtain ⟨hcode, hstring⟩ := List.forall_mem_cons.mp h
    obtain ⟨hle, hlt⟩ := ih hstring
    have hlength : (stringToHex (code :: string)).length =
        (hexDigits code).length + (stringToHex string).length := List.length_append
    rw [hlength, length_hexDigits hcode, List.length_cons]
    refine ⟨by split <;> omega, ?_⟩
    intro code' hmem hsmall
    rcases List.mem_cons.mp hmem with rfl | hmem
    · rw [if_pos hsmall]
      omega
    · have := hlt code' hmem hsmall
      split <;> omega

/-- Text comes back from its digits when two digits stand for each character. -/
theorem hexToString_stringToHex_iff {string : List CodeUnit} :
    hexToString (stringToHex string) = string ↔ TwoDigits string := by
  refine ⟨fun h => ?_, TwoDigits.round_trip⟩
  obtain ⟨hlength, hall, hlast⟩ := hexToString_shape (stringToHex string)
  rw [h] at hlength hall hlast
  refine ⟨hall, ?_⟩
  rcases List.eq_nil_or_concat' string with rfl | ⟨before, code, rfl⟩
  · exact fun _ hmem => nomatch hmem
  · rw [List.dropLast_concat]
    intro code' hmem
    apply Nat.le_of_not_lt
    intro hsmall
    obtain ⟨hbefore, hcode⟩ := List.forall_mem_append.mp hall
    have hcode : code.toNat < 0x100 := hcode code (List.mem_singleton_self _)
    have hlt := (length_stringToHex_le hbefore).2 code' hmem hsmall
    have hhex : (stringToHex (before ++ [code])).length =
        (stringToHex before).length + (hexDigits code).length := by
      unfold stringToHex
      rw [List.map_append, List.flatten_append, List.length_append, List.map_singleton,
        List.flatten_singleton]
    rw [hhex, length_hexDigits hcode, List.length_append, List.length_singleton] at hlength
    rw [hhex, length_hexDigits hcode, List.getLast?_concat] at hlast
    split at hlength
    · omega
    · next hlarge =>
      rw [if_neg hlarge] at hlast
      exact hlarge (hlast (by omega) code rfl)

/-- Chunks are those of the array when no element is an array, and texts come back from their digits
when two digits stand for each character. -/
theorem lossless_iff {α : Type u} (array : List (Element α)) (num : ℕ+)
    (string : List CodeUnit) :
    (Cut num array (chunk array num) ∧ chunk array num = toChunkedArray array num ↔
        ∀ item ∈ array, ∃ a, item = .leaf a) ∧
      (hexToString (stringToHex string) = string ↔ TwoDigits string) :=
  ⟨chunk_cut_iff, hexToString_stringToHex_iff⟩

/-- A pair is chunked into its items, and two line breaks are read as one character. -/
theorem pair_and_lineBreaks_not_lossless :
    ¬Cut 1 [Element.array [.leaf 1, .leaf 2]] (chunk [.array [.leaf 1, .leaf 2]] 1) ∧
      hexToString (stringToHex [0xa, 0xa]) ≠ [0xa, 0xa] := by
  constructor
  · intro h
    have hflatten : [Element.leaf 1, .leaf 2] = [.array [.leaf 1, .leaf 2]] := h.flatten
    cases hflatten
  · decide

end DefiBackend
