import DefiBackend.Common.HexText
import DefiBackend.Integration.Protocols.MakerVault

/-! # The names of collateral types

`nameToIlk` writes a name as the 32 bytes of a collateral type, `ilkToName` reads them back: two
digits for each character, zeros for the rest.

* `pairs_eq_chunk`: the digits are paired as the fold of `chunk` groups them;
* `ilkToName_ilkText`: the name of a collateral type, its bytes without the zeros;
* `nameToIlk_eq`: the collateral type of a name, its codes with zeros after them;
* `ilk_names_distinct`: names come back, and different collateral types have different pools. -/

namespace DefiBackend
namespace Integration
namespace MakerVault
open Theory

/-- The map of `getUsersData`. -/
abbrev poolsByIlk (pools : List Pool) : JsMap String Pool :=
  .ofEntries (pools.map fun pool => (pool.name, pool))

/-- The code units of a character, two for one beyond the basic plane. -/
def charCodes (c : Char) : List Nat :=
  if c.toNat < 0x10000 then [c.toNat]
  else [0xd800 + (c.toNat - 0x10000) / 0x400, 0xdc00 + (c.toNat - 0x10000) % 0x400]

def nameToIlk (name : String) : Address :=
  "0x" ++ String.ofList
    (((name.toList.flatMap charCodes).flatMap (Nat.toDigits 16 ·)).rightpad 64 '0')

/-- A name that fits: at most 32 characters, each with a code of two digits. -/
structure IlkName where
  text : String
  length_le : text.length ≤ 32
  codes : ∀ c ∈ text.toList, 0x10 ≤ c.toNat ∧ c.toNat ≤ 0xff

/-- The two digits of a byte. -/
def byteDigits (byte : Nat) : List Char := [Nat.digitChar (byte / 16), Nat.digitChar (byte % 16)]

/-- Bytes as the contracts' results give them. -/
def ilkText (bytes : List Nat) : Address := "0x" ++ String.ofList (bytes.flatMap byteDigits)

/-- A collateral type: 32 bytes, those that are not zero first. -/
@[ext] structure Ilk where
  bytes : List UInt8
  length_eq : bytes.length = 32
  nonzero_first : ∃ n, (∀ byte ∈ bytes.take n, byte ≠ 0) ∧ ∀ byte ∈ bytes.drop n, byte = 0

def Ilk.text (ilk : Ilk) : Address := ilkText (ilk.bytes.map UInt8.toNat)

/-! ## Reading -/

theorem pairs_eq_chunk (digits : List Char) :
    chunk (digits.map Element.leaf) 2 = (pairs digits).map (·.map Element.leaf) := by
  have hpairs : chunks 1 digits = pairs digits := by
    induction digits using List.twoStepInduction with
    | nil => rw [chunks, pairs]
    | singleton c => rw [chunks, List.take_nil, List.drop_nil, chunks, pairs]
    | cons_cons c c' digits ih _ =>
      rw [chunks, pairs, ← ih]
      rfl
  rw [chunk_leaves]
  exact congrArg _ hpairs

theorem hexDigit_digitChar {value : Nat} (h : value < 16) :
    hexDigit (Nat.digitChar value) = some value := by
  revert value
  decide

theorem chunkChar_byteDigits {byte : Nat} (h : byte < 0x100) :
    chunkChar (byteDigits byte) = if byte = 0 then none else some (Char.ofNat byte) := by
  have hread : (byteDigits byte).mapM hexDigit = some [byte / 16, byte % 16] := by
    unfold byteDigits
    rw [List.mapM_cons, List.mapM_cons, hexDigit_digitChar (by omega),
      hexDigit_digitChar (by omega)]
    rfl
  have hvalue : [byte / 16, byte % 16].foldl (fun num digit => 16 * num + digit) 0 = byte := by
    simp [Nat.div_add_mod]
  unfold chunkChar
  simp only [hread, hvalue]

theorem filterMap_pairs {bytes : List Nat} (h : ∀ byte ∈ bytes, byte < 0x100) :
    (pairs (bytes.flatMap byteDigits)).filterMap chunkChar =
      (bytes.filter (· ≠ 0)).map Char.ofNat := by
  induction bytes with
  | nil => rfl
  | cons byte bytes ih =>
    obtain ⟨hbyte, hbytes⟩ := List.forall_mem_cons.mp h
    have hpairs : pairs ((byte :: bytes).flatMap byteDigits) =
        byteDigits byte :: pairs (bytes.flatMap byteDigits) := rfl
    rw [hpairs, List.filterMap_cons, chunkChar_byteDigits hbyte, ih hbytes]
    cases byte <;> rfl

/-- The name of a collateral type. -/
theorem ilkToName_ilkText {bytes : List Nat} (h : ∀ byte ∈ bytes, byte < 0x100) :
    ilkToName (ilkText bytes) = String.ofList ((bytes.filter (· ≠ 0)).map Char.ofNat) := by
  have hdrop : (ilkText bytes).toList.drop 2 = bytes.flatMap byteDigits := by
    unfold ilkText
    rw [String.toList_append]
    exact String.toList_ofList
  unfold ilkToName
  rw [hdrop, filterMap_pairs h]

/-! ## Writing -/

theorem length_flatMap_byteDigits (bytes : List Nat) :
    (bytes.flatMap byteDigits).length = 2 * bytes.length := by
  induction bytes with
  | nil => rfl
  | cons byte bytes ih =>
    rw [List.flatMap_cons, List.length_append, ih, List.length_cons]
    show 2 + _ = _
    omega

theorem flatMap_byteDigits_zeros (n : Nat) :
    (List.replicate n 0).flatMap byteDigits = List.replicate (2 * n) '0' := by
  induction n with
  | zero => rfl
  | succ n ih => rw [List.replicate_succ, List.flatMap_cons, ih, Nat.mul_succ]; rfl

/-- The bytes of a name. -/
def IlkName.bytes (name : IlkName) : List Nat :=
  name.text.toList.map Char.toNat ++ List.replicate (32 - name.text.length) 0

theorem nameToIlk_eq (name : IlkName) : nameToIlk name.text = ilkText name.bytes := by
  have hcodes : name.text.toList.flatMap charCodes = name.text.toList.map Char.toNat := by
    rw [List.map_eq_flatMap]
    apply List.flatMap_congr
    intro c hc
    have := (name.codes c hc).2
    unfold charCodes
    rw [if_pos (by omega)]
  have hdigits : (name.text.toList.map Char.toNat).flatMap (Nat.toDigits 16 ·) =
      (name.text.toList.map Char.toNat).flatMap byteDigits := by
    apply List.flatMap_congr
    intro code hcode
    obtain ⟨c, hc, rfl⟩ := List.mem_map.mp hcode
    obtain ⟨hlow, hhigh⟩ := name.codes c hc
    exact toDigits_twoDigits hlow (Nat.lt_succ_of_le hhigh)
  have hpad : 64 - 2 * name.text.length = 2 * (32 - name.text.length) := by omega
  unfold nameToIlk ilkText IlkName.bytes
  rw [hcodes, hdigits, List.rightpad, length_flatMap_byteDigits, List.length_map,
    String.length_toList, hpad, List.flatMap_append, flatMap_byteDigits_zeros]

theorem IlkName.bytes_lt (name : IlkName) : ∀ byte ∈ name.bytes, byte < 0x100 := by
  intro byte hbyte
  rcases List.mem_append.mp hbyte with hbyte | hbyte
  · obtain ⟨c, hc, rfl⟩ := List.mem_map.mp hbyte
    exact Nat.lt_succ_of_le (name.codes c hc).2
  · rw [List.eq_of_mem_replicate hbyte]
    decide

theorem ilkToName_nameToIlk (name : IlkName) : ilkToName (nameToIlk name.text) = name.text := by
  have hcodes : (name.text.toList.map Char.toNat).filter (· ≠ 0) =
      name.text.toList.map Char.toNat := by
    apply List.filter_eq_self.mpr
    intro code hcode
    obtain ⟨c, hc, rfl⟩ := List.mem_map.mp hcode
    have := (name.codes c hc).1
    apply decide_eq_true
    omega
  have hzeros : (List.replicate (32 - name.text.length) 0).filter (· ≠ 0) = [] := by
    apply List.filter_eq_nil_iff.mpr
    intro byte hbyte
    rw [List.eq_of_mem_replicate hbyte]
    decide
  have hback : (name.text.toList.map Char.toNat).map Char.ofNat = name.text.toList := by
    rw [List.map_map]
    exact (List.map_congr_left fun c _ => Char.ofNat_toNat c).trans (List.map_id _)
  rw [nameToIlk_eq, ilkToName_ilkText name.bytes_lt, IlkName.bytes, List.filter_append, hcodes,
    hzeros, List.append_nil, hback, String.ofList_toList]

/-! ## Pools -/

theorem IlkName.nameToIlk_injective :
    Function.Injective fun name : IlkName => nameToIlk name.text := by
  intro name name' h
  have htext : name.text = name'.text := by
    rw [← ilkToName_nameToIlk name, ← ilkToName_nameToIlk name']
    exact congrArg ilkToName h
  cases name
  cases name'
  cases htext
  rfl

namespace Ilk

/-- A collateral type is given by its bytes that are not zero. -/
theorem bytes_eq (ilk : Ilk) :
    ilk.bytes = ilk.bytes.filter (· ≠ 0) ++
      List.replicate (32 - (ilk.bytes.filter (· ≠ 0)).length) 0 := by
  obtain ⟨n, hfirst, hrest⟩ := ilk.nonzero_first
  have hfilter : ilk.bytes.filter (· ≠ 0) = ilk.bytes.take n := by
    have htake : (ilk.bytes.take n).filter (· ≠ 0) = ilk.bytes.take n :=
      List.filter_eq_self.mpr fun byte hbyte => decide_eq_true (hfirst byte hbyte)
    have hdrop : (ilk.bytes.drop n).filter (· ≠ 0) = [] := by
      apply List.filter_eq_nil_iff.mpr
      intro byte hbyte
      rw [hrest byte hbyte]
      decide
    rw [← List.take_append_drop n ilk.bytes, List.filter_append, htake, hdrop, List.append_nil,
      List.take_append_drop]
  have hzeros : ilk.bytes.drop n = List.replicate (32 - (ilk.bytes.take n).length) 0 := by
    have hlength : (ilk.bytes.drop n).length = 32 - (ilk.bytes.take n).length := by
      rw [List.length_drop, List.length_take, ilk.length_eq]
      omega
    rw [← hlength]
    exact List.eq_replicate_of_mem hrest
  rw [hfilter, ← hzeros, List.take_append_drop]

theorem name_eq (ilk : Ilk) :
    ilkToName ilk.text =
      String.ofList ((ilk.bytes.filter (· ≠ 0)).map fun byte => Char.ofNat byte.toNat) := by
  have hlt : ∀ byte ∈ ilk.bytes.map UInt8.toNat, byte < 0x100 := by
    intro byte hbyte
    obtain ⟨b, -, rfl⟩ := List.mem_map.mp hbyte
    exact b.toNat_lt
  have hfilter : (ilk.bytes.map UInt8.toNat).filter (· ≠ 0) =
      (ilk.bytes.filter (· ≠ 0)).map UInt8.toNat := by
    rw [List.filter_map]
    refine congrArg _ (List.filter_congr fun byte _ => ?_)
    exact decide_eq_decide.mpr (not_congr (UInt8.toNat_inj (b := 0)))
  unfold text
  rw [ilkToName_ilkText hlt, hfilter, List.map_map]
  rfl

/-- Different collateral types have different names. -/
theorem name_injective {ilk ilk' : Ilk} (h : ilkToName ilk.text = ilkToName ilk'.text) :
    ilk = ilk' := by
  have hchar : Function.Injective fun byte : UInt8 => Char.ofNat byte.toNat := by
    intro byte byte' hbyte
    have hcode : ∀ b : UInt8, (Char.ofNat b.toNat).toNat = b.toNat := by
      intro b
      have hvalid : b.toNat.isValidChar := .inl (Nat.lt_trans b.toNat_lt (by decide))
      rw [Char.ofNat, dif_pos hvalid]
      rfl
    have htoNat := congrArg Char.toNat hbyte
    rw [hcode, hcode] at htoNat
    exact UInt8.toNat_inj.mp htoNat
  rw [name_eq, name_eq, String.ofList_inj] at h
  have hbytes := hchar.list_map h
  ext1
  rw [ilk.bytes_eq, hbytes, ← ilk'.bytes_eq]

end Ilk

/-- Names come back from their collateral types, which are all different, and different collateral
types with the bytes that are not zero first never have the same pool. -/
theorem ilk_names_distinct :
    (∀ name : IlkName, ilkToName (nameToIlk name.text) = name.text) ∧
      (Function.Injective fun name : IlkName => nameToIlk name.text) ∧
        ∀ (pools : List Pool) (ilk ilk' : Ilk) (pool pool' : Pool), ilk ≠ ilk' →
          (poolsByIlk pools).get (ilkToName ilk.text) = some pool →
          (poolsByIlk pools).get (ilkToName ilk'.text) = some pool' → pool ≠ pool' := by
  refine ⟨ilkToName_nameToIlk, IlkName.nameToIlk_injective, ?_⟩
  intro pools ilk ilk' pool pool' hne hpool hpool' heq
  rw [JsMap.get_ofEntries_self] at hpool hpool'
  obtain ⟨hname, -⟩ := JsMap.lastWith_eq_some hpool
  obtain ⟨hname', -⟩ := JsMap.lastWith_eq_some hpool'
  apply hne
  apply Ilk.name_injective
  rw [← hname, ← hname', heq]

/-- A collateral type given by its bytes that are not zero. -/
def Ilk.ofBytes (bytes : List UInt8) (hle : bytes.length ≤ 32)
    (h : bytes.all (· ≠ 0) = true) : Ilk where
  bytes := bytes ++ List.replicate (32 - bytes.length) 0
  length_eq := by
    rw [List.length_append, List.length_replicate]
    omega
  nonzero_first := by
    refine ⟨bytes.length, ?_, ?_⟩
    · rw [List.take_left]
      exact fun byte hbyte => of_decide_eq_true (List.all_eq_true.mp h byte hbyte)
    · rw [List.drop_left]
      exact fun _ => List.eq_of_mem_replicate

def ethA : IlkName where
  text := "ETH-A"
  length_le := by decide
  codes := by
    have hall : "ETH-A".toList.all (fun c => decide (0x10 ≤ c.toNat ∧ c.toNat ≤ 0xff)) = true := by
      decide
    exact fun c hc => of_decide_eq_true (List.all_eq_true.mp hall c hc)

def ethAIlk : Ilk := .ofBytes [0x45, 0x54, 0x48, 0x2d, 0x41] (by decide) (by decide)

def ethBIlk : Ilk := .ofBytes [0x45, 0x54, 0x48, 0x2d, 0x42] (by decide) (by decide)

def poolNamed (name : String) : Pool :=
  { id := name, name, rate := .finite 1, spot := .finite 1, supplyPrice := .finite 1,
    borrowPrice := .finite 1 }

theorem ethA_ethB_distinct :
    ilkToName (nameToIlk ethA.text) = ethA.text ∧ poolNamed "ETH-A" ≠ poolNamed "ETH-B" := by
  obtain ⟨hround, -, hpools⟩ := ilk_names_distinct
  refine ⟨hround ethA, hpools [poolNamed "ETH-A", poolNamed "ETH-B"] ethAIlk ethBIlk _ _ ?_ ?_ ?_⟩
  · intro h
    exact absurd (congrArg Ilk.bytes h) (by decide)
  · decide
  · decide

end MakerVault
end Integration
end DefiBackend
