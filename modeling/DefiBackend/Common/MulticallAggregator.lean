import DefiBackend.Common.AbiDecoding
import DefiBackend.Common.Address
import DefiBackend.Common.CacheKey
import DefiBackend.Common.CallData
import DefiBackend.Common.JsValue
import DefiBackend.Theory.Fallible

/-! # Contract calls in batches

`multicall.aggregator.ts`: labelled calls are encoded, those with one address and one call data are
sent once, and what they return is decoded and given back under the labels. A list of calls is
labelled by addresses, names and arguments.

* `Provider.handleInBatches_eq`: every label has the result of the last call that is sent like its
  own;
* `Provider.transparent_iff`: when the results of a map and of a list are those of the calls
  themselves. -/

namespace DefiBackend
namespace MulticallAggregator
open Theory

structure InputOutput (α : Type) where
  data : Option α
  plain : Option String

structure CallData where
  address : Address
  abi : AbiItem
  input : InputOutput (List JsValue)
  output : InputOutput OutputData

/-- `createCall`, of a `DynamicContract` or an `ERC20`. -/
def createCall (address : Address) (abi : AbiItem) (inputs : List JsValue) : CallData where
  address
  abi
  input := ⟨some inputs, none⟩
  output := ⟨none, none⟩

/-- web3 and a chain. What is encoded are hexadecimal digits after `0x`, so no underscores. A call
returns the same data alone and in a batch, or reverts. -/
structure Provider where
  chain : Nat
  encodeFunctionCall : AbiItem → List JsValue → Except String String
  decodeParameters : List AbiParameter → String → Except String DecodedParameters
  execute : Address → String → Except String String
  hex : encodeFunctionCall abi args = .ok plain → '_' ∉ plain.toList

namespace CallData

/-- The arguments, none where there is no list. -/
def args (call : CallData) : List JsValue := call.input.data.getD []

def setInput (call : CallData) (plain : String) : CallData :=
  { call with input := { call.input with plain := some plain } }

def plain (call : CallData) : String := call.input.plain.getD ""

/-- `concatStrings(chain, c.address, c.input.plain)`. -/
def callId (call : CallData) (chain : Nat) : String :=
  keyField chain (call.address ++ "_" ++ call.plain)

/-- `key`. -/
def key (call : CallData) : String :=
  let data := match call.input.data with
    | some data => (JsValue.arr data).stringify.getD "undefined"
    | none => "undefined"
  call.address ++ "_" ++ call.abi.name ++ "_" ++ data

end CallData

theorem createCall_key_inj (h : (createCall a abi inputs).key = (createCall b abi inputs).key) :
    a = b := by
  have hlist := congrArg String.toList h
  simp only [CallData.key, createCall, String.toList_append, List.append_assoc,
    List.append_cancel_right_eq] at hlist
  exact String.toList_inj.mp hlist

/-- Calls with one text are told apart by their addresses and texts. -/
theorem createCall_text_key_inj {x y : String}
    (h : (createCall a abi [.str x]).key = (createCall b abi [.str y]).key) : a = b ∧ x = y := by
  have hlist := congrArg String.toList h
  simp only [CallData.key, createCall, JsValue.stringify, JsValue.stringifyItems,
    JsValue.quote_eq, Option.getD_some, String.intercalate_singleton, String.toList_append,
    String.toList_ofList, List.append_assoc] at hlist
  have hquoted : (a.toList ++ ("_".toList ++ (abi.name.toList ++ "_".toList))) ++
      '[' :: '"' :: x.toList.flatMap JsValue.escapeChar =
        (b.toList ++ ("_".toList ++ (abi.name.toList ++ "_".toList))) ++
          '[' :: '"' :: y.toList.flatMap JsValue.escapeChar := by
    refine @List.append_cancel_right _ _ ['"', ']'] _ ?_
    simp only [List.append_assoc, List.cons_append]
    exact hlist
  obtain ⟨haddress, htext⟩ := JsValue.append_quote_inj hquoted
  rw [List.append_cancel_right_eq] at haddress
  exact ⟨String.toList_inj.mp haddress, String.toList_inj.mp htext⟩

/-- A map of calls. -/
structure LabelledCalls where
  calls : JsMap String CallData
  nodup : calls.keys.Nodup

namespace Provider
variable (provider : Provider)

/-- `multicall.aggregate`: one call that reverts makes all revert. -/
def aggregate (calls : List (Address × String)) : Except String (List String) :=
  calls.mapM fun call => provider.execute call.1 call.2

/-- The call with its call data. -/
def encode (call : CallData) : Except String CallData := do
  let plain ← provider.encodeFunctionCall call.abi call.args
  pure (call.setInput plain)

/-- The call with its decoded result. -/
def decode (call : CallData) (plain : String) : Except String CallData := do
  let outputResult ← provider.decodeParameters call.abi.outputs plain
  pure { call with output := ⟨some (decodeOutput call.abi outputResult), some plain⟩ }

def handleInBatches (calls : JsMap String CallData) :
    Except String (JsMap String (Option CallData)) := do
  let encoded ← calls.mapM fun e => do
    let call ← provider.encode e.2
    pure (e.1, call)
  let callLabelToCallIdMap : JsMap String String :=
    .ofEntries (encoded.map fun e => (e.1, e.2.callId provider.chain))
  let callsMap : JsMap String CallData :=
    .ofEntries (encoded.map fun e => (e.2.callId provider.chain, e.2))
  let returnData ← provider.aggregate (callsMap.map fun e => (e.2.address, e.2.plain))
  let executed : JsMap String CallData ← (callsMap.zip returnData).mapM fun e => do
    let callInMap ← provider.decode e.1.2 e.2
    pure (e.1.1, callInMap)
  pure (callLabelToCallIdMap.map fun e => (e.1, executed.get e.2))

end Provider

/-- `results.get(label).output.data`. -/
def output (results : JsMap String (Option CallData)) (label : String) :
    Except String (Option OutputData) :=
  match (results.get label).join with
  | some call => pure call.output.data
  | none => throw typeError

namespace Provider
variable (provider : Provider)

def call (call : CallData) : Except String (Option OutputData) := do
  let results ← provider.handleInBatches (.ofEntries [("single-call", call)])
  output results "single-call"

def callArray (calls : List CallData) : Except String (List (Option OutputData)) := do
  let callMap := JsMap.ofEntries (calls.map fun call => (call.key, call))
  let resultsMap ← provider.handleInBatches callMap
  calls.mapM fun call => output resultsMap call.key

/-! ## One call -/

/-- What the data returned to a call give with its own outputs. -/
def result (call : CallData) : Except String (Option OutputData) := do
  let encoded ← provider.encode call
  let plain ← provider.execute encoded.address encoded.plain
  let executed ← provider.decode encoded plain
  pure executed.output.data

/-- The calls that a call is sent as one with. -/
def Alike (call call' : CallData) : Prop :=
  call.address = call'.address ∧
    provider.encodeFunctionCall call.abi call.args = provider.encodeFunctionCall call'.abi call'.args

section
variable {provider : Provider} {c c' : CallData}

/-- A call with its call data, if it has one. -/
def encoded (provider : Provider) (call : CallData) : CallData :=
  (provider.encode call).toOption.getD call

/-- What is returned to an encoded call, if it does not revert. -/
def returned (provider : Provider) (call : CallData) : String :=
  (provider.execute call.address call.plain).toOption.getD ""

/-- An encoded call with its decoded result, if there is one. -/
def decoded (provider : Provider) (call : CallData) : CallData :=
  (provider.decode call (provider.returned call)).toOption.getD call

/-- Where a call has a result, all of its steps go through. -/
theorem result_succeeds (h : Succeeds (provider.result c)) :
    provider.encode c = .ok (provider.encoded c) ∧
      provider.execute (provider.encoded c).address (provider.encoded c).plain =
        .ok (provider.returned (provider.encoded c)) ∧
      provider.decode (provider.encoded c) (provider.returned (provider.encoded c)) =
        .ok (provider.decoded (provider.encoded c)) ∧
      provider.result c = .ok (provider.decoded (provider.encoded c)).output.data := by
  obtain ⟨data, hdata⟩ := h
  obtain ⟨call, hencode, hrest⟩ := bind_eq_ok.mp hdata
  obtain ⟨plain, hexecute, hrest⟩ := bind_eq_ok.mp hrest
  obtain ⟨executed, hdecode, hrest⟩ := bind_eq_ok.mp hrest
  have hencoded : provider.encoded c = call := by rw [encoded, hencode]; rfl
  have hreturned : provider.returned call = plain := by rw [returned, hexecute]; rfl
  have hdecoded : provider.decoded call = executed := by rw [decoded, hreturned, hdecode]; rfl
  rw [hencoded, hreturned, hdecoded, hdata]
  exact ⟨hencode, hexecute, hdecode, hrest.symm⟩

/-- The call data that are put to a call are those of its function and arguments. -/
theorem encoded_eq (h : provider.encode c = .ok (provider.encoded c)) :
    (provider.encoded c).address = c.address ∧
      provider.encodeFunctionCall c.abi c.args = .ok (provider.encoded c).plain := by
  obtain ⟨plain, hplain, he⟩ := bind_eq_ok.mp h
  rw [← Except.ok.inj he]
  exact ⟨rfl, hplain⟩

/-- Calls are sent as one exactly when their texts are the same. -/
theorem callId_encoded (hc : Succeeds (provider.result c)) (hc' : Succeeds (provider.result c')) :
    (provider.encoded c).callId provider.chain = (provider.encoded c').callId provider.chain ↔
      provider.Alike c c' := by
  obtain ⟨haddress, hplain⟩ := encoded_eq (result_succeeds hc).1
  obtain ⟨haddress', hplain'⟩ := encoded_eq (result_succeeds hc').1
  rw [Alike, hplain, hplain', CallData.callId, CallData.callId, keyField_inj, haddress, haddress']
  constructor
  · rintro ⟨-, h⟩
    have hlist := congrArg String.toList h
    simp only [String.toList_append, List.append_assoc] at hlist
    obtain ⟨ha, hp⟩ := append_last_sep_inj (provider.hex hplain) (provider.hex hplain') hlist
    rw [String.toList_inj.mp ha, String.toList_inj.mp hp]
    exact ⟨rfl, rfl⟩
  · rintro ⟨ha, hp⟩
    rw [ha, Except.ok.inj hp]
    exact ⟨rfl, rfl⟩

/-! ## Many calls -/

/-- The text by which a call is sent. -/
def sentId (provider : Provider) (call : CallData) : String :=
  (provider.encoded call).callId provider.chain

/-- Where all calls have results, the batch goes through, and every label has the result of the last
call that is sent like its own. -/
theorem handleInBatches_eq {calls : JsMap String CallData} (hnodup : calls.keys.Nodup)
    (h : ∀ e ∈ calls, Succeeds (provider.result e.2)) :
    ∃ results, provider.handleInBatches calls = .ok results ∧
      ∀ e ∈ calls, ∃ last, JsMap.lastWith (fun e => provider.sentId e.2) calls
        (provider.sentId e.2) = some last ∧ output results e.1 = provider.result last.2 := by
  have hencoded : (calls.mapM fun e => do
      let call ← provider.encode e.2
      pure (e.1, call)) = .ok (calls.map fun e => (e.1, provider.encoded e.2)) := by
    refine mapM_eq_ok fun e he => ?_
    rw [(result_succeeds (h e he)).1]
    rfl
  let callsMap : JsMap String CallData :=
    .ofEntries (calls.map fun e => (provider.sentId e.2, provider.encoded e.2))
  have hsent : ∀ x ∈ callsMap, ∃ e ∈ calls, (provider.sentId e.2, provider.encoded e.2) = x :=
    fun x hx => List.mem_map.mp (JsMap.mem_of_mem_ofEntries hx)
  have hreturned : provider.aggregate (callsMap.map fun x => (x.2.address, x.2.plain)) =
      .ok (callsMap.map fun x => provider.returned x.2) := by
    rw [aggregate, List.mapM_map]
    refine mapM_eq_ok fun x hx => ?_
    obtain ⟨e, he, rfl⟩ := hsent x hx
    exact (result_succeeds (h e he)).2.1
  have hzip : callsMap.zip (callsMap.map fun x => provider.returned x.2) =
      callsMap.map fun x => (x, provider.returned x.2) := by
    have hmap := List.zip_map' (f := id) (g := fun x => provider.returned x.2) (l := callsMap)
    rwa [List.map_id] at hmap
  have hexecuted : ((callsMap.map fun x => (x, provider.returned x.2)).mapM fun e => do
      let callInMap ← provider.decode e.1.2 e.2
      pure (e.1.1, callInMap)) = .ok (callsMap.map fun x => (x.1, provider.decoded x.2)) := by
    rw [List.mapM_map]
    refine mapM_eq_ok fun x hx => ?_
    obtain ⟨e, he, rfl⟩ := hsent x hx
    rw [Function.comp_apply, (result_succeeds (h e he)).2.2.1]
    rfl
  have hlabels : JsMap.ofEntries (calls.map fun e => (e.1, provider.sentId e.2)) =
      calls.map fun e => (e.1, provider.sentId e.2) := by
    refine JsMap.ofEntries_eq_self ?_
    rw [List.map_map]
    exact hnodup
  let executed : JsMap String CallData := callsMap.map fun x => (x.1, provider.decoded x.2)
  refine ⟨(calls.map fun e => (e.1, provider.sentId e.2)).map fun e => (e.1, executed.get e.2),
    ?_, fun e he => ?_⟩
  · unfold handleInBatches
    rw [hencoded, ok_bind, List.map_map, List.map_map]
    change (provider.aggregate (callsMap.map fun x => (x.2.address, x.2.plain)) >>= fun returnData =>
      (callsMap.zip returnData).mapM _ >>= fun executed : JsMap String CallData =>
        pure ((JsMap.ofEntries (calls.map fun e => (e.1, provider.sentId e.2))).map fun e =>
          (e.1, executed.get e.2))) = _
    rw [hreturned, ok_bind, hzip, hexecuted, ok_bind, hlabels]
    rfl
  · obtain ⟨last, hlast⟩ := JsMap.exists_lastWith (fun e => provider.sentId e.2) he
    refine ⟨last, hlast, ?_⟩
    have hmem := (JsMap.lastWith_eq_some hlast).2
    have hget : executed.get (provider.sentId e.2) =
        some (provider.decoded (provider.encoded last.2)) := by
      rw [JsMap.get_map_values, JsMap.get_ofEntries_map (fun e => provider.sentId e.2) _ calls,
        hlast]
      rfl
    have hlabel : JsMap.get (calls.map fun e => (e.1, provider.sentId e.2)) e.1 =
        some (provider.sentId e.2) := by
      rw [JsMap.get_eq_some_iff (by rw [JsMap.keys, List.map_map]; exact hnodup)]
      exact List.mem_map_of_mem he
    rw [output, JsMap.get_map_values, hlabel, (result_succeeds (h last hmem)).2.2.2]
    simp only [Option.map_some, Option.join_some, hget]
    rfl

/-- A single call has its own result. -/
theorem call_eq (c : CallData) : provider.call c = provider.result c := by
  unfold call handleInBatches result
  have hsingle : JsMap.ofEntries [("single-call", c)] = [("single-call", c)] := rfl
  rw [hsingle]
  cases hencode : provider.encode c with
  | error e =>
    simp only [List.mapM_cons, hencode]
    rfl
  | ok encoded =>
    have hmap : ∀ id : String, JsMap.ofEntries [(id, encoded)] = [(id, encoded)] := fun _ => rfl
    have hlabel : ∀ id : String, JsMap.ofEntries [("single-call", id)] = [("single-call", id)] :=
      fun _ => rfl
    simp only [List.mapM_cons, List.mapM_nil, hencode, ok_bind, pure_bind, List.map_cons,
      List.map_nil, hmap, hlabel, aggregate]
    cases hexecute : provider.execute encoded.address encoded.plain with
    | error e => rfl
    | ok plain =>
      simp only [ok_bind, pure_bind, List.zip_cons_cons, List.zip_nil_right, List.mapM_cons,
        List.mapM_nil]
      cases hdecode : provider.decode encoded plain with
      | error e => rfl
      | ok executed =>
        simp only [ok_bind, pure_bind, output, JsMap.get_cons, if_true]
        rfl

end

/-- Each label has the result of its own call, if all calls have results. -/
def Transparent (calls : JsMap String CallData) : Prop :=
  (∀ e ∈ calls, Succeeds (provider.result e.2)) →
    ∃ results, provider.handleInBatches calls = .ok results ∧
      ∀ e ∈ calls, output results e.1 = provider.result e.2

/-- The results of a list are those of its calls made one by one, if these all have results. -/
def ArrayTransparent (calls : List CallData) : Prop :=
  (∀ call ∈ calls, Succeeds (provider.call call)) →
    provider.callArray calls = calls.mapM provider.call

/-- Calls that are sent as one have one result. -/
def Agree (calls : List CallData) : Prop :=
  ∀ call ∈ calls, ∀ call' ∈ calls, provider.Alike call call' →
    provider.result call = provider.result call'

section
variable {provider : Provider}

/-- Labels have the results of their own calls exactly when calls that are sent as one have one
result. -/
theorem map_transparent_iff {calls : JsMap String CallData} (hnodup : calls.keys.Nodup) :
    provider.Transparent calls ↔
      ((∀ e ∈ calls, Succeeds (provider.result e.2)) → provider.Agree calls.values) := by
  refine imp_congr_right fun h => ?_
  obtain ⟨results, hresults, hlast⟩ := handleInBatches_eq hnodup h
  constructor
  · rintro ⟨results', hresults', hown⟩ call hcall call' hcall' halike
    obtain rfl : results = results' := Except.ok.inj (hresults.symm.trans hresults')
    obtain ⟨e, he, rfl⟩ := List.mem_map.mp hcall
    obtain ⟨e', he', rfl⟩ := List.mem_map.mp hcall'
    obtain ⟨last, hl, hout⟩ := hlast e he
    obtain ⟨last', hl', hout'⟩ := hlast e' he'
    have hsent : provider.sentId e.2 = provider.sentId e'.2 :=
      (callId_encoded (h e he) (h e' he')).mpr halike
    rw [hsent, hl'] at hl
    cases hl
    rw [← hown e he, ← hown e' he', hout, hout']
  · intro hagree
    refine ⟨results, hresults, fun e he => ?_⟩
    obtain ⟨last, hl, hout⟩ := hlast e he
    obtain ⟨hsent, hmem⟩ := JsMap.lastWith_eq_some hl
    rw [hout]
    exact hagree _ (List.mem_map_of_mem hmem) _ (List.mem_map_of_mem he)
      ((callId_encoded (h last hmem) (h e he)).mp hsent)

/-- A list has the results of its calls exactly when calls with one key have one result, and so have
those that are sent as one among the last with their keys. -/
theorem array_transparent_iff {calls : List CallData} :
    provider.ArrayTransparent calls ↔
      ((∀ call ∈ calls, Succeeds (provider.call call)) →
        (∀ call ∈ calls, ∀ call' ∈ calls, call.key = call'.key →
          provider.result call = provider.result call') ∧
        provider.Agree (JsMap.standing CallData.key calls)) := by
  refine imp_congr_right fun h => ?_
  simp only [call_eq] at h
  let callMap : JsMap String CallData := JsMap.ofEntries (calls.map fun call => (call.key, call))
  have hperm : callMap.Perm
      ((JsMap.standing CallData.key calls).map fun call => (call.key, call)) := by
    have hentries := JsMap.ofEntries_perm (calls.map fun call => (call.key, call))
    rwa [JsMap.standing_map] at hentries
  have hmap : ∀ e ∈ callMap, e.2 ∈ calls := by
    intro e he
    obtain ⟨call, hcall, rfl⟩ := List.mem_map.mp (JsMap.mem_of_mem_ofEntries he)
    exact hcall
  have hresults : ∀ e ∈ callMap, Succeeds (provider.result e.2) := fun e he => h e.2 (hmap e he)
  have hnodup : callMap.keys.Nodup := JsMap.nodup_keys_ofEntries _
  obtain ⟨results, hbatch, hlast⟩ := handleInBatches_eq hnodup hresults
  have harray : provider.callArray calls = calls.mapM fun call => output results call.key := by
    unfold callArray
    change (provider.handleInBatches callMap >>= _) = _
    rw [hbatch, ok_bind]
  have hcalls : calls.mapM provider.call = calls.mapM provider.result :=
    mapM_congr fun call _ => call_eq call
  rw [harray, hcalls, mapM_eq_iff h]
  have hstanding : ∀ call ∈ JsMap.standing CallData.key calls, (call.key, call) ∈ callMap :=
    fun call hcall => hperm.mem_iff.mpr (List.mem_map_of_mem hcall)
  constructor
  · intro hown
    refine ⟨fun call hcall call' hcall' hkey => ?_, fun call hcall call' hcall' halike => ?_⟩
    · rw [← hown call hcall, ← hown call' hcall', hkey]
    · have hmem := hstanding call hcall
      have hmem' := hstanding call' hcall'
      obtain ⟨last, hl, hout⟩ := hlast _ hmem
      obtain ⟨last', hl', hout'⟩ := hlast _ hmem'
      have hsent : provider.sentId call = provider.sentId call' :=
        (callId_encoded (hresults _ hmem) (hresults _ hmem')).mpr halike
      rw [hsent, hl'] at hl
      cases hl
      rw [← hown call (hmap _ hmem), ← hown call' (hmap _ hmem'), hout, hout']
  · rintro ⟨hkey, hagree⟩ call hcall
    -- the call that the map has for the key of this one
    obtain ⟨kept, hkept⟩ := JsMap.exists_lastWith CallData.key hcall
    have hget : callMap.get call.key = some kept :=
      (JsMap.get_ofEntries_self CallData.key calls).trans hkept
    have hmem : (call.key, kept) ∈ callMap := JsMap.mem_of_get hget
    obtain ⟨last, hl, hout⟩ := hlast _ hmem
    obtain ⟨hsent, hlastmem⟩ := JsMap.lastWith_eq_some hl
    have hin : ∀ e ∈ callMap, e.2 ∈ JsMap.standing CallData.key calls := by
      intro e he
      obtain ⟨call', hcall', rfl⟩ := List.mem_map.mp (hperm.mem_iff.mp he)
      exact hcall'
    rw [hout, hagree _ (hin _ hlastmem) _ (hin _ hmem)
      ((callId_encoded (hresults _ hlastmem) (hresults _ hmem)).mp hsent)]
    exact hkey kept (hmap _ hmem) call hcall (JsMap.lastWith_eq_some hkept).1

/-- Calls of one function that are sent as one have one result. -/
theorem result_eq_of_alike (habi : c.abi = c'.abi) (h : provider.Alike c c') :
    provider.result c = provider.result c' := by
  have hresult : ∀ call : CallData, provider.result call = (do
      let plain ← provider.encodeFunctionCall call.abi call.args
      let returned ← provider.execute call.address plain
      let outputResult ← provider.decodeParameters call.abi.outputs returned
      pure (some (decodeOutput call.abi outputResult))) := by
    intro call
    simp only [result, encode, decode, bind_assoc, pure_bind]
    rfl
  rw [hresult, hresult, h.1, h.2, habi]

/-- The calls of one function, where different ones have different keys. -/
theorem callArray_eq_mapM {calls : List CallData} {abi : AbiItem}
    (habi : ∀ call ∈ calls, call.abi = abi)
    (hkey : ∀ call ∈ calls, ∀ call' ∈ calls, call.key = call'.key → call = call')
    (h : ∀ call ∈ calls, Succeeds (provider.call call)) :
    provider.callArray calls = calls.mapM provider.call := by
  refine array_transparent_iff.mpr (fun _ => ⟨fun call hcall call' hcall' hk => ?_,
    fun call hcall call' hcall' halike => result_eq_of_alike ?_ halike⟩) h
  · rw [hkey call hcall call' hcall' hk]
  · have hmem := fun {call} (hin : call ∈ JsMap.standing CallData.key calls) =>
      (JsMap.replaced_append_standing CallData.key calls).mem_iff.mp (List.mem_append_right _ hin)
    exact (habi call (hmem hcall)).trans (habi call' (hmem hcall')).symm

theorem callArray_map {l : List α} {f : α → CallData} {abi : AbiItem} (habi : ∀ a, (f a).abi = abi)
    (hkey : ∀ a b, (f a).key = (f b).key → f a = f b)
    (h : ∀ a ∈ l, Succeeds (provider.call (f a))) :
    provider.callArray (l.map f) = l.mapM fun a => provider.call (f a) := by
  have hcalls : provider.callArray (l.map f) = (l.map f).mapM provider.call := by
    apply callArray_eq_mapM
    · exact List.forall_mem_map.mpr fun a _ => habi a
    · exact List.forall_mem_map.mpr fun a _ => List.forall_mem_map.mpr fun b _ => hkey a b
    · exact List.forall_mem_map.mpr h
  rw [hcalls, List.mapM_map]
  rfl

/-- Batches are transparent exactly as far as calls that are taken for one have one result. -/
theorem transparent_iff (provider : Provider) :
    (∀ labelled : LabelledCalls, provider.Transparent labelled.calls ↔
      ((∀ e ∈ labelled.calls, Succeeds (provider.result e.2)) →
        provider.Agree labelled.calls.values)) ∧
    ∀ calls : List CallData, provider.ArrayTransparent calls ↔
      ((∀ call ∈ calls, Succeeds (provider.call call)) →
        (∀ call ∈ calls, ∀ call' ∈ calls, call.key = call'.key →
          provider.result call = provider.result call') ∧
        provider.Agree (JsMap.standing CallData.key calls)) :=
  ⟨fun labelled => map_transparent_iff labelled.nodup, fun _ => array_transparent_iff⟩

end

end Provider

/-! ## Calls that are taken for one -/

/-- A chain on which every function returns the number one for unsigned arguments and zero for
others. -/
def sampleProvider : Provider where
  chain := 1
  encodeFunctionCall abi _ :=
    .ok (if abi.inputs.all (·.type = "uint256") then "0x6d4ce63c" else "0x0d8e6e2c")
  decodeParameters outputs plain :=
    .ok ⟨outputs.map fun o =>
      if o.type = "bool" then .flag (plain = "0x01")
      else if plain = "0x01" then .text "1" 1 else .text "0" 0, fun _ => none⟩
  execute _ plain := .ok (if plain = "0x6d4ce63c" then "0x01" else "0x00")
  hex h := by
    cases h
    split <;> decide

def sampleCall (argument output : String) : CallData where
  address := "0x6b175474e89094c44da98b954eedeac495271d0f"
  abi := ⟨"get", [⟨"id", argument⟩], [⟨"", output⟩]⟩
  input := ⟨some [.num 1], none⟩
  output := ⟨none, none⟩

/-- One function with two declared outputs. -/
def sharedCalls : LabelledCalls where
  calls := [("number", sampleCall "uint256" "uint256"), ("flag", sampleCall "uint256" "bool")]
  nodup := by decide

/-- Two functions of one name. -/
def overloads : List CallData := [sampleCall "uint256" "uint256", sampleCall "int128" "uint256"]

theorem sampleProvider_succeeds (call : CallData) : Succeeds (sampleProvider.result call) := ⟨_, rfl⟩

/-- The output of the last call is returned for both. -/
theorem taken_for_one :
    ¬ sampleProvider.Transparent sharedCalls.calls ∧ ¬ sampleProvider.ArrayTransparent overloads := by
  constructor
  · intro h
    obtain ⟨results, hresults, hown⟩ := h fun e _ => sampleProvider_succeeds e.2
    have hnumber := hown ("number", sampleCall "uint256" "uint256") (List.mem_cons_self ..)
    cases hresults
    cases hnumber
  · intro h
    have harray := h fun call _ => by
      rw [Provider.call_eq]
      exact sampleProvider_succeeds call
    cases harray

end MulticallAggregator
end DefiBackend
