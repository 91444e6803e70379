import DefiBackend.Common.JsNumber
import DefiBackend.Rpc.EndpointsMap

/-! # Proxied calls

`rpc.service.ts`: a request is posted to the endpoints of its chain, one after another and from the
start again, until one of them replies with something valid or there are no retries left. Meanwhile
other requests are served, the map of endpoints is replaced and ordered, and the scores of earlier
replies are stored.

* `step`, `State.init`: requests and replies, together with the jobs of `EndpointsMap` and the calls
  of `SuccessScores`;
* `requests_served`: what has been posted and answered for each request, in every state of every run;
* `stored_replies`: the stored histories have scores of the replies that were received. -/

namespace DefiBackend
namespace Rpc
namespace RpcService
open Theory
open EndpointsMap (EndpointsToChainMap)

/-! ## Requests -/

/-- `getEndpointByPriority`. -/
def getEndpointByPriority (endpointsMap : EndpointsToChainMap) (chainId : ChainId) (archive : Bool) :
    List Endpoint :=
  (((endpointsMap.get chainId).getD []).filter fun endpoint =>
    !archive || endpoint.endpoint.archived == archive).map (·.endpoint)

def wrongRpcResponsePatterns : List String :=
  ["invalid json rpc response", "missing trie node", "header not found",
   "upgrade to an archive plan add-on for your account", "error", "-32000"]

def validRpcResponsePatterns : List String := ["id"]

/-- `responseString.indexOf(pattern) >= 0`. -/
def hasPattern (responseString pattern : String) : Bool :=
  pattern.toList <:+: responseString.toList

def isResponseValid (responseString : String) : Bool :=
  if responseString = "" then false
  else
    validRpcResponsePatterns.any (hasPattern responseString) &&
      !wrongRpcResponsePatterns.any (hasPattern responseString)

/-- What a post ends with: an error, or a status and some data, as `JSON.stringify` writes it. -/
inductive Reply
  | error
  | response (status : Nat) (data : Option String)
  deriving DecidableEq

/-- Whether `makeRPCCall` takes a reply. No pattern has a letter that is the lower case of one
outside ASCII. -/
def Reply.valid : Reply → Bool
  | error => false
  | response _ data => isResponseValid ((data.map String.toLower).getD "")

def Reply.score (reply : Reply) : EndpointCallScore := if reply.valid then .success else .fail

inductive Body
  | error (text : String)
  | data (data : Option String)
  deriving DecidableEq

structure Answer where
  status : Nat
  body : Body
  deriving DecidableEq

def noEndpoints (chainId : ChainId) : Answer :=
  ⟨409, .error ("No endpoints for chainId " ++ toString chainId)⟩

def noSuccess (chainId : ChainId) : Answer :=
  ⟨418, .error ("Sorry, no one of endpoints for chainId " ++ toString chainId ++
    " replies with success")⟩

/-- Where `proxyRPCCall` is: it awaits the reply of an endpoint, has returned, or has thrown. -/
inductive Progress
  | posting (endpoint : Endpoint) (index : Nat) (retries : JsNumber)
  | returned
  | threw
  deriving DecidableEq

/-- A call of `proxyRPCCall`, with the endpoints that it has found, and all it has answered. -/
structure Request where
  chainId : ChainId
  endpoints : List Endpoint
  progress : Progress
  answers : List Answer

namespace Request
variable (r : Request)

def answer (a : Answer) : Request := { r with progress := .returned, answers := r.answers ++ [a] }

/-- The head of the loop. -/
def tryNext (index : Nat) (retries : JsNumber) : Request :=
  if (0 : JsNumber).le retries then
    match r.endpoints[index]? with
    | some endpoint => { r with progress := .posting endpoint index retries }
    | none => { r with progress := .threw }
  else r.answer (noSuccess r.chainId)

end Request

/-- `this.maxRetries || 3`. -/
def retriesAtFirst (maxRetries : JsNumber) : JsNumber :=
  if maxRetries.falsy then .finite 3 else maxRetries

/-- The start of `proxyRPCCall`. -/
def proxyRPCCall (maxRetries : JsNumber) (chainId : ChainId) (endpoints : List Endpoint) : Request :=
  let request : Request := ⟨chainId, endpoints, .returned, []⟩
  if endpoints = [] then request.answer (noEndpoints chainId)
  else request.tryNext 0 (retriesAtFirst maxRetries)

/-- The loop after a reply. -/
def Request.reply (r : Request) (index : Nat) (retries : JsNumber) : Reply → Request
  | .error => r.tryNext ((index + 1) % r.endpoints.length) (retries - 1)
  | .response status data =>
    if Reply.valid (.response status data) then r.answer ⟨status, .data data⟩
    else r.tryNext ((index + 1) % r.endpoints.length) (retries - 1)

/-! ## The service -/

/-- A reply that has been received for a request. -/
structure Received where
  request : Nat
  endpoint : Endpoint
  reply : Reply
  deriving DecidableEq

structure State where
  map : EndpointsMap.State
  scores : SuccessScores.State
  requests : List Request
  received : List Received

inductive Action
  | request (chainId : ChainId) (archive : Bool)
  | reply (n : Nat) (reply : Reply)
  | map (a : EndpointsMap.Action)
  | scores (a : SuccessScores.Action)

namespace State

def init (heap : EndpointsMap.Heap) (clock : Int) (previous : String → History clock) : State :=
  ⟨.init heap, .init clock previous, [], []⟩

/-- The replies for a request, the first one first. -/
def replies (s : State) (n : Nat) : List (Endpoint × Reply) :=
  (s.received.filter (·.request = n)).map fun received => (received.endpoint, received.reply)

end State

/-- The jobs get from the cache what is in it. -/
def readsCache (s : State) : EndpointsMap.Action → Bool
  | .scores task scores =>
    match s.map.tasks task with
    | .scores _ _ _ endpointStatistic _ =>
      scores = s.scores.cache (endpointScoresCacheKey endpointStatistic.endpoint)
    | _ => false
  | _ => true

/-- One step. Each reply starts one call of `updateEndpointSuccessRate`, which is not awaited. -/
def step (config : Config) (maxRetries : JsNumber) (s : State) : Action → Option State
  | .request chainId archive =>
    let endpoints := getEndpointByPriority s.map.endpointsMap chainId archive
    some { s with requests := s.requests ++ [proxyRPCCall maxRetries chainId endpoints] }
  | .reply n reply =>
    match s.requests[n]? with
    | some r =>
      match r.progress with
      | .posting endpoint index retries =>
        (SuccessScores.step config s.scores (.call endpoint reply.score)).map fun scores =>
          { s with
            scores
            requests := s.requests.set n (r.reply index retries reply)
            received := s.received ++ [⟨n, endpoint, reply⟩] }
      | _ => none
    | none => none
  | .map a => if readsCache s a then (EndpointsMap.step s.map a).map ({ s with map := · }) else none
  | .scores (.call ..) => none
  | .scores a => (SuccessScores.step config s.scores a).map ({ s with scores := · })

/-! ## What a request gets -/

/-- There is a try after some tries: the first one, and `RPC_NODES_MAX_RETRIES` more, or three more
where that is zero or no number. -/
def MayTry : JsNumber → Nat → Prop
  | .finite max, k => if max = 0 then k ≤ 3 else (k : ℚ) ≤ max
  | .infinity negative, _ => negative = false
  | .nan, k => k ≤ 3

/-- What there is of a request, by the replies it has received. The replies are those of the
endpoints in their order and round again, there is a try for each, and only the last one can be
valid. Nothing is answered while a reply is awaited, and once after that: with what the valid reply
has, or with an error when there are no endpoints, or no tries left. -/
structure Served (maxRetries : JsNumber) (r : Request) (replies : List (Endpoint × Reply)) : Prop where
  round : ∀ k e, replies[k]? = some e → r.endpoints[k % r.endpoints.length]? = some e.1
  tries : ∀ k < replies.length, MayTry maxRetries k
  invalid : ∀ e ∈ replies.dropLast, ¬ e.2.valid
  posting : ∀ endpoint index retries, r.progress = .posting endpoint index retries →
    r.answers = [] ∧ (∀ e ∈ replies, ¬ e.2.valid) ∧ MayTry maxRetries replies.length ∧
      r.endpoints[replies.length % r.endpoints.length]? = some endpoint
  returned : r.progress = .returned →
    (r.endpoints = [] ∧ r.answers = [noEndpoints r.chainId]) ∨
    (∃ endpoint status data, replies.getLast? = some (endpoint, .response status data) ∧
      Reply.valid (.response status data) ∧ r.answers = [⟨status, .data data⟩]) ∨
    (r.endpoints ≠ [] ∧ (∀ e ∈ replies, ¬ e.2.valid) ∧ ¬ MayTry maxRetries replies.length ∧
      r.answers = [noSuccess r.chainId])
  noThrow : r.progress ≠ .threw

section
variable {maxRetries : JsNumber} {r : Request} {replies : List (Endpoint × Reply)}
  {endpoint : Endpoint} {reply : Reply} {index : Nat} {retries : JsNumber}

/-- A request all of whose replies so far are not valid. -/
structure Tried (maxRetries : JsNumber) (r : Request) (replies : List (Endpoint × Reply)) : Prop where
  nonempty : r.endpoints ≠ []
  answers : r.answers = []
  round : ∀ k e, replies[k]? = some e → r.endpoints[k % r.endpoints.length]? = some e.1
  tries : ∀ k < replies.length, MayTry maxRetries k
  invalid : ∀ e ∈ replies, ¬ e.2.valid

/-- A request is served, and while it awaits a reply its index and its retries are those of the
replies it has had. -/
structure Inv (maxRetries : JsNumber) (r : Request) (replies : List (Endpoint × Reply)) : Prop where
  served : Served maxRetries r replies
  awaiting : ∀ endpoint index retries, r.progress = .posting endpoint index retries →
    Tried maxRetries r replies ∧ index = replies.length % r.endpoints.length ∧
      retries = retriesAtFirst maxRetries - .finite replies.length

/-- Retries go down by one with every reply. -/
theorem retries_succ (a : JsNumber) (k : Nat) :
    a - .finite k - 1 = a - .finite (k + 1 : Nat) := by
  change a + -JsNumber.finite k + JsNumber.finite (-1) = a + JsNumber.finite (-((k + 1 : Nat) : ℚ))
  rw [JsNumber.add_assoc]
  refine congrArg (a + ·) (congrArg JsNumber.finite ?_)
  push_cast
  ring

theorem index_succ (k n : Nat) : (k % n + 1) % n = (k + 1) % n := Nat.mod_add_mod k n 1

theorem finite_mayTry {max : ℚ} {k : Nat} :
    (0 : JsNumber).le (.finite max - .finite k) ↔ (k : ℚ) ≤ max := by
  rw [JsNumber.finite_sub, ← sub_nonneg]
  exact JsNumber.finite_le

/-- The loop goes on while there is a try. -/
theorem mayTry_iff {k : Nat} :
    MayTry maxRetries k ↔ (0 : JsNumber).le (retriesAtFirst maxRetries - .finite k) := by
  have hthree : (0 : JsNumber).le (.finite 3 - .finite k) ↔ k ≤ 3 :=
    finite_mayTry.trans Nat.cast_le_ofNat
  unfold retriesAtFirst
  cases maxRetries with
  | finite max =>
    by_cases hmax : max = 0
    · rw [if_pos (JsNumber.falsy_finite.mpr hmax), hthree, MayTry, if_pos hmax]
    · rw [if_neg (mt JsNumber.falsy_finite.mp hmax), finite_mayTry, MayTry, if_neg hmax]
  | infinity negative =>
    cases negative with
    | false => exact iff_of_true rfl rfl
    | true => exact iff_of_false nofun nofun
  | nan => exact hthree.symm

theorem Tried.tryNext (H : Tried maxRetries r replies) :
    Inv maxRetries (r.tryNext (replies.length % r.endpoints.length)
      (retriesAtFirst maxRetries - .finite replies.length)) replies := by
  have hlast : ∀ e ∈ replies.dropLast, ¬ e.2.valid :=
    fun e he => H.invalid e (List.dropLast_subset _ he)
  unfold Request.tryNext
  split
  · next hmay =>
    have hlt : replies.length % r.endpoints.length < r.endpoints.length :=
      Nat.mod_lt _ (List.length_pos_of_ne_nil H.nonempty)
    rw [List.getElem?_eq_getElem hlt]
    refine ⟨⟨H.round, H.tries, hlast, fun _ _ _ h => ?_, fun h => ?_, fun h => ?_⟩, fun _ _ _ h => ?_⟩
    · cases h
      exact ⟨H.answers, H.invalid, mayTry_iff.mpr hmay, List.getElem?_eq_getElem hlt⟩
    · cases h
    · cases h
    · cases h
      exact ⟨⟨H.nonempty, H.answers, H.round, H.tries, H.invalid⟩, rfl, rfl⟩
  · next hmay =>
    refine ⟨⟨H.round, H.tries, hlast, fun _ _ _ h => ?_, fun _ => .inr (.inr ?_), fun h => ?_⟩,
      fun _ _ _ h => ?_⟩
    · cases h
    · refine ⟨H.nonempty, H.invalid, mt mayTry_iff.mp hmay, ?_⟩
      simp only [Request.answer, H.answers, List.nil_append]
    · cases h
    · cases h

/-- A new request has had no replies. -/
theorem proxyRPCCall_inv (maxRetries : JsNumber) (chainId : ChainId) (endpoints : List Endpoint) :
    Inv maxRetries (proxyRPCCall maxRetries chainId endpoints) [] := by
  unfold proxyRPCCall
  split
  · next hempty =>
    refine ⟨⟨?_, ?_, ?_, fun _ _ _ h => ?_, fun _ => .inl ⟨hempty, rfl⟩, fun h => ?_⟩,
      fun _ _ _ h => ?_⟩
    · exact fun k e h => (by cases h)
    · exact fun k h => absurd h (Nat.not_lt_zero k)
    · exact fun e h => (by cases h)
    · cases h
    · cases h
    · cases h
  · next hne =>
    have H : Tried maxRetries ⟨chainId, endpoints, .returned, []⟩ [] :=
      ⟨hne, rfl, fun k e h => (by cases h), fun k h => absurd h (Nat.not_lt_zero k),
        fun e h => (by cases h)⟩
    have hzero : retriesAtFirst maxRetries - .finite ((0 : Nat) : ℚ) = retriesAtFirst maxRetries := by
      change retriesAtFirst maxRetries + JsNumber.finite (-((0 : Nat) : ℚ)) = _
      rw [Nat.cast_zero, neg_zero, JsNumber.add_zero]
    have hnext := H.tryNext
    rw [List.length_nil, Nat.zero_mod, hzero] at hnext
    exact hnext

/-- What holds of replies holds with one more that comes next. -/
theorem Tried.getElem?_concat (H : Tried maxRetries r replies)
    (hnext : r.endpoints[replies.length % r.endpoints.length]? = some endpoint) (k : Nat)
    (e : Endpoint × Reply) (h : (replies ++ [(endpoint, reply)])[k]? = some e) :
    r.endpoints[k % r.endpoints.length]? = some e.1 := by
  rcases lt_trichotomy k replies.length with hk | rfl | hk
  · rw [List.getElem?_append_left hk] at h
    exact H.round k e h
  · rw [List.getElem?_concat_length] at h
    cases h
    exact hnext
  · rw [List.getElem?_eq_none (by rwa [List.length_append])] at h
    cases h

theorem Inv.concat (H : Inv maxRetries r replies)
    (hposting : r.progress = .posting endpoint index retries) :
    Inv maxRetries (r.reply index retries reply) (replies ++ [(endpoint, reply)]) := by
  obtain ⟨htried, rfl, rfl⟩ := H.awaiting _ _ _ hposting
  obtain ⟨-, -, hmay, hnext⟩ := H.served.posting _ _ _ hposting
  have htries : ∀ k < (replies ++ [(endpoint, reply)]).length, MayTry maxRetries k := by
    intro k hk
    rw [List.length_append, List.length_singleton, Nat.lt_succ_iff] at hk
    rcases Nat.lt_or_eq_of_le hk with hk | rfl
    · exact htried.tries k hk
    · exact hmay
  have hinvalid : reply.valid = false → Inv maxRetries
      (r.tryNext ((replies.length % r.endpoints.length + 1) % r.endpoints.length)
        (retriesAtFirst maxRetries - .finite replies.length - 1))
      (replies ++ [(endpoint, reply)]) := by
    intro hreply
    have H' : Tried maxRetries r (replies ++ [(endpoint, reply)]) := by
      refine ⟨htried.nonempty, htried.answers, htried.getElem?_concat hnext, htries, fun e he => ?_⟩
      rcases List.mem_append.mp he with he | he
      · exact htried.invalid e he
      · obtain rfl := List.mem_singleton.mp he
        simp [hreply]
    have hnew := H'.tryNext
    rw [List.length_append, List.length_singleton] at hnew
    rw [index_succ, retries_succ]
    exact hnew
  cases reply with
  | error => exact hinvalid rfl
  | response status data =>
    rw [Request.reply]
    split
    · next hvalid =>
      refine ⟨⟨htried.getElem?_concat hnext, htries, fun e he => ?_, fun _ _ _ h => ?_,
        fun _ => .inr (.inl ⟨endpoint, status, data, ?_, hvalid, ?_⟩), fun h => ?_⟩,
        fun _ _ _ h => ?_⟩
      · rw [List.dropLast_concat] at he
        exact htried.invalid e he
      · cases h
      · exact List.getLast?_concat
      · simp only [Request.answer, htried.answers, List.nil_append]
      · cases h
      · cases h
    · next hvalid => exact hinvalid (Bool.eq_false_iff.mpr hvalid)

theorem mayTry_of_le {j k : Nat} (hjk : j ≤ k) (h : MayTry maxRetries k) : MayTry maxRetries j := by
  cases maxRetries with
  | finite max =>
    rw [MayTry] at h ⊢
    split at h
    · next hmax => rw [if_pos hmax]; exact hjk.trans h
    · next hmax => rw [if_neg hmax]; exact (Nat.cast_le.mpr hjk).trans h
  | infinity negative => exact h
  | nan => exact hjk.trans h

/-- With a try for every endpoint a request fails only when each one has been tried. -/
theorem Served.exhausted (H : Served maxRetries r replies) (hanswer : r.answers = [noSuccess r.chainId])
    (hmay : MayTry maxRetries (r.endpoints.length - 1)) {e : Endpoint} (he : e ∈ r.endpoints) :
    ∃ reply, (e, reply) ∈ replies ∧ ¬ reply.valid := by
  have hreturned : r.progress = .returned := by
    cases hprogress : r.progress with
    | posting endpoint index retries =>
      rw [(H.posting _ _ _ hprogress).1] at hanswer
      cases hanswer
    | returned => rfl
    | threw => exact absurd hprogress H.noThrow
  rcases H.returned hreturned with ⟨hempty, -⟩ | ⟨_, _, _, -, -, h⟩ | ⟨-, hinvalid, hnone, -⟩
  · rw [hempty] at he
    cases he
  · rw [h] at hanswer
    cases hanswer
  · obtain ⟨k, hk, rfl⟩ := List.getElem_of_mem he
    have hlen : k < replies.length := by
      by_contra hle
      exact hnone (mayTry_of_le (by omega) hmay)
    have hround := H.round k _ (List.getElem?_eq_getElem hlen)
    rw [Nat.mod_eq_of_lt hk, List.getElem?_eq_getElem hk, Option.some.injEq] at hround
    have hmem := List.getElem_mem hlen
    refine ⟨replies[k].2, ?_, hinvalid _ hmem⟩
    rw [hround]
    exact hmem

end

/-! ## Runs -/

/-- What a step does to the parts of the state. -/
inductive Steps (config : Config) (maxRetries : JsNumber) (s : State) : Action → State → Prop
  | request (chainId archive) : Steps config maxRetries s (.request chainId archive)
      { s with requests := s.requests ++ [proxyRPCCall maxRetries chainId
        (getEndpointByPriority s.map.endpointsMap chainId archive)] }
  | reply {n r endpoint index retries reply} (h : s.requests[n]? = some r)
      (hposting : r.progress = .posting endpoint index retries) :
      Steps config maxRetries s (.reply n reply)
        { s with
          scores := { s.scores with calls := s.scores.calls ++ [.reading endpoint reply.score] }
          requests := s.requests.set n (r.reply index retries reply)
          received := s.received ++ [⟨n, endpoint, reply⟩] }
  | map {a m} (h : EndpointsMap.step s.map a = some m) :
      Steps config maxRetries s (.map a) { s with map := m }
  | scores {a scores} (h : SuccessScores.step config s.scores a = some scores)
      (hcall : ∀ endpoint scoreValue, a ≠ .call endpoint scoreValue) :
      Steps config maxRetries s (.scores a) { s with scores }

section
variable {config : Config} {maxRetries : JsNumber} {s s' s₀ : State} {a : Action} {r : Request}
  {n : Nat}

theorem step_cases (h : step config maxRetries s a = some s') : Steps config maxRetries s a s' := by
  cases a with
  | request chainId archive =>
    cases h
    exact .request chainId archive
  | reply n reply =>
    simp only [step] at h
    split at h
    · split at h
      · cases h
        exact .reply ‹_› ‹_›
      · cases h
    · cases h
  | map a =>
    simp only [step] at h
    split at h
    · obtain ⟨m, hm, rfl⟩ := Option.map_eq_some_iff.mp h
      exact .map hm
    · cases h
  | scores a =>
    cases a with
    | call => cases h
    | get | record | set | fail =>
      obtain ⟨scores, hscores, rfl⟩ := Option.map_eq_some_iff.mp h
      exact .scores hscores fun _ _ he => by cases he

/-- Every request is served, and no reply is for a request that has not come. -/
structure Sound (maxRetries : JsNumber) (s : State) : Prop where
  inv : ∀ n r, s.requests[n]? = some r → Inv maxRetries r (s.replies n)
  received : ∀ x ∈ s.received, x.request < s.requests.length

theorem replies_eq_nil (H : Sound maxRetries s) : s.replies s.requests.length = [] := by
  rw [State.replies, List.map_eq_nil_iff, List.filter_eq_nil_iff]
  intro x hx
  simpa using (H.received x hx).ne

theorem replies_concat (s : State) (received : Received) (n : Nat) :
    ({ s with received := s.received ++ [received] } : State).replies n =
      if received.request = n then s.replies n ++ [(received.endpoint, received.reply)]
      else s.replies n := by
  rw [State.replies, List.filter_append, List.map_append]
  split
  · next h => rw [List.filter_cons_of_pos (by simpa using h)]; rfl
  · next h => rw [List.filter_cons_of_neg (by simpa using h)]; exact List.append_nil _

theorem step_sound (H : Sound maxRetries s) (hstep : step config maxRetries s a = some s') :
    Sound maxRetries s' := by
  cases step_cases hstep with
  | request chainId archive =>
    refine ⟨fun n r hr => ?_, fun x hx => ?_⟩
    · rcases Nat.lt_or_ge n s.requests.length with hn | hn
      · rw [List.getElem?_append_left hn] at hr
        exact H.inv n r hr
      · rw [List.getElem?_append_right hn] at hr
        obtain ⟨hlt, rfl⟩ := List.getElem?_eq_some_iff.mp hr
        obtain rfl : n = s.requests.length := by
          rw [List.length_singleton] at hlt
          omega
        have hnil : s.replies s.requests.length = [] := replies_eq_nil H
        change Inv maxRetries _ (s.replies s.requests.length)
        rw [hnil, List.getElem_singleton]
        exact proxyRPCCall_inv maxRetries chainId _
    · rw [List.length_append]
      exact Nat.lt_add_right _ (H.received x hx)
  | @reply n r endpoint index retries reply h hposting =>
    refine ⟨fun m q hq => ?_, fun x hx => ?_⟩
    · change Inv maxRetries q
        (({ s with received := s.received ++ [⟨n, endpoint, reply⟩] } : State).replies m)
      rw [replies_concat]
      split
      · next hmn =>
        obtain rfl : n = m := hmn
        rw [List.getElem?_set_self (List.getElem?_eq_some_iff.mp h).1, Option.some.injEq] at hq
        rw [← hq]
        exact (H.inv n r h).concat hposting
      · next hne =>
        rw [List.getElem?_set_ne hne] at hq
        exact H.inv m q hq
    · rw [List.length_set]
      rcases List.mem_append.mp hx with hx | hx
      · exact H.received x hx
      · obtain rfl := List.mem_singleton.mp hx
        exact (List.getElem?_eq_some_iff.mp h).1
  | map => exact ⟨H.inv, H.received⟩
  | scores => exact ⟨H.inv, H.received⟩

/-- A request is for one chain, with the endpoints it has found. -/
structure Request.SameCall (r r' : Request) : Prop where
  chainId : r'.chainId = r.chainId
  endpoints : r'.endpoints = r.endpoints

theorem Request.SameCall.tryNext (r : Request) (index : Nat) (retries : JsNumber) :
    r.SameCall (r.tryNext index retries) := by
  unfold Request.tryNext
  split
  · split <;> exact ⟨rfl, rfl⟩
  · exact ⟨rfl, rfl⟩

theorem Request.SameCall.reply (r : Request) (index : Nat) (retries : JsNumber) (reply : Reply) :
    r.SameCall (r.reply index retries reply) := by
  cases reply with
  | error => exact .tryNext r _ _
  | response status data =>
    rw [Request.reply]
    split
    · exact ⟨rfl, rfl⟩
    · exact .tryNext r _ _

theorem Request.SameCall.proxyRPCCall (maxRetries : JsNumber) (chainId : ChainId)
    (endpoints : List Endpoint) :
    Request.SameCall ⟨chainId, endpoints, .returned, []⟩
      (proxyRPCCall maxRetries chainId endpoints) := by
  unfold RpcService.proxyRPCCall
  split
  · exact ⟨rfl, rfl⟩
  · exact .tryNext _ _ _

/-- What a request was started with does not change. -/
theorem step_sameCall (h : s.requests[n]? = some r) (hstep : step config maxRetries s a = some s') :
    ∃ r', s'.requests[n]? = some r' ∧ r.SameCall r' := by
  cases step_cases hstep with
  | request chainId archive =>
    exact ⟨r, by rwa [List.getElem?_append_left (List.getElem?_eq_some_iff.mp h).1], rfl, rfl⟩
  | @reply m q endpoint index retries reply hm hposting =>
    by_cases hmn : m = n
    · subst hmn
      obtain rfl : q = r := Option.some.inj (hm.symm.trans h)
      exact ⟨_, List.getElem?_set_self (List.getElem?_eq_some_iff.mp h).1, .reply q index retries reply⟩
    · exact ⟨r, by rwa [List.getElem?_set_ne hmn], rfl, rfl⟩
  | map => exact ⟨r, h, rfl, rfl⟩
  | scores => exact ⟨r, h, rfl, rfl⟩

/-- The endpoints that a request finds are those of its chain in the map, or the archives among
them. -/
theorem getEndpointByPriority_eq (map : EndpointsMap.State) (chainId : ChainId) (archive : Bool) :
    getEndpointByPriority map.endpointsMap chainId archive =
      (map.endpoints chainId).filter (fun e => archive → e.archived) := by
  rw [getEndpointByPriority, EndpointsMap.State.endpoints, List.filter_map]
  refine congrArg _ (List.filter_congr fun endpoint _ => ?_)
  cases archive <;> simp

theorem init_sound (heap : EndpointsMap.Heap) (clock : Int) (previous : String → History clock) :
    Sound maxRetries (State.init heap clock previous) :=
  ⟨fun _ _ h => (by cases h), fun _ h => (by cases h)⟩

/-- A request is served with the endpoints that the map has for it when it comes, whatever else goes
on. If there is a try for each of them, it fails only after all have been tried. -/
theorem requests_served {heap : EndpointsMap.Heap} {clock : Int} {previous : String → History clock}
    {pre post : List Action} {chainId : ChainId} {archive : Bool}
    (hpre : run (step config maxRetries) (.init heap clock previous) pre = some s₀)
    (hrun : run (step config maxRetries) s₀ (.request chainId archive :: post) = some s) :
    ∃ r, s.requests[s₀.requests.length]? = some r ∧ r.chainId = chainId ∧
      r.endpoints = (s₀.map.endpoints chainId).filter (fun e => archive → e.archived) ∧
      Served maxRetries r (s.replies s₀.requests.length) ∧
      (r.answers = [noSuccess chainId] → MayTry maxRetries (r.endpoints.length - 1) →
        ∀ e ∈ r.endpoints, ∃ reply, (e, reply) ∈ s.replies s₀.requests.length ∧ ¬ reply.valid) := by
  have hsound : Sound maxRetries s := by
    have hsound₀ := (RunsUnder.of_run hpre).invariant (I := Sound maxRetries)
      (fun H _ h => step_sound H h) (init_sound heap clock previous)
    exact (RunsUnder.of_run hrun).invariant (fun H _ h => step_sound H h) hsound₀
  have hcall : ∃ r, s.requests[s₀.requests.length]? = some r ∧
      (proxyRPCCall maxRetries chainId
        (getEndpointByPriority s₀.map.endpointsMap chainId archive)).SameCall r := by
    obtain ⟨s₁, hs₁, hpost⟩ := Option.bind_eq_some_iff.mp hrun
    cases hs₁
    refine (RunsUnder.of_run hpost).invariant (I := fun s => ∃ r,
      s.requests[s₀.requests.length]? = some r ∧ (proxyRPCCall maxRetries chainId
        (getEndpointByPriority s₀.map.endpointsMap chainId archive)).SameCall r)
      (fun H _ h => ?_) ⟨_, List.getElem?_concat_length, rfl, rfl⟩
    obtain ⟨r, hr, hsame⟩ := H
    obtain ⟨r', hr', hsame'⟩ := step_sameCall hr h
    exact ⟨r', hr', hsame'.chainId.trans hsame.chainId, hsame'.endpoints.trans hsame.endpoints⟩
  obtain ⟨r, hr, hsame⟩ := hcall
  have hfirst := Request.SameCall.proxyRPCCall maxRetries chainId
    (getEndpointByPriority s₀.map.endpointsMap chainId archive)
  have hserved := (hsound.inv _ r hr).served
  obtain rfl : r.chainId = chainId := hsame.chainId.trans hfirst.chainId
  have hendpoints : r.endpoints = getEndpointByPriority s₀.map.endpointsMap r.chainId archive :=
    hsame.endpoints.trans hfirst.endpoints
  exact ⟨r, hr, rfl, hendpoints.trans (getEndpointByPriority_eq s₀.map r.chainId archive), hserved,
    fun hanswer hmay e he => hserved.exhausted hanswer hmay he⟩

/-- There are two endpoints in the table. -/
def sampleRows : List EndpointsMap.EndpointEntity :=
  [⟨SuccessScores.sampleEndpoint, true, 1⟩,
   ⟨⟨2, "https://eth.llamarpc.com", 1, false⟩, true, 1⟩]

def sampleHeap : EndpointsMap.Heap := fun _ => ⟨.ofScores [], 0⟩

/-- A request comes after the rows have been read, and fails when both endpoints have been tried. -/
theorem requests_served_sample : ∃ s₀ s,
    run (step SuccessScores.sampleConfig (.finite 1)) (.init sampleHeap 0 SuccessScores.noHistory)
      [.map (.sync 0), .map (.read 0 sampleRows)] = some s₀ ∧
    run (step SuccessScores.sampleConfig (.finite 1)) s₀
      [.request 1 false, .reply 0 .error, .reply 0 (.response 200 none)] = some s ∧
    ∃ r, s.requests[s₀.requests.length]? = some r ∧ r.answers = [noSuccess 1] ∧
      r.endpoints = sampleRows.map (·.toEndpoint) ∧
      Served (.finite 1) r (s.replies s₀.requests.length) ∧
      ∀ e ∈ r.endpoints, ∃ reply, (e, reply) ∈ s.replies s₀.requests.length ∧ ¬ reply.valid := by
  have hruns : (run (step SuccessScores.sampleConfig (.finite 1))
      (.init sampleHeap 0 SuccessScores.noHistory)
      [.map (.sync 0), .map (.read 0 sampleRows)]).any fun s₀ =>
        (run (step SuccessScores.sampleConfig (.finite 1)) s₀
          [.request 1 false, .reply 0 .error, .reply 0 (.response 200 none)]).any fun s =>
            s₀.map.endpoints 1 = sampleRows.map (·.toEndpoint) ∧
              s.requests[s₀.requests.length]?.map (·.answers) = some [noSuccess 1] := by
    decide +kernel
  simp only [Option.any_eq_true, decide_eq_true_eq, Option.map_eq_some_iff] at hruns
  obtain ⟨s₀, h₀, s, h, hmap, r, hr, hanswer⟩ := hruns
  obtain ⟨r', hr', -, hendpoints, hserved, hall⟩ := requests_served h₀ h
  obtain rfl : r = r' := Option.some.inj (hr.symm.trans hr')
  rw [hmap] at hendpoints
  refine ⟨s₀, s, h₀, h, r, hr, hanswer, hendpoints, hserved, hall hanswer ?_⟩
  rw [hendpoints]
  change if (1 : ℚ) = 0 then 1 ≤ 3 else ((1 : Nat) : ℚ) ≤ 1
  rw [if_neg one_ne_zero, Nat.cast_one]

end

/-! ## Scores of replies -/

/-- A score counts a reply, as a success exactly if it is valid. -/
def Counts (value : EndpointCallScore) (received : Received) : Prop :=
  value = .success ↔ received.reply.valid

/-- A call of `updateEndpointSuccessRate` is for a reply. -/
def ScoreOf (received : Received) : SuccessScores.Call → Prop
  | .reading endpoint scoreValue | .loaded endpoint scoreValue _ =>
    endpoint = received.endpoint ∧ Counts scoreValue received
  | .storing endpoint score .. | .completed endpoint score =>
    endpoint = received.endpoint ∧ Counts score.value received
  | .failed endpoint => endpoint = received.endpoint

/-- A history has scores that count some of the replies, each of them once, and some of the scores
from before. -/
def MadeOf (received : List Received) (before scores : List SuccessScore) : Prop :=
  ∃ fresh kept, scores.Perm (fresh ++ kept) ∧
    List.SublistForall₂ (Counts ·.value) fresh received ∧ kept.Sublist before

/-- There is one call for each reply, and all histories are made of the scores of completed calls
and of those from before, none of them twice. Nothing else in the cache changes. -/
structure Stems (previous : String → List SuccessScore) (received : List Received)
    (scores : SuccessScores.State) : Prop where
  calls : List.Forall₂ ScoreOf received scores.calls
  cache : ∀ key, (scores.cache key).Subperm (scores.scores key ++ previous key)
  holds : ∀ call ∈ scores.calls, ∀ key history, call.holds = some (key, history) →
    history.Subperm (scores.scores key ++ previous key)
  others : ∀ key, (∀ endpoint, endpointScoresCacheKey endpoint ≠ key) → scores.cache key = previous key

section
variable {config : Config} {maxRetries : JsNumber} {s s' : State} {a : Action}
  {scores scores' : SuccessScores.State} {previous : String → List SuccessScore}
  {received : List Received} {call call' : SuccessScores.Call} {n : Nat}

theorem Reply.score_iff (reply : Reply) : reply.score = .success ↔ reply.valid := by
  unfold score
  split
  · next hvalid => exact iff_of_true rfl hvalid
  · next hvalid => exact iff_of_false nofun hvalid

theorem ScoreOf.storing_completed {endpoint : Endpoint} {score : SuccessScore} {now : Int}
    {history : List SuccessScore} {x : Received} :
    ScoreOf x (.storing endpoint score now history) → ScoreOf x (.completed endpoint score) := id

/-- A call goes on, with what it holds made of what there is. -/
theorem Stems.setCall (H : Stems previous received scores) (h : scores.calls[n]? = some call)
    (hscoreOf : ∀ x, ScoreOf x call → ScoreOf x call')
    (hscore : ∀ key, call'.score key = call.score key)
    (hholds : ∀ key history, call'.holds = some (key, history) →
      history.Subperm (scores.scores key ++ previous key)) :
    Stems previous received (scores.setCall n call') := by
  have hscores : (scores.setCall n call').scores = scores.scores :=
    SuccessScores.scores_setCall_of_eq h hscore
  refine ⟨forall₂_set H.calls h hscoreOf, fun key => ?_, fun c hc key history hkey => ?_, H.others⟩
  · rw [hscores]
    exact H.cache key
  · rw [hscores]
    rcases List.mem_or_eq_of_mem_set hc with hc | rfl
    · exact H.holds c hc key history hkey
    · exact hholds key history hkey

/-- A call stores its score before what the filter leaves of the history it has read. -/
theorem Stems.set {endpoint : Endpoint} {score : SuccessScore} {now : Int}
    {history : List SuccessScore} (H : Stems previous received scores)
    (h : scores.calls[n]? = some (.storing endpoint score now history)) :
    Stems previous received
      ((scores.store (endpointScoresCacheKey endpoint)
        (config.updatedEndpointScores score now history) now).setCall n
          (.completed endpoint score)) := by
  have hscores : ∀ key, (scores.scores key).Subperm
      ((scores.setCall n (.completed endpoint score)).scores key) := by
    intro key
    by_cases hkey : endpointScoresCacheKey endpoint = key
    · exact (List.Sublist.subperm (List.sublist_cons_self ..)).trans
        (filterMap_set_perm h rfl (if_pos hkey)).symm.subperm
    · have hsame : (scores.calls.set n (.completed endpoint score)).filterMap
          (SuccessScores.Call.score key) = scores.scores key :=
        filterMap_set_of_eq h (if_neg hkey)
      exact (List.Perm.of_eq hsame.symm).subperm
  refine ⟨forall₂_set H.calls h fun x => ScoreOf.storing_completed, fun key => ?_,
    fun c hc key history' hkey => ?_, fun key hkey => ?_⟩
  · by_cases hkey : key = endpointScoresCacheKey endpoint
    · subst hkey
      have hread : (config.filterOutdatedEndpointScores now history).Subperm
          (scores.scores (endpointScoresCacheKey endpoint) ++
            previous (endpointScoresCacheKey endpoint)) := by
        rw [Config.filterOutdated_eq]
        exact (List.filter_sublist.trans (List.take_sublist _ _)).subperm.trans
          (H.holds _ (List.mem_of_getElem? h) _ _ rfl)
      have hperm : ((scores.setCall n (.completed endpoint score)).scores
          (endpointScoresCacheKey endpoint)).Perm
          (score :: scores.scores (endpointScoresCacheKey endpoint)) :=
        filterMap_set_perm h rfl (if_pos rfl)
      have hstored : ((scores.store (endpointScoresCacheKey endpoint)
          (config.updatedEndpointScores score now history) now).setCall n
            (.completed endpoint score)).cache (endpointScoresCacheKey endpoint) =
          score :: config.filterOutdatedEndpointScores now history :=
        SuccessScores.State.store_cache_self scores _ _ now
      rw [hstored]
      exact ((List.subperm_cons score).mpr hread).trans (hperm.symm.append_right _).subperm
    · have hstored := SuccessScores.State.store_cache_of_ne scores
        (config.updatedEndpointScores score now history) now hkey
      refine (List.Perm.of_eq hstored).subperm.trans ((H.cache key).trans ?_)
      exact (List.subperm_append_right _).mpr (hscores key)
  · rcases List.mem_or_eq_of_mem_set hc with hc | rfl
    · exact (H.holds c hc key history' hkey).trans ((List.subperm_append_right _).mpr (hscores key))
    · cases hkey
  · exact (SuccessScores.State.store_cache_of_ne scores (config.updatedEndpointScores score now history)
      now (hkey endpoint).symm).trans (H.others key hkey)

theorem Stems.step {a : SuccessScores.Action} (H : Stems previous received scores)
    (hstep : SuccessScores.step config scores a = some scores')
    (hcall : ∀ endpoint scoreValue, a ≠ .call endpoint scoreValue) :
    Stems previous received scores' := by
  cases SuccessScores.step_cases hstep with
  | call => exact absurd rfl (hcall _ _)
  | get h =>
    refine H.setCall h (fun _ => id) (fun _ => rfl) fun key history hkey => ?_
    cases hkey
    exact H.cache _
  | @record n timestamp now _ _ _ h =>
    have Hnow : Stems previous received { scores with clock := now } := ⟨H.calls, H.cache, H.holds, H.others⟩
    refine Hnow.setCall h (fun _ => id) (fun _ => rfl) fun key history hkey => ?_
    exact H.holds _ (List.mem_of_getElem? h) key history hkey
  | set h => exact H.set h
  | fail h hended =>
    refine H.setCall h (fun x hx => ?_) (fun key => ?_) fun _ _ hkey => by cases hkey
    · rcases hended with ⟨_, rfl⟩ | ⟨_, _, _, rfl⟩ <;> exact hx.1
    · rcases hended with ⟨_, rfl⟩ | ⟨_, _, _, rfl⟩ <;> rfl

theorem step_stems (H : Stems previous s.received s.scores)
    (hstep : step config maxRetries s a = some s') : Stems previous s'.received s'.scores := by
  cases step_cases hstep with
  | request => exact H
  | @reply n r endpoint index retries reply h hposting =>
    have hscores : ∀ key, (s.scores.calls ++ [SuccessScores.Call.reading endpoint reply.score]).filterMap
        (SuccessScores.Call.score key) = s.scores.scores key := by
      intro key
      rw [List.filterMap_append]
      exact List.append_nil _
    refine ⟨List.rel_append H.calls (.cons ⟨rfl, reply.score_iff⟩ .nil), fun key => ?_,
      fun c hc key history hkey => ?_, H.others⟩
    · exact (H.cache key).trans (List.Perm.of_eq (congrArg (· ++ _) (hscores key).symm)).subperm
    · rcases List.mem_append.mp hc with hc | hc
      · exact (H.holds c hc key history hkey).trans
          (List.Perm.of_eq (congrArg (· ++ _) (hscores key).symm)).subperm
      · obtain rfl := List.mem_singleton.mp hc
        cases hkey
  | map => exact H
  | scores h hcall => exact H.step h hcall

/-- Scores of completed calls for a key count replies of its endpoints. -/
theorem fresh_counts {calls : List SuccessScores.Call} {key : String} {fresh : List SuccessScore}
    (H : List.Forall₂ ScoreOf received calls)
    (hfresh : fresh.Sublist (calls.filterMap (SuccessScores.Call.score key))) :
    List.SublistForall₂ (Counts ·.value) fresh
      (received.filter (endpointScoresCacheKey ·.endpoint = key)) := by
  induction H generalizing fresh with
  | nil =>
    rw [List.eq_nil_of_sublist_nil hfresh]
    exact .nil
  | @cons x call received calls hx H ih =>
    have hskip : fresh.Sublist (calls.filterMap (SuccessScores.Call.score key)) →
        List.SublistForall₂ (Counts ·.value) fresh
          ((x :: received).filter (endpointScoresCacheKey ·.endpoint = key)) := by
      intro h
      rw [List.filter_cons]
      split
      · exact .cons_right (ih h)
      · exact ih h
    cases hcall : call.score key with
    | none =>
      rw [List.filterMap_cons_none hcall] at hfresh
      exact hskip hfresh
    | some score =>
      obtain ⟨endpoint, rfl, hkey⟩ : ∃ endpoint, call = .completed endpoint score ∧
          endpointScoresCacheKey endpoint = key := by
        unfold SuccessScores.Call.score at hcall
        split at hcall
        · split at hcall
          · next hkey =>
            cases hcall
            exact ⟨_, rfl, hkey⟩
          · cases hcall
        · cases hcall
      obtain ⟨rfl, hcounts⟩ := hx
      rw [List.filterMap_cons_some hcall] at hfresh
      cases hfresh with
      | cons _ h => exact hskip h
      | cons_cons _ h =>
        rw [List.filter_cons_of_pos (by simpa using hkey)]
        exact .cons hcounts (ih h)

/-- There is one call of `updateEndpointSuccessRate` for each reply, with its endpoint and whether it
is valid. What is stored for an endpoint are scores that count replies from its chain and URL, and
scores of its history from before, none of them twice. -/
theorem stored_replies {heap : EndpointsMap.Heap} {clock : Int} {previous : String → History clock}
    {as : List Action} (hrun : run (step config maxRetries) (.init heap clock previous) as = some s) :
    List.Forall₂ ScoreOf s.received s.scores.calls ∧
      (∀ endpoint : Endpoint, MadeOf
        (s.received.filter fun x =>
          x.endpoint.chainId = endpoint.chainId ∧ x.endpoint.endpoint = endpoint.endpoint)
        (previous (endpointScoresCacheKey endpoint)).scores
        (s.scores.cache (endpointScoresCacheKey endpoint))) ∧
      ∀ key, (∀ endpoint, endpointScoresCacheKey endpoint ≠ key) →
        s.scores.cache key = (previous key).scores := by
  have hinit : Stems (fun key => (previous key).scores) [] (SuccessScores.State.init clock previous) :=
    ⟨.nil, fun key => .refl _, fun _ hc => (by cases hc), fun _ _ => rfl⟩
  have H := (RunsUnder.of_run hrun).invariant
    (I := fun s => Stems (fun key => (previous key).scores) s.received s.scores)
    (fun H _ h => step_stems H h) hinit
  refine ⟨H.calls, fun endpoint => ?_, H.others⟩
  obtain ⟨scores, hperm, hsub⟩ := H.cache (endpointScoresCacheKey endpoint)
  obtain ⟨fresh, kept, rfl, hfresh, hkept⟩ := List.sublist_append_iff.mp hsub
  have hcounts := fresh_counts H.calls hfresh
  simp only [endpointScoresCacheKey_inj] at hcounts
  exact ⟨fresh, kept, hperm.symm, hcounts, hkept⟩

/-- The score of a reply is stored. -/
theorem stored_replies_sample : ∃ s,
    run (step SuccessScores.sampleConfig (.finite 2)) (.init sampleHeap 0 SuccessScores.noHistory)
      [.map (.sync 0), .map (.read 0 sampleRows), .request 1 false, .reply 0 .error,
       .scores (.get 0), .scores (.record 0 1 1), .scores (.set 0)] = some s ∧
    s.received = [⟨0, SuccessScores.sampleEndpoint, .error⟩] ∧
    s.scores.cache (endpointScoresCacheKey SuccessScores.sampleEndpoint) = [⟨.fail, 1⟩] ∧
    MadeOf s.received [] [⟨.fail, 1⟩] := by
  obtain ⟨s, h, hreceived, hcache⟩ : ∃ s, run (step SuccessScores.sampleConfig (.finite 2))
      (.init sampleHeap 0 SuccessScores.noHistory)
      [.map (.sync 0), .map (.read 0 sampleRows), .request 1 false, .reply 0 .error,
       .scores (.get 0), .scores (.record 0 1 1), .scores (.set 0)] = some s ∧
      s.received = [⟨0, SuccessScores.sampleEndpoint, .error⟩] ∧
      s.scores.cache (endpointScoresCacheKey SuccessScores.sampleEndpoint) = [⟨.fail, 1⟩] :=
    ⟨_, rfl, rfl, rfl⟩
  have hmade := (stored_replies h).2.1 SuccessScores.sampleEndpoint
  rw [hcache, hreceived] at hmade
  refine ⟨s, h, hreceived, hcache, ?_⟩
  rw [hreceived]
  exact hmade

end

end RpcService
end Rpc
end DefiBackend
