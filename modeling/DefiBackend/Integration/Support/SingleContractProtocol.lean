import DefiBackend.Common.JsValue
import DefiBackend.Integration.Support.CacheableProtocol

/-! # Protocols of a single contract

`SingleContractProtocol.getCacheableOpportunityData` merges the results of the contract's inputless
functions into the context of the metadata, formats the context and fetches the opportunities. The
object it merges into and formats is the one inside `this.meta`, whenever there is one, and the
protocol id is a digest of the printed metadata.

* `ProtocolMeta`, `protocolOf`: metadata and the identity computed from it;
* `SingleContractClass`: what a class adds, that is the functions it calls and what its
  `formatContext` and `fetchOpportunityData` do to the context object;
* `syncStep`: any number of instances, of any classes, over one cache. The steps of `step` are
  refined by those of `getCacheableOpportunityData`. -/

namespace DefiBackend
namespace Integration
open Theory

/-- The `context` of the metadata. -/
inductive MetaContext
  | absent
  | null
  | object (context : JsObject)

/-- The metadata of a protocol: the fields before and after its context, among which is the
chain. -/
structure ProtocolMeta where
  chain : ChainId
  before : JsObject
  context : MetaContext
  after : JsObject
  chain_field : (before ++ after).lookup "chain" = some (.num chain)

namespace ProtocolMeta

def contextField : MetaContext → JsObject
  | .absent => []
  | .null => [("context", .null)]
  | .object context => [("context", .obj context)]

/-- `JSON.stringify(this.meta)`. -/
def text (m : ProtocolMeta) : String :=
  ((JsValue.obj (m.before ++ contextField m.context ++ m.after)).stringify).getD ""

/-- The metadata with other content in its context object, if there is one. -/
def setContext (m : ProtocolMeta) (context : JsObject) : ProtocolMeta :=
  match m.context with
  | .object _ => { m with context := .object context }
  | _ => m

end ProtocolMeta

/-- What a class adds to `SingleContractProtocol`. -/
structure SingleContractClass where
  constructorName : ClassName
  /-- The names of the functions without inputs, as `initialize` has found them. -/
  inputless : List String
  /-- What `formatContext` leaves in the context object, and whether it returns. -/
  formatContext : ChainId → JsObject → JsObject × Bool
  /-- What `fetchOpportunityData` leaves in the context object up to its first await, and what each
  of its later parts does. -/
  fetchStart : JsObject → JsObject
  fetchParts : List (JsObject → JsObject)

/-- The identity of an instance: `protocolId` is computed from the metadata as it is now. -/
def protocolOf (sha256 : String → HexDigest) (cls : SingleContractClass) (m : ProtocolMeta) :
    RootProtocol :=
  ⟨cls.constructorName, m.chain, sha256 m.text⟩

/-! ## The system -/

/-- How far a `getCacheableOpportunityData` is whose contract calls have returned. A call that
found no context works on an object of its own, every other on the one inside the metadata. -/
inductive Stage
  | formatting (own : Option JsObject)
  | fetching (own : Option JsObject) (parts : List (JsObject → JsObject))

inductive SyncAction (ι : Type w) (T : Type u) (O : Type v)
  | called (n : Nat) (results : List JsValue)
  | formatted (n : Nat)
  | proceed (n : Nat)
  | base (a : Action ι T O)

structure SyncWorld (ι : Type w) (T : Type u) (O : Type v) where
  world : World ι T O
  /-- `this.meta` of every instance. -/
  metas : ι → ProtocolMeta
  stages : Nat → Option Stage
  /-- The pool list that was last written by an instance with this protocol id at its
  registration, unless it has expired. -/
  written : String → Option (List String)

section
variable {ι : Type w} {T : Type u} {O : Type v}

/-- The context object a call works on. -/
def contextOf (m : ProtocolMeta) : Option JsObject → JsObject
  | some own => own
  | none =>
    match m.context with
    | .object context => context
    | _ => []

namespace SyncWorld
variable (s : SyncWorld ι T O)

/-- All instances have their registered metadata, and nothing is cached. -/
def init (metas : ι → ProtocolMeta) : SyncWorld ι T O :=
  ⟨World.init, metas, fun _ => none, fun _ => none⟩

def setStage (n : Nat) (stage : Option Stage) : SyncWorld ι T O :=
  { s with stages := Function.update s.stages n stage }

variable [DecidableEq ι]

/-- A call of instance `i` leaves `context` in its context object. -/
def setContext (i : ι) (own : Option JsObject) (context : JsObject) : SyncWorld ι T O :=
  match own with
  | some _ => s
  | none => { s with metas := Function.update s.metas i ((s.metas i).setContext context) }

/-- The lists known to be written after an action of the base system. -/
def writtenAfter (registered : ι → RootProtocol) [IWalletMinimal T] :
    Action ι T O → String → Option (List String)
  | .written n =>
    match s.world.calls n with
    | some (i, .writing _ _ pools) =>
      Function.update s.written (registered i).protocolId (some (poolList pools))
    | _ => s.written
  | .expire key => fun id => if poolListCacheKeyOf id = key then none else s.written id
  | _ => s.written

/-- The stages after an action of the base system: `getCacheableOpportunityData` may return at the
end of its last part. -/
def stagesAfter : Action ι T O → Option (Nat → Option Stage)
  | .opportunities n _ =>
    match s.stages n with
    | some (.fetching _ []) => some (Function.update s.stages n none)
    | _ => none
  | .reject n => some (Function.update s.stages n none)
  | _ => some s.stages

end SyncWorld

variable [DecidableEq ι] [IWalletMinimal T] (sha256 : String → HexDigest)
  (cls : ι → SingleContractClass) (registered : ι → ProtocolMeta)

/-- The identities of all instances. -/
def protocols (metas : ι → ProtocolMeta) (i : ι) : RootProtocol :=
  protocolOf sha256 (cls i) (metas i)

/-- One step of the system. -/
def syncStep (s : SyncWorld ι T O) : SyncAction ι T O → Option (SyncWorld ι T O)
  | .called n results =>
    match s.world.calls n, s.stages n with
    | some (i, .fetching _), none =>
      if results.length = (cls i).inputless.length then
        let fields := (cls i).inputless.zip results
        match (s.metas i).context with
        | .object context =>
          some ((s.setContext i none (context.assignAll fields)).setStage n
            (some (.formatting none)))
        | _ => some (s.setStage n (some (.formatting (some (JsObject.assignAll [] fields)))))
      else none
    | _, _ => none
  | .formatted n =>
    match s.world.calls n, s.stages n with
    | some (i, _), some (.formatting own) =>
      let formatted := (cls i).formatContext (s.metas i).chain (contextOf (s.metas i) own)
      if formatted.2 then
        let context := (cls i).fetchStart formatted.1
        some ((s.setContext i own context).setStage n
          (some (.fetching (own.map fun _ => context) (cls i).fetchParts)))
      else
        some { (s.setContext i own formatted.1).setStage n none with world := s.world.finish n }
    | _, _ => none
  | .proceed n =>
    match s.world.calls n, s.stages n with
    | some (i, _), some (.fetching own (part :: parts)) =>
      let context := part (contextOf (s.metas i) own)
      some ((s.setContext i own context).setStage n
        (some (.fetching (own.map fun _ => context) parts)))
    | _, _ => none
  | .base a =>
    match step (protocols sha256 cls s.metas) s.world a, s.stagesAfter a with
    | some world, some stages =>
      some { s with world, stages, written := s.writtenAfter (protocols sha256 cls registered) a }
    | _, _ => none

end
end Integration
end DefiBackend
