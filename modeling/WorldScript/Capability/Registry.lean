import WorldScript.Capability.Builder

/-! # Registries

The admitted members with tables for the questions that a compilation asks: the functions and
constants of a name, the events of a dialect, and what belongs to a dialect or to a group.
-/

namespace WorldScript

structure PerDialect (α : Type) where
  lsl : α
  ossl : α
  xmr : α

namespace PerDialect

variable {α : Type}

def get (p : PerDialect α) : Dialect → α
  | .lsl => p.lsl
  | .ossl => p.ossl
  | .xmr => p.xmr

def change (p : PerDialect α) (dialects : DialectSet) (f : α → α) : PerDialect α where
  lsl := if dialects.lsl then f p.lsl else p.lsl
  ossl := if dialects.ossl then f p.ossl else p.ossl
  xmr := if dialects.xmr then f p.xmr else p.xmr

end PerDialect

structure Bucket where
  /-- Numbers of functions. -/
  functions : List Nat
  /-- Names of constants. -/
  constants : List String
  /-- Names of events. -/
  events : List String
deriving DecidableEq

def Bucket.grow (f : Bucket → Bucket) (b : Option Bucket) : Option Bucket :=
  some (f (b.getD ⟨[], [], []⟩))

structure Registry where
  functions : Array HostFunction
  /-- Numbers of the functions of each name. -/
  overloadTable : Table String (List Nat)
  constantTable : Table String (List HostConstant)
  eventTables : PerDialect (Table String HostEvent)
  dialectBuckets : PerDialect (Option Bucket)
  groupBuckets : Table String Bucket
  rejections : List Rejection
  longIntegers : Bool

namespace Registry

def append [LT κ] [DecidableLT κ] [DecidableEq κ] (t : Table κ (List α)) (key : κ) (item : α) :
    Table κ (List α) := t.insert key ((t.get? key).getD [] ++ [item])

def inBuckets (r : Registry) (dialects : DialectSet) (group : Option String) (f : Bucket → Bucket) :
    Registry :=
  let dialectBuckets := r.dialectBuckets.change dialects (Bucket.grow f)
  match group with
  | none => { r with dialectBuckets }
  | some g =>
    { r with
      dialectBuckets
      groupBuckets := r.groupBuckets.insert g (f ((r.groupBuckets.get? g).getD ⟨[], [], []⟩)) }

def addFunction (r : Registry) (f : HostFunction) : Registry :=
  { r with overloadTable := append r.overloadTable f.name f.id }.inBuckets f.dialects f.group
    fun b => { b with functions := b.functions ++ [f.id] }

def addConstant (r : Registry) (c : HostConstant) : Registry :=
  { r with constantTable := append r.constantTable c.name c }.inBuckets c.dialects c.group
    fun b => { b with constants := b.constants ++ [c.name] }

def addEvent (r : Registry) (e : HostEvent) : Registry :=
  { r with eventTables := r.eventTables.change e.dialects fun t => t.insert e.name e }.inBuckets
    e.dialects e.group fun b => { b with events := b.events ++ [e.name] }

def ofBuilder (b : Builder) : Registry :=
  let start : Registry :=
    { functions := b.functions, overloadTable := .empty, constantTable := .empty
      eventTables := ⟨.empty, .empty, .empty⟩, dialectBuckets := ⟨none, none, none⟩
      groupBuckets := .empty, rejections := b.rejections.toList, longIntegers := b.allowLong }
  let withFunctions := b.functions.foldl addFunction start
  let withConstants := b.constants.foldl addConstant withFunctions
  b.events.foldl addEvent withConstants

def overloads (r : Registry) (name : String) (v : Visibility) : List HostFunction :=
  ((r.overloadTable.get? name).getD []).filterMap fun id =>
    match r.functions[id]? with
    | some f => if v.permits f.dialects f.group then some f else none
    | none => none

def hasFunction (r : Registry) (name : String) (v : Visibility) : Bool := !(r.overloads name v).isEmpty

def constant? (r : Registry) (name : String) (v : Visibility) : Option HostConstant :=
  ((r.constantTable.get? name).getD []).find? fun c => v.permits c.dialects c.group

def event? (r : Registry) (name : String) (v : Visibility) : Option HostEvent :=
  (v.dialects.toList.filterMap fun d => (r.eventTables.get d).get? name).find? fun e =>
    v.permits e.dialects e.group

def constants (r : Registry) : List HostConstant := r.constantTable.entries.flatMap Prod.snd

def eventKey (e : HostEvent) : String × String := (e.name, e.dialects.text)

def eventLe (a b : HostEvent) : Bool :=
  a.name < b.name || (a.name = b.name && a.dialects.text ≤ b.dialects.text)

def distinctEvents (seen : List (String × String)) : List HostEvent → List HostEvent
  | [] => []
  | e :: rest =>
    if seen.contains (eventKey e) then distinctEvents seen rest
    else e :: distinctEvents (eventKey e :: seen) rest

def events (r : Registry) : List HostEvent :=
  let found := Dialect.all.flatMap fun d => (r.eventTables.get d).entries.map Prod.snd
  (distinctEvents [] found).mergeSort eventLe

def dialectBucket? (r : Registry) (d : Dialect) : Option Bucket := r.dialectBuckets.get d

def groupBucket? (r : Registry) (group : String) : Option Bucket := r.groupBuckets.get? group

def groups (r : Registry) : List String := r.groupBuckets.keys

end Registry

end WorldScript
