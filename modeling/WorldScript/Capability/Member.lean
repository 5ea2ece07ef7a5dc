import WorldScript.Capability.Offer
import WorldScript.Table

/-! # Admitted members -/

namespace WorldScript

structure HostFunction where
  /-- Number of the function among all admitted ones. -/
  id : Nat
  name : String
  member : String
  provider : String
  params : List Ty
  returns : Option Ty
  dialects : DialectSet
  group : Option String
  cost : Cost
  description : Option String
  impl : HostImpl

def HostFunction.signature (f : HostFunction) : String :=
  let call := s!"{f.name}({Ty.commaList f.params})"
  f.returns.elim call fun ty => s!"{call} -> {ty.keyword}"

structure HostConstant where
  name : String
  provider : String
  ty : Ty
  value : Value
  dialects : DialectSet
  group : Option String
  description : Option String

structure HostEvent where
  name : String
  provider : String
  params : List Ty
  dialects : DialectSet
  group : Option String
  description : Option String

inductive MemberKind where
  | function | constant | event
deriving DecidableEq

def MemberKind.text : MemberKind → String
  | .function => "function"
  | .constant => "constant"
  | .event => "event"

inductive TyPosition where
  | parameter (number : Nat)
  | returnValue
  | value
deriving DecidableEq

def TyPosition.text : TyPosition → String
  | .parameter number => s!"parameter {number}"
  | .returnValue => "return value"
  | .value => "value"

inductive Refusal where
  | unsupported (position : TyPosition) (ty : HostTy)
  | noContext
  | eventReturns
  | writable
  | valueTy (declared actual : Ty)
  | noDialect
  | duplicate (kind : MemberKind)
deriving DecidableEq

def Refusal.message : Refusal → String
  | .unsupported position ty => s!"{position.text} has unsupported type '{ty.text}'"
  | .noContext => "missing leading execution context parameter"
  | .eventReturns => "events must return void"
  | .writable => "constant is not read-only"
  | .valueTy declared actual =>
    s!"declared type {declared.keyword} does not match value of type {actual.keyword}"
  | .noDialect => "no dialect applies"
  | .duplicate kind => s!"duplicates an existing {kind.text} with overlapping dialects"

structure Rejection where
  provider : String
  kind : MemberKind
  member : String
  refusal : Refusal
deriving DecidableEq

structure Visibility where
  dialects : DialectSet
  groups : NameSet

namespace Visibility

def permits (v : Visibility) (dialects : DialectSet) (group : Option String) : Bool :=
  dialects.intersects v.dialects && group.all v.groups.contains

def withDialect (v : Visibility) (d : Dialect) : Visibility := { v with dialects := v.dialects.insert d }

def withGroup (v : Visibility) (group : String) : Visibility :=
  { v with groups := v.groups.insert group () }

end Visibility

end WorldScript
