import WorldScript.Dialect
import WorldScript.Host

/-! # Offers

A provider describes what it offers in the types of the host, some of which scripts do not have.
-/

namespace WorldScript

inductive HostTy where
  /-- The object that runs the script. -/
  | context
  | script (ty : Ty)
  /-- A type that scripts do not have. -/
  | foreign (name : String)
deriving DecidableEq

def HostTy.text : HostTy → String
  | .context => "<context>"
  | .script ty => ty.keyword
  | .foreign name => name

structure Cost where
  energy : Float
  /-- Seconds the script rests after the call. -/
  delay : Float

def Cost.default : Cost := ⟨10.0, 0.0⟩

structure FunctionOffer where
  member : String
  /-- The name scripts use, if it is not that of the member. -/
  scriptName : Option String
  params : List HostTy
  returns : Option HostTy
  dialects : DialectSet
  group : Option String
  cost : Cost
  description : Option String
  impl : HostImpl

def FunctionOffer.name (f : FunctionOffer) : String := f.scriptName.getD f.member

def FunctionOffer.method (member : String) (params : List Ty) (returns : Option Ty) (impl : HostImpl) :
    FunctionOffer where
  member
  scriptName := none
  params := .context :: params.map .script
  returns := returns.map .script
  dialects := .all
  group := none
  cost := .default
  description := none
  impl

structure ConstantOffer where
  name : String
  ty : HostTy
  value : Value
  readOnly : Bool
  dialects : DialectSet
  group : Option String
  description : Option String

def ConstantOffer.ofValue (name : String) (value : Value) : ConstantOffer where
  name
  ty := .script value.ty
  value
  readOnly := true
  dialects := .all
  group := none
  description := none

structure EventOffer where
  name : String
  params : List HostTy
  returns : Option HostTy
  dialects : DialectSet
  group : Option String
  description : Option String

def EventOffer.ofParams (name : String) (params : List Ty) : EventOffer where
  name
  params := params.map .script
  returns := none
  dialects := .all
  group := none
  description := none

inductive Offer where
  | function (offer : FunctionOffer)
  | constant (offer : ConstantOffer)
  | event (offer : EventOffer)

structure Provider where
  name : String
  offers : List Offer

end WorldScript
