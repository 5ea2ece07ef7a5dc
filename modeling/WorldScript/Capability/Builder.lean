import WorldScript.Capability.Member

/-! # Admission

Offers come one by one.  Each is admitted, or refused for the first reason that applies.
-/

namespace WorldScript

structure Builder where
  /-- Whether scripts may have long integers. -/
  allowLong : Bool
  /-- Whom the next members belong to. -/
  provider : String
  functions : Array HostFunction
  constants : Array HostConstant
  events : Array HostEvent
  rejections : Array Rejection

namespace Builder

def hostProvider : String := "<host>"

def empty (allowLong : Bool) : Builder := ⟨allowLong, hostProvider, #[], #[], #[], #[]⟩

def scriptTy (b : Builder) (position : TyPosition) (ty : HostTy) : Except Refusal Ty :=
  match ty with
  | .script t => if t = .long && !b.allowLong then .error (.unsupported position ty) else .ok t
  | _ => .error (.unsupported position ty)

def scriptParams (b : Builder) (number : Nat) : List HostTy → Except Refusal (List Ty)
  | [] => .ok []
  | ty :: rest => do
    let first ← b.scriptTy (.parameter number) ty
    let others ← b.scriptParams (number + 1) rest
    return first :: others

def scriptReturns (b : Builder) : Option HostTy → Except Refusal (Option Ty)
  | none => .ok none
  | some ty => (b.scriptTy .returnValue ty).map some

def hasFunction (b : Builder) (offer : FunctionOffer) (params : List Ty) : Bool :=
  b.functions.any fun f =>
    f.name = offer.name && f.params = params && f.dialects.intersects offer.dialects
      && f.group = offer.group

def checkFunction (b : Builder) (offer : FunctionOffer) : Except Refusal (List Ty × Option Ty) :=
  match offer.params with
  | .context :: rest => do
    if offer.dialects.isEmpty then throw .noDialect
    let params ← b.scriptParams 1 rest
    let returns ← b.scriptReturns offer.returns
    if b.hasFunction offer params then throw (.duplicate .function)
    return (params, returns)
  | _ => .error .noContext

def checkConstant (b : Builder) (offer : ConstantOffer) : Except Refusal Ty := do
  if !offer.readOnly then throw .writable
  if offer.dialects.isEmpty then throw .noDialect
  let ty ← b.scriptTy .value offer.ty
  if offer.value.ty ≠ ty then throw (.valueTy ty offer.value.ty)
  if b.constants.any fun c => c.name = offer.name && c.dialects.intersects offer.dialects then
    throw (.duplicate .constant)
  return ty

def checkEvent (b : Builder) (offer : EventOffer) : Except Refusal (List Ty) := do
  if offer.returns.isSome then throw .eventReturns
  if offer.dialects.isEmpty then throw .noDialect
  let params ← b.scriptParams 0 offer.params
  if b.events.any fun e => e.name = offer.name && e.dialects.intersects offer.dialects then
    throw (.duplicate .event)
  return params

def reject (b : Builder) (kind : MemberKind) (member : String) (refusal : Refusal) : Builder :=
  { b with rejections := b.rejections.push ⟨b.provider, kind, member, refusal⟩ }

def registerFunction (b : Builder) (offer : FunctionOffer) : Bool × Builder :=
  match b.checkFunction offer with
  | .error refusal => (false, b.reject .function offer.name refusal)
  | .ok (params, returns) =>
    let f : HostFunction :=
      { id := b.functions.size, name := offer.name, member := offer.member, provider := b.provider
        params, returns, dialects := offer.dialects, group := offer.group, cost := offer.cost
        description := offer.description, impl := offer.impl }
    (true, { b with functions := b.functions.push f })

def registerConstant (b : Builder) (offer : ConstantOffer) : Bool × Builder :=
  match b.checkConstant offer with
  | .error refusal => (false, b.reject .constant offer.name refusal)
  | .ok ty =>
    let c : HostConstant :=
      { name := offer.name, provider := b.provider, ty, value := offer.value
        dialects := offer.dialects, group := offer.group, description := offer.description }
    (true, { b with constants := b.constants.push c })

def registerEvent (b : Builder) (offer : EventOffer) : Bool × Builder :=
  match b.checkEvent offer with
  | .error refusal => (false, b.reject .event offer.name refusal)
  | .ok params =>
    let e : HostEvent :=
      { name := offer.name, provider := b.provider, params, dialects := offer.dialects
        group := offer.group, description := offer.description }
    (true, { b with events := b.events.push e })

def register (b : Builder) : Offer → Bool × Builder
  | .function offer => b.registerFunction offer
  | .constant offer => b.registerConstant offer
  | .event offer => b.registerEvent offer

def registerAll (b : Builder) : List Offer → List Bool × Builder
  | [] => ([], b)
  | offer :: rest =>
    let (admitted, next) := b.register offer
    let (others, last) := next.registerAll rest
    (admitted :: others, last)

def install (b : Builder) (provider : Provider) : List Bool × Builder :=
  let (admitted, next) := { b with provider := provider.name }.registerAll provider.offers
  (admitted, { next with provider := hostProvider })

def installAll (b : Builder) : List Provider → List Bool × Builder
  | [] => ([], b)
  | provider :: rest =>
    let (admitted, next) := b.install provider
    let (others, last) := next.installAll rest
    (admitted ++ others, last)

end Builder

end WorldScript
