import Mathlib.Data.List.Pairwise
import Mathlib.Data.List.Perm.Basic
import WorldScript.Proofs.Capability.Numbering
import WorldScript.Proofs.Outcome

/-! # What a builder admits

A registration adds one member or one rejection, and nothing else changes.  What the three checks ask of a
new member holds between the members admitted before as well, so that it holds of all members however many
registrations there were.
-/

namespace WorldScript

inductive Member where
  | function (f : HostFunction)
  | constant (c : HostConstant)
  | event (e : HostEvent)

namespace Member

def kind : Member → MemberKind
  | .function _ => .function
  | .constant _ => .constant
  | .event _ => .event

def name : Member → String
  | .function f => f.name
  | .constant c => c.name
  | .event e => e.name

def provider : Member → String
  | .function f => f.provider
  | .constant c => c.provider
  | .event e => e.provider

def dialects : Member → DialectSet
  | .function f => f.dialects
  | .constant c => c.dialects
  | .event e => e.dialects

def group : Member → Option String
  | .function f => f.group
  | .constant c => c.group
  | .event e => e.group

def types : Member → List Ty
  | .function f => f.params ++ f.returns.toList
  | .constant c => [c.ty]
  | .event e => e.params

end Member

namespace Offer

def kind : Offer → MemberKind
  | .function _ => .function
  | .constant _ => .constant
  | .event _ => .event

def name : Offer → String
  | .function f => f.name
  | .constant c => c.name
  | .event e => e.name

def dialects : Offer → DialectSet
  | .function f => f.dialects
  | .constant c => c.dialects
  | .event e => e.dialects

def group : Offer → Option String
  | .function f => f.group
  | .constant c => c.group
  | .event e => e.group

end Offer

theorem DialectSet.intersects_comm (s t : DialectSet) : s.intersects t = t.intersects s := by
  simp [intersects, Bool.and_comm]

/-- Two functions that a call can tell apart: they differ in name, parameters or group, or have no dialect
in common. -/
def HostFunction.Apart (f other : HostFunction) : Prop :=
  f.name = other.name → f.params = other.params → f.group = other.group →
    f.dialects.intersects other.dialects = false

def HostConstant.Apart (c other : HostConstant) : Prop :=
  c.name = other.name → c.dialects.intersects other.dialects = false

def HostEvent.Apart (e other : HostEvent) : Prop :=
  e.name = other.name → e.dialects.intersects other.dialects = false

instance : Std.Symm HostEvent.Apart where
  symm e other h hname := by
    rw [DialectSet.intersects_comm]
    exact h hname.symm

def Member.Apart : Member → Member → Prop
  | .function f, .function other => f.Apart other
  | .constant c, .constant other => c.Apart other
  | .event e, .event other => e.Apart other
  | _, _ => True

theorem Member.Apart.symm {m other : Member} (h : m.Apart other) : other.Apart m := by
  cases m with
  | function f =>
    cases other with
    | function g =>
      intro hname hparams hgroup
      rw [DialectSet.intersects_comm]
      exact h hname.symm hparams.symm hgroup.symm
    | constant | event => trivial
  | constant c =>
    cases other with
    | constant d =>
      intro hname
      rw [DialectSet.intersects_comm]
      exact h hname.symm
    | function | event => trivial
  | event e =>
    cases other with
    | event e' => exact Std.Symm.symm (r := HostEvent.Apart) e e' h
    | function | constant => trivial

namespace Builder

variable {b : Builder}

def members (b : Builder) : List Member :=
  b.functions.toList.map .function ++ (b.constants.toList.map .constant ++ b.events.toList.map .event)

def withMember (b : Builder) : Member → Builder
  | .function f => { b with functions := b.functions.push f }
  | .constant c => { b with constants := b.constants.push c }
  | .event e => { b with events := b.events.push e }

theorem withMember_members (b : Builder) (m : Member) : (b.withMember m).members.Perm (m :: b.members) := by
  cases m with
  | function f =>
    simp only [withMember, members, Array.toList_push, List.map_append, List.map_cons, List.map_nil,
      List.append_assoc]
    exact List.perm_middle
  | constant c =>
    simp only [withMember, members, Array.toList_push, List.map_append, List.map_cons, List.map_nil,
      List.append_assoc]
    exact (List.Perm.append_left _ List.perm_middle).trans List.perm_middle
  | event e =>
    simp only [withMember, members, Array.toList_push, List.map_append, List.map_cons, List.map_nil]
    rw [← List.append_assoc, ← List.append_assoc, ← List.append_assoc]
    exact List.perm_append_singleton _ _

theorem function_mem_members {f : HostFunction} : .function f ∈ b.members ↔ f ∈ b.functions := by
  simp [members]

theorem constant_mem_members {c : HostConstant} : .constant c ∈ b.members ↔ c ∈ b.constants := by
  simp [members]

theorem event_mem_members {e : HostEvent} : .event e ∈ b.members ↔ e ∈ b.events := by
  simp [members]

theorem scriptTy_ok {position : TyPosition} {ty : HostTy} {t : Ty} (h : b.scriptTy position ty = .ok t) :
    t = .long → b.allowLong = true := by
  rintro rfl
  unfold scriptTy at h
  split at h
  · split at h
    · cases h
    · rename_i hlong
      cases h
      simpa using hlong
  · cases h

theorem scriptParams_ok {number : Nat} {tys : List HostTy} {ts : List Ty}
    (h : b.scriptParams number tys = .ok ts) : .long ∈ ts → b.allowLong = true := by
  induction tys generalizing number ts with
  | nil =>
    cases h
    simp
  | cons ty rest ih =>
    obtain ⟨first, hfirst, h⟩ := bind_ok.mp h
    obtain ⟨others, hothers, h⟩ := bind_ok.mp h
    cases h
    intro hmem
    obtain heq | hmem := List.mem_cons.mp hmem
    · exact scriptTy_ok hfirst heq.symm
    · exact ih hothers hmem

theorem scriptReturns_ok {ty : Option HostTy} {t : Option Ty} (h : b.scriptReturns ty = .ok t) :
    .long ∈ t.toList → b.allowLong = true := by
  cases ty with
  | none =>
    cases h
    simp
  | some ty =>
    obtain ⟨t, ht, rfl⟩ := map_ok.mp h
    intro hmem
    exact scriptTy_ok ht (by simpa using hmem : Ty.long = t).symm

/-- A condition that is refused, and what is checked after it. -/
theorem unless_ok {α : Type} {refused : Prop} [Decidable refused] {refusal : Refusal}
    {rest : Unit → Except Refusal α} {a : α}
    (h : (if refused then throw refusal >>= rest else rest ()) = .ok a) : ¬ refused ∧ rest () = .ok a := by
  by_cases hr : refused
  · rw [if_pos hr] at h
    cases h
  · rw [if_neg hr] at h
    exact ⟨hr, h⟩

theorem checkFunction_ok {offer : FunctionOffer} {params : List Ty} {returns : Option Ty}
    (h : b.checkFunction offer = .ok (params, returns)) :
    offer.dialects.isEmpty = false ∧
      (∀ f ∈ b.functions, f.name = offer.name → f.params = params → f.group = offer.group →
        f.dialects.intersects offer.dialects = false) ∧
      (.long ∈ params ++ returns.toList → b.allowLong = true) := by
  unfold checkFunction at h
  split at h
  · obtain ⟨hdialects, h⟩ := unless_ok h
    obtain ⟨found, hparams, h⟩ := bind_ok.mp h
    obtain ⟨value, hreturns, h⟩ := bind_ok.mp h
    obtain ⟨hnew, h⟩ := unless_ok h
    cases h
    refine ⟨by simpa using hdialects, fun f hf hname hsame hgroup => ?_, fun hlong => ?_⟩
    · rw [← Bool.not_eq_true]
      intro hintersects
      refine hnew (Array.any_eq_true'.mpr ⟨f, hf, ?_⟩)
      simp [hname, hsame, hintersects, hgroup]
    · exact (List.mem_append.mp hlong).elim (scriptParams_ok hparams) (scriptReturns_ok hreturns)
  · cases h

theorem checkConstant_ok {offer : ConstantOffer} {ty : Ty} (h : b.checkConstant offer = .ok ty) :
    offer.dialects.isEmpty = false ∧
      (∀ c ∈ b.constants, c.name = offer.name → c.dialects.intersects offer.dialects = false) ∧
      offer.value.ty = ty ∧ (ty = .long → b.allowLong = true) := by
  unfold checkConstant at h
  obtain ⟨-, h⟩ := unless_ok h
  obtain ⟨hdialects, h⟩ := unless_ok h
  obtain ⟨found, hfound, h⟩ := bind_ok.mp h
  obtain ⟨hvalue, h⟩ := unless_ok h
  obtain ⟨hnew, h⟩ := unless_ok h
  cases h
  refine ⟨by simpa using hdialects, fun c hc hname => ?_, by simpa using hvalue, scriptTy_ok hfound⟩
  rw [← Bool.not_eq_true]
  intro hintersects
  exact hnew (Array.any_eq_true'.mpr ⟨c, hc, by simp [hname, hintersects]⟩)

theorem checkEvent_ok {offer : EventOffer} {params : List Ty} (h : b.checkEvent offer = .ok params) :
    offer.dialects.isEmpty = false ∧
      (∀ e ∈ b.events, e.name = offer.name → e.dialects.intersects offer.dialects = false) ∧
      (.long ∈ params → b.allowLong = true) := by
  unfold checkEvent at h
  obtain ⟨-, h⟩ := unless_ok h
  obtain ⟨hdialects, h⟩ := unless_ok h
  obtain ⟨found, hfound, h⟩ := bind_ok.mp h
  obtain ⟨hnew, h⟩ := unless_ok h
  cases h
  refine ⟨by simpa using hdialects, fun e he hname => ?_, scriptParams_ok hfound⟩
  rw [← Bool.not_eq_true]
  intro hintersects
  exact hnew (Array.any_eq_true'.mpr ⟨e, he, by simp [hname, hintersects]⟩)

structure Admits (b : Builder) (offer : Offer) (m : Member) : Prop where
  kind : m.kind = offer.kind
  name : m.name = offer.name
  provider : m.provider = b.provider
  dialects : m.dialects = offer.dialects
  group : m.group = offer.group
  /-- A function gets the next number. -/
  number : ∀ f, m = .function f → f.id = b.functions.size
  applies : m.dialects.isEmpty = false
  apart : ∀ other ∈ b.members, other.Apart m
  /-- A constant has a value of its type. -/
  value : ∀ c, m = .constant c → c.value.ty = c.ty
  long : .long ∈ m.types → b.allowLong = true

theorem registerFunction_cases (b : Builder) (offer : FunctionOffer) :
    (∃ f, b.registerFunction offer = (true, b.withMember (.function f)) ∧
      b.Admits (.function offer) (.function f)) ∨
      ∃ refusal, b.registerFunction offer = (false, b.reject .function offer.name refusal) := by
  unfold registerFunction
  split
  · exact .inr ⟨_, rfl⟩
  · rename_i hcheck
    obtain ⟨hdialects, hapart, hlong⟩ := checkFunction_ok hcheck
    refine .inl ⟨_, rfl, rfl, rfl, rfl, rfl, rfl, ?_, hdialects, ?_, ?_, hlong⟩
    · rintro f ⟨⟩
      rfl
    · intro other hother
      cases other with
      | function f => exact hapart f (function_mem_members.mp hother)
      | constant | event => trivial
    · rintro c ⟨⟩

theorem registerConstant_cases (b : Builder) (offer : ConstantOffer) :
    (∃ c, b.registerConstant offer = (true, b.withMember (.constant c)) ∧
      b.Admits (.constant offer) (.constant c)) ∨
      ∃ refusal, b.registerConstant offer = (false, b.reject .constant offer.name refusal) := by
  unfold registerConstant
  split
  · exact .inr ⟨_, rfl⟩
  · rename_i hcheck
    obtain ⟨hdialects, hapart, hvalue, hlong⟩ := checkConstant_ok hcheck
    refine .inl ⟨_, rfl, rfl, rfl, rfl, rfl, rfl, ?_, hdialects, ?_, ?_, ?_⟩
    · rintro f ⟨⟩
    · intro other hother
      cases other with
      | constant c => exact hapart c (constant_mem_members.mp hother)
      | function | event => trivial
    · rintro c ⟨⟩
      exact hvalue
    · intro hmem
      exact hlong (List.mem_singleton.mp hmem).symm

theorem registerEvent_cases (b : Builder) (offer : EventOffer) :
    (∃ e, b.registerEvent offer = (true, b.withMember (.event e)) ∧ b.Admits (.event offer) (.event e)) ∨
      ∃ refusal, b.registerEvent offer = (false, b.reject .event offer.name refusal) := by
  unfold registerEvent
  split
  · exact .inr ⟨_, rfl⟩
  · rename_i hcheck
    obtain ⟨hdialects, hapart, hlong⟩ := checkEvent_ok hcheck
    refine .inl ⟨_, rfl, rfl, rfl, rfl, rfl, rfl, ?_, hdialects, ?_, ?_, hlong⟩
    · rintro f ⟨⟩
    · intro other hother
      cases other with
      | event e => exact hapart e (event_mem_members.mp hother)
      | function | constant => trivial
    · rintro c ⟨⟩

/-- A registration adds one member, or one rejection. -/
theorem register_cases (b : Builder) (offer : Offer) :
    (∃ m, b.register offer = (true, b.withMember m) ∧ b.Admits offer m) ∨
      ∃ refusal, b.register offer = (false, b.reject offer.kind offer.name refusal) := by
  cases offer with
  | function offer =>
    exact (registerFunction_cases b offer).imp_left fun ⟨f, hf⟩ => ⟨.function f, hf⟩
  | constant offer =>
    exact (registerConstant_cases b offer).imp_left fun ⟨c, hc⟩ => ⟨.constant c, hc⟩
  | event offer =>
    exact (registerEvent_cases b offer).imp_left fun ⟨e, he⟩ => ⟨.event e, he⟩

/-- What holds of no members, and of one more member that is admitted, holds after any registrations. -/
theorem Reachable.members_induction {P : List Member → Prop}
    (hperm : ∀ {ms ms'}, ms.Perm ms' → P ms → P ms') (hnil : P [])
    (hcons : ∀ {b : Builder} {offer : Offer} {m : Member}, P b.members → b.Admits offer m →
      P (m :: b.members))
    (h : b.Reachable) : P b.members := by
  induction h with
  | empty allowLong => exact hnil
  | allowLong _ _ ih => exact ih
  | provider _ _ ih => exact ih
  | @register b _ offer ih =>
    obtain ⟨m, hm, hadmits⟩ | ⟨refusal, hr⟩ := b.register_cases offer
    · rw [hm]
      exact hperm (b.withMember_members m).symm (hcons ih hadmits)
    · rw [hr]
      exact ih

theorem Reachable.apart (h : b.Reachable) : b.members.Pairwise Member.Apart := by
  refine h.members_induction (P := List.Pairwise Member.Apart) (fun hp hms => ?_) .nil fun hms hm => ?_
  · exact hp.pairwise hms Member.Apart.symm
  · exact hms.cons fun other hother => (hm.apart other hother).symm

theorem Reachable.dialects (h : b.Reachable) : ∀ m ∈ b.members, m.dialects.isEmpty = false := by
  refine h.members_induction (P := fun ms => ∀ m ∈ ms, m.dialects.isEmpty = false) (fun hp hms m hm => ?_)
    (by simp) fun hms hm => ?_
  · exact hms m (hp.mem_iff.mpr hm)
  · exact List.forall_mem_cons.mpr ⟨hm.applies, hms⟩

theorem Reachable.values (h : b.Reachable) : ∀ m ∈ b.members, ∀ c, m = .constant c → c.value.ty = c.ty := by
  refine h.members_induction (P := fun ms => ∀ m ∈ ms, ∀ c, m = .constant c → c.value.ty = c.ty)
    (fun hp hms m hm => ?_) (by simp) fun hms hm => ?_
  · exact hms m (hp.mem_iff.mpr hm)
  · exact List.forall_mem_cons.mpr ⟨hm.value, hms⟩

theorem Reachable.functions_apart (h : b.Reachable) : b.functions.toList.Pairwise HostFunction.Apart :=
  (List.pairwise_map (f := Member.function)).mp (List.pairwise_append.mp h.apart).1

theorem Reachable.constants_apart (h : b.Reachable) : b.constants.toList.Pairwise HostConstant.Apart :=
  (List.pairwise_map (f := Member.constant)).mp
    (List.pairwise_append.mp (List.pairwise_append.mp h.apart).2.1).1

theorem Reachable.events_apart (h : b.Reachable) : b.events.toList.Pairwise HostEvent.Apart :=
  (List.pairwise_map (f := Member.event)).mp
    (List.pairwise_append.mp (List.pairwise_append.mp h.apart).2.1).2.1

/-- The builders that registrations lead to from a given one, while its choice on long integers stands. -/
inductive Grows (start : Builder) : Builder → Prop
  | refl : Grows start start
  | provider {b : Builder} (h : Grows start b) (name : String) : Grows start { b with provider := name }
  | register {b : Builder} (h : Grows start b) (offer : Offer) : Grows start (b.register offer).2

theorem Grows.registerAll {start : Builder} (h : start.Grows b) (offers : List Offer) :
    start.Grows (b.registerAll offers).2 := by
  induction offers generalizing b with
  | nil => exact h
  | cons offer rest ih => exact ih (h.register offer)

/-- Without long integers from the start, no member has anything to do with them. -/
theorem Grows.without_long {start : Builder} (h : start.Grows b) (hempty : start.members = [])
    (hoff : start.allowLong = false) : b.allowLong = false ∧ ∀ m ∈ b.members, .long ∉ m.types := by
  induction h with
  | refl => exact ⟨hoff, by simp [hempty]⟩
  | provider _ _ ih => exact ih
  | @register b _ offer ih =>
    obtain ⟨hflag, hmembers⟩ := ih
    obtain ⟨m, hm, hadmits⟩ | ⟨refusal, hr⟩ := b.register_cases offer
    · have hnew : .long ∉ m.types := fun hlong => by
        rw [hadmits.long hlong] at hflag
        cases hflag
      rw [hm]
      refine ⟨by cases m <;> exact hflag, fun other hother => ?_⟩
      obtain rfl | hother := List.mem_cons.mp ((b.withMember_members m).mem_iff.mp hother)
      · exact hnew
      · exact hmembers other hother
    · rw [hr]
      exact ⟨hflag, hmembers⟩

/-- Registrations admit or refuse one offer at a time, and the members that are admitted fit together. -/
theorem registrations_consistent {b : Builder} (h : b.Reachable) :
    (∀ offer, (∃ m, b.register offer = (true, b.withMember m) ∧ m.kind = offer.kind ∧ m.name = offer.name ∧
          m.provider = b.provider ∧ m.dialects = offer.dialects ∧ m.group = offer.group) ∨
        ∃ refusal, b.register offer = (false, b.reject offer.kind offer.name refusal)) ∧
      (∀ (i : Nat) (f : HostFunction), b.functions[i]? = some f → f.id = i) ∧
      b.constants.toList.Pairwise HostConstant.Apart ∧
      b.events.toList.Pairwise HostEvent.Apart ∧
      b.functions.toList.Pairwise HostFunction.Apart ∧
      (∀ m ∈ b.members, m.dialects.isEmpty = false) ∧
      (∀ c ∈ b.constants, c.value.ty = c.ty) ∧
      ∀ start : Builder, start.members = [] → start.allowLong = false → start.Grows b →
        ∀ m ∈ b.members, .long ∉ m.types := by
  refine ⟨fun offer => ?_, h.numbered, h.constants_apart, h.events_apart, h.functions_apart, h.dialects,
    fun c hc => h.values _ (constant_mem_members.mpr hc) c rfl, fun start hempty hoff hgrows => ?_⟩
  · refine (b.register_cases offer).imp_left ?_
    rintro ⟨m, hm, hadmits⟩
    exact ⟨m, hm, hadmits.kind, hadmits.name, hadmits.provider, hadmits.dialects, hadmits.group⟩
  · exact (hgrows.without_long hempty hoff).2

end Builder

namespace Sample

def contested : Builder := ((Builder.empty false).registerAll
  [.constant (.ofValue "ONE" (.integer 1)), .constant (.ofValue "ONE" (.integer 2)),
    .event (.ofParams "count" [.long]), .function { successor with dialects := .only .lsl },
    .function { successor with dialects := .only .xmr }]).2

theorem contested_reachable : contested.Reachable := (Builder.Reachable.empty false).registerAll _

theorem contested_grows : (Builder.empty false).Grows contested := Builder.Grows.refl.registerAll _

end Sample

/-- One constant and both functions are admitted, and none of them has a long type. -/
theorem Builder.contested_consistent :
    Sample.contested.Reachable ∧ (Builder.empty false).Grows Sample.contested ∧
    Sample.contested.members.map Member.name = ["successor", "successor", "ONE"] ∧
      Sample.contested.rejections.toList.map Rejection.refusal =
        [.duplicate .constant, .unsupported (.parameter 0) (.script .long)] ∧
      (∀ (i : Nat) (f : HostFunction), Sample.contested.functions[i]? = some f → f.id = i) ∧
      ∀ m ∈ Sample.contested.members, .long ∉ m.types := by
  obtain ⟨-, hnumbered, -, -, -, -, -, hlong⟩ := registrations_consistent Sample.contested_reachable
  exact ⟨Sample.contested_reachable, Sample.contested_grows, by decide +kernel, by decide +kernel, hnumbered,
    hlong _ rfl rfl Sample.contested_grows⟩

end WorldScript
