import Mathlib.Data.List.Basic
import WorldScript.Proofs.Capability.Admission
import WorldScript.Proofs.Table

/-! # What a registry answers

The tables of a registry hold the members of its builder in the order of their registration.  An answer
only shows members that may be seen, so that everything a compilation can learn from a registry stands in
the lists of those members.
-/

namespace WorldScript

namespace Builder

variable (b : Builder) (v : Visibility)

def visibleFunctions : List HostFunction := b.functions.toList.filter fun f => v.permits f.dialects f.group

def visibleConstants : List HostConstant := b.constants.toList.filter fun c => v.permits c.dialects c.group

def visibleEvents : List HostEvent := b.events.toList.filter fun e => v.permits e.dialects e.group

end Builder

theorem DialectSet.intersects_of_contains {s t : DialectSet} {d : Dialect} (hs : s.contains d = true)
    (ht : t.contains d = true) : s.intersects t = true := by
  cases d <;> simp_all [contains, intersects]

/-- Every event has a dialect. -/
theorem Builder.Reachable.event_dialects {b : Builder} (h : b.Reachable) :
    ∀ e ∈ b.events, e.dialects.isEmpty = false :=
  fun _ he => h.dialects _ (event_mem_members.mpr he)

/-- The number of a function leads back to it. -/
theorem Numbered.get_of_mem {functions : Array HostFunction} (h : Numbered functions) {f : HostFunction}
    (hf : f ∈ functions.toList) : functions[f.id]? = some f := by
  obtain ⟨i, hi⟩ := Array.mem_iff_getElem?.mp (Array.mem_toList_iff.mp hf)
  rw [h i f hi, hi]

theorem PerDialect.get_change {α : Type} (p : PerDialect α) (dialects : DialectSet) (f : α → α)
    (d : Dialect) : (p.change dialects f).get d = if dialects.contains d then f (p.get d) else p.get d := by
  cases d <;> rfl

theorem find?_filterMap_eq {α β : Type} (as : List α) (f : α → Option β) (p : β → Bool) :
    (as.filterMap f).find? p = as.findSome? fun a => (f a).filter p := by
  induction as with
  | nil => rfl
  | cons a rest ih =>
    rw [List.findSome?_cons, ← ih]
    cases hf : f a with
    | none => rw [List.filterMap_cons_none hf, Option.filter_none]
    | some b =>
      rw [List.filterMap_cons_some hf, List.find?_cons, Option.filter_some]
      by_cases hp : p b = true <;> simp [hp]

/-- Where at most one element will do, it does not matter where it stands. -/
theorem find?_iff_of_unique {α : Type} {as : List α} {p : α → Bool}
    (h : ∀ a ∈ as, ∀ b ∈ as, p a = true → p b = true → a = b) {a : α} :
    as.find? p = some a ↔ a ∈ as ∧ p a = true := by
  constructor
  · intro hfind
    exact ⟨List.mem_of_find?_eq_some hfind, List.find?_some hfind⟩
  · rintro ⟨ha, hp⟩
    obtain ⟨b, hb⟩ := Option.isSome_iff_exists.mp (List.find?_isSome.mpr ⟨a, ha, hp⟩)
    rw [hb, h b (List.mem_of_find?_eq_some hb) a ha (List.find?_some hb) hp]

namespace Registry

theorem append_get? {κ α : Type} [LT κ] [DecidableLT κ] [DecidableEq κ] (t : Table κ (List α)) (key k : κ)
    (item : α) :
    ((append t key item).get? k).getD [] = (t.get? k).getD [] ++ if key = k then [item] else [] := by
  rw [append, Table.get?_insert]
  by_cases h : key = k
  · simp [h]
  · simp [h, Ne.symm h]

/-- A table of lists has the items of each key in order. -/
theorem foldl_append_get? {κ α ι : Type} [LT κ] [DecidableLT κ] [DecidableEq κ] (key : ι → κ) (item : ι → α)
    (items : List ι) (t : Table κ (List α)) (k : κ) :
    ((items.foldl (fun t i => append t (key i) (item i)) t).get? k).getD [] =
      (t.get? k).getD [] ++ (items.filter fun i => key i = k).map item := by
  induction items generalizing t with
  | nil => simp
  | cons i rest ih =>
    rw [List.foldl_cons, ih, append_get?]
    by_cases h : key i = k <;> simp [h]

def answers (name : String) (d : Dialect) (e : HostEvent) : Bool := e.name = name && e.dialects.contains d

/-- The table of a dialect answers with the last event. -/
theorem foldl_change_get? (events : List HostEvent) (p : PerDialect (Table String HostEvent)) (d : Dialect)
    (name : String) :
    ((events.foldl (fun p e => p.change e.dialects fun t => t.insert e.name e) p).get d).get? name =
      (events.reverse.find? (answers name d)).or ((p.get d).get? name) := by
  induction events generalizing p with
  | nil => rfl
  | cons e rest ih =>
    rw [List.foldl_cons, ih, PerDialect.get_change, List.reverse_cons, List.find?_append, Option.or_assoc]
    congr 1
    by_cases hd : e.dialects.contains d = true
    · rw [if_pos hd, Table.get?_insert]
      by_cases hn : e.name = name
      · simp [answers, hd, hn]
      · simp [answers, hn, Ne.symm hn]
    · simp [answers, hd]

theorem inBuckets_tables (r : Registry) (dialects : DialectSet) (group : Option String)
    (f : Bucket → Bucket) :
    (r.inBuckets dialects group f).overloadTable = r.overloadTable ∧
      (r.inBuckets dialects group f).constantTable = r.constantTable ∧
      (r.inBuckets dialects group f).eventTables = r.eventTables ∧
      (r.inBuckets dialects group f).longIntegers = r.longIntegers := by
  cases group <;> exact ⟨rfl, rfl, rfl, rfl⟩

theorem addFunction_tables (r : Registry) (f : HostFunction) :
    (r.addFunction f).overloadTable = append r.overloadTable f.name f.id ∧
      (r.addFunction f).constantTable = r.constantTable ∧ (r.addFunction f).eventTables = r.eventTables ∧
      (r.addFunction f).longIntegers = r.longIntegers := inBuckets_tables _ _ _ _

theorem addConstant_tables (r : Registry) (c : HostConstant) :
    (r.addConstant c).overloadTable = r.overloadTable ∧
      (r.addConstant c).constantTable = append r.constantTable c.name c ∧
      (r.addConstant c).eventTables = r.eventTables ∧ (r.addConstant c).longIntegers = r.longIntegers :=
  inBuckets_tables _ _ _ _

theorem addEvent_tables (r : Registry) (e : HostEvent) :
    (r.addEvent e).overloadTable = r.overloadTable ∧ (r.addEvent e).constantTable = r.constantTable ∧
      (r.addEvent e).eventTables = r.eventTables.change e.dialects (fun t => t.insert e.name e) ∧
      (r.addEvent e).longIntegers = r.longIntegers := inBuckets_tables _ _ _ _

/-- A field that each member changes in its own way. -/
theorem foldl_field {α β : Type} {add : Registry → α → Registry} (field : Registry → β) (step : β → α → β)
    (h : ∀ r a, field (add r a) = step (field r) a) (members : Array α) (r : Registry) :
    field (members.foldl add r) = members.toList.foldl step (field r) := by
  rw [← Array.foldl_toList]
  exact (List.foldl_hom field fun r a => (h r a).symm).symm

/-- A field that members leave as it is. -/
theorem foldl_frame {α β : Type} {add : Registry → α → Registry} {field : Registry → β}
    (h : ∀ r a, field (add r a) = field r) (members : Array α) (r : Registry) :
    field (members.foldl add r) = field r :=
  Array.foldl_induction (fun _ s => field s = field r) rfl fun _ s hs => (h s _).trans hs

theorem ofBuilder_overloadTable (b : Builder) : (ofBuilder b).overloadTable =
    b.functions.toList.foldl (fun t f => append t f.name f.id) .empty := by
  rw [ofBuilder, foldl_frame fun r e => (addEvent_tables r e).1, foldl_frame fun r c =>
    (addConstant_tables r c).1,
    foldl_field overloadTable (fun t f => append t f.name f.id) fun r f => (addFunction_tables r f).1]

theorem ofBuilder_constantTable (b : Builder) : (ofBuilder b).constantTable =
    b.constants.toList.foldl (fun t c => append t c.name c) .empty := by
  rw [ofBuilder, foldl_frame fun r e => (addEvent_tables r e).2.1,
    foldl_field constantTable (fun t c => append t c.name c) fun r c => (addConstant_tables r c).2.1,
    foldl_frame fun r f => (addFunction_tables r f).2.1]

theorem ofBuilder_eventTables (b : Builder) :
    (ofBuilder b).eventTables =
    b.events.toList.foldl (fun p e => p.change e.dialects fun t => t.insert e.name e) ⟨.empty,
      .empty, .empty⟩ := by
  rw [ofBuilder, foldl_field eventTables (fun p e => p.change e.dialects fun t => t.insert e.name e)
      fun r e => (addEvent_tables r e).2.2.1,
    foldl_frame fun r c => (addConstant_tables r c).2.2.1, foldl_frame fun r f =>
      (addFunction_tables r f).2.2.1]

theorem ofBuilder_longIntegers (b : Builder) : (ofBuilder b).longIntegers = b.allowLong := by
  rw [ofBuilder, foldl_frame fun r e => (addEvent_tables r e).2.2.2,
    foldl_frame fun r c => (addConstant_tables r c).2.2.2, foldl_frame fun r f =>
      (addFunction_tables r f).2.2.2]

/-- The overloads of a name are the visible functions of that name. -/
theorem overloads_ofBuilder {b : Builder} (h : b.Reachable) (name : String) (v : Visibility) :
    (ofBuilder b).overloads name v = (b.visibleFunctions v).filter fun f => f.name = name := by
  have hids : ((ofBuilder b).overloadTable.get? name).getD [] =
      (b.functions.toList.filter fun f => f.name = name).map HostFunction.id := by
    rw [ofBuilder_overloadTable, foldl_append_get? HostFunction.name]
    rfl
  have hcomm : (b.visibleFunctions v).filter (fun f => f.name = name) =
      (b.functions.toList.filter fun f => f.name = name).filter fun f => v.permits f.dialects f.group := by
    simp only [Builder.visibleFunctions, List.filter_filter, Bool.and_comm]
  rw [overloads, hids, ofBuilder_functions, List.filterMap_map, hcomm,
    ← List.filterMap_eq_filter (p := fun f : HostFunction => v.permits f.dialects f.group)]
  refine List.filterMap_congr fun f hf => ?_
  simp only [Function.comp_apply, h.numbered.get_of_mem (List.mem_filter.mp hf).1, Option.guard]

/-- The constant of a name is the first visible one. -/
theorem constant?_ofBuilder (b : Builder) (name : String) (v : Visibility) :
    (ofBuilder b).constant? name v = (b.visibleConstants v).find? fun c => c.name = name := by
  have hconstants : ((ofBuilder b).constantTable.get? name).getD [] =
      b.constants.toList.filter fun c => c.name = name := by
    rw [ofBuilder_constantTable, foldl_append_get? HostConstant.name, List.map_id']
    rfl
  rw [constant?, hconstants, Builder.visibleConstants, List.find?_filter, List.find?_filter]
  simp only [and_comm]

/-- A dialect has at most one event of a name. -/
theorem answers_unique {b : Builder} (h : b.Reachable) (name : String) (d : Dialect) :
    ∀ e ∈ b.events.toList, ∀ e' ∈ b.events.toList, answers name d e = true →
      answers name d e' = true → e = e' := by
  intro e he e' he' ha ha'
  simp only [answers, Bool.and_eq_true, decide_eq_true_eq] at ha ha'
  by_contra hne
  have hapart := h.events_apart.forall he he' hne (ha.1.trans ha'.1.symm)
  rw [DialectSet.intersects_of_contains ha.2 ha'.2] at hapart
  cases hapart

/-- The table of a dialect has every event of the dialect under its name. -/
theorem eventTable_get? {b : Builder} (h : b.Reachable) {name : String} {d : Dialect} {e : HostEvent} :
    ((ofBuilder b).eventTables.get d).get? name = some e ↔ e ∈ b.events.toList ∧ answers name d e = true := by
  have hempty : (PerDialect.get ⟨.empty, .empty, .empty⟩ d : Table String HostEvent).get? name = none := by
    cases d <;> rfl
  rw [ofBuilder_eventTables, foldl_change_get?, hempty, Option.or_none, find?_iff_of_unique, List.mem_reverse]
  intro x hx y hy
  exact answers_unique h name d x (List.mem_reverse.mp hx) y (List.mem_reverse.mp hy)

/-- The event of a name is the visible one in the first visible dialect that has it. -/
theorem event?_ofBuilder {b : Builder} (h : b.Reachable) (name : String) (v : Visibility) :
    (ofBuilder b).event? name v =
      v.dialects.toList.findSome? fun d => (b.visibleEvents v).find? (answers name d) := by
  -- the last event of the name in a dialect is the only one, so an invisible one hides no other
  rw [event?, find?_filterMap_eq]
  congr 1
  funext d
  ext e
  rw [Option.filter_eq_some_iff, eventTable_get? h, find?_iff_of_unique, Builder.visibleEvents,
    List.mem_filter]
  · exact and_right_comm
  · intro x hx y hy
    exact answers_unique h name d x (List.mem_filter.mp hx).1 y (List.mem_filter.mp hy).1

end Registry

end WorldScript
