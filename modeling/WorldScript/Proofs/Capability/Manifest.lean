import Mathlib.Data.Prod.Lex
import WorldScript.Capability.Manifest
import WorldScript.Proofs.Capability.Search

/-! # What a manifest lists

A manifest lists every admitted member once.  Constants and events are read out of tables, and nothing in
the manifest tells in which order the tables were read: sorting puts the names in order, what is stored under
one name is in the order of registration already, and no two events have both name and dialects in common.
-/

namespace WorldScript

structure ByName {α : Type} (name : α → String) (members listed : List α) : Prop where
  perm : listed.Perm members
  sorted : listed.Pairwise fun a b => name a ≤ name b
  stable : ∀ n, (listed.filter fun a => name a = n) = members.filter fun a => name a = n

namespace ByName

variable {α : Type} {name : α → String} {as bs members : List α}

/-- Lists that agree on each name have the same elements. -/
theorem perm_of_filter (h : ∀ n, (as.filter fun a => name a = n) = bs.filter fun a => name a = n) :
    as.Perm bs := by
  classical
  refine List.perm_iff_count.mpr fun a => ?_
  have hcount (cs : List α) : (cs.filter fun c => name c = name a).count a = cs.count a :=
    List.count_filter (by simp)
  rw [← hcount as, h, hcount]

theorem le_of_sorted {a b : α} (h : (a :: as).Pairwise fun a b => name a ≤ name b) (hb : b ∈ a :: as) :
    name a ≤ name b := by
  rcases List.mem_cons.mp hb with rfl | hb
  · exact String.le_refl _
  · exact (List.pairwise_cons.mp h).1 b hb

/-- A list by name is known from what it has under each name. -/
theorem eq_of_filter (has : as.Pairwise fun a b => name a ≤ name b)
    (hbs : bs.Pairwise fun a b => name a ≤ name b)
    (h : ∀ n, (as.filter fun a => name a = n) = bs.filter fun a => name a = n) : as = bs := by
  induction as generalizing bs with
  | nil => exact (perm_of_filter h).nil_eq
  | cons a as ih =>
    have hperm := perm_of_filter h
    cases bs with
    | nil => exact absurd hperm.symm.nil_eq (by simp)
    | cons b bs =>
      have hab : name a ≤ name b := le_of_sorted has (hperm.mem_iff.mpr List.mem_cons_self)
      have hba : name b ≤ name a := le_of_sorted hbs (hperm.mem_iff.mp List.mem_cons_self)
      have hname : name a = name b := String.le_antisymm hab hba
      -- under their common name both lists begin with their first elements
      have hfirst := h (name a)
      rw [List.filter_cons_of_pos (by simp), List.filter_cons_of_pos (by simp [hname])] at hfirst
      obtain ⟨rfl, hrest⟩ := List.cons.inj hfirst
      congr 1
      apply ih (List.pairwise_cons.mp has).2 (List.pairwise_cons.mp hbs).2
      intro n
      by_cases hn : name a = n
      · rw [← hn, hrest]
      · have hn := h n
        rwa [List.filter_cons_of_neg (by simpa), List.filter_cons_of_neg (by simpa)] at hn

theorem unique (has : ByName name members as) (hbs : ByName name members bs) : as = bs :=
  eq_of_filter has.sorted hbs.sorted fun n => (has.stable n).trans (hbs.stable n).symm

/-- A list that agrees with the members on each name may be sorted in their place. -/
theorem of_filter {found listed : List α}
    (h : ∀ n, (found.filter fun a => name a = n) = members.filter fun a => name a = n)
    (hlisted : ByName name found listed) : ByName name members listed where
  perm := hlisted.perm.trans (perm_of_filter h)
  sorted := hlisted.sorted
  stable n := (hlisted.stable n).trans (h n)

theorem of_mergeSort (name : α → String) (members : List α) :
    ByName name members (members.mergeSort fun a b => name a ≤ name b) := by
  have htrans (a b c : α) (hab : decide (name a ≤ name b) = true) (hbc : decide (name b ≤ name c) = true) :
      decide (name a ≤ name c) = true := by
    rw [decide_eq_true_eq] at *
    exact String.le_trans hab hbc
  have htotal (a b : α) : (decide (name a ≤ name b) || decide (name b ≤ name a)) = true := by
    simpa using String.le_total (name a) (name b)
  have hperm := List.mergeSort_perm members fun a b => decide (name a ≤ name b)
  refine ⟨hperm, ?_, fun n => ?_⟩
  · exact (List.pairwise_mergeSort htrans htotal members).imp of_decide_eq_true
  · -- what has one name is sorted as it stands, and sorting keeps it so
    have hsame : (members.filter fun a => name a = n).Pairwise fun a b =>
        decide (name a ≤ name b) = true := by
      refine List.pairwise_iff_forall_sublist.mpr fun {a b} hab => ?_
      have ha : name a = n := of_decide_eq_true (List.mem_filter.mp (hab.subset (by simp))).2
      have hb : name b = n := of_decide_eq_true (List.mem_filter.mp (hab.subset (by simp))).2
      rw [ha, hb]
      exact decide_eq_true (String.le_refl n)
    have hsublist :=
      (List.sublist_mergeSort htrans htotal hsame List.filter_sublist).filter fun a => name a = n
    rw [List.filter_filter] at hsublist
    simp only [Bool.and_self] at hsublist
    exact (hsublist.eq_of_length (hperm.filter _).length_eq.symm).symm

end ByName

namespace Registry

variable {α : Type} {b : Builder}

structure Reading (r : Registry) where
  constants : List (String × List HostConstant)
  constants_perm : constants.Perm r.constantTable.entries
  dialects : List Dialect
  dialects_perm : dialects.Perm Dialect.all
  events : Dialect → List (String × HostEvent)
  events_perm : ∀ d, (events d).Perm (r.eventTables.get d).entries

def Reading.stored (r : Registry) : r.Reading where
  constants := r.constantTable.entries
  constants_perm := .refl _
  dialects := Dialect.all
  dialects_perm := .refl _
  events d := (r.eventTables.get d).entries
  events_perm _ := .refl _

def Reading.backwards (r : Registry) : r.Reading where
  constants := r.constantTable.entries.reverse
  constants_perm := List.reverse_perm _
  dialects := Dialect.all.reverse
  dialects_perm := List.reverse_perm _
  events d := (r.eventTables.get d).entries.reverse
  events_perm _ := List.reverse_perm _

theorem append_sorted {t : Table String (List α)} (h : t.Sorted) (key : String) (item : α) :
    (append t key item).Sorted := h.insert _ _

theorem constantTable_sorted (b : Builder) : (ofBuilder b).constantTable.Sorted := by
  rw [ofBuilder_constantTable]
  exact List.foldlRecOn _ _ Table.sorted_empty fun t ht c _ => append_sorted ht c.name c

theorem constantTable_get? (b : Builder) (name : String) :
    ((ofBuilder b).constantTable.get? name).getD [] = b.constants.toList.filter fun c => c.name = name := by
  rw [ofBuilder_constantTable, foldl_append_get? HostConstant.name, List.map_id']
  rfl

/-- Of lists under different keys, only one is there for a given key. -/
theorem flatMap_of_key {β : Type} {entries : List (String × α)} (h : (entries.map Prod.fst).Nodup)
    {key : String} {bs : List β} (hbs : key ∉ entries.map Prod.fst → bs = []) :
    (entries.flatMap fun e => if e.1 = key then bs else []) = bs := by
  induction entries with
  | nil => exact (hbs (by simp)).symm
  | cons e rest ih =>
    obtain ⟨hfirst, hrest⟩ := List.nodup_cons.mp h
    rw [List.flatMap_cons]
    by_cases hkey : e.1 = key
    · have hnone : (rest.flatMap fun e => if e.1 = key then bs else []) = [] := by
        refine List.flatMap_eq_nil_iff.mpr fun e' he' => if_neg fun heq => hfirst ?_
        exact List.mem_map.mpr ⟨e', he', heq.trans hkey.symm⟩
      rw [if_pos hkey, hnone, List.append_nil]
    · rw [if_neg hkey, List.nil_append]
      apply ih hrest
      intro hmem
      apply hbs
      simpa [Ne.symm hkey] using hmem

/-- Whatever the order of the names, those of one name are read in the order of their registration. -/
theorem Reading.constants_filter (order : (ofBuilder b).Reading) (name : String) :
    ((order.constants.flatMap Prod.snd).filter fun c => c.name = name) =
      b.constants.toList.filter fun c => c.name = name := by
  have hsorted := constantTable_sorted b
  have hnodup : (order.constants.map Prod.fst).Nodup := by
    rw [(order.constants_perm.map Prod.fst).nodup_iff, List.Nodup, List.pairwise_map]
    exact List.Pairwise.imp (fun h => ne_of_lt h) hsorted
  have hentry : ∀ e ∈ order.constants, (e.2.filter fun c => c.name = name) =
      if e.1 = name then b.constants.toList.filter fun c => c.name = name else [] := by
    intro e he
    have hget := hsorted.get?_of_mem (order.constants_perm.mem_iff.mp he)
    have hstored := constantTable_get? b e.1
    rw [hget, Option.getD_some] at hstored
    rw [hstored, List.filter_filter]
    split
    · rename_i hkey
      simp [hkey]
    · rename_i hkey
      refine List.filter_eq_nil_iff.mpr fun c _ => ?_
      simp only [Bool.and_eq_true, decide_eq_true_eq, not_and]
      intro hname hkey'
      exact hkey (hkey'.symm.trans hname)
  rw [List.filter_flatMap, List.flatMap_congr hentry]
  apply flatMap_of_key hnodup
  intro hmissing
  have hnone : (ofBuilder b).constantTable.get? name = none := by
    refine Option.eq_none_iff_forall_ne_some.mpr fun cs hcs => hmissing ?_
    exact List.mem_map.mpr ⟨_, order.constants_perm.mem_iff.mpr (Table.mem_of_get? hcs), rfl⟩
  rw [← constantTable_get?, hnone, Option.getD_none]

def Reading.foundEvents {r : Registry} (order : r.Reading) : List HostEvent :=
  order.dialects.flatMap fun d => (order.events d).map Prod.snd

theorem Reading.mem_foundEvents (h : b.Reachable) (order : (ofBuilder b).Reading) (e : HostEvent) :
    e ∈ order.foundEvents ↔ e ∈ b.events.toList := by
  rw [← mem_eventTables h, foundEvents, (order.dialects_perm.flatMap_right _).mem_iff]
  exact (List.Perm.flatMap_left _ fun d _ => (order.events_perm d).map Prod.snd).mem_iff

theorem eventLe_iff {e e' : HostEvent} : eventLe e e' = true ↔ toLex (eventKey e) ≤ toLex (eventKey e') := by
  simp [eventLe, eventKey, Prod.Lex.toLex_le_toLex]

theorem mergeSort_eventLe (es : List HostEvent) :
    (es.mergeSort eventLe).Pairwise fun e e' => eventLe e e' = true := by
  apply List.pairwise_mergeSort
  · intro e e' e'' h h'
    rw [eventLe_iff] at *
    exact h.trans h'
  · intro e e'
    rw [Bool.or_eq_true, eventLe_iff, eventLe_iff]
    exact le_total _ _

/-- Events are in their order when each comes before the next by name, or by dialects under one name. -/
theorem events_ordered (h : b.Reachable) :
    (ofBuilder b).events.Pairwise fun e e' =>
    e.name < e'.name ∨ e.name = e'.name ∧ e.dialects.text < e'.dialects.text := by
  have hnodup : (ofBuilder b).events.Nodup := (events_perm h).nodup_iff.mpr (events_nodup h)
  refine ((mergeSort_eventLe _).and hnodup).imp_of_mem fun {e e'} he he' hle => ?_
  have hne : eventKey e ≠ eventKey e' := fun hkey => hle.2
    (eventKey_unique h e ((events_perm h).mem_iff.mp he) e' ((events_perm h).mem_iff.mp he') hkey)
  have hlt : toLex (eventKey e) < toLex (eventKey e') := lt_of_le_of_ne (eventLe_iff.mp hle.1) hne
  exact Prod.Lex.toLex_lt_toLex.mp hlt

end Registry

namespace Manifest

variable {b : Builder} {fields more : List (String × Document)}

def inOrder {r : Registry} (order : r.Reading) : Manifest where
  functions := r.functions.toList.mergeSort fun a b => a.name ≤ b.name
  constants := (order.constants.flatMap Prod.snd).mergeSort fun a b => a.name ≤ b.name
  events := (Registry.distinctEvents [] order.foundEvents).mergeSort Registry.eventLe

theorem inOrder_constants (order : (Registry.ofBuilder b).Reading) :
    ByName HostConstant.name b.constants.toList (inOrder order).constants :=
  .of_filter order.constants_filter (.of_mergeSort _ _)

theorem inOrder_events (h : b.Reachable) (order : (Registry.ofBuilder b).Reading) :
    (inOrder order).events = (ofRegistry (.ofBuilder b)).events := by
  have hperm : (inOrder order).events.Perm b.events.toList :=
    (List.mergeSort_perm _ _).trans (Registry.distinctEvents_perm h (order.mem_foundEvents h))
  have hown : (ofRegistry (.ofBuilder b)).events.Perm b.events.toList := Registry.events_perm h
  apply List.Perm.eq_of_pairwise _ (Registry.mergeSort_eventLe _) (Registry.mergeSort_eventLe _)
    (hperm.trans hown.symm)
  intro e e' he he' hle hge
  rw [Registry.eventLe_iff] at hle hge
  have hkey : Registry.eventKey e = Registry.eventKey e' := toLex.injective (hle.antisymm hge)
  exact Registry.eventKey_unique h e (hperm.mem_iff.mp he) e' (hown.mem_iff.mp he') hkey

theorem inOrder_stored (r : Registry) : inOrder (.stored r) = ofRegistry r := rfl

/-- A manifest lists every admitted member once and in order, however the tables are read. -/
theorem lists_members {b : Builder} (h : b.Reachable) :
    (∀ order : (Registry.ofBuilder b).Reading, inOrder order = ofRegistry (.ofBuilder b)) ∧
      ByName HostFunction.name b.functions.toList (ofRegistry (.ofBuilder b)).functions ∧
      ByName HostConstant.name b.constants.toList (ofRegistry (.ofBuilder b)).constants ∧
      (ofRegistry (.ofBuilder b)).events.Perm b.events.toList ∧
      (ofRegistry (.ofBuilder b)).events.Pairwise fun e e' =>
        e.name < e'.name ∨ e.name = e'.name ∧ e.dialects.text < e'.dialects.text := by
  have hconstants := inOrder_constants (Registry.Reading.stored (.ofBuilder b))
  rw [inOrder_stored] at hconstants
  refine ⟨fun order => ?_, ?_, hconstants, Registry.events_perm h, Registry.events_ordered h⟩
  · have hconstants : (inOrder order).constants = (ofRegistry (.ofBuilder b)).constants :=
      (inOrder_constants order).unique hconstants
    have hevents : (inOrder order).events = (ofRegistry (.ofBuilder b)).events := inOrder_events h order
    change (⟨_, (inOrder order).constants, (inOrder order).events⟩ : Manifest) = _
    rw [hconstants, hevents]
    rfl
  · rw [ofRegistry, Registry.ofBuilder_functions]
    exact .of_mergeSort _ _

theorem tyDocument_inj {t u : Ty} (h : tyDocument t = tyDocument u) : t = u := by
  have hword := Document.string.inj h
  cases t <;> cases u <;> first | rfl | exact absurd hword (by decide)

theorem tysDocument_inj {ts us : List Ty} (h : tysDocument ts = tysDocument us) : ts = us :=
  List.map_injective_iff.mpr (fun _ _ => tyDocument_inj) (Document.array.inj h)

theorem returns_inj {t u : Option Ty} (h : t.elim .null tyDocument = u.elim .null tyDocument) : t = u := by
  cases t <;> cases u <;> first | rfl | cases h | exact congrArg some (tyDocument_inj h)

theorem dialectsDocument_inj {s t : DialectSet} (h : dialectsDocument s = dialectsDocument t) : s = t := by
  have hnames : s.toList = t.toList := by
    refine List.map_injective_iff.mpr (fun d e hde => ?_) (Document.array.inj h)
    have hname := Document.string.inj hde
    cases d <;> cases e <;> first | rfl | exact absurd hname (by decide)
  have hcontains (d : Dialect) : s.contains d = t.contains d := by
    rw [Bool.eq_iff_iff, ← DialectSet.mem_toList, hnames, DialectSet.mem_toList]
  exact congr (congrArg₂ DialectSet.mk (hcontains .lsl) (hcontains .ossl)) (hcontains .xmr)

/-- Whether an optional field is written, and with what, is seen from the fields where none of its name
follows. -/
theorem optionalField_inj {name : String} {t u : Option String} (hfields : ∀ f ∈ fields, f.1 ≠ name)
    (hmore : ∀ f ∈ more, f.1 ≠ name) (h : optionalField name t ++ fields = optionalField name u ++ more) :
    t = u ∧ fields = more := by
  cases t with
  | none =>
    cases u with
    | none => exact ⟨rfl, h⟩
    | some u =>
      have h : fields = (name, .string u) :: more := h
      exact absurd rfl (hfields (name, .string u) (by simp [h]))
  | some t =>
    cases u with
    | none =>
      have h : (name, .string t) :: fields = more := h
      exact absurd rfl (hmore (name, .string t) (by simp [← h]))
    | some u =>
      obtain ⟨hfirst, hrest⟩ := List.cons.inj h
      exact ⟨congrArg some (Document.string.inj (Prod.mk.inj hfirst).2), hrest⟩

theorem groupAndDescription_inj {group group' description description' : Option String}
    (hfields : ∀ f ∈ fields, f.1 ≠ "group" ∧ f.1 ≠ "description")
    (hmore : ∀ f ∈ more, f.1 ≠ "group" ∧ f.1 ≠ "description")
    (h : optionalField "group" group ++ (optionalField "description" description ++ fields) = optionalField
      "group" group' ++ (optionalField "description" description' ++ more)) :
    group = group' ∧ description = description' ∧ fields = more := by
  have hother (text : Option String) {rest : List (String × Document)}
      (hrest : ∀ f ∈ rest, f.1 ≠ "group" ∧ f.1 ≠ "description") :
      ∀ f ∈ optionalField "description" text ++ rest, f.1 ≠ "group" := by
    refine List.forall_mem_append.mpr ⟨?_, fun f hf => (hrest f hf).1⟩
    cases text <;> simp [optionalField]
  obtain ⟨hgroup, h⟩ := optionalField_inj (hother description hfields) (hother description' hmore) h
  obtain ⟨hdescription, h⟩ := optionalField_inj (fun f hf => (hfields f hf).2) (fun f hf => (hmore f hf).2) h
  exact ⟨hgroup, hdescription, h⟩

def functionFields (f : HostFunction) :=
  (f.name, f.provider, f.params, f.returns, f.dialects, f.group, f.description,
    Document.ofFloat f.cost.energy,
    Document.ofFloat f.cost.delay)

def constantFields (c : HostConstant) := (c.name, c.ty, c.value.document, c.dialects, c.group, c.description)

def eventFields (e : HostEvent) := (e.name, e.params, e.dialects, e.group, e.description)

theorem functionDocument_inj {f g : HostFunction} (h : functionDocument f = functionDocument g) :
    functionFields f = functionFields g := by
  have h := Document.object.inj h
  simp only [List.append_assoc, List.cons_append, List.nil_append, List.cons.injEq, Prod.mk.injEq, true_and,
    Document.string.injEq] at h
  obtain ⟨hname, hprovider, hparams, hreturns, hdialects, h⟩ := h
  obtain ⟨hgroup, hdescription, h⟩ := groupAndDescription_inj (by simp) (by simp) h
  simp only [List.cons.injEq, Prod.mk.injEq, true_and, and_true] at h
  simp only [functionFields, hname, hprovider, tysDocument_inj hparams, returns_inj hreturns,
    dialectsDocument_inj hdialects, hgroup, hdescription, h]

theorem constantDocument_inj {c d : HostConstant} (h : constantDocument c = constantDocument d) :
    constantFields c = constantFields d := by
  have h := Document.object.inj h
  simp only [List.cons_append, List.nil_append, List.cons.injEq, Prod.mk.injEq, true_and,
    Document.string.injEq] at h
  obtain ⟨hname, hty, hvalue, hdialects, h⟩ := h
  obtain ⟨hgroup, hdescription, -⟩ :=
    groupAndDescription_inj (List.forall_mem_nil _) (List.forall_mem_nil _) (by simpa using h)
  simp only [constantFields, hname, tyDocument_inj hty, hvalue, dialectsDocument_inj hdialects,
    hgroup, hdescription]

theorem eventDocument_inj {e e' : HostEvent} (h : eventDocument e = eventDocument e') :
    eventFields e = eventFields e' := by
  have h := Document.object.inj h
  simp only [List.cons_append, List.nil_append, List.cons.injEq, Prod.mk.injEq, true_and,
    Document.string.injEq] at h
  obtain ⟨hname, hparams, hdialects, h⟩ := h
  obtain ⟨hgroup, hdescription, -⟩ :=
    groupAndDescription_inj (List.forall_mem_nil _) (List.forall_mem_nil _) (by simpa using h)
  simp only [eventFields, hname, tysDocument_inj hparams, dialectsDocument_inj hdialects,
    hgroup, hdescription]

theorem map_eq_map {α β γ : Type} {entry : α → β} {fields : α → γ}
    (h : ∀ a b, entry a = entry b → fields a = fields b) {as bs : List α}
    (hmap : as.map entry = bs.map entry) : as.map fields = bs.map fields := by
  induction as generalizing bs with
  | nil => rw [List.map_eq_nil_iff.mp hmap.symm]
  | cons a as ih =>
    obtain ⟨b, bs, rfl, hb, hrest⟩ := List.map_eq_cons_iff.mp hmap.symm
    rw [List.map_cons, List.map_cons, h a b hb.symm, ih hrest.symm]

/-- The written manifest tells all fields of the members that are listed. -/
theorem document_tells {m n : Manifest} (h : m.document = n.document) :
    m.functions.map functionFields = n.functions.map functionFields ∧
      m.constants.map constantFields = n.constants.map constantFields ∧
      m.events.map eventFields = n.events.map eventFields := by
  have h := Document.object.inj h
  simp only [List.cons.injEq, Prod.mk.injEq, true_and, and_true, Document.array.injEq] at h
  obtain ⟨hfunctions, hconstants, hevents⟩ := h
  exact ⟨map_eq_map (fun _ _ => functionDocument_inj) hfunctions,
    map_eq_map (fun _ _ => constantDocument_inj) hconstants,
    map_eq_map (fun _ _ => eventDocument_inj) hevents⟩

end Manifest

namespace Sample

def catalogue : Builder := (namesakes.registerAll
  [.constant (.ofValue "ZERO" (.integer 0)), .constant (.ofValue "ONE" (.integer 1)),
    .event (.ofParams "state_entry" [])]).2

theorem catalogue_reachable : catalogue.Reachable := namesakes_reachable.registerAll _

end Sample

/-- Read from their ends, the tables give the same manifest. -/
theorem Manifest.catalogue_listed : Sample.catalogue.Reachable ∧
    inOrder (.backwards (.ofBuilder Sample.catalogue)) = ofRegistry (.ofBuilder Sample.catalogue) ∧
      (ofRegistry (.ofBuilder Sample.catalogue)).constants.map HostConstant.name = ["ONE", "ZERO"] ∧
      (ofRegistry (.ofBuilder Sample.catalogue)).events.length = 3 := by
  obtain ⟨horder, -, hconstants, hevents, -⟩ := lists_members Sample.catalogue_reachable
  refine ⟨Sample.catalogue_reachable, horder _, ?_, ?_⟩
  · have hnames := hconstants.perm.map HostConstant.name
    have hsorted := List.pairwise_map.mpr hconstants.sorted
    have hregistered : (Sample.catalogue.constants.toList.map HostConstant.name).Perm ["ONE", "ZERO"] := by
      decide +kernel
    exact (hnames.trans hregistered).eq_of_pairwise (fun _ _ _ _ => String.le_antisymm) hsorted
      (by decide +kernel)
  · rw [hevents.length_eq]
    decide +kernel

end WorldScript
