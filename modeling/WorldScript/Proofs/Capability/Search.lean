import Mathlib.Data.List.Nodup
import Mathlib.Data.List.Perm.Basic
import Mathlib.Data.String.Basic
import WorldScript.Proofs.Capability.Lookup

/-! # Registries as plain lists of members

A registry keeps its members in tables by name, in tables by dialect and in buckets.  Whatever is asked of
it, the answer is that of a search through the admitted members in the order of their registration: no table
drops a member and none hides one behind another, since two events of a name have no common dialect.
-/

namespace WorldScript

variable {s : DialectSet}

theorem DialectSet.exists_contains (h : s.isEmpty = false) : ∃ d, s.contains d = true := by
  simp only [isEmpty, Bool.not_eq_false', Bool.or_eq_true] at h
  obtain (h | h) | h := h
  · exact ⟨.lsl, h⟩
  · exact ⟨.ossl, h⟩
  · exact ⟨.xmr, h⟩

theorem DialectSet.exists_of_intersects {t : DialectSet} (h : s.intersects t = true) :
    ∃ d, s.contains d = true ∧ t.contains d = true := by
  simp only [intersects, Bool.or_eq_true, Bool.and_eq_true] at h
  obtain (h | h) | h := h
  · exact ⟨.lsl, h⟩
  · exact ⟨.ossl, h⟩
  · exact ⟨.xmr, h⟩

theorem Dialect.mem_all (d : Dialect) : d ∈ Dialect.all := by
  cases d <;> decide

theorem DialectSet.mem_toList {d : Dialect} : d ∈ s.toList ↔ s.contains d = true := by
  simp [toList, Dialect.mem_all]

theorem DialectSet.text_inj {t : DialectSet} (h : s.text = t.text) : s = t := by
  have hall : ∀ a b c a' b' c' : Bool, text ⟨a, b, c⟩ = text ⟨a', b', c'⟩ →
      (⟨a, b, c⟩ : DialectSet) = ⟨a', b', c'⟩ := by decide +kernel
  exact hall _ _ _ _ _ _ h

namespace Bucket

def unlessEmpty (k : Bucket) : Option Bucket := if k = ⟨[], [], []⟩ then none else some k

theorem getD_unlessEmpty (k : Bucket) : k.unlessEmpty.getD ⟨[], [], []⟩ = k := by
  unfold unlessEmpty
  split
  · rename_i h
    exact h.symm
  · rfl

theorem grow_unlessEmpty {f : Bucket → Bucket} {k : Bucket} (h : f k ≠ ⟨[], [], []⟩) :
    grow f k.unlessEmpty = (f k).unlessEmpty := by
  rw [grow, getD_unlessEmpty, unlessEmpty, if_neg h]

def putFunctions (k : Bucket) (fs : List HostFunction) : Bucket :=
  { k with functions := k.functions ++ fs.map HostFunction.id }

def putConstants (k : Bucket) (cs : List HostConstant) : Bucket :=
  { k with constants := k.constants ++ cs.map HostConstant.name }

def putEvents (k : Bucket) (es : List HostEvent) : Bucket :=
  { k with events := k.events ++ es.map HostEvent.name }

end Bucket

def Builder.bucket (b : Builder) (picks : DialectSet → Option String → Bool) : Bucket where
  functions := (b.functions.toList.filter fun f => picks f.dialects f.group).map HostFunction.id
  constants := (b.constants.toList.filter fun c => picks c.dialects c.group).map HostConstant.name
  events := (b.events.toList.filter fun e => picks e.dialects e.group).map HostEvent.name

namespace Registry

variable {b : Builder} {e : HostEvent}

structure Slot (slot : Registry → Option Bucket) (picks : DialectSet → Option String → Bool) : Prop where
  /-- Other tables do not matter. -/
  frame : ∀ r s : Registry, r.dialectBuckets = s.dialectBuckets → r.groupBuckets = s.groupBuckets →
    slot r = slot s
  inBuckets : ∀ (r : Registry) (dialects : DialectSet) (group : Option String) (f : Bucket → Bucket),
    slot (r.inBuckets dialects group f) = if picks dialects group then Bucket.grow f (slot r) else slot r

theorem dialectBucket?_slot (d : Dialect) :
    Slot (dialectBucket? · d) fun dialects _ => dialects.contains d where
  frame r s hdialect _ := by rw [dialectBucket?, dialectBucket?, hdialect]
  inBuckets r dialects group f := by
    have hbuckets : (r.inBuckets dialects group f).dialectBuckets =
        r.dialectBuckets.change dialects (Bucket.grow f) := by cases group <;> rfl
    rw [dialectBucket?, dialectBucket?, hbuckets, PerDialect.get_change]

theorem groupBucket?_slot (g : String) : Slot (groupBucket? · g) fun _ group => group = some g where
  frame r s _ hgroup := by rw [groupBucket?, groupBucket?, hgroup]
  inBuckets r dialects group f := by
    cases group with
    | none => rfl
    | some other =>
      have hbuckets : (r.inBuckets dialects (some other) f).groupBuckets =
          r.groupBuckets.insert other (f ((r.groupBuckets.get? other).getD ⟨[], [], []⟩)) := rfl
      rw [groupBucket?, groupBucket?, hbuckets, Table.get?_insert]
      by_cases hg : other = g
      · subst hg
        simp [Bucket.grow]
      · simp [hg, Ne.symm hg]

section Slot

variable {slot : Registry → Option Bucket} {picks : DialectSet → Option String → Bool}

/-- Members go into a bucket in order, each as the first of those that are left. -/
theorem foldl_slot {α : Type} {add : Registry → α → Registry} {picked : α → Bool}
    {put : Bucket → List α → Bucket}
    (hadd : ∀ r a, slot (add r a) = if picked a then Bucket.grow (put · [a]) (slot r) else slot r)
    (hnil : ∀ k, put k [] = k) (hcons : ∀ k a rest, put k (a :: rest) = put (put k [a]) rest)
    (hput : ∀ k a, put k [a] ≠ ⟨[], [], []⟩) (members : Array α) {r : Registry} {k : Bucket}
    (h : slot r = k.unlessEmpty) :
    slot (members.foldl add r) = (put k (members.toList.filter picked)).unlessEmpty := by
  rw [← Array.foldl_toList]
  induction members.toList generalizing r k with
  | nil => rw [List.foldl_nil, List.filter_nil, hnil, h]
  | cons a rest ih =>
    rw [List.foldl_cons, List.filter_cons]
    by_cases hp : picked a = true
    · rw [if_pos hp, hcons]
      refine ih ?_
      rw [hadd, if_pos hp, h, Bucket.grow_unlessEmpty (hput k a)]
    · rw [if_neg hp]
      refine ih ?_
      rw [hadd, if_neg hp, h]

open Bucket in
/-- A bucket of a registry has the picked members of its builder. -/
theorem Slot.ofBuilder (hs : Slot slot picks) (b : Builder)
    (hempty : ∀ r : Registry, r.dialectBuckets = ⟨none, none, none⟩ → r.groupBuckets = .empty →
      slot r = none) :
    slot (.ofBuilder b) = (b.bucket picks).unlessEmpty := by
  have hfunction (r : Registry) (f : HostFunction) : slot (r.addFunction f) =
      if picks f.dialects f.group then grow (putFunctions · [f]) (slot r) else slot r := by
    rw [← hs.frame { r with overloadTable := append r.overloadTable f.name f.id } r rfl rfl]
    exact hs.inBuckets _ _ _ _
  have hconstant (r : Registry) (c : HostConstant) : slot (r.addConstant c) =
      if picks c.dialects c.group then grow (putConstants · [c]) (slot r) else slot r := by
    rw [← hs.frame { r with constantTable := append r.constantTable c.name c } r rfl rfl]
    exact hs.inBuckets _ _ _ _
  have hevent (r : Registry) (e : HostEvent) : slot (r.addEvent e) =
      if picks e.dialects e.group then grow (putEvents · [e]) (slot r) else slot r := by
    rw [← hs.frame { r with eventTables := r.eventTables.change e.dialects fun t => t.insert e.name e } r rfl
      rfl]
    exact hs.inBuckets _ _ _ _
  rw [Registry.ofBuilder]
  refine foldl_slot hevent ?_ ?_ ?_ b.events (foldl_slot hconstant ?_ ?_ ?_ b.constants
    (foldl_slot hfunction ?_ ?_ ?_ b.functions (k := ⟨[], [], []⟩) (hempty _ rfl rfl)))
  all_goals simp [putFunctions, putConstants, putEvents]

end Slot

theorem eventTable_sorted (b : Builder) (d : Dialect) : ((ofBuilder b).eventTables.get d).Sorted := by
  have hfold (events : List HostEvent) (p : PerDialect (Table String HostEvent)) (h : (p.get d).Sorted) :
      ((events.foldl (fun p e => p.change e.dialects fun t => t.insert e.name e) p).get d).Sorted := by
    induction events generalizing p with
    | nil => exact h
    | cons e rest ih =>
      refine ih _ ?_
      rw [PerDialect.get_change]
      split
      · exact h.insert _ _
      · exact h
  rw [ofBuilder_eventTables]
  refine hfold _ _ ?_
  cases d <;> exact Table.sorted_empty

/-- The table of a dialect lists the events of the dialect. -/
theorem mem_eventTable (h : b.Reachable) {d : Dialect} :
    e ∈ ((ofBuilder b).eventTables.get d).entries.map Prod.snd ↔
      e ∈ b.events.toList ∧ e.dialects.contains d = true := by
  have hanswers : answers e.name d e = e.dialects.contains d := by simp [answers]
  rw [← hanswers, ← eventTable_get? h]
  constructor
  · intro he
    obtain ⟨⟨name, found⟩, hentry, rfl⟩ := List.mem_map.mp he
    have hget := (eventTable_sorted b d).get?_of_mem hentry
    have hname : found.name = name := by
      have hfound := ((eventTable_get? h).mp hget).2
      simp only [answers, Bool.and_eq_true, decide_eq_true_eq] at hfound
      exact hfound.1
    exact hname ▸ hget
  · intro hget
    exact List.mem_map.mpr ⟨_, Table.mem_of_get? hget, rfl⟩

theorem eventKey_of_distinctEvents {seen : List (String × String)} {es : List HostEvent} :
    ∀ e ∈ distinctEvents seen es, eventKey e ∉ seen := by
  induction es generalizing seen with
  | nil => exact fun e he => by cases he
  | cons first rest ih =>
    intro e he
    unfold distinctEvents at he
    split at he
    · exact ih e he
    · rename_i hfirst
      obtain rfl | he := List.mem_cons.mp he
      · simpa using hfirst
      · exact fun hmem => ih e he (List.mem_cons_of_mem _ hmem)

theorem distinctEvents_nodup (seen : List (String × String)) (es : List HostEvent) :
    (distinctEvents seen es).Nodup := by
  induction es generalizing seen with
  | nil => exact List.nodup_nil
  | cons first rest ih =>
    unfold distinctEvents
    split
    · exact ih seen
    · exact List.nodup_cons.mpr ⟨fun hmem => eventKey_of_distinctEvents _ hmem List.mem_cons_self, ih _⟩

/-- Where keys tell events apart, only events that were seen are left out. -/
theorem mem_distinctEvents {seen : List (String × String)} {es : List HostEvent}
    (hkey : ∀ a ∈ es, ∀ b ∈ es, eventKey a = eventKey b → a = b) :
    e ∈ distinctEvents seen es ↔ e ∈ es ∧ eventKey e ∉ seen := by
  induction es generalizing seen with
  | nil => simp [distinctEvents]
  | cons first rest ih =>
    have ih :=
      fun {seen} => @ih seen fun a ha b hb => hkey a (List.mem_cons_of_mem _ ha) b (List.mem_cons_of_mem _ hb)
    unfold distinctEvents
    split
    · rename_i hfirst
      rw [ih, List.mem_cons]
      constructor
      · exact fun ⟨he, hseen⟩ => ⟨.inr he, hseen⟩
      · rintro ⟨rfl | he, hseen⟩
        · exact absurd (by simpa using hfirst) hseen
        · exact ⟨he, hseen⟩
    · rename_i hfirst
      rw [List.mem_cons, ih, List.mem_cons, List.mem_cons]
      constructor
      · rintro (rfl | ⟨he, hseen⟩)
        · exact ⟨.inl rfl, by simpa using hfirst⟩
        · exact ⟨.inr he, fun h => hseen (.inr h)⟩
      · rintro ⟨rfl | he, hseen⟩
        · exact .inl rfl
        · by_cases hsame : eventKey e = eventKey first
          · exact .inl (hkey e (List.mem_cons_of_mem _ he) first List.mem_cons_self hsame)
          · exact .inr ⟨he, fun h => h.elim hsame hseen⟩

theorem eventKey_unique (h : b.Reachable) :
    ∀ e ∈ b.events.toList, ∀ e' ∈ b.events.toList, eventKey e = eventKey e' → e = e' := by
  intro e he e' he' hkey
  obtain ⟨hname, htext⟩ := Prod.mk.inj hkey
  obtain ⟨d, hd⟩ := DialectSet.exists_contains (h.event_dialects e (Array.mem_toList_iff.mp he))
  refine answers_unique h e.name d e he e' he' (by simp [answers, hd]) ?_
  rw [DialectSet.text_inj htext] at hd
  simp [answers, hd, hname]

theorem events_nodup (h : b.Reachable) : b.events.toList.Nodup := by
  refine h.events_apart.imp_of_mem fun {e e'} he _ hapart => ?_
  rintro rfl
  obtain ⟨d, hd⟩ := DialectSet.exists_contains (h.event_dialects e (Array.mem_toList_iff.mp he))
  have hself := DialectSet.intersects_of_contains hd hd
  rw [hapart rfl] at hself
  cases hself

theorem mem_eventTables (h : b.Reachable) :
    e ∈ Dialect.all.flatMap (fun d => ((ofBuilder b).eventTables.get d).entries.map Prod.snd) ↔
      e ∈ b.events.toList := by
  simp only [List.mem_flatMap, mem_eventTable h]
  constructor
  · exact fun ⟨_, _, he, _⟩ => he
  · intro he
    obtain ⟨d, hd⟩ := DialectSet.exists_contains (h.event_dialects e (Array.mem_toList_iff.mp he))
    exact ⟨d, Dialect.mem_all d, he, hd⟩

/-- Events that were found in any order and any number of times are each kept once. -/
theorem distinctEvents_perm (h : b.Reachable) {found : List HostEvent}
    (hfound : ∀ e, e ∈ found ↔ e ∈ b.events.toList) : (distinctEvents [] found).Perm b.events.toList := by
  refine (List.perm_ext_iff_of_nodup (distinctEvents_nodup _ _) (events_nodup h)).mpr fun e => ?_
  rw [mem_distinctEvents, hfound]
  · simp
  · intro x hx y hy
    exact eventKey_unique h x ((hfound x).mp hx) y ((hfound y).mp hy)

/-- Every event is listed once. -/
theorem events_perm (h : b.Reachable) : (ofBuilder b).events.Perm b.events.toList :=
  (List.mergeSort_perm _ _).trans (distinctEvents_perm h fun _ => mem_eventTables h)

/-- An event that is found is visible, and one is found as soon as one is visible. -/
theorem event?_iff (h : b.Reachable) (name : String) (v : Visibility) :
    (((ofBuilder b).event? name v).isSome = true ↔
        ∃ e ∈ b.events, e.name = name ∧ v.permits e.dialects e.group = true) ∧
      ∀ e, (ofBuilder b).event? name v = some e →
        e ∈ b.events ∧ e.name = name ∧ v.permits e.dialects e.group = true := by
  have hfound (e : HostEvent) (he : (ofBuilder b).event? name v = some e) :
      e ∈ b.events ∧ e.name = name ∧ v.permits e.dialects e.group = true := by
    rw [event?_ofBuilder h] at he
    obtain ⟨d, -, hd⟩ := List.exists_of_findSome?_eq_some he
    obtain ⟨hmem, hpermits⟩ := List.mem_filter.mp (List.mem_of_find?_eq_some hd)
    have hanswers := List.find?_some hd
    simp only [answers, Bool.and_eq_true, decide_eq_true_eq] at hanswers
    exact ⟨Array.mem_toList_iff.mp hmem, hanswers.1, hpermits⟩
  refine ⟨⟨fun hsome => ?_, ?_⟩, hfound⟩
  · obtain ⟨e, he⟩ := Option.isSome_iff_exists.mp hsome
    exact ⟨e, hfound e he⟩
  · rintro ⟨e, he, hname, hpermits⟩
    have hdialects : e.dialects.intersects v.dialects = true := (Bool.and_eq_true_iff.mp hpermits).1
    obtain ⟨d, hd, hvd⟩ := DialectSet.exists_of_intersects hdialects
    rw [event?_ofBuilder h, List.findSome?_isSome_iff]
    refine ⟨d, DialectSet.mem_toList.mpr hvd, List.find?_isSome.mpr ⟨e, ?_, by simp [answers, hname, hd]⟩⟩
    exact List.mem_filter.mpr ⟨Array.mem_toList_iff.mpr he, hpermits⟩

/-- What a registry answers is what a search through the admitted members finds. -/
theorem answers_eq_search {b : Builder} (h : b.Reachable) :
    (∀ name v, (ofBuilder b).overloads name v =
        b.functions.toList.filter fun f => f.name = name && v.permits f.dialects f.group) ∧
      (∀ name v, (ofBuilder b).constant? name v =
        b.constants.toList.find? fun c => c.name = name && v.permits c.dialects c.group) ∧
      (∀ name v, (((ofBuilder b).event? name v).isSome = true ↔
          ∃ e ∈ b.events, e.name = name ∧ v.permits e.dialects e.group = true) ∧
        ∀ e, (ofBuilder b).event? name v = some e →
          e ∈ b.events ∧ e.name = name ∧ v.permits e.dialects e.group = true) ∧
      (∀ d, (ofBuilder b).dialectBucket? d = (b.bucket fun dialects _ => dialects.contains d).unlessEmpty) ∧
      (∀ g, (ofBuilder b).groupBucket? g = (b.bucket fun _ group => group = some g).unlessEmpty) ∧
      (ofBuilder b).events.Perm b.events.toList ∧ (ofBuilder b).events.Nodup := by
  refine ⟨fun name v => ?_, fun name v => ?_, event?_iff h, fun d => ?_, fun g => ?_, events_perm h,
    (events_perm h).nodup_iff.mpr (events_nodup h)⟩
  · rw [overloads_ofBuilder h, Builder.visibleFunctions, List.filter_filter]
  · rw [constant?_ofBuilder, Builder.visibleConstants, List.find?_filter]
    congr 1
    funext c
    rw [Bool.decide_and, Bool.and_comm, Bool.decide_eq_true, Bool.decide_eq_true]
  · refine (dialectBucket?_slot d).ofBuilder b fun r hr _ => ?_
    rw [dialectBucket?, hr]
    cases d <;> rfl
  · refine (groupBucket?_slot g).ofBuilder b fun r _ hr => ?_
    rw [groupBucket?, hr, Table.get?_empty]

end Registry

namespace Sample

def namesakes : Builder := ((Builder.empty false).registerAll
  [.event { EventOffer.ofParams "touch" [] with dialects := .only .lsl },
    .event { EventOffer.ofParams "touch" [.integer] with dialects := .only .xmr, group := some "extra" },
    .event (.ofParams "touch" []), .function { successor with group := some "extra" }]).2

theorem namesakes_reachable : namesakes.Reachable := (Builder.Reachable.empty false).registerAll _

end Sample

/-- Both events are listed, and the group has the second of them. -/
theorem Registry.namesakes_answers : Sample.namesakes.Reachable ∧
    (ofBuilder Sample.namesakes).events.length = 2 ∧
      (ofBuilder Sample.namesakes).groupBucket? "extra" = some ⟨[0], [], ["touch"]⟩ := by
  obtain ⟨-, -, -, -, hgroup, hevents, -⟩ := answers_eq_search Sample.namesakes_reachable
  refine ⟨Sample.namesakes_reachable, ?_, ?_⟩
  · rw [hevents.length_eq]
    decide +kernel
  · rw [hgroup]
    decide +kernel

end WorldScript
