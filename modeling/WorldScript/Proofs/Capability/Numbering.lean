import WorldScript.Expr.Elaborate
import WorldScript.Library

/-! # Numbers of host functions

A registry comes out of a builder, and a builder is only changed by registrations.  The number of an
admitted function is then its place in the registry, so that the number in a call leads back to the
function that was chosen when the call was elaborated.
-/

namespace WorldScript

/-- The builders that registrations lead to.  Whether there are long integers, and whom the next members
belong to, may change at any time. -/
inductive Builder.Reachable : Builder → Prop
  | empty (allowLong : Bool) : Reachable (.empty allowLong)
  | allowLong {b : Builder} (h : Reachable b) (allow : Bool) : Reachable { b with allowLong := allow }
  | provider {b : Builder} (h : Reachable b) (name : String) : Reachable { b with provider := name }
  | register {b : Builder} (h : Reachable b) (offer : Offer) : Reachable (b.register offer).2

def Registry.Built (r : Registry) : Prop := ∃ b : Builder, b.Reachable ∧ r = .ofBuilder b

namespace Builder.Reachable

theorem registerAll {b : Builder} (h : b.Reachable) (offers : List Offer) :
    (b.registerAll offers).2.Reachable := by
  induction offers generalizing b with
  | nil => exact h
  | cons offer rest ih => exact ih (h.register offer)

theorem install {b : Builder} (h : b.Reachable) (p : Provider) : (b.install p).2.Reachable :=
  ((h.provider p.name).registerAll p.offers).provider hostProvider

theorem installAll {b : Builder} (h : b.Reachable) (ps : List Provider) :
    (b.installAll ps).2.Reachable := by
  induction ps generalizing b with
  | nil => exact h
  | cons p rest ih => exact ih (h.install p)

end Builder.Reachable

/-- The registry of all providers comes out of registrations. -/
theorem Registry.standard_built (allowLong : Bool) : (standard allowLong).Built :=
  ⟨_, (Builder.Reachable.empty allowLong).installAll Library.standard, rfl⟩

def Numbered (functions : Array HostFunction) : Prop :=
  ∀ (i : Nat) (f : HostFunction), functions[i]? = some f → f.id = i

theorem Numbered.push {functions : Array HostFunction} (h : Numbered functions) {f : HostFunction}
    (hf : f.id = functions.size) : Numbered (functions.push f) := by
  intro i g hg
  rw [Array.getElem?_push] at hg
  split at hg
  · cases hg
    omega
  · exact h i g hg

/-- A registration numbers its function by the place that it gets. -/
theorem Builder.register_numbered {b : Builder} (h : Numbered b.functions) (offer : Offer) :
    Numbered (b.register offer).2.functions := by
  cases offer with
  | function offer =>
    simp only [register, registerFunction]
    split
    · exact h
    · exact h.push rfl
  | constant offer =>
    simp only [register, registerConstant]
    split <;> exact h
  | event offer =>
    simp only [register, registerEvent]
    split <;> exact h

theorem Builder.Reachable.numbered {b : Builder} (h : b.Reachable) : Numbered b.functions := by
  induction h with
  | empty allowLong =>
    intro i f hf
    simp [Builder.empty] at hf
  | allowLong _ _ ih => exact ih
  | provider _ _ ih => exact ih
  | register _ offer ih => exact register_numbered ih offer

namespace Registry

theorem inBuckets_functions (r : Registry) (dialects : DialectSet) (group : Option String)
    (f : Bucket → Bucket) : (r.inBuckets dialects group f).functions = r.functions := by
  cases group <;> rfl

theorem addFunction_functions (r : Registry) (f : HostFunction) :
    (r.addFunction f).functions = r.functions := inBuckets_functions _ _ _ _

theorem addConstant_functions (r : Registry) (c : HostConstant) :
    (r.addConstant c).functions = r.functions := inBuckets_functions _ _ _ _

theorem addEvent_functions (r : Registry) (e : HostEvent) :
    (r.addEvent e).functions = r.functions := inBuckets_functions _ _ _ _

theorem foldl_functions {α : Type} {add : Registry → α → Registry}
    (h : ∀ r a, (add r a).functions = r.functions) (members : Array α) (r : Registry) :
    (members.foldl add r).functions = r.functions :=
  Array.foldl_induction (fun _ s => s.functions = r.functions) rfl fun _ s hs => (h s _).trans hs

theorem ofBuilder_functions (b : Builder) : (ofBuilder b).functions = b.functions := by
  rw [ofBuilder, foldl_functions addEvent_functions, foldl_functions addConstant_functions,
    foldl_functions addFunction_functions]

theorem Built.numbered {r : Registry} (h : r.Built) : Numbered r.functions := by
  obtain ⟨b, hb, rfl⟩ := h
  rw [ofBuilder_functions]
  exact hb.numbered

/-- An overload that may be seen is found again by its number. -/
theorem overloads_numbered {r : Registry} (hr : Numbered r.functions) {name : String} {v : Visibility}
    {f : HostFunction} (hf : f ∈ r.overloads name v) : r.functions[f.id]? = some f := by
  simp only [overloads, List.mem_filterMap] at hf
  obtain ⟨id, _, hid⟩ := hf
  split at hid
  · rename_i g hg
    split at hid
    · cases hid
      rw [hr id f hg]
      exact hg
    · simp at hid
  · simp at hid

end Registry

namespace Sample

def successor : FunctionOffer :=
  .method "successor" [.integer] (some .integer) <| .ofPure fun
    | [.integer n] => .ok (some (.integer (n + 1)))
    | _ => .ok none

def registry : Registry :=
  .ofBuilder ((Builder.empty false).registerAll
    [.event (.ofParams "state_entry" []), .event (.ofParams "state_exit" []),
      .event (.ofParams "heard" [.integer]),
      .function successor]).2

theorem registry_built : registry.Built := ⟨_, (Builder.Reachable.empty false).registerAll _, rfl⟩

def visibility : Visibility := ⟨.only .lsl, .empty⟩

end Sample

end WorldScript
