import WorldScript.Label.Book
import WorldScript.Proofs.Blame

/-! # Laws of label books

A label is bound once.  Which labels a book has and which of them are bound does not depend on the lines at
which they were bound, and only a defect of the compiler makes a check of the book fail.
-/

namespace WorldScript

namespace Table

variable {κ α β : Type}

def mapValues (f : α → β) (t : Table κ α) : Table κ β := ⟨t.entries.map fun e => (e.1, f e.2)⟩

theorem get?_mapValues [DecidableEq κ] (f : α → β) (t : Table κ α) (key : κ) :
    (t.mapValues f).get? key = (t.get? key).map f := by
  simp only [get?, mapValues, List.find?_map, Option.map_map]
  rfl

theorem insert_mapValues [LT κ] [DecidableLT κ] [DecidableEq κ] (f : α → β) (t : Table κ α) (key : κ)
    (value : α) : (t.insert key value).mapValues f = (t.mapValues f).insert key (f value) := by
  obtain ⟨entries⟩ := t
  simp only [insert, mapValues, mk.injEq]
  induction entries with
  | nil => rfl
  | cons e rest ih =>
    simp only [insertInto, List.map_cons]
    split
    · rfl
    · split
      · rfl
      · rw [List.map_cons, ih]

end Table

namespace LabelBook

def unlined (b : LabelBook) : LabelBook :=
  ⟨b.records.mapValues fun r => { r with markedAt := r.markedAt.map fun _ => 0 }⟩

theorem record_unlined (b : LabelBook) (label : Label) (origin : LabelOrigin) :
    (b.record label origin).unlined = b.unlined.record label origin :=
  congrArg mk (Table.insert_mapValues _ _ _ _)

theorem mark_unlined (b : LabelBook) (label : Label) (line : Nat) :
    (b.mark label line).toOption.map unlined = (b.unlined.mark label 0).toOption := by
  unfold mark
  simp only [unlined, Table.get?_mapValues]
  cases b.records.get? label with
  | none => rfl
  | some r =>
    obtain ⟨origin, markedAt⟩ := r
    cases markedAt with
    | some first => rfl
    | none => exact congrArg (some ∘ mk) (Table.insert_mapValues _ _ _ _)

theorem expectAllMarked_unlined (b : LabelBook) (line : Nat) :
    (b.expectAllMarked line).toOption = (b.unlined.expectAllMarked line).toOption := by
  have hfind : (b.unlined.records.entries.find? fun e => e.2.markedAt.isNone).isSome =
      (b.records.entries.find? fun e => e.2.markedAt.isNone).isSome := by
    simp only [unlined, Table.mapValues, List.find?_map, Option.isSome_map, Function.comp_def,
      Option.isNone_map]
  unfold expectAllMarked
  cases h : b.records.entries.find? fun e => e.2.markedAt.isNone with
  | none =>
    rw [h] at hfind
    have h' := Option.isNone_iff_eq_none.mp (Option.isSome_eq_false_iff.mp hfind)
    rw [h']
  | some e =>
    rw [h] at hfind
    obtain ⟨e', h'⟩ := Option.isSome_iff_exists.mp hfind
    rw [h']
    rfl

/-- The labels of a book are all bound if those of a book with other lines are. -/
theorem marked_of_unlined {b c : LabelBook} (h : b.unlined = c.unlined)
    (hc : ∀ l r, c.records.get? l = some r → r.markedAt ≠ none) {l : Label} {r : LabelRecord}
    (hr : b.records.get? l = some r) : r.markedAt ≠ none := by
  have hget : (b.unlined.records.get? l).map LabelRecord.markedAt =
      (c.unlined.records.get? l).map LabelRecord.markedAt := by rw [h]
  simp only [unlined, Table.get?_mapValues, hr, Option.map_some, Option.map_map] at hget
  cases hcr : c.records.get? l with
  | none =>
    rw [hcr] at hget
    cases hget
  | some r' =>
    rw [hcr] at hget
    intro hnone
    rw [hnone] at hget
    exact hc l r' hcr (Option.map_eq_none_iff.mp (Option.some.inj hget).symm)

theorem mark_ok {b b' : LabelBook} {label : Label} {line : Nat} (h : b.mark label line = .ok b') :
    ∃ r, b.records.get? label = some r ∧ r.markedAt = none ∧
      b' = ⟨b.records.insert label { r with markedAt := some line }⟩ := by
  unfold mark at h
  cases hr : b.records.get? label with
  | none =>
    rw [hr] at h
    cases h
  | some r =>
    simp only [hr] at h
    cases hm : r.markedAt with
    | some first =>
      rw [hm] at h
      cases h
    | none =>
      rw [hm] at h
      exact ⟨r, rfl, hm, (Except.ok.inj h).symm⟩

/-- Only a defect keeps a label from being bound. -/
theorem mark_error {b : LabelBook} {label : Label} {line : Nat} {d : Diagnostic}
    (h : b.mark label line = .error d) : ¬d.BlamesScript := by
  unfold mark at h
  split at h
  · cases h
    exact Diagnostic.defect_not_blames _ _
  · split at h
    · cases h
      exact Diagnostic.defect_not_blames _ _
    · cases h

theorem expectAllMarked_error {b : LabelBook} {line : Nat} {d : Diagnostic}
    (h : b.expectAllMarked line = .error d) : ¬d.BlamesScript := by
  unfold expectAllMarked at h
  split at h
  · cases h
    exact Diagnostic.defect_not_blames _ _
  · cases h

theorem expectMarked_ok {b : LabelBook} {labels : List Label} (h : ∀ l ∈ labels, b.isMarked l = true)
    (line : Nat) : b.expectMarked labels line = .ok () := by
  have hnone : labels.find? (fun l => !b.isMarked l) = none := by
    rw [List.find?_eq_none]
    intro l hl
    simp [h l hl]
  rw [expectMarked, hnone]

end LabelBook

end WorldScript
