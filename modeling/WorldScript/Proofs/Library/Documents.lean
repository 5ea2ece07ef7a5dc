import WorldScript.Library.Documents
import WorldScript.Proofs.Json.Reading

/-! # Documents of lists

What a list is written as is read back part by part.  A value comes back as its text: numbers are written
as numbers, the marks of JSON words as those words, everything else as a string.  Of pairs with one name
the last counts, for the object is written without the others.
-/

namespace WorldScript.Library

variable {v : Value} {items : List Value}

def words : List (String × Document) := [(trueMark, .bool true), (falseMark, .bool false), (nullMark, .null)]

theorem toDocument_word : ∀ w ∈ words, toDocument (.string w.1) = w.2 := by
  have hfalse : falseMark ≠ trueMark := by decide
  have hnull : nullMark ≠ trueMark ∧ nullMark ≠ falseMark := by decide
  simp [words, toDocument, hfalse, hnull]

theorem documentValue_word : ∀ w ∈ words, documentValue (some w.2) = w.1 := by
  simp [words, documentValue]

/-- A string is written as one of the words or as it is. -/
theorem toDocument_string (s : String) :
    (∃ w ∈ words, s = w.1 ∧ toDocument (.string s) = w.2) ∨ toDocument (.string s) = .string s := by
  by_cases hword : ∃ w ∈ words, s = w.1
  · obtain ⟨w, hw, rfl⟩ := hword
    exact .inl ⟨w, hw, rfl, toDocument_word w hw⟩
  · simp only [words, List.mem_cons, List.not_mem_nil, or_false, exists_eq_or_imp, exists_eq_left,
      not_or] at hword
    obtain ⟨htrue, hfalse, hnull⟩ := hword
    exact .inr (by simp [toDocument, htrue, hfalse, hnull])

/-- No double is written for a value that is not a float. -/
theorem toDocument_legible (h : v.ty ≠ .float) {depth : Nat} : (toDocument v).Legible depth := by
  cases v with
  | integer n =>
    have hmin : Int64.minValue.toInt ≤ Int32.minValue.toInt := by decide
    exact .integer ⟨hmin.trans n.minValue_le_toInt, lt_of_le_of_lt n.toInt_le (by decide)⟩
  | long n => exact .integer ⟨n.minValue_le_toInt, lt_of_le_of_lt n.toInt_le (by decide)⟩
  | float x => exact absurd rfl h
  | string s =>
    rcases toDocument_string s with ⟨w, hw, -, hd⟩ | hd
    · simp only [words, List.mem_cons, List.not_mem_nil, or_false] at hw
      rcases hw with rfl | rfl | rfl
      · exact hd ▸ .bool true
      · exact hd ▸ .bool false
      · exact hd ▸ .null
    · exact hd ▸ .string s
  | key | vector | rotation | list => exact .string _

/-- A value that is not a float comes back as its text. -/
theorem documentValue_toDocument (h : v.ty ≠ .float) : documentValue (some (toDocument v)) = v.text := by
  cases v with
  | integer | long | key | vector | rotation | list => rfl
  | float x => exact absurd rfl h
  | string s =>
    rcases toDocument_string s with ⟨w, hw, rfl, hd⟩ | hd
    · rw [hd, documentValue_word w hw, Value.text]
    · rw [hd, documentValue, Value.text]

theorem jsonGetValue_eq (text : String) (path : List Value) : jsonGetValue [.string text, .list path] =
    .ok (.string (documentValue ((Document.read? text).bind (select · path)))) := rfl

theorem listToJson_eq {kind : String} {d : Document} (h : listDocument? kind items = some d) :
    listToJson [.string kind, .list items] = .ok (.string d.compact) := by
  change Except.ok (Value.string ((listDocument? kind items).elim invalidMark Document.compact)) = _
  rw [h, Option.elim_some]

theorem array_legible (h : ∀ v ∈ items, v.ty ≠ .float) :
    (Document.array (items.map toDocument)).Legible 1 := by
  refine .array fun d hd => ?_
  obtain ⟨v, hv, rfl⟩ := List.mem_map.mp hd
  exact toDocument_legible (h v hv)

/-- An index leads to the item that stands there. -/
theorem select_item (items : List Value) (i : Int32) : select (.array (items.map toDocument)) [.integer i] =
    if i.toInt < 0 then none else (items[i.toInt.toNat]?).map toDocument := by
  have hneg : i < 0 ↔ i.toInt < 0 := Int32.lt_iff_toInt_lt
  simp only [select, hneg, Document.item?, List.getElem?_map]
  cases items[i.toInt.toNat]? <;> rfl

def lastValue? (name : String) : List Value → Option Value
  | key :: value :: rest => (lastValue? name rest).or (if key.text = name then some value else none)
  | _ => none

theorem mem_of_pairs : ∀ f ∈ pairs items, ∃ v ∈ items, f.2 = toDocument v := by
  fun_induction pairs items with
  | case1 key value rest ih =>
    intro f hf
    rcases List.mem_cons.mp hf with rfl | hf
    · exact ⟨value, by simp, rfl⟩
    · obtain ⟨v, hv, hd⟩ := ih f hf
      exact ⟨v, by simp [hv], hd⟩
  | case2 => simp

theorem find?_pairs (name : String) (items : List Value) :
    ((pairs items).reverse.find? fun f => f.1 = name).map Prod.snd =
      (lastValue? name items).map toDocument := by
  fun_induction pairs items with
  | case1 key value rest ih =>
    rw [List.reverse_cons, List.find?_append, Option.map_or, ih, lastValue?, Option.map_or]
    by_cases hkey : key.text = name <;> simp [hkey]
  | case2 items hitems =>
    rw [lastValue?]
    · rfl
    · exact hitems

theorem object_legible (h : ∀ v ∈ items, v.ty ≠ .float) : (Document.ofFields (pairs items)).Legible 1 := by
  refine .object (Table.sorted_ofList _) fun f hf => ?_
  obtain ⟨v, hv, hd⟩ := mem_of_pairs f (Table.mem_of_mem_ofList hf)
  rw [hd]
  exact toDocument_legible (h v hv)

/-- A name leads to the value of its last pair. -/
theorem select_field (items : List Value) (name : String) :
    select (.ofFields (pairs items)) [.string name] = (lastValue? name items).map toDocument := by
  rw [← find?_pairs, ← Table.get?_ofList]
  change ((Table.ofList (pairs items)).get? name).bind some = _
  exact Option.bind_fun_some _

theorem lastValue?_mem {name : String} (h : lastValue? name items = some v) : v ∈ items := by
  fun_induction lastValue? name items with
  | case1 key value rest ih =>
    rcases Option.or_eq_some_iff.mp h with h | ⟨-, h⟩
    · exact List.mem_cons_of_mem _ (List.mem_cons_of_mem _ (ih h))
    · split at h
      · cases h
        simp
      · cases h
  | case2 => cases h

/-- What is written for a list without floats is read back. -/
theorem listToJson_reads_back (items : List Value) (h : ∀ v ∈ items, v.ty ≠ .float) :
    (∃ text, listToJson [.string arrayMark, .list items] = .ok (.string text) ∧
        (∀ (i : Int32) (v : Value), 0 ≤ i.toInt → items[i.toInt.toNat]? = some v →
          jsonGetValue [.string text, .list [.integer i]] = .ok (.string v.text)) ∧
        ∀ i : Int32, i.toInt < 0 ∨ items.length ≤ i.toInt →
          jsonGetValue [.string text, .list [.integer i]] = .ok (.string invalidMark)) ∧
      (items.length % 2 = 0 → ∃ text, listToJson [.string objectMark, .list items] = .ok (.string text) ∧
        ∀ name, jsonGetValue [.string text, .list [.string name]] =
          .ok (.string ((lastValue? name items).elim invalidMark Value.text))) ∧
      ∀ w ∈ words, toDocument (.string w.1) = w.2 ∧ documentValue (some w.2) = w.1 := by
  refine ⟨?_, fun heven => ?_, ?_⟩
  · have hread := Document.read?_compact (array_legible h) (by decide)
    have hget (i : Int32) := jsonGetValue_eq (Document.array (items.map toDocument)).compact [.integer i]
    simp only [hread, Option.bind_some, select_item] at hget
    refine ⟨_, listToJson_eq (if_pos rfl), fun i v hi hv => ?_, fun i hi => ?_⟩
    · have hfloat := h v (List.mem_of_getElem? hv)
      rw [hget, if_neg (by omega), hv, Option.map_some, documentValue_toDocument hfloat]
    · have hnone : (if i.toInt < 0 then none else (items[i.toInt.toNat]?).map toDocument) = none := by
        split
        · rfl
        · rw [List.getElem?_eq_none (by omega), Option.map_none]
      rw [hget, hnone]
      rfl
  · have hread := Document.read?_compact (object_legible h) (by decide)
    have hkind : listDocument? objectMark items = some (.ofFields (pairs items)) := by
      have hmark : objectMark ≠ arrayMark := by decide
      simp [listDocument?, hmark, heven]
    refine ⟨_, listToJson_eq hkind, fun name => ?_⟩
    rw [jsonGetValue_eq, hread, Option.bind_some, select_field]
    cases hlast : lastValue? name items with
    | none => rfl
    | some v => rw [Option.map_some, documentValue_toDocument (h v (lastValue?_mem hlast)), Option.elim_some]
  · exact fun w hw => ⟨toDocument_word w hw, documentValue_word w hw⟩

/-- A list with a number of 64 bits, a word, a name that occurs twice and characters that need an escape. -/
def sampleItems : List Value :=
  [.string "a\"b", .long (-9223372036854775808), .string "a\"b", .string trueMark, .key "k",
    .list [.integer 1]]

theorem sampleItems_read_back : (∀ v ∈ sampleItems, v.ty ≠ .float) ∧
    (∃ text, listToJson [.string arrayMark, .list sampleItems] = .ok (.string text) ∧
      jsonGetValue [.string text, .list [.integer 1]] = .ok (.string "-9223372036854775808") ∧
      jsonGetValue [.string text, .list [.integer (-1)]] = .ok (.string invalidMark)) ∧
    ∃ text, listToJson [.string objectMark, .list sampleItems] = .ok (.string text) ∧
      jsonGetValue [.string text, .list [.string "a\"b"]] = .ok (.string trueMark) := by
  have hfloat : ∀ v ∈ sampleItems, v.ty ≠ .float := by decide
  obtain ⟨⟨array, harray, hitem, hoff⟩, hobject, -⟩ := listToJson_reads_back sampleItems hfloat
  obtain ⟨object, hobject, hfield⟩ := hobject (by decide)
  refine ⟨hfloat, ⟨array, harray, ?_, hoff (-1) (by decide)⟩, object, hobject, ?_⟩
  · rw [hitem 1 (.long (-9223372036854775808)) (by decide) rfl]
    rfl
  · rw [hfield]
    rfl

end WorldScript.Library
