import Recordlane.Runtime

/-! The export of rows as comma separated values. -/
namespace Recordlane

variable {rt : Runtime} {rows : List Dict} {w : List (List String)}

/-- `safe_csv_value`: a text that a spreadsheet would take for a formula is put behind an apostrophe. -/
def safeCsvValue (rt : Runtime) (value : Json) : String :=
  let text := if value = .null then "" else rt.strOf value
  if ["=", "+", "-", "@", "\t", "\r"].any fun start => text.startsWith start then "'" ++ text else text

/-- An iterator of rows, which may end with an exception. -/
structure RowIterator where
  rows : List Dict
  raised : Option Raised

/-- A `DictWriter` with `extrasaction="raise"`, and the records it has written. -/
structure DictWriter where
  fieldnames : List String
  written : List (List String)

namespace DictWriter

variable (writer : DictWriter)

/-- `writerow`: a key beyond the field names is refused, a missing one leaves its cell empty. -/
def writerow (cells : List (String × String)) : Py DictWriter :=
  if cells.any fun cell => !writer.fieldnames.contains cell.1 then .error (.python "ValueError")
  else
    let record := writer.fieldnames.map fun key =>
      ((cells.find? fun cell => cell.1 = key).map Prod.snd).getD ""
    .ok { writer with written := writer.written ++ [record] }

def writeheader : Py DictWriter := writer.writerow (writer.fieldnames.map fun key => (key, key))

end DictWriter

/-- The loop over the rows. -/
def writeRows (rt : Runtime) (fields : List String) : DictWriter → Nat → List Dict → Py (DictWriter × Nat)
  | writer, count, [] => .ok (writer, count)
  | writer, count, row :: rows => do
    let writer ← writer.writerow (fields.map fun key => (key, safeCsvValue rt (row.get key)))
    writeRows rt fields writer (count + 1) rows

/-- `write_csv`: the count it returns, and the records in the stream. -/
def writeCsv (rt : Runtime) (iterator : RowIterator) : Py (Nat × List (List String)) :=
  match iterator.rows, iterator.raised with
  | [], none => .ok (0, [])
  | [], some e => .error e
  | first :: rows, raised => do
    let fields := first.keys
    let writer ← (DictWriter.mk fields []).writeheader
    let (writer, count) ← writeRows rt fields writer 0 (first :: rows)
    match raised with
    | none => return (count, writer.written)
    | some e => throw e

theorem DictWriter.find_cell {f : String → String} {fields : List String} {key : String}
    (h : key ∈ fields) : ((fields.map fun key => (key, f key)).find? fun cell => cell.1 = key) =
      some (key, f key) := by
  induction fields with
  | nil => cases h
  | cons field fields ih =>
    rw [List.map_cons, List.find?_cons]
    by_cases hkey : field = key
    · simp [hkey]
    · rw [List.mem_cons] at h
      simp only [hkey, decide_false]
      exact ih (h.resolve_left (Ne.symm hkey))

/-- A row with a cell for each field name is written as it is: nothing is left to be refused. -/
theorem DictWriter.writerow_fields (f : String → String) (fields : List String) :
    (DictWriter.mk fields w).writerow (fields.map fun key => (key, f key)) =
      .ok ⟨fields, w ++ [fields.map f]⟩ := by
  unfold writerow
  rw [if_neg]
  · have hrecord : (fields.map fun key => (((fields.map fun key =>
        (key, f key)).find? fun cell => cell.1 = key).map Prod.snd).getD "") = fields.map f := by
      refine List.map_congr_left fun key hkey => ?_
      rw [find_cell hkey]
      rfl
    rw [hrecord]
  · simp

/-- The record of a row: a cell for each field, whatever other keys the row has. -/
def rowRecord (rt : Runtime) (fields : List String) (row : Dict) : List String :=
  fields.map fun key => safeCsvValue rt (row.get key)

theorem writeRows_eq {fields : List String} {count : Nat} : writeRows rt fields ⟨fields, w⟩ count rows =
    .ok (⟨fields, w ++ rows.map (rowRecord rt fields)⟩, count + rows.length) := by
  induction rows generalizing w count with
  | nil => simp [writeRows]
  | cons row rows ih =>
    rw [writeRows, DictWriter.writerow_fields]
    change writeRows rt fields ⟨fields, _⟩ (count + 1) rows = _
    rw [ih, List.map_cons, List.length_cons, List.append_assoc, Nat.add_right_comm, Nat.add_assoc]
    rfl

/-- The export of an iterator: the header and a record for each row, unless the iterator fails. -/
theorem writeCsv_cons {first : Dict} {raised : Option Raised} :
    writeCsv rt ⟨first :: rows, raised⟩ = match raised with
      | none => .ok (rows.length + 1, first.keys :: (first :: rows).map (rowRecord rt first.keys))
      | some e => .error e := by
  have hheader := DictWriter.writerow_fields (w := []) id first.keys
  rw [List.map_id] at hheader
  simp only [id_eq] at hheader
  unfold writeCsv DictWriter.writeheader
  simp only [hheader]
  change (writeRows rt first.keys ⟨first.keys, [first.keys]⟩ 0 (first :: rows) >>= _) = _
  rw [writeRows_eq, Nat.zero_add]
  cases raised <;> rfl

theorem writeCsv_raised {e : Raised} : writeCsv rt ⟨rows, some e⟩ = .error e := by
  cases rows with
  | nil => rfl
  | cons first rows => rw [writeCsv_cons]

/-- What the export returns: as many records as there are rows, after a header; every key of a row is a
column, and its cell is the safe form of the value. -/
def LosesNothing (rt : Runtime) (iterator : RowIterator) : Prop :=
  ∀ n records, writeCsv rt iterator = .ok (n, records) →
    n = iterator.rows.length ∧ records.tail.length = n ∧
      ∀ (i : Nat) (row : Dict), iterator.rows[i]? = some row → ∀ key value, row.get? key = some value →
        ∃ (header record : List String) (column : Nat), records.head? = some header ∧
        records.tail[i]? = some record ∧
          header[column]? = some key ∧ record[column]? = some (safeCsvValue rt value)

theorem Dict.mem_keys_iff {d : Dict} {key : String} : key ∈ d.keys ↔ ∃ value, d.get? key = some value := by
  unfold Dict.get? Dict.keys
  simp only [Option.map_eq_some_iff]
  constructor
  · intro h
    obtain ⟨p, hp, rfl⟩ := List.mem_map.mp h
    cases hfind : d.find? fun q => q.1 = p.1 with
    | some q => exact ⟨q.2, q, rfl, rfl⟩
    | none => exact absurd (List.find?_eq_none.mp hfind p hp) (by simp)
  · rintro ⟨value, p, hp, rfl⟩
    have hkey := List.find?_some hp
    rw [decide_eq_true_eq] at hkey
    exact hkey ▸ List.mem_map_of_mem (List.mem_of_find?_eq_some hp)

/-- The export loses nothing, if and only if no row has a key that the first one lacks, or the iterator
itself fails. -/
theorem writeCsv_loses_nothing_iff (iterator : RowIterator) : LosesNothing rt iterator ↔
    iterator.raised.isSome ∨ ∀ first ∈ iterator.rows.head?, ∀ row ∈ iterator.rows,
      row.keys ⊆ first.keys := by
  obtain ⟨rows, raised⟩ := iterator
  cases raised with
  | some e =>
    refine iff_of_true (fun n records h => ?_) (.inl rfl)
    rw [writeCsv_raised] at h
    cases h
  | none =>
    simp only [Option.isSome_none, Bool.false_eq_true, false_or]
    cases rows with
    | nil =>
      refine iff_of_true (fun n records h => ?_) (by simp)
      cases h
      exact ⟨rfl, rfl, by simp⟩
    | cons first rows =>
      simp only [List.head?_cons, Option.mem_some_iff, forall_eq']
      constructor
      · intro hlossless row hrow key hkey
        obtain ⟨-, -, hcells⟩ := hlossless _ _ writeCsv_cons
        obtain ⟨i, hi⟩ := List.mem_iff_getElem?.mp hrow
        obtain ⟨value, hvalue⟩ := Dict.mem_keys_iff.mp hkey
        obtain ⟨header, -, column, hheader, -, hcolumn, -⟩ := hcells i row hi key value hvalue
        cases hheader
        exact List.mem_of_getElem? hcolumn
      · intro hkeys n records h
        rw [writeCsv_cons] at h
        cases h
        refine ⟨rfl, by simp, fun i row hi key value hvalue => ?_⟩
        have hkey := hkeys row (List.mem_of_getElem? hi) (Dict.mem_keys_iff.mpr ⟨value, hvalue⟩)
        obtain ⟨column, hcolumn⟩ := List.mem_iff_getElem?.mp hkey
        refine ⟨first.keys, rowRecord rt first.keys row, column, rfl, ?_, hcolumn, ?_⟩
        · rw [List.tail_cons, List.getElem?_map, hi]
          rfl
        · rw [rowRecord, List.getElem?_map, hcolumn, Option.map_some, Dict.get, hvalue]
          rfl

namespace Supplier

/-- A row with a key that the first one lacks is exported without it. -/
theorem extra_key_dropped : ¬ ∀ (rt : Runtime) (iterator : RowIterator), LosesNothing rt iterator := by
  intro hall
  obtain ⟨-, -, hcells⟩ := hall .plain ⟨[[("a", .int 1)], [("a", .int 1), ("b", .int 2)]], none⟩ _ _
    writeCsv_cons
  obtain ⟨header, -, column, hheader, -, hcolumn, -⟩ := hcells 1 _ rfl "b" (.int 2) rfl
  cases hheader
  exact absurd (List.mem_of_getElem? hcolumn) (by decide)

end Supplier

end Recordlane
