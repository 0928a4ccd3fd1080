import TelemetrySearch.Field

/-!
# Sound layouts

`Table.Sound` says what a layout has to be, without an order in which its faults are looked for.

* Each part of a layout is without fault exactly if it is as a sound layout has it
  (`Table.columnFaults_eq_nil_iff`, `Table.attributeFaults_eq_nil_iff`, `Table.unmapped_eq_nil_iff`). A layout is
  therefore accepted exactly if it is sound (`Table.validate_eq_ok_iff_sound`).
* The keys of any layout that hold durations are those that are named as durations and have a column
  (`Table.resolve_eq_duration_iff`); in a sound layout the second follows from the first.
  `Table.resolve_eq_none_iff` says which keys have no field.

`Table.validate_layout` puts this together.
-/

namespace TelemetrySearch

/-- A text with a character that is not blank. -/
def IsName (text : String) : Prop := ∃ c ∈ text.toList, isBlank c = false

theorem isBlankText_eq_false_iff {text : String} : isBlankText text = false ↔ IsName text := by
  simp only [isBlankText, List.all_eq_false, Bool.not_eq_true, IsName]

namespace Table

/-! ## Faults of a layout -/

/-- A layout in which every column has a name, no key with a column is empty, no stem stands twice, and every duration
has a column. -/
structure Sound (t : Table) : Prop where
  body : IsName t.bodyColumn
  columns : ∀ key column, t.columns.get? key = some column → key ≠ "" ∧ IsName column
  attributes : ∀ m ∈ t.attributes, IsName m.column
  stems : (t.attributes.map AttributeMap.stem).Nodup
  durations : ∀ key ∈ t.durations.keys, ∃ column, t.columns.get? key = some column

theorem validate_eq_ok_iff {t : Table} : t.validate = .ok () ↔ t.faults = [] := by
  rw [validate]
  cases t.faults <;> simp

theorem columnFaults_eq_nil_iff {key column : String} :
    columnFaults (key, column) = [] ↔ key ≠ "" ∧ IsName column := by
  simp [columnFaults, ← isBlankText_eq_false_iff]

/-- Attribute maps behind maps with the stems `seen` are without fault if each has a column, none has a stem that is
seen and no stem stands twice. -/
theorem attributeFaults_eq_nil_iff {seen : List String} {ms : List AttributeMap} :
    attributeFaults seen ms = [] ↔
      (∀ m ∈ ms, IsName m.column) ∧ (∀ m ∈ ms, m.stem ∉ seen) ∧ (ms.map AttributeMap.stem).Nodup := by
  induction ms generalizing seen with
  | nil => simp [attributeFaults]
  | cons m ms ih =>
    have hcolumn : (if isBlankText m.column then [LayoutFault.blankAttributeColumn m.stem] else []) = [] ↔
        IsName m.column := by
      simp [← isBlankText_eq_false_iff]
    have hstem : (if m.stem ∈ seen then
        [if m.isCatchAll then LayoutFault.secondCatchAll else .repeatedStem m.stem] else []) = [] ↔ m.stem ∉ seen := by
      simp
    -- For the maps behind `m`, its stem is one of those that are seen.
    have hbehind : (∀ n ∈ ms, n.stem ∉ m.stem :: seen) ↔
        m.stem ∉ ms.map AttributeMap.stem ∧ ∀ n ∈ ms, n.stem ∉ seen := by
      simp only [List.mem_cons, not_or, List.mem_map, not_exists, not_and, ← forall_and]
    rw [attributeFaults, List.append_eq_nil_iff, List.append_eq_nil_iff, hcolumn, hstem, ih, hbehind,
      List.forall_mem_cons, List.forall_mem_cons, List.map_cons, List.nodup_cons]
    constructor
    · rintro ⟨⟨hname, hnew⟩, hnames, ⟨hother, hnews⟩, hnodup⟩
      exact ⟨⟨hname, hnames⟩, ⟨hnew, hnews⟩, hother, hnodup⟩
    · rintro ⟨⟨hname, hnames⟩, ⟨hnew, hnews⟩, hother, hnodup⟩
      exact ⟨⟨hname, hnew⟩, hnames, ⟨hother, hnews⟩, hnodup⟩

theorem unmapped_eq_nil_iff {t : Table} :
    (t.durations.keys.filter fun key => !t.columns.contains key) = [] ↔
      ∀ key ∈ t.durations.keys, ∃ column, t.columns.get? key = some column := by
  simp only [List.filter_eq_nil_iff, Bool.not_eq_true, Bool.not_eq_false', Dictionary.contains_iff,
    Dictionary.mem_keys_iff]

/-- **A layout is accepted exactly if it is sound.** -/
theorem validate_eq_ok_iff_sound {t : Table} : t.validate = .ok () ↔ t.Sound := by
  have hcolumns : t.columns.entries.flatMap columnFaults = [] ↔
      ∀ key column, t.columns.get? key = some column → key ≠ "" ∧ IsName column := by
    simp only [List.flatMap_eq_nil_iff, Prod.forall, columnFaults_eq_nil_iff, Dictionary.mem_entries_iff]
  have hattributes : attributeFaults [] t.attributes = [] ↔
      (∀ m ∈ t.attributes, IsName m.column) ∧ (t.attributes.map AttributeMap.stem).Nodup := by
    simp [attributeFaults_eq_nil_iff]
  rw [validate_eq_ok_iff, faults]
  simp only [List.append_eq_nil_iff, List.map_eq_nil_iff, hcolumns, hattributes, unmapped_eq_nil_iff,
    ite_eq_right_iff, List.cons_ne_nil, imp_false, Bool.not_eq_true, isBlankText_eq_false_iff]
  constructor
  · rintro ⟨⟨⟨hbody, hkeys⟩, hmaps, hstems⟩, hdurations⟩
    exact ⟨hbody, hkeys, hmaps, hstems, hdurations⟩
  · rintro ⟨hbody, hkeys, hmaps, hstems, hdurations⟩
    exact ⟨⟨⟨hbody, hkeys⟩, hmaps, hstems⟩, hdurations⟩

/-! ## Fields of a layout -/

variable {t : Table} {key : String}

/-- The keys that hold durations are named as durations and have a column. -/
theorem resolve_eq_duration_iff :
    (∃ name, t.resolve key = some (.column name true)) ↔
      key ∈ t.durations.keys ∧ ∃ column, t.columns.get? key = some column := by
  rw [resolve]
  cases hcolumn : t.columns.get? key with
  | some column => simp [isDuration, Dictionary.contains_iff]
  | none => simp

/-- A key that no attribute map takes is one that no stem starts; the empty stem starts every key. -/
theorem attributeMap?_eq_none_iff :
    t.attributeMap? key = none ↔ t.catchAll? = none ∧ ∀ m ∈ t.attributes, ¬m.stem.toList <+: key.toList := by
  rw [attributeMap?, Option.or_eq_none_iff, catchAll?, List.find?_eq_none, List.find?_eq_none]
  simp only [AttributeMap.covers, Bool.and_eq_true, Bool.not_eq_true', List.isPrefixOf_iff_prefix, not_and]
  constructor
  · rintro ⟨hcovers, hstem⟩
    exact ⟨hstem, fun m hm => hcovers m hm (Bool.eq_false_iff.2 (hstem m hm))⟩
  · rintro ⟨hstem, hcovers⟩
    exact ⟨fun m hm _ => hcovers m hm, hstem⟩

/-- The keys without a field. -/
theorem resolve_eq_none_iff :
    t.resolve key = none ↔
      t.columns.get? key = none ∧ t.catchAll? = none ∧ ∀ m ∈ t.attributes, ¬m.stem.toList <+: key.toList := by
  rw [resolve, ← attributeMap?_eq_none_iff]
  cases hcolumn : t.columns.get? key with
  | some column => simp
  | none => simp

/-- **Validation accepts exactly the sound layouts, and of these it is known where a key is kept.** A layout is accepted
exactly if it is sound. At most one stem of an accepted layout is empty. A key is kept in a column of durations exactly
if it is named as a duration, and nowhere exactly if it has no column, no map takes every key and no stem starts it. -/
theorem validate_layout (t : Table) :
    (t.validate = .ok () ↔ t.Sound) ∧
      (t.validate = .ok () →
        (t.attributes.map AttributeMap.stem).count "" ≤ 1 ∧
          ∀ key,
            ((∃ name, t.resolve key = some (.column name true)) ↔ key ∈ t.durations.keys) ∧
              (t.resolve key = none ↔
                t.columns.get? key = none ∧ t.catchAll? = none ∧
                  ∀ m ∈ t.attributes, ¬m.stem.toList <+: key.toList)) := by
  refine ⟨validate_eq_ok_iff_sound, fun hvalid => ?_⟩
  have hsound := validate_eq_ok_iff_sound.1 hvalid
  refine ⟨List.nodup_iff_count.1 hsound.stems "", fun key => ⟨?_, resolve_eq_none_iff⟩⟩
  rw [resolve_eq_duration_iff]
  exact and_iff_left_of_imp (hsound.durations key)

/-- Without a map that takes every key, a layout is still accepted. A duration has its column of durations then, and a
key that only starts like a stem has no field. -/
theorem validate_layout_stems :
    let t : Table := { traces with attributes := [⟨"http.", "HttpAttributes"⟩, ⟨"http.request.", "Requests"⟩] }
    t.validate = .ok () ∧ t.Sound ∧ (∃ name, t.resolve "duration" = some (.column name true)) ∧
      t.resolve "http" = none := by
  intro t
  have hvalid : t.validate = .ok () := validate_eq_ok_iff.2 (by decide +kernel)
  have hkeys := ((validate_layout t).2 hvalid).2
  refine ⟨hvalid, (validate_layout t).1.1 hvalid, ?_, ?_⟩
  · exact (hkeys "duration").1.2 (by decide +kernel)
  · exact (hkeys "http").2.2 (by decide +kernel)

/-- A duration without a column would be kept as text in a map of attributes; such a layout is refused. -/
example :
    let t : Table := { traces with durations := .ofKeys ["latency"] }
    t.faults = [.unmappedDuration "latency"] ∧ t.resolve "latency" = some (.cell "TraceAttributes" "latency") := by
  decide +kernel

end Table

end TelemetrySearch
