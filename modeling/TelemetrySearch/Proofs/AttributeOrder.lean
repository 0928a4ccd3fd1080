import TelemetrySearch.Proofs.SoundLayout
import TelemetrySearch.Search

/-!
# Which orders of attribute maps matter

The attribute maps of a table are tried in their order, the map that takes every key last. The order of two maps counts
only for a key that starts with the stems of both. One of the stems then starts with the other (`AttributeMap.Overlaps`,
`overlaps_of_covers`).

* A table without faults has every stem once (`Table.pairwise_stem_ne`), so there is one map that takes every key, or
  none.
* Of two lists with the same elements, the elements that a test selects stand in the same order, if each two of them do
  (`filter_eq_of_perm`). The first of them is then the same.
* Hence a key has the same field after a reordering that keeps the order of maps that overlap
  (`Table.resolve_of_perm`), and a query compiles to the same (`Search.formula?_attributeOrder`).
-/

namespace TelemetrySearch

/-! ## Reordered lists -/

section Reordered

variable {α : Type} {l l' : List α}

/-- Where nothing stands twice, two elements stand in one order only. -/
theorem not_sublist_swap {a b : α} (hnodup : l.Nodup) (h : [a, b].Sublist l) : ¬[b, a].Sublist l := by
  induction l with
  | nil => cases h
  | cons c l ih =>
    obtain ⟨hc, hl⟩ := List.nodup_cons.1 hnodup
    intro hswap
    cases h with
    | cons _ h =>
      cases hswap with
      | cons _ hswap => exact ih hl h hswap
      | cons_cons _ _ => exact hc (h.subset (by simp))
    | cons_cons _ h =>
      cases hswap with
      | cons _ hswap => exact hc (hswap.subset (by simp))
      | cons_cons _ _ => exact hc (h.subset (by simp))

/-- The elements that a test selects stand in the same order in both lists, if each two of them do. -/
theorem filter_eq_of_perm {p : α → Bool} (hnodup : l.Nodup) (hperm : l.Perm l')
    (horder : ∀ a b, p a = true → p b = true → [a, b].Sublist l → [a, b].Sublist l') :
    l.filter p = l'.filter p := by
  have hleft : (l.filter p).Pairwise fun a b => [a, b].Sublist l' := by
    rw [List.pairwise_iff_forall_sublist]
    intro a b hab
    have ha := (List.mem_filter.1 (hab.subset (by simp : a ∈ [a, b]))).2
    have hb := (List.mem_filter.1 (hab.subset (by simp : b ∈ [a, b]))).2
    exact horder a b ha hb (hab.trans List.filter_sublist)
  have hright : (l'.filter p).Pairwise fun a b => [a, b].Sublist l' := by
    rw [List.pairwise_iff_forall_sublist]
    intro a b hab
    exact hab.trans List.filter_sublist
  refine List.Perm.eq_of_pairwise ?_ hleft hright (hperm.filter p)
  intro a b _ _ hab hba
  exact absurd hba (not_sublist_swap (hperm.nodup_iff.1 hnodup) hab)

theorem find?_eq_of_perm {p : α → Bool} (hnodup : l.Nodup) (hperm : l.Perm l')
    (horder : ∀ a b, p a = true → p b = true → [a, b].Sublist l → [a, b].Sublist l') : l.find? p = l'.find? p := by
  rw [← List.head?_filter, ← List.head?_filter, filter_eq_of_perm hnodup hperm horder]

end Reordered

/-! ## Maps of a table without faults -/

namespace Table

/-- A table without faults has every stem once. -/
theorem pairwise_stem_ne {t : Table} (h : t.validate = .ok ()) : t.attributes.Pairwise fun m n => m.stem ≠ n.stem :=
  List.pairwise_map.1 (validate_eq_ok_iff_sound.1 h).stems

theorem nodup_attributes {t : Table} (h : t.validate = .ok ()) : t.attributes.Nodup :=
  (pairwise_stem_ne h).imp fun hne heq => hne (congrArg AttributeMap.stem heq)

/-- Faults do not come from the order of the maps. -/
theorem validate_of_perm {t : Table} {attributes : List AttributeMap} (h : t.validate = .ok ())
    (hperm : t.attributes.Perm attributes) : ({ t with attributes := attributes } : Table).validate = .ok () := by
  rw [validate_eq_ok_iff_sound] at h ⊢
  exact
    { body := h.body
      columns := h.columns
      attributes := fun m hm => h.attributes m (hperm.mem_iff.2 hm)
      stems := (hperm.map AttributeMap.stem).nodup_iff.1 h.stems
      durations := h.durations }

end Table

/-! ## Reordered maps -/

/-- Both maps have a stem, and one of the stems starts with the other. -/
def AttributeMap.Overlaps (m n : AttributeMap) : Prop :=
  m.stem ≠ "" ∧ n.stem ≠ "" ∧ (m.stem.toList <+: n.stem.toList ∨ n.stem.toList <+: m.stem.toList)

instance (m n : AttributeMap) : Decidable (m.Overlaps n) := inferInstanceAs (Decidable (_ ∧ _ ∧ (_ ∨ _)))

theorem AttributeMap.isCatchAll_iff {m : AttributeMap} : m.isCatchAll = true ↔ m.stem = "" := by
  rw [isCatchAll, String.isEmpty_iff]

/-- Maps that take the same key overlap, for of two beginnings of a text one starts with the other. -/
theorem overlaps_of_covers {m n : AttributeMap} {key : String} (hm : (!m.isCatchAll && m.covers key) = true)
    (hn : (!n.isCatchAll && n.covers key) = true) : m.Overlaps n := by
  rw [Bool.and_eq_true, Bool.not_eq_true', ← Bool.not_eq_true, AttributeMap.isCatchAll_iff, AttributeMap.covers,
    List.isPrefixOf_iff_prefix] at hm hn
  exact ⟨hm.1, hn.1, List.prefix_or_prefix_of_prefix hm.2 hn.2⟩

namespace Table

variable {t : Table} {attributes : List AttributeMap}

/-- The map that takes every key is the only one, wherever it stands. -/
theorem catchAll?_of_perm (h : t.validate = .ok ()) (hperm : t.attributes.Perm attributes) :
    ({ t with attributes := attributes } : Table).catchAll? = t.catchAll? := by
  refine (find?_eq_of_perm (nodup_attributes h) hperm ?_).symm
  intro m n hm hn hmn
  have hne := List.pairwise_iff_forall_sublist.1 (pairwise_stem_ne h) hmn
  rw [AttributeMap.isCatchAll_iff] at hm hn
  exact absurd (hm.trans hn.symm) hne

/-- **A key has the same field after a reordering that keeps the order of maps that overlap.** -/
theorem resolve_of_perm (h : t.validate = .ok ()) (hperm : t.attributes.Perm attributes)
    (horder : ∀ m n : AttributeMap, m.Overlaps n → [m, n].Sublist t.attributes → [m, n].Sublist attributes)
    (key : String) : ({ t with attributes := attributes } : Table).resolve key = t.resolve key := by
  have hfirst : t.attributes.find? (fun m => !m.isCatchAll && m.covers key) =
      attributes.find? fun m => !m.isCatchAll && m.covers key :=
    find?_eq_of_perm (nodup_attributes h) hperm fun m n hm hn => horder m n (overlaps_of_covers hm hn)
  have hmap : ({ t with attributes := attributes } : Table).attributeMap? key = t.attributeMap? key := by
    rw [attributeMap?, attributeMap?, catchAll?_of_perm h hperm, hfirst]
  unfold resolve
  rw [hmap]
  rfl

end Table

/-! ## Queries -/

namespace Search

/-- A query compiles to the same where each term does. -/
theorem formula?_congr {s s' : Search} (h : ∀ t, s.term t = s'.term t) (query : String) :
    s.formula? query = s'.formula? query := by
  have hterm : s.term = s'.term := funext h
  simp only [formula?, compileTokens, compileReading, hterm]

/-- Of a table, terms need the fields of their keys and the body. -/
theorem term_congr {table table' : Table} (hresolve : ∀ key, table.resolve key = table'.resolve key)
    (hbody : table.bodyColumn = table'.bodyColumn) (unknownKeys : UnknownKeys) (t : Term) :
    term ⟨table, unknownKeys⟩ t = term ⟨table', unknownKeys⟩ t := by
  cases t with
  | body l => simp only [term, Table.bodyField, hbody]
  | keyed key r v => simp only [term, hresolve]

/-- **The order of attribute maps matters only where stems overlap.** Let a table without faults get its attribute maps
in another order, in which each two maps with a stem, one of which starts with the other, stand in the same order as
before. It has no faults then either, every key has the same field, and every query compiles to the same, whatever is
done with unknown keys. -/
theorem formula?_attributeOrder {t : Table} {attributes : List AttributeMap} (h : t.validate = .ok ())
    (hperm : t.attributes.Perm attributes)
    (horder : ∀ m n : AttributeMap, m.Overlaps n → [m, n].Sublist t.attributes → [m, n].Sublist attributes) :
    ({ t with attributes := attributes } : Table).validate = .ok () ∧
      (∀ key, ({ t with attributes := attributes } : Table).resolve key = t.resolve key) ∧
      ∀ unknownKeys query,
        formula? ⟨{ t with attributes := attributes }, unknownKeys⟩ query = formula? ⟨t, unknownKeys⟩ query := by
  have hresolve := Table.resolve_of_perm h hperm horder
  refine ⟨Table.validate_of_perm h hperm, hresolve, ?_⟩
  intro unknownKeys query
  exact formula?_congr (term_congr hresolve rfl unknownKeys) query

/-- The map that takes every key and the one for `http.` change their places. The two for `k8s.` overlap, so the first
one stays the first one and takes the keys of both. -/
theorem formula?_attributeOrder_nested :
    let t : Table :=
      { Table.logs with
        attributes := [⟨"", "LogAttributes"⟩, ⟨"k8s.", "K8s"⟩, ⟨"k8s.pod.", "Pods"⟩, ⟨"http.", "Http"⟩] }
    let attributes : List AttributeMap :=
      [⟨"http.", "Http"⟩, ⟨"k8s.", "K8s"⟩, ⟨"", "LogAttributes"⟩, ⟨"k8s.pod.", "Pods"⟩]
    t.validate = .ok () ∧ t.resolve "k8s.pod.name" = some (.cell "K8s" "k8s.pod.name") ∧
      ({ t with attributes := attributes } : Table).resolve "k8s.pod.name" = some (.cell "K8s" "k8s.pod.name") := by
  intro t attributes
  have hvalid : t.validate = .ok () := Table.validate_eq_ok_iff.2 (by decide +kernel)
  have hfield : t.resolve "k8s.pod.name" = some (.cell "K8s" "k8s.pod.name") := by decide +kernel
  have hpairs : ∀ m ∈ t.attributes, ∀ n ∈ t.attributes, m.Overlaps n → [m, n].Sublist t.attributes →
      [m, n].Sublist attributes := by decide +kernel
  have horder : ∀ m n : AttributeMap, m.Overlaps n → [m, n].Sublist t.attributes → [m, n].Sublist attributes := by
    intro m n hoverlaps hmn
    exact hpairs m (hmn.subset (by simp)) n (hmn.subset (by simp)) hoverlaps hmn
  refine ⟨hvalid, hfield, ?_⟩
  rw [(formula?_attributeOrder hvalid (by decide +kernel) horder).2.1, hfield]

end Search

end TelemetrySearch
