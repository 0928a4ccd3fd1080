import TelemetrySearch.Formula

/-!
# The truth value of a formula

A truth assignment to the leaves gives every formula a value (`Formula.value`). A group is a row of operands with a
connective between each two neighbours; its value is the `OR`, over the runs between two `OR`, of the `AND` of the run
(`rowValue`). A group with one connective is then the `AND` or the `OR` of its children (`value_group_uniform`).

* Building: `join` has the value of its operands under its connective (`value_join`), and `ofOperands` the value of the
  row it is built from (`value_ofOperands`). Both need `Proper` operands: a group without children has no connective
  to tell which value it should have.
* The leaves of what is built are the leaves of the operands, in order (`leaves_join`, `leaves_ofOperands`).
* Replacing the leaves goes through exactly if it does for each leaf, and else fails with the leftmost leaf that fails
  (`map_leaves_traverse`, `traverse_eq_error`). It keeps the value, if each new leaf has the value of the old one
  (`value_traverse`).
-/

namespace TelemetrySearch

/-! ## Rows of truth values -/

/-- The value of a row of operands, each with the connective before it: an `AND` goes on with the run of which `run` is
the value so far, an `OR` ends it and starts the next one. -/
def rowValue (run : Bool) : List (Connective × Bool) → Bool
  | [] => run
  | (.and, b) :: more => rowValue (run && b) more
  | (.or, b) :: more => run || rowValue b more

/-- The value of operands that are all joined by the same connective. -/
def Connective.joinValues : Connective → List Bool → Bool
  | .and, bs => bs.all id
  | .or, bs => bs.any id

namespace Connective

theorem joinValues_singleton (c : Connective) (b : Bool) : c.joinValues [b] = b := by
  cases c <;> simp [joinValues]

theorem joinValues_append (c : Connective) (as bs : List Bool) :
    c.joinValues (as ++ bs) = c.joinValues [c.joinValues as, c.joinValues bs] := by
  cases c <;> simp [joinValues]

theorem joinValues_cons (c : Connective) (b : Bool) (bs : List Bool) :
    c.joinValues (b :: bs) = c.joinValues [b, c.joinValues bs] := by
  cases c <;> simp [joinValues]

end Connective

/-- A row with one connective throughout. -/
theorem rowValue_uniform {c : Connective} : ∀ (run : Bool) (ks : List Connective) (bs : List Bool),
    (∀ k ∈ ks, k = c) → ks.length = bs.length → rowValue run (ks.zip bs) = c.joinValues (run :: bs)
  | run, [], [], _, _ => (c.joinValues_singleton run).symm
  | run, k :: ks, b :: bs, hk, hl => by
    obtain rfl : k = c := hk k List.mem_cons_self
    have ih := fun run => rowValue_uniform run ks bs (fun k' h => hk k' (List.mem_cons_of_mem k h)) (by simpa using hl)
    cases k with
    | and => simp [rowValue, ih, Connective.joinValues, Bool.and_assoc]
    | or => simp [rowValue, ih, Connective.joinValues]

namespace Formula

variable {α β ε : Type}

/-! ## Values of formulas -/

mutual

/-- The value of a formula whose leaf `a` has the value `v a`. -/
def value (v : α → Bool) : Formula α → Bool
  | leaf a => v a
  | group children connectives =>
    match values v children with
    | [] => false
    | first :: more => rowValue first (connectives.zip more)

/-- The values of a row of formulas. -/
def values (v : α → Bool) : List (Formula α) → List Bool
  | [] => []
  | f :: fs => f.value v :: values v fs

end

theorem values_eq_map (v : α → Bool) : ∀ fs : List (Formula α), values v fs = fs.map (value v)
  | [] => rfl
  | f :: fs => by rw [values, List.map_cons, values_eq_map v fs]

theorem value_group_cons (v : α → Bool) (f : Formula α) (fs : List (Formula α)) (ks : List Connective) :
    (group (f :: fs) ks).value v = rowValue (f.value v) (ks.zip (fs.map (value v))) := by
  simp [value, values, values_eq_map]

/-- A formula in which every group has a child, and a connective between each two neighbours and no other. -/
inductive Proper : Formula α → Prop
  | leaf (a : α) : Proper (leaf a)
  | group {children : List (Formula α)} {connectives : List Connective} :
      children.length = connectives.length + 1 → (∀ f ∈ children, Proper f) → Proper (group children connectives)

/-- A group with one connective throughout is the `AND` or the `OR` of its children. -/
theorem value_group_uniform (v : α → Bool) {c : Connective} {fs : List (Formula α)} {ks : List Connective}
    (hl : fs.length = ks.length + 1) (hk : ∀ k ∈ ks, k = c) :
    (group fs ks).value v = c.joinValues (fs.map (value v)) := by
  cases fs with
  | nil => simp at hl
  | cons f fs =>
    rw [value_group_cons, rowValue_uniform _ _ _ hk (by simpa using hl.symm), List.map_cons]

/-! ## Joining -/

theorem leavesAll_eq_flatMap : ∀ fs : List (Formula α), leavesAll fs = fs.flatMap leaves
  | [] => rfl
  | f :: fs => by rw [leavesAll, List.flatMap_cons, leavesAll_eq_flatMap fs]

theorem flatMap_leaves_operands (c : Connective) (f : Formula α) : (f.operands c).flatMap leaves = f.leaves := by
  cases f with
  | leaf a => simp [operands]
  | group children connectives =>
    simp only [operands]
    split
    · rw [leaves, leavesAll_eq_flatMap]
    · simp

/-- Joining keeps the leaves and their order. -/
theorem leaves_join (c : Connective) (fs : List (Formula α)) : (join c fs).leaves = fs.flatMap leaves := by
  have h : (fs.flatMap (operands c)).flatMap leaves = fs.flatMap leaves := by
    rw [List.flatMap_assoc]
    simp only [flatMap_leaves_operands]
  rw [← h]
  unfold join
  split
  · next only heq => simp [heq]
  · rw [leaves, leavesAll_eq_flatMap]

theorem Proper.operands {c : Connective} {f : Formula α} (hf : f.Proper) :
    f.operands c ≠ [] ∧ ∀ g ∈ f.operands c, g.Proper := by
  cases hf with
  | leaf a => exact ⟨by simp [Formula.operands], fun g hg => by simp [Formula.operands] at hg; rw [hg]; exact .leaf a⟩
  | @group children connectives hl hc =>
    simp only [Formula.operands]
    split
    · exact ⟨fun h => by simp [h] at hl, hc⟩
    · refine ⟨by simp, fun g hg => ?_⟩
      rw [List.mem_singleton.1 hg]
      exact .group hl hc

theorem flatMap_operands_ne_nil {c : Connective} {fs : List (Formula α)} (hne : fs ≠ []) (hp : ∀ f ∈ fs, f.Proper) :
    fs.flatMap (operands c) ≠ [] := by
  obtain ⟨f, fs, rfl⟩ := List.exists_cons_of_ne_nil hne
  have := (hp f List.mem_cons_self).operands (c := c) |>.1
  simp [this]

theorem Proper.join {c : Connective} {fs : List (Formula α)} (hne : fs ≠ []) (hp : ∀ f ∈ fs, f.Proper) :
    (join c fs).Proper := by
  have hflat : ∀ g ∈ fs.flatMap (Formula.operands c), g.Proper := by
    intro g hg
    obtain ⟨f, hf, hg⟩ := List.mem_flatMap.1 hg
    exact (hp f hf).operands.2 g hg
  have hpos := List.length_pos_iff.2 (flatMap_operands_ne_nil (c := c) hne hp)
  unfold Formula.join
  split
  · next only heq => exact hflat only (by simp [heq])
  · exact .group (by rw [List.length_replicate]; omega) hflat

/-- The operands of a formula under `c` have the value of the formula. -/
theorem joinValues_operands (v : α → Bool) (c : Connective) {f : Formula α} (hf : f.Proper) :
    c.joinValues ((f.operands c).map (value v)) = f.value v := by
  cases hf with
  | leaf a => simp [operands, Connective.joinValues_singleton]
  | group hl hc =>
    simp only [operands]
    split
    · next hall =>
      rw [value_group_uniform v hl]
      simpa using hall
    · simp [Connective.joinValues_singleton]

theorem joinValues_flatMap_operands (v : α → Bool) (c : Connective) : ∀ {fs : List (Formula α)},
    (∀ f ∈ fs, f.Proper) → c.joinValues ((fs.flatMap (operands c)).map (value v)) = c.joinValues (fs.map (value v))
  | [], _ => rfl
  | f :: fs, hp => by
    rw [List.flatMap_cons, List.map_append, c.joinValues_append, joinValues_operands v c (hp f List.mem_cons_self),
      joinValues_flatMap_operands v c (fun g hg => hp g (List.mem_cons_of_mem f hg)), List.map_cons,
      ← c.joinValues_cons]

/-- **Joined formulas have the value of the operands under the connective.** -/
theorem value_join (v : α → Bool) (c : Connective) {fs : List (Formula α)} (hne : fs ≠ []) (hp : ∀ f ∈ fs, f.Proper) :
    (join c fs).value v = c.joinValues (fs.map (value v)) := by
  rw [← joinValues_flatMap_operands v c hp]
  have hpos := List.length_pos_iff.2 (flatMap_operands_ne_nil (c := c) hne hp)
  unfold join
  split
  · next only heq => simp [heq, Connective.joinValues_singleton]
  · exact value_group_uniform v (by rw [List.length_replicate]; omega) (by simp)

/-! ## Runs of operands -/

/-- Cutting a row into runs keeps the operands and their order. -/
theorem flatten_runs (row : List (Connective × α)) : (runs row).flatten = row.map Prod.snd := by
  fun_induction runs row with
  | case1 => rfl
  | case2 => rfl
  | case3 _ x y rest ih => simp_all
  | case4 _ x y rest h ih => simp [h] at ih
  | case5 _ x y rest run more h ih => simp_all

theorem ne_nil_of_mem_runs {row : List (Connective × α)} {run : List α} (h : run ∈ runs row) : run ≠ [] := by
  fun_induction runs row with
  | case1 => cases h
  | case2 => simp_all
  | case3 _ x y rest ih =>
    rcases List.mem_cons.1 h with rfl | h
    · simp
    · exact ih h
  | case4 => simp_all
  | case5 _ x y rest first more heq ih =>
    rcases List.mem_cons.1 h with rfl | h
    · simp
    · exact ih (heq ▸ List.mem_cons_of_mem first h)

/-- The first run of a row goes on with the run before it; the row has the value of its runs. -/
theorem rowValue_eq_runs (f : α → Bool) : ∀ (c : Connective) (x : α) (rest : List (Connective × α)),
    ∃ run more, runs ((c, x) :: rest) = run :: more ∧
      ∀ a, rowValue (a && f x) (rest.map (Prod.map id f)) = ((a && run.all f) || more.any (·.all f))
  | _, x, [] => ⟨[x], [], rfl, fun a => by simp [rowValue]⟩
  | _, x, (.or, y) :: rest => by
    obtain ⟨run, more, hr, hv⟩ := rowValue_eq_runs f .or y rest
    refine ⟨[x], run :: more, by rw [runs, hr], fun a => ?_⟩
    have := hv true
    simp_all [rowValue]
  | _, x, (.and, y) :: rest => by
    obtain ⟨run, more, hr, hv⟩ := rowValue_eq_runs f .and y rest
    refine ⟨x :: run, more, by simp only [runs, hr], fun a => ?_⟩
    simp only [List.map_cons, Prod.map_apply, id_eq, rowValue, List.all_cons]
    rw [hv, Bool.and_assoc]

theorem mem_runs {row : List (Connective × α)} {run : List α} {x : α} (hr : run ∈ runs row) (hx : x ∈ run) :
    ∃ c, (c, x) ∈ row := by
  have h : x ∈ (runs row).flatten := List.mem_flatten.2 ⟨run, hr, hx⟩
  rw [flatten_runs] at h
  obtain ⟨⟨c, _⟩, hp, rfl⟩ := List.mem_map.1 h
  exact ⟨c, hp⟩

section OfOperands

variable {row : List (Connective × Formula α)}

theorem leaves_ofOperands (row : List (Connective × Formula α)) :
    (ofOperands row).leaves = row.flatMap fun p => p.2.leaves := by
  calc (ofOperands row).leaves
    _ = (runs row).flatMap fun run => run.flatMap leaves := by
      rw [ofOperands, leaves_join, List.flatMap_map]
      simp only [leaves_join]
    _ = (runs row).flatten.flatMap leaves := by
      rw [List.flatten_eq_flatMap, List.flatMap_assoc]
      rfl
    _ = row.flatMap fun p => p.2.leaves := by rw [flatten_runs, List.flatMap_map]

theorem Proper.of_mem_runs (hp : ∀ p ∈ row, p.2.Proper) {run : List (Formula α)} (hr : run ∈ runs row) :
    ∀ f ∈ run, f.Proper := by
  intro f hf
  obtain ⟨c, hc⟩ := mem_runs hr hf
  exact hp (c, f) hc

/-- The runs of a row are joined to proper formulas. -/
theorem Proper.of_mem_joined (hp : ∀ p ∈ row, p.2.Proper) : ∀ g ∈ (runs row).map (Formula.join .and), g.Proper := by
  intro g hg
  obtain ⟨run, hr, rfl⟩ := List.mem_map.1 hg
  exact .join (ne_nil_of_mem_runs hr) (.of_mem_runs hp hr)

theorem Proper.ofOperands (hne : row ≠ []) (hp : ∀ p ∈ row, p.2.Proper) : (ofOperands row).Proper := by
  obtain ⟨⟨c, f⟩, rest, rfl⟩ := List.exists_cons_of_ne_nil hne
  obtain ⟨run, more, hr, -⟩ := rowValue_eq_runs (fun _ => true) c f rest
  exact .join (by simp [hr]) (.of_mem_joined hp)

/-- **The formula of a row has the value of the row.** -/
theorem value_ofOperands (v : α → Bool) (c : Connective) (f : Formula α) (rest : List (Connective × Formula α))
    (hp : ∀ p ∈ (c, f) :: rest, p.2.Proper) :
    (ofOperands ((c, f) :: rest)).value v = rowValue (f.value v) (rest.map (Prod.map id (value v))) := by
  obtain ⟨run, more, hr, hv⟩ := rowValue_eq_runs (value v) c f rest
  have hjoin : ∀ r ∈ runs ((c, f) :: rest), (value v ∘ join .and) r = r.all (value v) := by
    intro r h
    rw [Function.comp_apply, value_join v .and (ne_nil_of_mem_runs h) (.of_mem_runs hp h)]
    simp [Connective.joinValues]
  rw [ofOperands, value_join v .or (by simp [hr]) (.of_mem_joined hp), List.map_map, List.map_congr_left hjoin, hr]
  simpa [Connective.joinValues] using (hv true).symm

end OfOperands

/-! ## Replacing the leaves -/

section MapM

variable {f : α → Except ε β}

theorem exists_mapM_eq_ok : ∀ {as : List α}, (∀ a ∈ as, ∃ b, f a = .ok b) → ∃ bs, as.mapM f = .ok bs
  | [], _ => ⟨[], rfl⟩
  | a :: as, h => by
    obtain ⟨b, hb⟩ := h a List.mem_cons_self
    obtain ⟨bs, hbs⟩ := exists_mapM_eq_ok fun a' ha' => h a' (List.mem_cons_of_mem a ha')
    exact ⟨b :: bs, by rw [List.mapM_cons, hb, hbs]; rfl⟩

theorem forall_mem_of_mapM_eq_ok : ∀ {as : List α} {bs : List β}, as.mapM f = .ok bs → ∀ a ∈ as, ∃ b, f a = .ok b
  | [], _, _, a, ha => by cases ha
  | a :: as, bs, h, a', ha' => by
    rw [List.mapM_cons] at h
    cases hb : f a with
    | error e => rw [hb] at h; cases h
    | ok b =>
      cases hbs : as.mapM f with
      | error e => rw [hb, hbs] at h; cases h
      | ok bs' =>
        rcases List.mem_cons.1 ha' with rfl | ha'
        · exact ⟨b, hb⟩
        · exact forall_mem_of_mapM_eq_ok hbs a' ha'

/-- The error is that of the first element that has one. -/
theorem mapM_append_cons_eq_error {before after : List α} {a : α} {e : ε} (hbefore : ∀ b ∈ before, ∃ c, f b = .ok c)
    (ha : f a = .error e) : (before ++ a :: after).mapM f = .error e := by
  obtain ⟨bs, hbs⟩ := exists_mapM_eq_ok hbefore
  rw [List.mapM_append, hbs, List.mapM_cons, ha]
  rfl

end MapM

mutual

/-- The new leaves are the results for the old ones; the error is the leftmost one. -/
theorem map_leaves_traverse (g : α → Except ε β) : ∀ f : Formula α, (f.traverse g).map leaves = f.leaves.mapM g
  | leaf a => by cases h : g a <;> simp [traverse, leaves, h, Except.map, bind, Except.bind, pure, Except.pure]
  | group children connectives => by
    rw [traverse, leaves, ← map_leavesAll_traverseAll g children]
    cases traverseAll g children <;> rfl

theorem map_leavesAll_traverseAll (g : α → Except ε β) :
    ∀ fs : List (Formula α), (traverseAll g fs).map leavesAll = (leavesAll fs).mapM g
  | [] => rfl
  | f :: fs => by
    rw [traverseAll, leavesAll, List.mapM_append, ← map_leaves_traverse g f, ← map_leavesAll_traverseAll g fs]
    cases traverse g f with
    | error e => rfl
    | ok f' => cases traverseAll g fs <;> rfl

end

section Traverse

variable {g : α → Except ε β} {f : Formula α}

theorem exists_traverse_eq_ok (h : ∀ a ∈ f.leaves, ∃ b, g a = .ok b) : ∃ e, f.traverse g = .ok e := by
  have hm := map_leaves_traverse g f
  obtain ⟨bs, hbs⟩ := exists_mapM_eq_ok h
  cases hf : f.traverse g with
  | error e => rw [hbs, hf] at hm; cases hm
  | ok e => exact ⟨e, rfl⟩

theorem forall_leaves_of_traverse_eq_ok {e : Formula β} (h : f.traverse g = .ok e) :
    ∀ a ∈ f.leaves, ∃ b, g a = .ok b := by
  have hm := map_leaves_traverse g f
  rw [h] at hm
  exact forall_mem_of_mapM_eq_ok hm.symm

/-- Of several leaves that fail, the error is that of the leftmost one. -/
theorem traverse_eq_error {before after : List α} {a : α} {error : ε} (hl : f.leaves = before ++ a :: after)
    (hbefore : ∀ b ∈ before, ∃ c, g b = .ok c) (ha : g a = .error error) : f.traverse g = .error error := by
  have hm := map_leaves_traverse g f
  rw [hl, mapM_append_cons_eq_error hbefore ha] at hm
  cases hf : f.traverse g with
  | error e => rw [hf] at hm; cases hm; rfl
  | ok e => rw [hf] at hm; cases hm

end Traverse

mutual

/-- New leaves with the values of the old ones give a formula with the value of the old one. -/
theorem value_traverse {g : α → Except ε β} {v : β → Bool} {w : α → Bool} : ∀ {f : Formula α} {e : Formula β},
    f.traverse g = .ok e → (∀ a ∈ f.leaves, ∀ b, g a = .ok b → v b = w a) → e.value v = f.value w
  | leaf a, e, h, hv => by
    cases hg : g a with
    | error _ => simp [traverse, hg, Except.map] at h
    | ok b =>
      simp only [traverse, hg, Except.map, Except.ok.injEq] at h
      subst h
      exact hv a (by simp [leaves]) b hg
  | group children connectives, e, h, hv => by
    cases hc : traverseAll g children with
    | error _ => simp [traverse, hc, Except.map] at h
    | ok children' =>
      simp only [traverse, hc, Except.map, Except.ok.injEq] at h
      subst h
      simp only [value, values_traverseAll hc hv]

theorem values_traverseAll {g : α → Except ε β} {v : β → Bool} {w : α → Bool} :
    ∀ {fs : List (Formula α)} {es : List (Formula β)}, traverseAll g fs = .ok es →
      (∀ a ∈ leavesAll fs, ∀ b, g a = .ok b → v b = w a) → values v es = values w fs
  | [], es, h, _ => by cases h; rfl
  | f :: fs, es, h, hv => by
    cases hf : traverse g f with
    | error _ => simp [traverseAll, hf] at h
    | ok e =>
      cases hs : traverseAll g fs with
      | error _ => simp [traverseAll, hf, hs, Except.map] at h
      | ok es' =>
        simp only [traverseAll, hf, hs, Except.map, Except.ok.injEq] at h
        subst h
        rw [values, values, value_traverse hf fun a ha => hv a (List.mem_append_left _ ha),
          values_traverseAll hs fun a ha => hv a (List.mem_append_right _ ha)]

end

end Formula

end TelemetrySearch
