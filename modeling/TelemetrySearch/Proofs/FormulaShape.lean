import TelemetrySearch.Proofs.FormulaValue

/-!
# The shape of a formula

`Formula.map` replaces the leaves and keeps the shape.

* What builds or writes a formula looks at the shape only, so it commutes with `map` (`map_join`, `map_ofOperands`,
  `text_map`). To traverse a formula with success is to map it to successes (`traverse_eq_ok_iff`).
* A formula in normal form (`Normal`) has groups of two or more children and one connective, which no child uses again.
  Joining normal formulas gives a normal formula (`Normal.join`, `Normal.ofOperands`), and a normal formula joined alone
  is itself again (`join_singleton`).
* Joining keeps the operands of normal formulas (`operands_join`), so it does not matter in which steps they are joined
  (`join_rows`).
-/

namespace TelemetrySearch.Formula

variable {α β γ δ ε ζ : Type}

/-- Induction on a formula, with the hypothesis for each child of a group. -/
@[elab_as_elim]
theorem inductionOn {motive : Formula α → Prop} (leaf : ∀ a, motive (leaf a))
    (group : ∀ children connectives, (∀ f ∈ children, motive f) → motive (group children connectives))
    (f : Formula α) : motive f :=
  @Formula.rec α motive (fun fs => ∀ f ∈ fs, motive f) leaf group (List.forall_mem_nil _)
    (fun _ _ hf hfs => List.forall_mem_cons.2 ⟨hf, hfs⟩) f

/-! ## Replacing the leaves -/

mutual

/-- The formula with each leaf `a` replaced by `g a`. -/
def map (g : α → β) : Formula α → Formula β
  | leaf a => leaf (g a)
  | group children connectives => group (mapAll g children) connectives

/-- A row of formulas with each leaf `a` replaced by `g a`. -/
def mapAll (g : α → β) : List (Formula α) → List (Formula β)
  | [] => []
  | f :: fs => f.map g :: mapAll g fs

end

theorem mapAll_eq_map (g : α → β) (fs : List (Formula α)) : mapAll g fs = fs.map (map g) := by
  induction fs with
  | nil => rfl
  | cons f fs ih => rw [mapAll, List.map_cons, ih]

@[simp] theorem map_leaf (g : α → β) (a : α) : (leaf a).map g = leaf (g a) := rfl

@[simp] theorem map_group (g : α → β) (children : List (Formula α)) (connectives : List Connective) :
    (group children connectives).map g = group (children.map (map g)) connectives := by
  rw [map, mapAll_eq_map]

theorem map_map (g : α → β) (h : β → γ) (f : Formula α) : (f.map g).map h = f.map (h ∘ g) := by
  induction f using inductionOn with
  | leaf a => rfl
  | group children connectives ih =>
    simp only [map_group, List.map_map, group.injEq, and_true]
    exact List.map_congr_left ih

theorem leaves_group (children : List (Formula α)) (connectives : List Connective) :
    (group children connectives).leaves = children.flatMap leaves := by
  rw [leaves, leavesAll_eq_flatMap]

theorem leaves_map (g : α → β) (f : Formula α) : (f.map g).leaves = f.leaves.map g := by
  induction f using inductionOn with
  | leaf a => rfl
  | group children connectives ih =>
    rw [map_group, leaves_group, leaves_group, List.flatMap_map, List.map_flatMap, List.flatMap_def, List.flatMap_def,
      List.map_congr_left ih]

theorem map_congr {g h : α → β} {f : Formula α} (hgh : ∀ a ∈ f.leaves, g a = h a) : f.map g = f.map h := by
  induction f using inductionOn with
  | leaf a => rw [map_leaf, map_leaf, hgh a List.mem_cons_self]
  | group children connectives ih =>
    rw [leaves_group] at hgh
    rw [map_group, map_group]
    congr 1
    refine List.map_congr_left fun f hf => ih f hf fun a ha => ?_
    exact hgh a (List.mem_flatMap.2 ⟨f, hf, ha⟩)

/-! ### Building and writing -/

theorem operands_map (g : α → β) (c : Connective) (f : Formula α) :
    (f.map g).operands c = (f.operands c).map (map g) := by
  cases f with
  | leaf a => rfl
  | group children connectives =>
    simp only [map_group, operands]
    split <;> simp

/-- Joining does not look at the leaves. -/
theorem map_join (g : α → β) (c : Connective) (fs : List (Formula α)) :
    (join c fs).map g = join c (fs.map (map g)) := by
  have hflat : (fs.map (map g)).flatMap (operands c) = (fs.flatMap (operands c)).map (map g) := by
    rw [List.flatMap_map, List.map_flatMap]
    simp only [operands_map]
  unfold join
  rw [hflat]
  match fs.flatMap (operands c) with
  | [] => simp
  | [only] => simp
  | first :: second :: more => simp

theorem runs_map (g : α → β) (row : List (Connective × α)) :
    runs (row.map (Prod.map id g)) = (runs row).map (List.map g) := by
  fun_induction runs row with
  | case1 => rfl
  | case2 => rfl
  | case3 _ x y rest ih =>
    simp only [List.map_cons, Prod.map_apply, id_eq, runs] at ih ⊢
    rw [ih]
    simp
  | case4 _ x y rest h ih => simp_all [runs]
  | case5 _ x y rest run more h ih =>
    rw [h] at ih
    simp only [List.map_cons, Prod.map_apply, id_eq, runs] at ih ⊢
    rw [ih]

/-- The structure of a row of operands does not depend on their leaves. -/
theorem map_ofOperands (g : α → β) (row : List (Connective × Formula α)) :
    (ofOperands row).map g = ofOperands (row.map (Prod.map id (map g))) := by
  rw [ofOperands, ofOperands, map_join, runs_map, List.map_map, List.map_map]
  congr 1
  exact List.map_congr_left fun run _ => map_join g .and run

mutual

theorem symbols_map (g : α → β) (nested : Bool) : ∀ f : Formula α,
    (f.map g).symbols nested = (f.symbols nested).map (Symbol.map g)
  | leaf a => rfl
  | group [] connectives => by
    simp [symbols, rowSymbols, Symbol.enclose, apply_ite (List.map (Symbol.map g)), Symbol.map]
  | group [child] connectives => by simpa [symbols] using symbols_map g nested child
  | group (first :: second :: more) connectives => by
    have hrow := rowSymbols_map g (first :: second :: more) connectives
    simp only [List.map_cons] at hrow
    simp only [map_group, List.map_cons, symbols, hrow, apply_ite (List.map (Symbol.map g)), Symbol.enclose,
      List.map_append, List.map_nil, Symbol.map]

theorem rowSymbols_map (g : α → β) : ∀ (fs : List (Formula α)) (connectives : List Connective),
    rowSymbols (fs.map (map g)) connectives = (rowSymbols fs connectives).map (Symbol.map g)
  | [], _ => rfl
  | [f], _ => by simpa [rowSymbols] using symbols_map g true f
  | f :: f' :: fs, connectives => by
    have hrow := rowSymbols_map g (f' :: fs) connectives.tail
    simp only [List.map_cons] at hrow
    simp only [List.map_cons, rowSymbols, symbols_map g true f, hrow, List.map_append, Symbol.map]

end

/-- Writing a formula writes its leaves, whatever they are. -/
theorem text_map (g : α → β) (write : β → String) (nested : Bool) (f : Formula α) :
    (f.map g).text write nested = f.text (write ∘ g) nested := by
  rw [text, text, symbols_map, List.map_map]
  congr 1
  refine List.map_congr_left fun symbol _ => ?_
  cases symbol <;> rfl

/-! ### Traversing -/

/-- A list is mapped with success exactly if each element is. -/
theorem mapM_eq_ok_iff {g : α → Except ε β} {as : List α} {bs : List β} :
    as.mapM g = .ok bs ↔ as.map g = bs.map .ok := by
  induction as generalizing bs with
  | nil => cases bs <;> simp [pure, Except.pure]
  | cons a as ih =>
    rw [List.mapM_cons, List.map_cons]
    cases bs with
    | nil => cases g a <;> cases as.mapM g <;> simp [bind, Except.bind, pure, Except.pure]
    | cons b bs =>
      rw [List.map_cons, List.cons.injEq, ← ih]
      cases g a <;> cases as.mapM g <;> simp [bind, Except.bind, pure, Except.pure]

theorem traverseAll_eq_mapM (g : α → Except ε β) (fs : List (Formula α)) :
    traverseAll g fs = fs.mapM (traverse g) := by
  induction fs with
  | nil => rfl
  | cons f fs ih =>
    rw [traverseAll, List.mapM_cons, ih]
    cases f.traverse g with
    | error fault => rfl
    | ok e => cases fs.mapM (traverse g) <;> rfl

/-- Two ways to compare the elements of two rows compare the rows in the same way. -/
theorem map_eq_map_iff_of_forall {g : α → γ} {h : β → γ} {g' : α → δ} {h' : β → δ} {as : List α} {bs : List β}
    (hgh : ∀ a ∈ as, ∀ b, g a = h b ↔ g' a = h' b) : as.map g = bs.map h ↔ as.map g' = bs.map h' := by
  induction as generalizing bs with
  | nil => cases bs <;> simp
  | cons a as ih =>
    obtain ⟨ha, has⟩ := List.forall_mem_cons.1 hgh
    cases bs with
    | nil => simp
    | cons b bs => simp only [List.map_cons, List.cons.injEq, ha, ih has]

/-- **A traversal succeeds with `e` exactly if it maps the leaves to the leaves of `e`.** -/
theorem traverse_eq_ok_iff {g : α → Except ε β} {f : Formula α} {e : Formula β} :
    f.traverse g = .ok e ↔ f.map g = e.map .ok := by
  induction f using inductionOn generalizing e with
  | leaf a =>
    rw [traverse]
    cases e with
    | leaf b =>
      rw [map_leaf, map_leaf, leaf.injEq]
      cases g a <;> simp [Except.map]
    | group children connectives => cases g a <;> simp [Except.map]
  | group children connectives ih =>
    rw [traverse]
    cases e with
    | leaf b => cases traverseAll g children <;> simp [Except.map]
    | group children' connectives' =>
      rw [map_group, map_group, group.injEq, ← map_eq_map_iff_of_forall fun f hf e => ih f hf (e := e),
        ← mapM_eq_ok_iff, traverseAll_eq_mapM]
      cases children.mapM (traverse g) <;> simp [Except.map]

/-- A traversal whose leaves all succeed. -/
theorem traverse_eq_ok_map {g : α → Except ε β} {h : α → β} {f : Formula α} (hgh : ∀ a ∈ f.leaves, g a = .ok (h a)) :
    f.traverse g = .ok (f.map h) := by
  rw [traverse_eq_ok_iff, map_map]
  exact map_congr hgh

theorem exists_of_map_eq_map_ok {g : α → Except ε β} {as : List α} {bs : List β} (h : as.map g = bs.map .ok) {b : β}
    (hb : b ∈ bs) : ∃ a ∈ as, g a = .ok b := by
  have hmem : Except.ok b ∈ as.map g := by
    rw [h]
    exact List.mem_map_of_mem hb
  exact List.mem_map.1 hmem

/-- The leaves of the result are the results for the leaves, in the same order. -/
theorem map_leaves_of_traverse {g : α → Except ε β} {f : Formula α} {e : Formula β} (h : f.traverse g = .ok e) :
    f.leaves.map g = e.leaves.map .ok := by
  rw [← leaves_map, ← leaves_map, traverse_eq_ok_iff.1 h]

/-- A leaf of the result is the result for a leaf. -/
theorem exists_of_mem_leaves_traverse {g : α → Except ε β} {f : Formula α} {e : Formula β} (h : f.traverse g = .ok e)
    {b : β} (hb : b ∈ e.leaves) : ∃ a ∈ f.leaves, g a = .ok b :=
  exists_of_map_eq_map_ok (map_leaves_of_traverse h) hb

/-! ### Two traversals in step -/

/-- Two rows `as` and `as'` that look the same under `o` become rows `bs` and `bs'` that look the same under `p`, if
each two elements do. -/
theorem map_eq_map_of_step {g g' : α → ζ} {k : β → ζ} {o : α → γ} {p : β → δ} {as as' : List α} {bs bs' : List β}
    (h : as.map g = bs.map k) (h' : as'.map g' = bs'.map k) (ho : as.map o = as'.map o)
    (hstep : ∀ a ∈ as, ∀ a' b b', g a = k b → g' a' = k b' → o a = o a' → p b = p b') : bs.map p = bs'.map p := by
  induction as generalizing as' bs bs' with
  | nil =>
    cases List.map_eq_nil_iff.1 ho.symm
    cases List.map_eq_nil_iff.1 h.symm
    cases List.map_eq_nil_iff.1 h'.symm
    rfl
  | cons a as ih =>
    obtain ⟨b, bs, rfl, hb, hbs⟩ := List.map_eq_cons_iff.1 h.symm
    obtain ⟨a', as', rfl, ha', has'⟩ := List.map_eq_cons_iff.1 ho.symm
    obtain ⟨b', bs', rfl, hb', hbs'⟩ := List.map_eq_cons_iff.1 h'.symm
    obtain ⟨hfirst, hmore⟩ := List.forall_mem_cons.1 hstep
    rw [List.map_cons, List.map_cons, hfirst a' b b' hb.symm hb'.symm ha'.symm, ih hbs.symm hbs'.symm has'.symm hmore]

/-- Two formulas that look the same under `o` are traversed to formulas that look the same under `p`, if each two leaves
are. -/
theorem map_eq_map_of_traverse {g : α → Except ε β} {o : α → γ} {p : β → δ} {f f' : Formula α} {e e' : Formula β}
    (h : f.traverse g = .ok e) (h' : f'.traverse g = .ok e') (ho : f.map o = f'.map o)
    (hstep : ∀ a a' b b', g a = .ok b → g a' = .ok b' → o a = o a' → p b = p b') : e.map p = e'.map p := by
  rw [traverse_eq_ok_iff] at h h'
  induction f using inductionOn generalizing f' e e' with
  | leaf a =>
    cases f' with
    | group children' connectives' => simp at ho
    | leaf a' =>
      cases e with
      | group children connectives => simp at h
      | leaf b =>
        cases e' with
        | group children' connectives' => simp at h'
        | leaf b' =>
          simp only [map_leaf, leaf.injEq] at h h' ho ⊢
          exact hstep a a' b b' h h' ho
  | group children connectives ih =>
    cases f' with
    | leaf a' => simp at ho
    | group children' connectives' =>
      cases e with
      | leaf b => simp at h
      | group built joins =>
        cases e' with
        | leaf b' => simp at h'
        | group built' joins' =>
          simp only [map_group, group.injEq] at h h' ho ⊢
          refine ⟨map_eq_map_of_step h.1 h'.1 ho.1 ?_, by rw [← h.2, ho.2, h'.2]⟩
          intro f hf f' e e' he he' hff'
          exact ih f hf he he' hff'

/-! ## Normal form -/

/-- The formula is a group with the connective `c` in it. -/
def Uses (c : Connective) : Formula α → Prop
  | leaf _ => False
  | group _ connectives => c ∈ connectives

/-- Every group has two children or more and one connective between all of them, which no child uses again. -/
inductive Normal : Formula α → Prop
  | leaf (a : α) : Normal (leaf a)
  | group {c : Connective} {children : List (Formula α)} :
      2 ≤ children.length → (∀ f ∈ children, Normal f) → (∀ f ∈ children, ¬f.Uses c) →
        Normal (group children (List.replicate (children.length - 1) c))

/-- The operands of a normal formula under `c` are normal and do not use `c`. -/
theorem Normal.operands {f : Formula α} (hf : f.Normal) (c : Connective) :
    f.operands c ≠ [] ∧ ∀ g ∈ f.operands c, g.Normal ∧ ¬g.Uses c := by
  cases hf with
  | leaf a => simpa [Formula.operands, Uses] using Normal.leaf a
  | @group k children htwo hnormal huses =>
    have hpos : children.length - 1 ≠ 0 := by omega
    simp only [Formula.operands]
    split
    · next hall =>
      obtain rfl : k = c := by simpa [hpos] using hall
      refine ⟨fun h => by simp [h] at htwo, fun g hg => ⟨hnormal g hg, huses g hg⟩⟩
    · next hall =>
      refine ⟨List.cons_ne_nil _ _, fun g hg => ?_⟩
      rw [List.mem_singleton.1 hg]
      refine ⟨.group htwo hnormal huses, fun hc => hall ?_⟩
      obtain rfl := List.eq_of_mem_replicate hc
      simp

/-- A normal formula that does not use `c` is its own operand. -/
theorem Normal.operands_of_not_uses {c : Connective} {f : Formula α} (hf : f.Normal) (hc : ¬f.Uses c) :
    f.operands c = [f] := by
  cases hf with
  | leaf a => rfl
  | @group k children htwo hnormal huses =>
    have hne : k ≠ c := by
      rintro rfl
      exact hc (List.mem_replicate.2 ⟨by omega, rfl⟩)
    have hpos : children.length - 1 ≠ 0 := by omega
    simp [Formula.operands, hne, hpos]

/-- **Joining normal formulas gives a normal formula.** -/
theorem Normal.join {c : Connective} {fs : List (Formula α)} (hne : fs ≠ []) (hn : ∀ f ∈ fs, f.Normal) :
    (join c fs).Normal := by
  have hflat : ∀ g ∈ fs.flatMap (Formula.operands c), g.Normal ∧ ¬g.Uses c := by
    intro g hg
    obtain ⟨f, hf, hg⟩ := List.mem_flatMap.1 hg
    exact ((hn f hf).operands c).2 g hg
  have hpos : 0 < (fs.flatMap (Formula.operands c)).length := by
    obtain ⟨f, fs, rfl⟩ := List.exists_cons_of_ne_nil hne
    have := ((hn f List.mem_cons_self).operands c).1
    exact List.length_pos_iff.2 (by simp [this])
  unfold Formula.join
  split
  · next only heq => exact (hflat only (by simp [heq])).1
  · next hsingle =>
    refine .group ?_ (fun g hg => (hflat g hg).1) fun g hg => (hflat g hg).2
    match h : fs.flatMap (Formula.operands c), hpos with
    | [only], _ => exact absurd h (hsingle only)
    | first :: second :: more, _ => simp

/-- A normal formula joined alone is itself again. -/
theorem join_singleton {f : Formula α} (hf : f.Normal) (c : Connective) : join c [f] = f := by
  cases hf with
  | leaf a => rfl
  | @group k children htwo hnormal huses =>
    have hpos : children.length - 1 ≠ 0 := by omega
    match children, htwo with
    | first :: second :: more, htwo =>
      by_cases hk : k = c <;> simp [join, Formula.operands, hk]

/-! ### Joining in steps -/

/-- Formulas with the same operands are joined to the same. -/
theorem join_congr {c : Connective} {fs gs : List (Formula α)}
    (h : fs.flatMap (operands c) = gs.flatMap (operands c)) : join c fs = join c gs := by
  unfold join
  rw [h]

/-- Joining keeps the operands of normal formulas. If there is only one, it does not use `c` itself, so nothing inside
it becomes an operand. -/
theorem operands_join {c : Connective} {fs : List (Formula α)} (hn : ∀ f ∈ fs, f.Normal) :
    (join c fs).operands c = fs.flatMap (operands c) := by
  unfold join
  split
  · next only heq =>
    obtain ⟨f, hf, honly⟩ := List.mem_flatMap.1 (heq ▸ List.mem_singleton_self only)
    obtain ⟨hnormal, huses⟩ := ((hn f hf).operands c).2 only honly
    rw [heq, hnormal.operands_of_not_uses huses]
  · simp [operands]

/-- **Formulas can be joined in steps.** Let every formula in a list of rows be normal. Each row that is not empty is
joined to a normal formula. To join what the rows are joined to is to join all their formulas at once. A normal formula
joined alone, by either connective, is itself again. -/
theorem join_rows (c : Connective) {rows : List (List (Formula α))} (hn : ∀ row ∈ rows, ∀ f ∈ row, f.Normal) :
    (∀ row ∈ rows, row ≠ [] → (join c row).Normal) ∧ join c (rows.map (join c)) = join c rows.flatten ∧
      ∀ (k : Connective) (f : Formula α), f.Normal → join k [f] = f := by
  refine ⟨fun row hrow hne => .join hne (hn row hrow), join_congr ?_, fun k f hf => join_singleton hf k⟩
  have hrows : rows.map (fun row => (join c row).operands c) = rows.map (List.flatMap (operands c)) :=
    List.map_congr_left fun row hrow => operands_join (hn row hrow)
  calc (rows.map (join c)).flatMap (operands c)
      = (rows.map fun row => (join c row).operands c).flatten := by rw [List.flatMap_map, List.flatMap_def]
    _ = rows.flatMap (List.flatMap (operands c)) := by rw [hrows, List.flatMap_def]
    _ = rows.flatten.flatMap (operands c) := by rw [← List.flatMap_id, List.flatMap_assoc]; rfl

/-- The group under `AND` and the row joined before it are merged, the one under `OR` is not. -/
theorem join_rows_mixed :
    let a : Formula String := .leaf "a"
    let b : Formula String := .leaf "b"
    let either : Formula String := .group [a, b] [.or]
    let both : Formula String := .group [b, either] [.and]
    either.Normal ∧ both.Normal ∧
      join .and [join .and [a, either], join .and [both], join .and [b]] =
        .group [a, either, b, either, b] [.and, .and, .and, .and] := by
  intro a b either both
  have heither : either.Normal := .group (c := .or) (by decide) (by simp [a, b, Normal.leaf]) (by simp [a, b, Uses])
  have hboth : both.Normal :=
    .group (c := .and) (by decide) (by simp [b, Normal.leaf, heither]) (by simp [b, either, Uses])
  have hn : ∀ row ∈ [[a, either], [both], [b]], ∀ f ∈ row, f.Normal := by simp [a, b, Normal.leaf, heither, hboth]
  exact ⟨heither, hboth, (join_rows .and hn).2.1⟩

theorem Normal.ofOperands {row : List (Connective × Formula α)} (hne : row ≠ []) (hn : ∀ p ∈ row, p.2.Normal) :
    (ofOperands row).Normal := by
  refine .join ?_ fun g hg => ?_
  · obtain ⟨⟨c, f⟩, rest, rfl⟩ := List.exists_cons_of_ne_nil hne
    obtain ⟨run, more, hr, -⟩ := rowValue_eq_runs (fun _ => true) c f rest
    simp [hr]
  · obtain ⟨run, hr, rfl⟩ := List.mem_map.1 hg
    refine .join (ne_nil_of_mem_runs hr) fun f hf => ?_
    obtain ⟨c, hc⟩ := mem_runs hr hf
    exact hn (c, f) hc

end TelemetrySearch.Formula
