import Mathlib.Data.List.Perm.Basic
import Mathlib.Data.Set.Finite.Basic
import Mathlib.Logic.Relation
import Mathlib.Order.Bounds.Basic
import Mathlib.Order.WellFounded

/-!
# Layers of a graph

A graph lists its nodes, each with the nodes it waits for.  `peel` takes the nodes that wait for
none as a layer, strikes them out of the rest and goes on.  It ends, it gets through the whole
graph just where no node waits for itself, and a node then lies in the layer whose index is the
length of the longest path of waiting that ends in it.
-/

namespace LogRisk.Library.Layering

variable {α : Type}

abbrev Graph (α : Type) := List (α × List α)

def nodes (g : Graph α) : List α := g.map Prod.fst

/-- The first node waits for the second. -/
def Waits (g : Graph α) (a b : α) : Prop := ∃ targets, (a, targets) ∈ g ∧ b ∈ targets

def Acyclic (g : Graph α) : Prop := ∀ a, ¬ Relation.TransGen (Waits g) a a

/-- A path of so many steps, each to a node that waits for the last, ends in the node. -/
inductive Path (g : Graph α) : ℕ → α → Prop
  | start {a : α} (h : a ∈ nodes g) : Path g 0 a
  | step {k : ℕ} {a b : α} (hpath : Path g k b) (hwaits : Waits g a b) : Path g (k + 1) a

/-- No node is listed twice, and a node waits for listed ones only. -/
structure WellFormed (g : Graph α) : Prop where
  nodup : (nodes g).Nodup
  closed : ∀ {a b}, Waits g a b → b ∈ nodes g

def ready (g : Graph α) : List α := (g.filter (·.2.isEmpty)).map Prod.fst

section Peel

variable [DecidableEq α]

/-- What is left without a layer. -/
def without (layer : List α) (g : Graph α) : Graph α :=
  (g.filter (·.1 ∉ layer)).map fun x => (x.1, x.2.filter (· ∉ layer))

inductive Stop where
  | cycle
  | unfinished
deriving DecidableEq

/-- The layers, each as `arrange` puts it in order. -/
def peel (arrange : List α → List α) : ℕ → Graph α → Except Stop (List (List α))
  | _, [] => .ok []
  | 0, _ :: _ => .error .unfinished
  | n + 1, x :: rest =>
      let layer := arrange (ready (x :: rest))
      if layer = [] then .error .cycle
      else (peel arrange n (without layer (x :: rest))).map (layer :: ·)

end Peel

/-! ## One layer -/

section Layer

variable {g : Graph α} {a b : α}

theorem waits_mem (h : Waits g a b) : a ∈ nodes g := by
  obtain ⟨targets, hmem, -⟩ := h
  exact List.mem_map_of_mem hmem

theorem mem_ready : a ∈ ready g ↔ (a, []) ∈ g := by
  unfold ready
  rw [List.mem_map]
  constructor
  · rintro ⟨⟨c, targets⟩, hmem, rfl⟩
    obtain ⟨hmem, hempty⟩ := List.mem_filter.mp hmem
    obtain rfl : targets = [] := List.isEmpty_iff.mp hempty
    exact hmem
  · intro h
    exact ⟨(a, []), List.mem_filter.mpr ⟨h, rfl⟩, rfl⟩

theorem eq_of_mem {targets targets' : List α} (hg : WellFormed g) (h : (a, targets) ∈ g)
    (h' : (a, targets') ∈ g) : targets = targets' :=
  congrArg Prod.snd (List.inj_on_of_nodup_map hg.nodup h h' rfl)

/-- A node is ready where it waits for none. -/
theorem mem_ready_iff (hg : WellFormed g) : a ∈ ready g ↔ a ∈ nodes g ∧ ∀ b, ¬ Waits g a b := by
  rw [mem_ready]
  constructor
  · intro h
    refine ⟨List.mem_map_of_mem h, ?_⟩
    rintro b ⟨targets, hmem, hb⟩
    rw [← eq_of_mem hg h hmem] at hb
    cases hb
  · rintro ⟨hnode, hnone⟩
    obtain ⟨⟨c, targets⟩, hmem, rfl⟩ := List.mem_map.mp hnode
    cases targets with
    | nil => exact hmem
    | cons b targets => exact absurd ⟨_, hmem, List.mem_cons_self⟩ (hnone b)

theorem Path.mem {k : ℕ} (h : Path g k a) : a ∈ nodes g := by
  cases h with
  | start h => exact h
  | step _ hwaits => exact waits_mem hwaits

variable [DecidableEq α] {layer : List α}

theorem mem_nodes_without : a ∈ nodes (without layer g) ↔ a ∈ nodes g ∧ a ∉ layer := by
  unfold nodes without
  rw [List.map_map, List.mem_map, List.mem_map]
  constructor
  · rintro ⟨x, hmem, rfl⟩
    obtain ⟨hmem, hlayer⟩ := List.mem_filter.mp hmem
    exact ⟨⟨x, hmem, rfl⟩, of_decide_eq_true hlayer⟩
  · rintro ⟨⟨x, hmem, rfl⟩, hlayer⟩
    exact ⟨x, List.mem_filter.mpr ⟨hmem, decide_eq_true hlayer⟩, rfl⟩

theorem waits_without : Waits (without layer g) a b ↔ Waits g a b ∧ a ∉ layer ∧ b ∉ layer := by
  unfold Waits without
  constructor
  · rintro ⟨targets, hleft, hb⟩
    obtain ⟨⟨c, targets'⟩, hkept, heq⟩ := List.mem_map.mp hleft
    obtain ⟨rfl, rfl⟩ := Prod.mk.inj heq
    obtain ⟨hmem, hlayer⟩ := List.mem_filter.mp hkept
    obtain ⟨hb, hblayer⟩ := List.mem_filter.mp hb
    exact ⟨⟨targets', hmem, hb⟩, of_decide_eq_true hlayer, of_decide_eq_true hblayer⟩
  · rintro ⟨⟨targets, hmem, hb⟩, hlayer, hblayer⟩
    refine ⟨targets.filter (· ∉ layer), List.mem_map.mpr ⟨(a, targets), ?_, rfl⟩, ?_⟩
    · exact List.mem_filter.mpr ⟨hmem, decide_eq_true hlayer⟩
    · exact List.mem_filter.mpr ⟨hb, decide_eq_true hblayer⟩

theorem nodes_without (layer : List α) (g : Graph α) :
    nodes (without layer g) = (nodes g).filter (· ∉ layer) := by
  unfold nodes without
  rw [List.map_map, List.filter_map]
  rfl

theorem WellFormed.without (hg : WellFormed g) (layer : List α) :
    WellFormed (without layer g) where
  nodup := by
    rw [nodes_without]
    exact hg.nodup.filter _
  closed := by
    intro a b h
    obtain ⟨hwaits, -, hb⟩ := waits_without.mp h
    exact mem_nodes_without.mpr ⟨hg.closed hwaits, hb⟩

/-- Without the nodes that are ready every path is one step shorter. -/
theorem path_without (hg : WellFormed g) (hlayer : ∀ c, c ∈ layer ↔ c ∈ ready g) {k : ℕ} :
    Path (without layer g) k a ↔ Path g (k + 1) a := by
  have hbusy : ∀ {c d}, Waits g c d → c ∉ layer := fun hwaits h =>
    ((mem_ready_iff hg).mp ((hlayer _).mp h)).2 _ hwaits
  constructor
  · intro h
    induction h with
    | start h =>
      obtain ⟨hmem, hnot⟩ := mem_nodes_without.mp h
      rw [hlayer, mem_ready_iff hg] at hnot
      obtain ⟨b, hwaits⟩ := not_forall_not.mp fun hnone => hnot ⟨hmem, hnone⟩
      exact .step (.start (hg.closed hwaits)) hwaits
    | step _ hwaits ih => exact .step ih (waits_without.mp hwaits).1
  · intro h
    induction k generalizing a with
    | zero =>
      cases h with
      | step _ hwaits => exact .start (mem_nodes_without.mpr ⟨waits_mem hwaits, hbusy hwaits⟩)
    | succ k ih =>
      cases h with
      | @step _ _ b hpath hwaits =>
        have hb := ih hpath
        exact .step hb (waits_without.mpr
          ⟨hwaits, hbusy hwaits, (mem_nodes_without.mp hb.mem).2⟩)

theorem acyclic_without (hg : Acyclic g) (layer : List α) : Acyclic (without layer g) :=
  fun c h => hg c (h.lift id fun _ _ hwaits => (waits_without.mp hwaits).1)

theorem length_without_lt (hlayer : ∀ c ∈ layer, c ∈ nodes g) (hne : layer ≠ []) :
    (without layer g).length < g.length := by
  obtain ⟨c, hc⟩ := List.exists_mem_of_ne_nil layer hne
  have hlength : (without layer g).length = ((nodes g).filter (· ∉ layer)).length := by
    rw [← nodes_without]
    exact (List.length_map ..).symm
  have hall : (nodes g).length = g.length := List.length_map ..
  have hlt : ((nodes g).filter (· ∉ layer)).length < (nodes g).length := by
    refine List.length_filter_lt_length_iff_exists.mpr ⟨c, hlayer c hc, ?_⟩
    simpa using hc
  omega

end Layer

/-! ## All layers -/

section Layers

variable {g : Graph α} {a : α}

/-- In a graph without cycles some node is ready. -/
theorem exists_ready (hg : WellFormed g) (hacyclic : Acyclic g) (hne : g ≠ []) :
    ready g ≠ [] := by
  intro hnone
  have hbusy : ∀ c ∈ nodes g, ∃ d ∈ nodes g, Waits g c d := by
    intro c hc
    have hnot : c ∉ ready g := by
      rw [hnone]
      exact List.not_mem_nil
    rw [mem_ready_iff hg] at hnot
    obtain ⟨d, hwaits⟩ := not_forall_not.mp fun hall => hnot ⟨hc, hall⟩
    exact ⟨d, hg.closed hwaits, hwaits⟩
  let r : { c // c ∈ nodes g } → { c // c ∈ nodes g } → Prop :=
    fun c d => Relation.TransGen (Waits g) d.1 c.1
  have hfinite : Finite { c // c ∈ nodes g } := (nodes g).finite_toSet
  have htrans : IsTrans _ r := ⟨fun _ _ _ h h' => h'.trans h⟩
  have hirrefl : Std.Irrefl r := ⟨fun c => hacyclic c.1⟩
  have hwf : WellFounded r := Finite.wellFounded_of_trans_of_irrefl r
  obtain ⟨x, hx⟩ := List.exists_mem_of_ne_nil g hne
  obtain ⟨c, -, hmin⟩ := hwf.has_min Set.univ ⟨⟨x.1, List.mem_map_of_mem hx⟩, trivial⟩
  obtain ⟨d, hd, hwaits⟩ := hbusy c.1 c.2
  exact hmin ⟨d, hd⟩ trivial (.single hwaits)

theorem path_of_transGen {b : α} (h : Relation.TransGen (Waits g) a b) {k : ℕ}
    (hpath : Path g k b) : ∃ m, k < m ∧ Path g m a := by
  induction h using Relation.TransGen.head_induction_on with
  | single hwaits => exact ⟨k + 1, k.lt_succ_self, .step hpath hwaits⟩
  | head hwaits _ ih =>
    obtain ⟨m, hlt, hm⟩ := ih
    exact ⟨m + 1, Nat.lt_succ_of_lt hlt, .step hm hwaits⟩

/-- Where paths have a longest one no node waits for itself. -/
theorem acyclic_of_bounded (h : ∀ a ∈ nodes g, ∃ i, IsGreatest { k | Path g k a } i) :
    Acyclic g := by
  intro c hcycle
  obtain ⟨d, hwaits, -⟩ := Relation.TransGen.head'_iff.mp hcycle
  obtain ⟨i, hi, hmax⟩ := h c (waits_mem hwaits)
  obtain ⟨m, hlt, hm⟩ := path_of_transGen hcycle hi
  exact Nat.not_le_of_lt hlt (hmax hm)

/-- What the layers of a graph are. -/
structure Layered (g : Graph α) (layers : List (List α)) : Prop where
  perm : layers.flatten.Perm (nodes g)
  nonempty : ∀ layer ∈ layers, layer ≠ []
  longest : ∀ i layer, layers[i]? = some layer → ∀ a ∈ layer, IsGreatest { k | Path g k a } i
  behind : ∀ {before a after}, layers.flatten = before ++ a :: after →
    ∀ b, Waits g a b → b ∈ before

theorem Layered.nil : Layered ([] : Graph α) [] where
  perm := .nil
  nonempty := fun _ h => absurd h List.not_mem_nil
  longest := by
    intro i layer h
    simp at h
  behind := by
    intro before a after h
    simp at h

/-- A layer's index tells its nodes. -/
theorem Layered.mem_iff {layers : List (List α)} (h : Layered g layers) (i : ℕ) :
    (∃ layer, layers[i]? = some layer ∧ a ∈ layer) ↔ IsGreatest { k | Path g k a } i := by
  constructor
  · rintro ⟨layer, hlayer, hmem⟩
    exact h.longest i layer hlayer a hmem
  · intro hi
    obtain ⟨layer, hlayer, hmem⟩ := List.mem_flatten.mp (h.perm.mem_iff.mpr hi.1.mem)
    obtain ⟨j, hj⟩ := List.mem_iff_getElem?.mp hlayer
    obtain rfl := (h.longest j layer hj a hmem).unique hi
    exact ⟨layer, hj, hmem⟩

variable [DecidableEq α] {arrange : List α → List α} {n : ℕ}

theorem peel_cons (n : ℕ) (x : α × List α) (rest : Graph α) :
    peel arrange (n + 1) (x :: rest) =
      if arrange (ready (x :: rest)) = [] then .error .cycle
      else (peel arrange n (without (arrange (ready (x :: rest))) (x :: rest))).map
        (arrange (ready (x :: rest)) :: ·) := rfl

/-- A layer of ready nodes before the layers of the rest. -/
theorem Layered.cons {layer : List α} {layers : List (List α)} (hg : WellFormed g)
    (hlayer : layer.Perm (ready g)) (hne : layer ≠ [])
    (h : Layered (without layer g) layers) : Layered g (layer :: layers) where
  perm := by
    have hready : (nodes g).filter (· ∈ layer) = ready g := by
      unfold nodes ready
      rw [List.filter_map]
      refine congrArg (List.map Prod.fst) (List.filter_congr ?_)
      intro x hx
      rw [Function.comp_apply, Bool.eq_iff_iff, decide_eq_true_eq, hlayer.mem_iff, mem_ready]
      constructor
      · intro hmem
        rw [eq_of_mem hg hx hmem]
        rfl
      · intro hempty
        rw [← List.isEmpty_iff.mp hempty]
        exact hx
    rw [List.flatten_cons]
    have hrest := h.perm
    rw [nodes_without] at hrest
    have hnot : ((nodes g).filter fun c => decide (c ∉ layer)) =
        (nodes g).filter fun c => !decide (c ∈ layer) :=
      List.filter_congr fun c _ => decide_not
    calc layer ++ layers.flatten
        _ |>.Perm ((nodes g).filter (· ∈ layer) ++ (nodes g).filter (· ∉ layer)) := by
          rw [hready]
          exact hlayer.append hrest
        _ |>.Perm (nodes g) := by
          rw [hnot]
          exact List.filter_append_perm _ _
  nonempty := by
    intro l hl
    rcases List.mem_cons.mp hl with rfl | hl
    · exact hne
    · exact h.nonempty l hl
  longest := by
    have hmem : ∀ c, c ∈ layer ↔ c ∈ ready g := fun c => hlayer.mem_iff
    intro i l hl c hc
    cases i with
    | zero =>
      obtain rfl : layer = l := by simpa using hl
      obtain ⟨hnode, hnone⟩ := (mem_ready_iff hg).mp ((hmem c).mp hc)
      refine ⟨.start hnode, ?_⟩
      intro k hk
      cases hk with
      | start => exact Nat.le_refl 0
      | step _ hwaits => exact absurd hwaits (hnone _)
    | succ i =>
      have hl : layers[i]? = some l := by simpa using hl
      obtain ⟨hpath, hmax⟩ := h.longest i l hl c hc
      refine ⟨(path_without hg hmem).mp hpath, ?_⟩
      intro k hk
      cases k with
      | zero => exact Nat.zero_le _
      | succ k => exact Nat.succ_le_succ (hmax ((path_without hg hmem).mpr hk))
  behind := by
    intro before c after hsplit b hwaits
    have hbusy : c ∉ layer := fun hc =>
      ((mem_ready_iff hg).mp (hlayer.mem_iff.mp hc)).2 b hwaits
    rw [List.flatten_cons, List.append_eq_append_iff] at hsplit
    rcases hsplit with ⟨middle, rfl, hrest⟩ | ⟨middle, rfl, hrest⟩
    · by_cases hb : b ∈ layer
      · exact List.mem_append_left _ hb
      · exact List.mem_append_right _
          (h.behind hrest b (waits_without.mpr ⟨hwaits, hbusy, hb⟩))
    · cases middle with
      | nil =>
        rw [List.append_nil] at hbusy h
        by_cases hb : b ∈ before
        · exact hb
        · have hfirst : layers.flatten = [] ++ c :: after := hrest.symm
          have hnone := h.behind hfirst b (waits_without.mpr ⟨hwaits, hbusy, hb⟩)
          cases hnone
      | cons d middle =>
        obtain ⟨rfl, -⟩ := List.cons.inj hrest
        exact absurd (List.mem_append_right _ List.mem_cons_self) hbusy

variable (harrange : ∀ l, (arrange l).Perm l)

include harrange

/-- As much fuel as there are nodes is enough. -/
theorem peel_finishes (hfuel : g.length ≤ n) : peel arrange n g ≠ .error .unfinished := by
  induction n generalizing g with
  | zero =>
    obtain rfl := List.length_eq_zero_iff.mp (Nat.le_zero.mp hfuel)
    simp [peel]
  | succ n ih =>
    cases g with
    | nil => simp [peel]
    | cons x rest =>
      rw [peel_cons]
      split
      · simp
      · rename_i hne
        have hmem : ∀ c ∈ arrange (ready (x :: rest)), c ∈ nodes (x :: rest) := by
          intro c hc
          have hready := mem_ready.mp ((harrange _).mem_iff.mp hc)
          exact List.mem_map_of_mem hready
        have hlt := length_without_lt hmem hne
        have hrest := ih (g := without (arrange (ready (x :: rest))) (x :: rest)) (by omega)
        intro h
        cases hpeel : peel arrange n (without (arrange (ready (x :: rest))) (x :: rest)) with
        | ok layers =>
          rw [hpeel] at h
          cases h
        | error e =>
          rw [hpeel] at h hrest
          exact hrest h

/-- The layers that come out are those of the graph. -/
theorem layered_of_peel {layers : List (List α)} (hg : WellFormed g)
    (h : peel arrange n g = .ok layers) : Layered g layers := by
  induction n generalizing g layers with
  | zero =>
    cases g with
    | nil =>
      obtain rfl := Except.ok.inj h
      exact .nil
    | cons x rest => cases h
  | succ n ih =>
    cases g with
    | nil =>
      obtain rfl := Except.ok.inj h
      exact .nil
    | cons x rest =>
      rw [peel_cons] at h
      split at h
      · cases h
      · rename_i hne
        cases hpeel : peel arrange n (without (arrange (ready (x :: rest))) (x :: rest)) with
        | error e =>
          rw [hpeel] at h
          cases h
        | ok layers' =>
          rw [hpeel] at h
          obtain rfl := Except.ok.inj h
          exact .cons hg (harrange _) hne (ih (hg.without _) hpeel)

/-- Where no layer is left to take, some node waits for itself. -/
theorem not_acyclic_of_peel (hg : WellFormed g) (h : peel arrange n g = .error .cycle) :
    ¬ Acyclic g := by
  induction n generalizing g with
  | zero =>
    cases g with
    | nil => cases h
    | cons x rest => cases h
  | succ n ih =>
    cases g with
    | nil => cases h
    | cons x rest =>
      intro hacyclic
      rw [peel_cons] at h
      split at h
      · rename_i hempty
        have hready : ready (x :: rest) = [] := by
          have hperm := harrange (ready (x :: rest))
          rw [hempty] at hperm
          exact List.nil_perm.mp hperm
        exact exists_ready hg hacyclic (List.cons_ne_nil x rest) hready
      · cases hpeel : peel arrange n (without (arrange (ready (x :: rest))) (x :: rest)) with
        | ok layers =>
          rw [hpeel] at h
          cases h
        | error e =>
          rw [hpeel] at h
          obtain rfl := Except.error.inj h
          exact ih (hg.without _) hpeel (acyclic_without hacyclic _)

/-- With enough fuel a graph has its layers taken just where it has no cycle. -/
theorem peel_ok_iff (hg : WellFormed g) (hfuel : g.length ≤ n) :
    (∃ layers, peel arrange n g = .ok layers) ↔ Acyclic g := by
  constructor
  · rintro ⟨layers, h⟩
    have hlayered := layered_of_peel harrange hg h
    refine acyclic_of_bounded fun a ha => ?_
    obtain ⟨layer, hlayer, hmem⟩ := List.mem_flatten.mp (hlayered.perm.mem_iff.mpr ha)
    obtain ⟨i, hi⟩ := List.mem_iff_getElem?.mp hlayer
    exact ⟨i, hlayered.longest i layer hi a hmem⟩
  · intro hacyclic
    cases hpeel : peel arrange n g with
    | ok layers => exact ⟨layers, rfl⟩
    | error e =>
      cases e with
      | cycle => exact absurd hacyclic (not_acyclic_of_peel harrange hg hpeel)
      | unfinished => exact absurd hpeel (peel_finishes harrange hfuel)

end Layers

end LogRisk.Library.Layering
