import LogRisk.Library.Dict
import LogRisk.Library.Intervals

/-!
# Intervals under keys

Finite sets of pairs of a key and a position, written as lists of intervals that
each stand under a key.  The operations work key by key on the lists of
intervals: `canonical` normalizes, `subtract` takes a set difference.
-/

namespace LogRisk.Library

open Intervals

universe u

/-- An interval under a key. -/
structure Keyed (κ : Type u) where
  key : κ
  span : Ival
deriving DecidableEq

namespace Keyed

variable {κ : Type u}

/-! ## Length -/

def total (l : List (Keyed κ)) : ℕ := Intervals.total (l.map Keyed.span)

@[simp] theorem total_nil : total ([] : List (Keyed κ)) = 0 := rfl

@[simp] theorem total_cons (r : Keyed κ) (l : List (Keyed κ)) :
    total (r :: l) = r.span.length + total l := rfl

theorem total_append (l l' : List (Keyed κ)) : total (l ++ l') = total l + total l' := by
  rw [total, List.map_append, Intervals.total_append]
  rfl

/-! ## Denotation -/

def toFinset (r : Keyed κ) : Finset (κ × ℕ) := {r.key} ×ˢ r.span.toFinset

@[simp] theorem mem_toFinset {r : Keyed κ} {x : κ × ℕ} :
    x ∈ r.toFinset ↔ x.1 = r.key ∧ r.span.lo ≤ x.2 ∧ x.2 < r.span.hi := by
  rw [toFinset, Finset.mem_product, Finset.mem_singleton, Ival.mem_toFinset]

theorem card_toFinset (r : Keyed κ) : r.toFinset.card = r.span.length := by
  rw [toFinset, Finset.card_product, Finset.card_singleton, one_mul, Ival.card_toFinset]

variable [DecidableEq κ]

/-- The pairs some interval of the list holds. -/
def points (l : List (Keyed κ)) : Finset (κ × ℕ) := l.foldr (fun r s => r.toFinset ∪ s) ∅

/-- The intervals under one key. -/
def atKey (k : κ) (l : List (Keyed κ)) : List Ival :=
  (l.filter fun r => decide (r.key = k)).map Keyed.span

/-- No pair lies in two intervals of the list. -/
def DisjointList (l : List (Keyed κ)) : Prop :=
  l.Pairwise fun a b => Disjoint a.toFinset b.toFinset

@[simp] theorem points_nil : points ([] : List (Keyed κ)) = ∅ := rfl

@[simp] theorem points_cons (r : Keyed κ) (l : List (Keyed κ)) :
    points (r :: l) = r.toFinset ∪ points l := rfl

theorem mem_points {l : List (Keyed κ)} {x : κ × ℕ} : x ∈ points l ↔ ∃ r ∈ l, x ∈ r.toFinset := by
  induction l with
  | nil => simp
  | cons r l ih => simp [ih]

@[simp] theorem points_append (l l' : List (Keyed κ)) :
    points (l ++ l') = points l ∪ points l' := by
  ext x
  simp only [mem_points, Finset.mem_union, List.mem_append, or_and_right, exists_or]

@[simp] theorem atKey_nil (k : κ) : atKey k ([] : List (Keyed κ)) = [] := rfl

theorem atKey_append (k : κ) (l l' : List (Keyed κ)) : atKey k (l ++ l') = atKey k l ++ atKey k l' := by
  rw [atKey, List.filter_append, List.map_append]
  rfl

theorem atKey_cons_self {r : Keyed κ} {k : κ} (h : r.key = k) (l : List (Keyed κ)) :
    atKey k (r :: l) = r.span :: atKey k l := by
  rw [atKey, List.filter_cons_of_pos (by simpa using h)]
  rfl

theorem atKey_cons_of_ne {r : Keyed κ} {k : κ} (h : r.key ≠ k) (l : List (Keyed κ)) :
    atKey k (r :: l) = atKey k l := by
  rw [atKey, List.filter_cons_of_neg (by simpa using h)]
  rfl

theorem mem_atKey {k : κ} {l : List (Keyed κ)} {i : Ival} : i ∈ atKey k l ↔ ⟨k, i⟩ ∈ l := by
  simp only [atKey, List.mem_map, List.mem_filter, decide_eq_true_eq]
  constructor
  · rintro ⟨r, ⟨hr, rfl⟩, rfl⟩
    exact hr
  · exact fun h => ⟨_, ⟨h, rfl⟩, rfl⟩

/-- A set of pairs, key by key. -/
theorem mem_points_iff_atKey {l : List (Keyed κ)} {k : κ} {x : ℕ} :
    (k, x) ∈ points l ↔ x ∈ Intervals.points (atKey k l) := by
  rw [mem_points, Intervals.mem_points]
  constructor
  · rintro ⟨r, hr, hx⟩
    obtain ⟨rfl, hx⟩ := mem_toFinset.mp hx
    exact ⟨r.span, mem_atKey.mpr hr, hx⟩
  · rintro ⟨i, hi, hx⟩
    exact ⟨⟨k, i⟩, mem_atKey.mp hi, mem_toFinset.mpr ⟨rfl, hx⟩⟩

theorem atKey_map_mk (k k' : κ) (is : List Ival) :
    atKey k (is.map (Keyed.mk k')) = if k' = k then is else [] := by
  induction is with
  | nil => simp
  | cons i is ih =>
      by_cases h : k' = k
      · rw [List.map_cons, atKey_cons_self h, ih, if_pos h, if_pos h]
      · rw [List.map_cons, atKey_cons_of_ne h, ih, if_neg h, if_neg h]

theorem disjoint_points {r : Keyed κ} {l : List (Keyed κ)} :
    Disjoint r.toFinset (points l) ↔ ∀ s ∈ l, Disjoint r.toFinset s.toFinset := by
  induction l with
  | nil => simp
  | cons s l ih => simp [Finset.disjoint_union_right, ih]

theorem card_points {l : List (Keyed κ)} (h : DisjointList l) : (points l).card = total l := by
  induction l with
  | nil => rfl
  | cons r l ih =>
      obtain ⟨hr, hl⟩ := List.pairwise_cons.mp h
      rw [points_cons, Finset.card_union_of_disjoint (disjoint_points.mpr hr), ih hl,
        card_toFinset, total_cons]

theorem DisjointList.append {l l' : List (Keyed κ)} (hl : DisjointList l) (hl' : DisjointList l')
    (h : Disjoint (points l) (points l')) : DisjointList (l ++ l') := by
  refine List.pairwise_append.mpr ⟨hl, hl', fun a ha b hb => ?_⟩
  refine Finset.disjoint_left.mpr fun x hxa hxb => ?_
  exact Finset.disjoint_left.mp h (mem_points.mpr ⟨a, ha, hxa⟩) (mem_points.mpr ⟨b, hb, hxb⟩)

/-! ## Canonical lists -/

/-- Under every key the intervals are sorted, with gaps. -/
def Canonical (l : List (Keyed κ)) : Prop := ∀ k, Intervals.Canonical (atKey k l)

theorem Canonical.disjointList {l : List (Keyed κ)} (h : Canonical l) : DisjointList l := by
  induction l with
  | nil => exact .nil
  | cons r l ih =>
      refine List.pairwise_cons.mpr ⟨fun s hs => Finset.disjoint_left.mpr ?_, ih fun k => ?_⟩
      · intro x hr hs'
        obtain ⟨hxr, hr⟩ := mem_toFinset.mp hr
        obtain ⟨hxs, hs'⟩ := mem_toFinset.mp hs'
        have hsame := h r.key
        rw [atKey_cons_self rfl] at hsame
        have hmem : s.span ∈ atKey r.key l := by
          rw [mem_atKey, ← hxr, hxs]
          exact hs
        have hgap : r.span.hi < s.span.lo := (List.pairwise_cons.mp hsame).1 _ hmem
        omega
      · by_cases hk : r.key = k
        · have hcons := h k
          rw [atKey_cons_self hk] at hcons
          exact (List.pairwise_cons.mp hcons).2
        · have hcons := h k
          rwa [atKey_cons_of_ne hk] at hcons

/-- Group by key, sort the groups, and normalize each. -/
def canonical (le : κ → κ → Prop) [DecidableRel le] (l : List (Keyed κ)) : List (Keyed κ) :=
  ((Dict.groupBy Keyed.key l).entries.insertionSort fun a b => le a.1 b.1).flatMap fun g =>
    (normalize (g.2.map Keyed.span)).map (Keyed.mk g.1)

theorem atKey_flatMap {β : Type u} (f : β → List Ival) (k : κ) {es : List (κ × β)}
    (hes : (es.map Prod.fst).Nodup) :
    atKey k (es.flatMap fun g => (f g.2).map (Keyed.mk g.1)) =
      ((Dict.assoc k es).map f).getD [] := by
  induction es with
  | nil => rfl
  | cons e es ih =>
      obtain ⟨hnot, hrest⟩ := List.nodup_cons.mp hes
      obtain ⟨k', b⟩ := e
      rw [List.flatMap_cons, atKey_append, ih hrest, atKey_map_mk, Dict.assoc]
      by_cases hk : k' = k
      · subst hk
        rw [if_pos rfl, if_pos rfl, Dict.assoc_eq_none.mpr hnot]
        simp
      · rw [if_neg hk, if_neg hk, List.nil_append]

theorem assoc_perm {β : Type u} {es es' : List (κ × β)} (h : es.Perm es')
    (hes : (es.map Prod.fst).Nodup) (k : κ) : Dict.assoc k es = Dict.assoc k es' := by
  have hes' : (es'.map Prod.fst).Nodup := (h.map Prod.fst).nodup_iff.mp hes
  refine Option.ext fun v => ?_
  rw [Dict.assoc_eq_some hes, Dict.assoc_eq_some hes', h.mem_iff]

variable (le : κ → κ → Prop) [DecidableRel le]

theorem atKey_canonical (l : List (Keyed κ)) (k : κ) :
    atKey k (canonical le l) = normalize (atKey k l) := by
  have hperm := List.perm_insertionSort (fun a b : κ × List (Keyed κ) => le a.1 b.1)
    (Dict.groupBy Keyed.key l).entries
  have hnodup := (hperm.map Prod.fst).nodup_iff.mpr (Dict.groupBy Keyed.key l).nodup
  have hgroup := Dict.getD_groupBy Keyed.key l k
  rw [Dict.get?] at hgroup
  rw [canonical, atKey_flatMap (fun g => normalize (g.map Keyed.span)) k hnodup,
    assoc_perm hperm hnodup, atKey, ← hgroup]
  cases Dict.assoc k (Dict.groupBy Keyed.key l).entries with
  | none => rfl
  | some g => rfl

theorem canonical_canonical (l : List (Keyed κ)) : Canonical (canonical le l) := by
  intro k
  rw [atKey_canonical]
  exact canonical_normalize _

theorem points_canonical (l : List (Keyed κ)) : points (canonical le l) = points l := by
  ext ⟨k, x⟩
  rw [mem_points_iff_atKey, mem_points_iff_atKey, atKey_canonical, points_normalize]

/-! ## The order of the keys -/

/-- Under one key with a gap between them, or under different keys in their order. -/
def Precedes (a b : Keyed κ) : Prop :=
  a.key = b.key ∧ Gap a.span b.span ∨ a.key ≠ b.key ∧ le a.key b.key

instance (a b : Keyed κ) : Decidable (Precedes le a b) :=
  inferInstanceAs (Decidable (_ ∧ _ ∨ _ ∧ _))

theorem pairwise_canonical [Std.Total le] [IsTrans κ le] (l : List (Keyed κ)) :
    (canonical le l).Pairwise (Precedes le) := by
  set groups := (Dict.groupBy Keyed.key l).entries with hgroups
  have hperm := List.perm_insertionSort (fun a b : κ × List (Keyed κ) => le a.1 b.1) groups
  have hnodup := (hperm.map Prod.fst).nodup_iff.mpr (Dict.groupBy Keyed.key l).nodup
  rw [List.Nodup, List.pairwise_map] at hnodup
  have htotal : Std.Total fun a b : κ × List (Keyed κ) => le a.1 b.1 :=
    ⟨fun a b => Std.Total.total a.1 b.1⟩
  have htrans : IsTrans (κ × List (Keyed κ)) fun a b => le a.1 b.1 :=
    ⟨fun _ _ _ hab hbc => IsTrans.trans _ _ _ hab hbc⟩
  have hsorted := List.pairwise_insertionSort (fun a b : κ × List (Keyed κ) => le a.1 b.1) groups
  unfold canonical
  rw [List.pairwise_flatMap]
  constructor
  · intro g _
    rw [List.pairwise_map]
    exact (canonical_normalize _).imp fun hgap => .inl ⟨rfl, hgap⟩
  · refine (hsorted.and hnodup).imp fun {g g'} ⟨hle, hne⟩ x hx y hy => ?_
    obtain ⟨_, _, rfl⟩ := List.mem_map.mp hx
    obtain ⟨_, _, rfl⟩ := List.mem_map.mp hy
    exact .inr ⟨hne, hle⟩

variable {le}

omit [DecidableEq κ] [DecidableRel le] in
theorem nodup_of_precedes {l : List (Keyed κ)} (h : l.Pairwise (Precedes le)) : l.Nodup := by
  refine h.imp fun {a b} hab heq => ?_
  subst heq
  rcases hab with ⟨_, hgap⟩ | ⟨hne, _⟩
  · have := a.span.lt
    unfold Gap at hgap
    omega
  · exact hne rfl

omit [DecidableRel le] in
/-- Lists in order are determined by their points, if no two of their keys rank the same. -/
theorem eq_of_points {l l' : List (Keyed κ)} (hl : l.Pairwise (Precedes le))
    (hl' : l'.Pairwise (Precedes le)) (hcanonical : Canonical l) (hcanonical' : Canonical l')
    (hkeys : ∀ a ∈ l, ∀ b ∈ l', le a.key b.key → le b.key a.key → a.key = b.key)
    (hpoints : points l = points l') : l = l' := by
  have hatKey : ∀ k, atKey k l = atKey k l' := by
    intro k
    refine Intervals.Canonical.eq_of_points (hcanonical k) (hcanonical' k) ?_
    ext x
    rw [← mem_points_iff_atKey, ← mem_points_iff_atKey, hpoints]
  have hperm : l.Perm l' := by
    refine (List.perm_ext_iff_of_nodup (nodup_of_precedes hl) (nodup_of_precedes hl')).mpr ?_
    rintro ⟨k, i⟩
    rw [← mem_atKey, ← mem_atKey, hatKey]
  refine hperm.eq_of_pairwise ?_ hl hl'
  intro a b ha hb hab hba
  rcases hab with ⟨hkey, hgap⟩ | ⟨hne, hle⟩
  · rcases hba with ⟨_, hgap'⟩ | ⟨hne, _⟩
    · have := a.span.lt
      have := b.span.lt
      unfold Gap at hgap hgap'
      omega
    · exact absurd hkey.symm hne
  · rcases hba with ⟨hkey, _⟩ | ⟨_, hle'⟩
    · exact absurd hkey.symm hne
    · exact absurd (hkeys a ha b hb hle hle') hne

variable (le)

/-! ## Subtraction -/

/-- Every interval without the positions taken under its key. -/
def subtract (incoming existing : List (Keyed κ)) : List (Keyed κ) :=
  incoming.flatMap fun r =>
    (subtractFrom r.span.lo r.span.hi
      ((((Dict.groupBy Keyed.key existing).get? r.key).getD []).map Keyed.span)).map
        (Keyed.mk r.key)

theorem points_subtract (incoming : List (Keyed κ)) {existing : List (Keyed κ)}
    (h : Canonical existing) : points (subtract incoming existing) =
      points incoming \ points existing := by
  ext ⟨k, x⟩
  rw [Finset.mem_sdiff, mem_points_iff_atKey (l := existing)]
  have hrow : ∀ r : Keyed κ, (k, x) ∈ points ((subtractFrom r.span.lo r.span.hi
      ((((Dict.groupBy Keyed.key existing).get? r.key).getD []).map Keyed.span)).map
        (Keyed.mk r.key)) ↔ (k, x) ∈ r.toFinset ∧ x ∉ Intervals.points (atKey k existing) := by
    intro r
    rw [Dict.getD_groupBy, mem_points_iff_atKey, atKey_map_mk, mem_toFinset]
    by_cases hk : r.key = k
    · subst hk
      rw [if_pos rfl]
      refine (mem_points_subtractFrom (h r.key) _ _ _).trans ?_
      simp
    · rw [if_neg hk]
      simp [Ne.symm hk]
  induction incoming with
  | nil => simp [subtract]
  | cons r incoming ih =>
      rw [subtract, List.flatMap_cons, points_append, Finset.mem_union, hrow, points_cons,
        Finset.mem_union]
      refine (or_congr Iff.rfl ih).trans ?_
      tauto

end Keyed

end LogRisk.Library
