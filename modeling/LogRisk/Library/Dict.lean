import Mathlib.Algebra.GroupWithZero.Nat
import Mathlib.Data.List.Basic
import Mathlib.Data.List.Nodup
import Mathlib.Data.List.Perm.Basic

/-!
# Insertion-ordered dictionaries and grouping folds

A dictionary is a list of entries with distinct keys.  Updating a key that is
present keeps its place; a new key goes to the end.  `groupFold` feeds a list of
items into one dictionary, every item updating the entry of its own key; what a
key ends up with depends only on the items that have this key.
-/

namespace LogRisk.Library

universe u v w

/-- Entries in insertion order, no key twice. -/
structure Dict (κ : Type u) (β : Type v) where
  entries : List (κ × β)
  nodup : (entries.map Prod.fst).Nodup

namespace Dict

variable {κ : Type u} {β : Type v} {α : Type w}

def keys (d : Dict κ β) : List κ := d.entries.map Prod.fst

def values (d : Dict κ β) : List β := d.entries.map Prod.snd

def empty : Dict κ β := ⟨[], List.nodup_nil⟩

instance : EmptyCollection (Dict κ β) := ⟨empty⟩

instance : Inhabited (Dict κ β) := ⟨empty⟩

@[ext] theorem ext_entries {d e : Dict κ β} (h : d.entries = e.entries) : d = e := by
  cases d
  cases e
  cases h
  rfl

instance [DecidableEq κ] [DecidableEq β] : DecidableEq (Dict κ β) := fun d e =>
  decidable_of_iff (d.entries = e.entries) ⟨ext_entries, fun h => h ▸ rfl⟩

@[simp] theorem entries_empty : (∅ : Dict κ β).entries = [] := rfl

@[simp] theorem keys_empty : (∅ : Dict κ β).keys = [] := rfl

section Lookup

variable [DecidableEq κ]

/-! ## Lookup -/

def assoc (k : κ) : List (κ × β) → Option β
  | [] => none
  | (k', v) :: rest => if k' = k then some v else assoc k rest

def get? (d : Dict κ β) (k : κ) : Option β := assoc k d.entries

@[simp] theorem get?_empty (k : κ) : (∅ : Dict κ β).get? k = none := rfl

theorem assoc_eq_none {k : κ} {l : List (κ × β)} : assoc k l = none ↔ k ∉ l.map Prod.fst := by
  induction l with
  | nil => simp [assoc]
  | cons p l ih =>
      obtain ⟨k', v⟩ := p
      by_cases hk : k' = k
      · simp [assoc, hk]
      · simp [assoc, hk, ih, Ne.symm hk]

theorem get?_eq_none {d : Dict κ β} {k : κ} : d.get? k = none ↔ k ∉ d.keys := assoc_eq_none

theorem isSome_get? {d : Dict κ β} {k : κ} : (d.get? k).isSome ↔ k ∈ d.keys := by
  rw [← not_iff_not, Bool.not_eq_true, Option.isSome_eq_false_iff, Option.isNone_iff_eq_none,
    get?_eq_none]

theorem assoc_eq_some {k : κ} {v : β} {l : List (κ × β)} (hl : (l.map Prod.fst).Nodup) :
    assoc k l = some v ↔ (k, v) ∈ l := by
  induction l with
  | nil => simp [assoc]
  | cons p l ih =>
      obtain ⟨k', v'⟩ := p
      rw [List.map_cons, List.nodup_cons] at hl
      by_cases hk : k' = k
      · subst hk
        have hnot : ∀ x, (k', x) ∉ l := fun x hx =>
          hl.1 (List.mem_map.mpr ⟨(k', x), hx, rfl⟩)
        simp [assoc, hnot, eq_comm]
      · simp [assoc, hk, ih hl.2, Ne.symm hk]

theorem get?_eq_some {d : Dict κ β} {k : κ} {v : β} : d.get? k = some v ↔ (k, v) ∈ d.entries :=
  assoc_eq_some d.nodup

theorem mem_keys_of_get? {d : Dict κ β} {k : κ} {v : β} (h : d.get? k = some v) : k ∈ d.keys :=
  List.mem_map.mpr ⟨(k, v), get?_eq_some.mp h, rfl⟩

theorem mem_values {d : Dict κ β} {v : β} : v ∈ d.values ↔ ∃ k, d.get? k = some v := by
  simp [values, get?_eq_some]

theorem mem_keys {d : Dict κ β} {k : κ} : k ∈ d.keys ↔ ∃ v, d.get? k = some v := by
  rw [← isSome_get?, Option.isSome_iff_exists]

/-! ## Update -/

/-- Put `f` of the old value under `k`: in place when the key is present, at the
end otherwise. -/
def alterEntries (k : κ) (f : Option β → β) : List (κ × β) → List (κ × β)
  | [] => [(k, f none)]
  | (k', v) :: rest => if k' = k then (k', f (some v)) :: rest else (k', v) :: alterEntries k f rest

theorem keys_alterEntries (k : κ) (f : Option β → β) (l : List (κ × β)) :
    (alterEntries k f l).map Prod.fst =
      if k ∈ l.map Prod.fst then l.map Prod.fst else l.map Prod.fst ++ [k] := by
  induction l with
  | nil => simp [alterEntries]
  | cons p l ih =>
      obtain ⟨k', v⟩ := p
      rw [alterEntries]
      by_cases hk : k' = k
      · simp [hk]
      · rw [if_neg hk, List.map_cons, ih]
        by_cases hmem : k ∈ l.map Prod.fst
        · rw [if_pos hmem, if_pos (by simpa using Or.inr (by simpa using hmem)), List.map_cons]
        · rw [if_neg hmem, if_neg (by simpa [Ne.symm hk] using hmem), List.map_cons,
            List.cons_append]

theorem nodup_alterEntries {k : κ} {f : Option β → β} {l : List (κ × β)}
    (hl : (l.map Prod.fst).Nodup) : ((alterEntries k f l).map Prod.fst).Nodup := by
  rw [keys_alterEntries]
  split
  · exact hl
  · rename_i hk
    exact List.Nodup.append hl (List.nodup_singleton k) (by simpa using hk)

def alter (d : Dict κ β) (k : κ) (f : Option β → β) : Dict κ β :=
  ⟨alterEntries k f d.entries, nodup_alterEntries d.nodup⟩

/-- `d[k] = v`. -/
def set (d : Dict κ β) (k : κ) (v : β) : Dict κ β := d.alter k fun _ => v

theorem keys_alter (d : Dict κ β) (k : κ) (f : Option β → β) :
    (d.alter k f).keys = if k ∈ d.keys then d.keys else d.keys ++ [k] :=
  keys_alterEntries k f d.entries

theorem mem_keys_alter {d : Dict κ β} {k k' : κ} {f : Option β → β} :
    k' ∈ (d.alter k f).keys ↔ k' ∈ d.keys ∨ k' = k := by
  rw [keys_alter]
  split
  · rename_i hk
    constructor
    · exact Or.inl
    · rintro (h | rfl)
      · exact h
      · exact hk
  · simp

theorem assoc_alterEntries (k k' : κ) (f : Option β → β) (l : List (κ × β)) :
    assoc k' (alterEntries k f l) = if k = k' then some (f (assoc k l)) else assoc k' l := by
  induction l with
  | nil => simp [alterEntries, assoc]
  | cons p l ih =>
      obtain ⟨j, v⟩ := p
      by_cases hj : j = k
      · subst hj
        by_cases hk : j = k' <;> simp [alterEntries, assoc, hk]
      · by_cases hk : k = k'
        · subst hk
          simp [alterEntries, assoc, hj, ih]
        · simp [alterEntries, assoc, hj, ih, hk]

theorem get?_alter (d : Dict κ β) (k k' : κ) (f : Option β → β) :
    (d.alter k f).get? k' = if k = k' then some (f (d.get? k)) else d.get? k' :=
  assoc_alterEntries k k' f d.entries

@[simp] theorem get?_alter_self (d : Dict κ β) (k : κ) (f : Option β → β) :
    (d.alter k f).get? k = some (f (d.get? k)) := by
  rw [get?_alter, if_pos rfl]

theorem get?_alter_of_ne {d : Dict κ β} {k k' : κ} {f : Option β → β} (h : k ≠ k') :
    (d.alter k f).get? k' = d.get? k' := by
  rw [get?_alter, if_neg h]

theorem get?_set (d : Dict κ β) (k k' : κ) (v : β) :
    (d.set k v).get? k' = if k = k' then some v else d.get? k' :=
  get?_alter d k k' _

@[simp] theorem get?_set_self (d : Dict κ β) (k : κ) (v : β) : (d.set k v).get? k = some v :=
  get?_alter_self d k _

theorem get?_set_of_ne {d : Dict κ β} {k k' : κ} {v : β} (h : k ≠ k') :
    (d.set k v).get? k' = d.get? k' :=
  get?_alter_of_ne h

/-- Every value is replaced in its place. -/
def mapEntries (f : κ → β → β) (d : Dict κ β) : Dict κ β :=
  ⟨d.entries.map fun e => (e.1, f e.1 e.2), by
    rw [List.map_map]
    exact d.nodup⟩

@[simp] theorem get?_mapEntries (f : κ → β → β) (d : Dict κ β) (k : κ) :
    (d.mapEntries f).get? k = (d.get? k).map (f k) := by
  have hassoc : ∀ l : List (κ × β),
      assoc k (l.map fun e => (e.1, f e.1 e.2)) = (assoc k l).map (f k) := by
    intro l
    induction l with
    | nil => rfl
    | cons e l ih =>
        rw [List.map_cons]
        unfold assoc
        split
        · rename_i heq
          rw [heq]
          rfl
        · exact ih
  exact hassoc d.entries

/-- An update writes what it makes of the old value. -/
theorem alter_eq_set (d : Dict κ β) (k : κ) (f : Option β → β) :
    d.alter k f = d.set k (f (d.get? k)) := by
  have halter : ∀ l : List (κ × β),
      alterEntries k f l = alterEntries k (fun _ => f (assoc k l)) l := by
    intro l
    induction l with
    | nil => rfl
    | cons entry l ih =>
        unfold alterEntries assoc
        by_cases hk : entry.1 = k
        · simp only [if_pos hk]
        · simp only [if_neg hk, ← ih]
  ext1
  exact halter d.entries

/-- Writing a key that is present replaces its entry in place. -/
theorem entries_set_of_mem {d : Dict κ β} {k : κ} (hk : k ∈ d.keys) (v : β) :
    (d.set k v).entries = d.entries.map fun e => if e.1 = k then (k, v) else e := by
  have hreplace : ∀ {l : List (κ × β)}, (l.map Prod.fst).Nodup → k ∈ l.map Prod.fst →
      alterEntries k (fun _ => v) l = l.map fun e => if e.1 = k then (k, v) else e := by
    intro l hl hk
    induction l with
    | nil => cases hk
    | cons e l ih =>
        obtain ⟨k', v'⟩ := e
        obtain ⟨hnot, hl⟩ := List.nodup_cons.mp hl
        rw [alterEntries, List.map_cons]
        by_cases heq : k' = k
        · subst heq
          have hrest : (l.map fun e => if e.1 = k' then (k', v) else e) = l := by
            refine (List.map_congr_left fun e he => if_neg ?_).trans (List.map_id l)
            rintro rfl
            exact hnot (List.mem_map.mpr ⟨e, he, rfl⟩)
          rw [if_pos rfl, if_pos rfl, hrest]
        · rw [if_neg heq, if_neg heq, ih hl ((List.mem_cons.mp hk).resolve_left (Ne.symm heq))]
  exact hreplace d.nodup hk

/-- Writing a new key puts it at the end. -/
theorem entries_set_of_notMem {d : Dict κ β} {k : κ} (hk : k ∉ d.keys) (v : β) :
    (d.set k v).entries = d.entries ++ [(k, v)] := by
  have hend : ∀ {l : List (κ × β)}, k ∉ l.map Prod.fst →
      alterEntries k (fun _ => v) l = l ++ [(k, v)] := by
    intro l hk
    induction l with
    | nil => rfl
    | cons e l ih =>
        obtain ⟨k', v'⟩ := e
        have hne : k' ≠ k := fun h => hk (h ▸ List.mem_cons_self ..)
        rw [alterEntries, if_neg hne, ih fun h => hk (List.mem_cons_of_mem _ h), List.cons_append]
  exact hend hk

/-- Writing what is there changes nothing. -/
theorem set_self {d : Dict κ β} {k : κ} {v : β} (h : d.get? k = some v) : d.set k v = d := by
  refine ext_entries ?_
  rw [entries_set_of_mem (mem_keys_of_get? h)]
  refine (List.map_congr_left fun e he => ?_).trans (List.map_id d.entries)
  split
  · rename_i hk
    have hv : d.get? k = some e.2 := get?_eq_some.mpr (hk ▸ he)
    rw [← hk, Option.some.inj (h.symm.trans hv)]
    rfl
  · rfl

/-- The later of two writes to one key is the one that counts. -/
theorem set_set (d : Dict κ β) (k : κ) (v w : β) : (d.set k v).set k w = d.set k w := by
  have halter : ∀ l : List (κ × β), alterEntries k (fun _ => w) (alterEntries k (fun _ => v) l) =
      alterEntries k (fun _ => w) l := by
    intro l
    induction l with
    | nil => simp [alterEntries]
    | cons e l ih =>
        obtain ⟨k', v'⟩ := e
        by_cases hk : k' = k <;> simp [alterEntries, hk, ih]
  exact ext_entries (halter d.entries)

/-- The entries are the keys with their values. -/
theorem entries_eq_filterMap (d : Dict κ β) :
    d.entries = d.keys.filterMap fun k => (d.get? k).map fun v => (k, v) := by
  have hentries : ∀ e ∈ d.entries, ((d.get? e.1).map fun v => (e.1, v)) = some e := by
    intro e he
    rw [get?_eq_some.mpr he]
    rfl
  rw [keys, List.filterMap_map]
  exact (List.filterMap_some.symm.trans (List.filterMap_congr fun e he => (hentries e he).symm))

/-- Dictionaries with the same keys in the same order and the same values. -/
theorem ext_get? {d e : Dict κ β} (hkeys : d.keys = e.keys) (hget : ∀ k, d.get? k = e.get? k) :
    d = e := by
  refine ext_entries ?_
  rw [entries_eq_filterMap, entries_eq_filterMap, hkeys]
  simp only [hget]

theorem filter_entries_key (d : Dict κ β) (k : κ) :
    d.entries.filter (fun e => decide (e.1 = k)) = ((d.get? k).map fun v => (k, v)).toList := by
  have hfilter : ∀ {l : List (κ × β)}, (l.map Prod.fst).Nodup →
      l.filter (fun e => decide (e.1 = k)) = ((assoc k l).map fun v => (k, v)).toList := by
    intro l hl
    induction l with
    | nil => rfl
    | cons e l ih =>
        obtain ⟨k', v⟩ := e
        obtain ⟨hnot, hl⟩ := List.nodup_cons.mp hl
        rw [assoc]
        by_cases hk : k' = k
        · subst hk
          have hrest : l.filter (fun e => decide (e.1 = k')) = [] := by
            rw [ih hl, assoc_eq_none.mpr hnot]
            rfl
          rw [if_pos rfl, List.filter_cons_of_pos (by simp), hrest]
          rfl
        · rw [if_neg hk, List.filter_cons_of_neg (by simpa using hk), ih hl]
  exact hfilter d.nodup

/-- What only the value of one key satisfies selects that value. -/
theorem filter_values_key {d : Dict κ β} {k : κ} {p : β → Bool}
    (h : ∀ k' v, d.get? k' = some v → (p v = true ↔ k' = k)) :
    d.values.filter p = (d.get? k).toList := by
  have hentries : d.entries.filter (p ∘ Prod.snd) = d.entries.filter fun e => decide (e.1 = k) := by
    refine List.filter_congr fun e he => ?_
    rw [Bool.eq_iff_iff, decide_eq_true_iff]
    exact h e.1 e.2 (get?_eq_some.mpr he)
  rw [values, List.filter_map, hentries, filter_entries_key]
  cases d.get? k <;> rfl

/-- A write that neither removes nor brings such a value leaves the selection. -/
theorem filter_values_set {d : Dict κ β} {k : κ} {v : β} {p : β → Bool}
    (hold : ∀ old, d.get? k = some old → p old = false) (hv : p v = false) :
    (d.set k v).values.filter p = d.values.filter p := by
  by_cases hk : k ∈ d.keys
  · rw [values, values, entries_set_of_mem hk, List.map_map, List.filter_map, List.filter_map]
    have hsame : ∀ e ∈ d.entries, (p ∘ Prod.snd ∘ fun e => if e.1 = k then (k, v) else e) e =
        (p ∘ Prod.snd) e := by
      intro e he
      simp only [Function.comp_apply]
      split
      · rename_i heq
        rw [hv, hold e.2 (get?_eq_some.mpr (heq ▸ he))]
      · rfl
    rw [List.filter_congr hsame]
    refine List.map_congr_left fun e he => ?_
    simp only [Function.comp_apply]
    split
    · rename_i heq
      obtain ⟨hmem, hp⟩ := List.mem_filter.mp he
      rw [Function.comp_apply, hold e.2 (get?_eq_some.mpr (heq ▸ hmem))] at hp
      cases hp
    · rfl
  · rw [values, values, entries_set_of_notMem hk, List.map_append, List.filter_append]
    simp [hv]

/-! ## Totals -/

/-- The sum of a quantity over the values. -/
def total (d : Dict κ β) (f : β → ℕ) : ℕ := (d.values.map f).sum

theorem total_set_of_notMem {d : Dict κ β} {k : κ} (hk : k ∉ d.keys) (v : β) (f : β → ℕ) :
    (d.set k v).total f = d.total f + f v := by
  rw [total, values, entries_set_of_notMem hk]
  simp [total, values]

theorem total_set_of_get? {d : Dict κ β} {k : κ} {old : β} (hold : d.get? k = some old) (v : β)
    (f : β → ℕ) : (d.set k v).total f + f old = d.total f + f v := by
  have hsum : ∀ {l : List (κ × β)}, (l.map Prod.fst).Nodup → (k, old) ∈ l →
      ((l.map fun e => if e.1 = k then (k, v) else e).map fun e => f e.2).sum + f old =
        (l.map fun e => f e.2).sum + f v := by
    intro l hl hmem
    induction l with
    | nil => cases hmem
    | cons e l ih =>
        obtain ⟨hnot, hl⟩ := List.nodup_cons.mp hl
        rw [List.map_cons, List.map_cons, List.map_cons, List.sum_cons, List.sum_cons]
        by_cases hek : e.1 = k
        · have he : e = (k, old) := by
            rcases List.mem_cons.mp hmem with heq | htail
            · exact heq.symm
            · exact absurd (List.mem_map.mpr ⟨(k, old), htail, hek.symm⟩) hnot
          have hrest : (l.map fun e => if e.1 = k then (k, v) else e) = l := by
            refine (List.map_congr_left fun x hx => if_neg ?_).trans (List.map_id l)
            rintro rfl
            exact hnot (List.mem_map.mpr ⟨x, hx, hek.symm⟩)
          rw [if_pos hek, hrest, he]
          change f v + _ + f old = f old + _ + f v
          omega
        · have htail : (k, old) ∈ l := by
            rcases List.mem_cons.mp hmem with heq | htail
            · exact absurd (congrArg Prod.fst heq).symm hek
            · exact htail
          rw [if_neg hek]
          have hrec := ih hl htail
          omega
  have hentries := hsum d.nodup (get?_eq_some.mp hold)
  simpa only [total, values, entries_set_of_mem (mem_keys_of_get? hold), List.map_map,
    Function.comp_def] using hentries

/-! ## Grouping folds -/

/-- Feed the items into the dictionary, each one updating the entry of its key. -/
def groupFold (key : α → κ) (step : Option β → α → β) (d : Dict κ β) (xs : List α) : Dict κ β :=
  xs.foldl (fun d x => d.alter (key x) fun o => step o x) d

@[simp] theorem groupFold_nil (key : α → κ) (step : Option β → α → β) (d : Dict κ β) :
    groupFold key step d [] = d := rfl

@[simp] theorem groupFold_cons (key : α → κ) (step : Option β → α → β) (d : Dict κ β) (x : α)
    (xs : List α) :
    groupFold key step d (x :: xs) =
      groupFold key step (d.alter (key x) fun o => step o x) xs := rfl

theorem groupFold_append (key : α → κ) (step : Option β → α → β) (d : Dict κ β) (xs ys : List α) :
    groupFold key step d (xs ++ ys) = groupFold key step (groupFold key step d xs) ys :=
  List.foldl_append

/-- What a fold started from an optional value makes of a list. -/
def foldSome (step : Option β → α → β) (o : Option β) (xs : List α) : Option β :=
  xs.foldl (fun o x => some (step o x)) o

@[simp] theorem foldSome_nil (step : Option β → α → β) (o : Option β) : foldSome step o [] = o := rfl

@[simp] theorem foldSome_cons (step : Option β → α → β) (o : Option β) (x : α) (xs : List α) :
    foldSome step o (x :: xs) = foldSome step (some (step o x)) xs := rfl

/-- The entry of a key is the fold of the items that have the key. -/
theorem get?_groupFold (key : α → κ) (step : Option β → α → β) (d : Dict κ β) (xs : List α)
    (k : κ) :
    (groupFold key step d xs).get? k =
      foldSome step (d.get? k) (xs.filter fun x => decide (key x = k)) := by
  induction xs generalizing d with
  | nil => rfl
  | cons x xs ih =>
      rw [groupFold_cons, ih, get?_alter]
      by_cases hk : key x = k
      · rw [if_pos hk, List.filter_cons_of_pos (by simpa using hk), foldSome_cons, hk]
      · rw [if_neg hk, List.filter_cons_of_neg (by simpa using hk)]

theorem mem_keys_groupFold {key : α → κ} {step : Option β → α → β} {d : Dict κ β} {xs : List α}
    {k : κ} : k ∈ (groupFold key step d xs).keys ↔ k ∈ d.keys ∨ ∃ x ∈ xs, key x = k := by
  induction xs generalizing d with
  | nil => simp
  | cons x xs ih =>
      rw [groupFold_cons, ih, mem_keys_alter]
      simp only [List.mem_cons, exists_eq_or_imp, eq_comm (a := k), or_assoc]

/-- What holds of the entries and is kept by every item holds of the entries after a fold. -/
theorem groupFold_entries {P : κ → β → Prop} {key : α → κ} {step : Option β → α → β} {d : Dict κ β}
    {xs : List α} (hd : ∀ k v, d.get? k = some v → P k v)
    (hstep : ∀ x ∈ xs, ∀ o, (∀ v, o = some v → P (key x) v) → P (key x) (step o x)) {k : κ} {v : β}
    (h : (groupFold key step d xs).get? k = some v) : P k v := by
  induction xs generalizing d with
  | nil => exact hd k v h
  | cons x xs ih =>
      rw [groupFold_cons] at h
      refine ih (fun k' v' h' => ?_) (fun y hy => hstep y (List.mem_cons_of_mem x hy)) h
      rw [get?_alter] at h'
      split at h'
      · rename_i hk
        rw [← hk, ← Option.some.inj h']
        exact hstep x List.mem_cons_self _ fun w hw => hd (key x) w (hk ▸ hw)
      · exact hd k' v' h'

/-- Items under keys that are there leave the keys as they are. -/
theorem keys_groupFold_of_mem {key : α → κ} {step : Option β → α → β} {d : Dict κ β} {xs : List α}
    (h : ∀ x ∈ xs, key x ∈ d.keys) : (groupFold key step d xs).keys = d.keys := by
  induction xs generalizing d with
  | nil => rfl
  | cons x xs ih =>
      have hkeys : (d.alter (key x) fun o => step o x).keys = d.keys := by
        rw [keys_alter, if_pos (h x List.mem_cons_self)]
      rw [groupFold_cons, ih fun y hy => hkeys ▸ h y (List.mem_cons_of_mem x hy), hkeys]

/-- `setdefault(key, []).append(item)`: the items in lists under their keys. -/
def groupBy (key : α → κ) (xs : List α) : Dict κ (List α) :=
  groupFold key (fun o x => o.getD [] ++ [x]) ∅ xs

theorem foldSome_append_items (o : Option (List α)) (xs : List α) (hxs : xs ≠ []) :
    foldSome (fun (o : Option (List α)) x => o.getD [] ++ [x]) o xs = some (o.getD [] ++ xs) := by
  induction xs generalizing o with
  | nil => exact absurd rfl hxs
  | cons x xs ih =>
      rw [foldSome_cons]
      cases xs with
      | nil => rfl
      | cons y ys => simp [ih (some _) (List.cons_ne_nil y ys)]

/-- A group holds exactly the items of its key, in order. -/
theorem get?_groupBy {key : α → κ} {xs : List α} {k : κ} {g : List α}
    (h : (groupBy key xs).get? k = some g) : g = xs.filter fun x => decide (key x = k) := by
  rw [groupBy, get?_groupFold, get?_empty] at h
  cases hf : xs.filter fun x => decide (key x = k) with
  | nil => rw [hf] at h; cases h
  | cons y ys =>
      rw [hf, foldSome_append_items none (y :: ys) (List.cons_ne_nil y ys)] at h
      simpa using h.symm

theorem mem_keys_groupBy {key : α → κ} {xs : List α} {k : κ} :
    k ∈ (groupBy key xs).keys ↔ ∃ x ∈ xs, key x = k := by
  rw [groupBy, mem_keys_groupFold]
  simp

theorem values_groupBy (key : α → κ) (xs : List α) :
    (groupBy key xs).values = (groupBy key xs).keys.map fun k => xs.filter fun x => decide (key x = k) := by
  unfold values keys
  rw [List.map_map]
  exact List.map_congr_left fun e he => get?_groupBy (get?_eq_some.mpr he)

theorem getD_groupBy (key : α → κ) (xs : List α) (k : κ) :
    ((groupBy key xs).get? k).getD [] = xs.filter fun x => decide (key x = k) := by
  cases h : (groupBy key xs).get? k with
  | some g => exact get?_groupBy h
  | none =>
      refine (List.filter_eq_nil_iff.mpr fun x hx hkey => ?_).symm
      exact get?_eq_none.mp h (mem_keys_groupBy.mpr ⟨x, hx, by simpa using hkey⟩)

end Lookup

end Dict

end LogRisk.Library
