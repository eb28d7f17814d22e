import LogRisk.Library.Dict
import Mathlib.Data.Rat.Defs

/-!
# Values of an untyped language and deep merges

Values as a decoder of JSON yields them, floating-point numbers included.  The order of the
entries of a mapping is kept but not compared: `Same` holds of two values that are equal as
values.  `merge` lays one mapping over another, mapping by mapping, and leaves the keys it is
told to skip as they were.
-/

namespace LogRisk.Library

/-- A floating-point number, up to the sign of zero. -/
inductive Floating where
  | finite (q : ℚ)
  | infinite (negative : Bool)
  | nan
deriving DecidableEq

inductive Value where
  | null
  | bool (b : Bool)
  | int (n : ℤ)
  | float (x : Floating)
  | str (s : String)
  | list (items : List Value)
  | dict (entries : List (String × Value))
deriving Inhabited

abbrev Entries := List (String × Value)

namespace Value

open Dict (assoc alterEntries assoc_alterEntries)

/-! ## Reading -/

/-- The test of a value in a condition. -/
def truthy : Value → Bool
  | null => false
  | bool b => b
  | int n => decide (n ≠ 0)
  | float x => decide (x ≠ .finite 0)
  | str s => !s.isEmpty
  | list items => !items.isEmpty
  | dict entries => !entries.isEmpty

/-- `value or default`, for a value that may be missing. -/
def orElse (value : Option Value) (fallback : Value) : Value :=
  match value with
  | some v => if v.truthy then v else fallback
  | none => fallback

theorem orElse_some (v fallback : Value) :
    orElse (some v) fallback = if v.truthy then v else fallback := rfl

/-- The text under a key; no text is the empty one. -/
def textAt (key : String) (d : Entries) : String :=
  match assoc key d with
  | some (str s) => s
  | _ => ""

/-! ## Equal values -/

/-- Equal up to the order of the entries of mappings. -/
inductive Same : Value → Value → Prop
  | refl (v : Value) : Same v v
  | dict {a b : Entries} (hkeys : ∀ k, (assoc k a).isSome = (assoc k b).isSome)
      (hvalues : ∀ k x y, assoc k a = some x → assoc k b = some y → Same x y) :
      Same (dict a) (dict b)

theorem Same.keys {a b : Entries} (h : Same (.dict a) (.dict b)) (k : String) :
    (assoc k a).isSome = (assoc k b).isSome := by
  cases h with
  | refl => rfl
  | dict hkeys _ => exact hkeys k

theorem Same.values {a b : Entries} (h : Same (.dict a) (.dict b)) {k : String} {x y : Value}
    (hx : assoc k a = some x) (hy : assoc k b = some y) : Same x y := by
  cases h with
  | refl =>
      rw [Option.some.inj (hx.symm.trans hy)]
      exact .refl y
  | dict _ hvalues => exact hvalues k x y hx hy

/-! ## No key twice -/

mutual

/-- No mapping in the value has a key twice. -/
def Distinct : Value → Prop
  | list items => DistinctItems items
  | dict entries => DistinctEntries entries
  | _ => True

def DistinctItems : List Value → Prop
  | [] => True
  | item :: rest => Distinct item ∧ DistinctItems rest

def DistinctEntries : Entries → Prop
  | [] => True
  | (key, value) :: rest => key ∉ rest.map Prod.fst ∧ Distinct value ∧ DistinctEntries rest

end

theorem DistinctEntries.nodup {d : Entries} (h : DistinctEntries d) : (d.map Prod.fst).Nodup := by
  induction d with
  | nil => exact List.nodup_nil
  | cons e rest ih => exact List.nodup_cons.mpr ⟨h.1, ih h.2.2⟩

theorem DistinctEntries.value {d : Entries} (h : DistinctEntries d) {k : String} {v : Value}
    (hv : assoc k d = some v) : Distinct v := by
  induction d with
  | nil => cases hv
  | cons e rest ih =>
      obtain ⟨key, value⟩ := e
      unfold assoc at hv
      split at hv
      · rw [← Option.some.inj hv]
        exact h.2.1
      · exact ih h.2.2 hv

theorem DistinctEntries.alter {d : Entries} {k : String} {f : Option Value → Value}
    (h : DistinctEntries d) (hf : Distinct (f (assoc k d))) :
    DistinctEntries (alterEntries k f d) := by
  induction d with
  | nil => exact ⟨List.not_mem_nil, hf, trivial⟩
  | cons e rest ih =>
      obtain ⟨key, value⟩ := e
      unfold assoc at hf
      unfold alterEntries
      by_cases hk : key = k
      · rw [if_pos hk] at hf ⊢
        exact ⟨h.1, hf, h.2.2⟩
      · rw [if_neg hk] at hf ⊢
        refine ⟨?_, h.2.1, ih h.2.2 hf⟩
        rw [Dict.keys_alterEntries]
        split
        · exact h.1
        · simpa [hk] using h.1

/-! ## Writing -/

/-- `base.update(changes)`. -/
def update (base changes : Entries) : Entries :=
  changes.foldl (fun d e => alterEntries e.1 (fun _ => e.2) d) base

@[simp] theorem update_nil (base : Entries) : update base [] = base := rfl

@[simp] theorem update_cons (base : Entries) (e : String × Value) (rest : Entries) :
    update base (e :: rest) = update (alterEntries e.1 (fun _ => e.2) base) rest := rfl

/-- What is written under a key counts, whatever was there. -/
theorem assoc_update {changes : Entries} (hnodup : (changes.map Prod.fst).Nodup) (base : Entries)
    (k : String) : assoc k (update base changes) = (assoc k changes).or (assoc k base) := by
  induction changes generalizing base with
  | nil => rfl
  | cons e rest ih =>
      obtain ⟨key, value⟩ := e
      obtain ⟨hnot, hrest⟩ := List.nodup_cons.mp hnodup
      rw [update_cons, ih hrest, assoc_alterEntries]
      by_cases hk : key = k
      · subst hk
        rw [Dict.assoc_eq_none.mpr hnot]
        simp [assoc]
      · simp [assoc, hk]

theorem DistinctEntries.update {base changes : Entries} (hbase : DistinctEntries base)
    (hchanges : ∀ e ∈ changes, Distinct e.2) : DistinctEntries (update base changes) := by
  induction changes generalizing base with
  | nil => exact hbase
  | cons e rest ih =>
      rw [update_cons]
      exact ih (hbase.alter (hchanges e List.mem_cons_self))
        fun e' he' => hchanges e' (List.mem_cons_of_mem e he')

/-! ## Merging -/

mutual

/-- The mapping `base` under the changes, without the keys that are skipped. -/
def merge (skip : String → Bool) : Entries → Entries → Entries
  | [], base => base
  | (key, value) :: rest, base =>
      merge skip rest (if skip key then base else alterEntries key (mergeOver skip value) base)

/-- A value over an old one: two mappings are merged, anything else is replaced. -/
def mergeOver (skip : String → Bool) : Value → Option Value → Value
  | dict changes, some (dict base) => dict (merge skip changes base)
  | value, _ => value

end

variable {skip : String → Bool}

theorem mergeOver_dict (changes base : Entries) :
    mergeOver skip (dict changes) (some (dict base)) = dict (merge skip changes base) := by
  rw [mergeOver]

/-- Where one of the two is no mapping, the new value stands. -/
theorem mergeOver_eq {value : Value} {old : Option Value}
    (h : ∀ c b, value = dict c → old ≠ some (dict b)) : mergeOver skip value old = value := by
  unfold mergeOver
  split
  · exact absurd rfl (h _ _ rfl)
  · rfl

/-- The value of a key after a merge. -/
theorem assoc_merge {changes : Entries} (hnodup : (changes.map Prod.fst).Nodup) (base : Entries)
    (k : String) :
    assoc k (merge skip changes base) =
      if skip k then assoc k base
      else match assoc k changes with
      | some value => some (mergeOver skip value (assoc k base))
      | none => assoc k base := by
  induction changes generalizing base with
  | nil =>
      rw [merge]
      split <;> rfl
  | cons e rest ih =>
      obtain ⟨key, value⟩ := e
      obtain ⟨hnot, hrest⟩ := List.nodup_cons.mp hnodup
      rw [merge, ih hrest]
      by_cases hk : key = k
      · subst hk
        rw [Dict.assoc_eq_none.mpr hnot]
        cases hskip : skip key <;> simp [assoc, assoc_alterEntries]
      · cases hskip : skip key <;> simp [assoc, assoc_alterEntries, hk]

variable (skip) in
/-- A mapping over anything is a mapping that has what the changes set, where that is none. -/
theorem mergeOver_keeps {changes : Entries} (hnodup : (changes.map Prod.fst).Nodup)
    (old : Option Value) : ∃ d, mergeOver skip (dict changes) old = dict d ∧
      ∀ k v, skip k = false → assoc k changes = some v → (∀ c, v ≠ dict c) → assoc k d = some v := by
  by_cases hold : ∃ b, old = some (dict b)
  · obtain ⟨b, rfl⟩ := hold
    refine ⟨merge skip changes b, mergeOver_dict changes b, fun k v hskip hv hother => ?_⟩
    rw [assoc_merge hnodup]
    simp only [hskip, Bool.false_eq_true, if_false, hv]
    rw [mergeOver_eq fun c b hc => absurd hc (hother c)]
  · refine ⟨changes, mergeOver_eq fun c b _ hb => hold ⟨b, hb⟩, fun k v _ hv _ => hv⟩

theorem merge_ne_nil {changes base : Entries} (hnodup : (changes.map Prod.fst).Nodup)
    (hbase : base ≠ []) : merge skip changes base ≠ [] := by
  intro hnil
  obtain ⟨e, rest, rfl⟩ := List.exists_cons_of_ne_nil hbase
  have hfirst : assoc e.1 (e :: rest) = some e.2 := by
    obtain ⟨key, value⟩ := e
    simp [assoc]
  have hmerge := @assoc_merge skip _ hnodup (e :: rest) e.1
  rw [hnil, hfirst] at hmerge
  split at hmerge
  · cases hmerge
  · split at hmerge
    · cases hmerge
    · cases hmerge

theorem sizeOf_lt_of_assoc {d : Entries} {k : String} {v : Value} (h : assoc k d = some v) :
    sizeOf v < sizeOf d := by
  induction d with
  | nil => cases h
  | cons e rest ih =>
      obtain ⟨key, value⟩ := e
      unfold assoc at h
      split at h
      · rw [← Option.some.inj h]
        simp
        omega
      · have hrest := ih h
        simp
        omega

mutual

theorem DistinctEntries.merge {changes base : Entries} (hchanges : DistinctEntries changes)
    (hbase : DistinctEntries base) : DistinctEntries (merge skip changes base) := by
  match changes, hchanges with
  | [], _ =>
      rw [Value.merge]
      exact hbase
  | (key, value) :: rest, hchanges =>
      rw [Value.merge]
      split
      · exact DistinctEntries.merge hchanges.2.2 hbase
      · refine DistinctEntries.merge hchanges.2.2 (hbase.alter ?_)
        exact Distinct.mergeOver hchanges.2.1 fun old hold => hbase.value hold

theorem Distinct.mergeOver {value : Value} {old : Option Value} (hvalue : Distinct value)
    (hold : ∀ v, old = some v → Distinct v) : Distinct (mergeOver skip value old) := by
  match value, old with
  | .dict changes, some (.dict base) =>
      rw [mergeOver_dict]
      have hchanges : DistinctEntries changes := hvalue
      exact DistinctEntries.merge hchanges (hold _ rfl)
  | .dict changes, none => exact hvalue
  | .dict changes, some .null => exact hvalue
  | .dict changes, some (.bool _) => exact hvalue
  | .dict changes, some (.int _) => exact hvalue
  | .dict changes, some (.float _) => exact hvalue
  | .dict changes, some (.str _) => exact hvalue
  | .dict changes, some (.list _) => exact hvalue
  | .null, _ => exact hvalue
  | .bool _, _ => exact hvalue
  | .int _, _ => exact hvalue
  | .float _, _ => exact hvalue
  | .str _, _ => exact hvalue
  | .list _, _ => exact hvalue

end

/-! ## Merges that restore -/

/-- The changes name every key of the base, in every mapping that is merged, and agree with it
on what the merge skips. -/
inductive Covers (skip : String → Bool) : Entries → Entries → Prop
  | intro {changes base : Entries}
      (hskipped : ∀ k, skip k = true → (assoc k base).isSome = (assoc k changes).isSome ∧
        ∀ x y, assoc k base = some x → assoc k changes = some y → Same x y)
      (hkeys : ∀ k, skip k = false → (assoc k base).isSome → (assoc k changes).isSome)
      (hnested : ∀ k c b, skip k = false → assoc k changes = some (dict c) →
        assoc k base = some (dict b) → Covers skip c b) :
      Covers skip changes base

/-- A merge whose changes cover the base yields the changes. -/
theorem Covers.same_merge {changes base : Entries} (h : Covers skip changes base)
    (hd : DistinctEntries changes) : Same (dict (merge skip changes base)) (dict changes) := by
  induction h with
  | @intro changes base hskipped hkeys hnested ih =>
      refine .dict (fun k => ?_) fun k x y hx hy => ?_
      · rw [assoc_merge hd.nodup]
        cases hskip : skip k with
        | true => exact (hskipped k hskip).1
        | false =>
            cases hchange : assoc k changes with
            | some value => rfl
            | none =>
                cases hold : assoc k base with
                | none => rfl
                | some old =>
                    have hsome := hkeys k hskip (by rw [hold]; rfl)
                    rw [hchange] at hsome
                    cases hsome
      · rw [assoc_merge hd.nodup] at hx
        cases hskip : skip k with
        | true =>
            rw [hskip, if_pos rfl] at hx
            exact (hskipped k hskip).2 x y hx hy
        | false =>
            simp only [hskip, Bool.false_eq_true, if_false, hy, Option.some.injEq] at hx
            rw [← hx]
            by_cases hboth : ∃ c b, y = dict c ∧ assoc k base = some (dict b)
            · obtain ⟨c, b, rfl, hb⟩ := hboth
              rw [hb, mergeOver_dict]
              exact ih k c b hskip hy hb (hd.value hy)
            · rw [mergeOver_eq fun c b hc hb => hboth ⟨c, b, hc, hb⟩]
              exact .refl y

/-- A merge yields the changes only when they cover the base. -/
theorem covers_of_same_merge {changes base : Entries} (hd : DistinctEntries changes)
    (h : Same (dict (merge skip changes base)) (dict changes)) : Covers skip changes base := by
  refine .intro (fun k hskip => ?_) (fun k hskip hbase => ?_) fun k c b hskip hc hb => ?_
  · have hmerge : assoc k (merge skip changes base) = assoc k base := by
      rw [assoc_merge hd.nodup, if_pos hskip]
    refine ⟨?_, fun x y hx hy => h.values (hmerge.trans hx) hy⟩
    rw [← hmerge]
    exact h.keys k
  · have hmerge : (assoc k (merge skip changes base)).isSome := by
      rw [assoc_merge hd.nodup]
      simp only [hskip, Bool.false_eq_true, if_false]
      split
      · rfl
      · exact hbase
    rwa [h.keys k] at hmerge
  · have hmerge : assoc k (merge skip changes base) = some (dict (merge skip c b)) := by
      rw [assoc_merge hd.nodup]
      simp only [hskip, Bool.false_eq_true, if_false, hc, hb, mergeOver_dict]
    have hsmaller : sizeOf c < sizeOf changes := by
      have hlt := sizeOf_lt_of_assoc hc
      simp at hlt
      omega
    exact covers_of_same_merge (hd.value hc) (h.values hmerge hc)
termination_by sizeOf changes

theorem same_mergeOver_iff {value : Value} {old : Option Value} (hd : Distinct value) :
    Same (mergeOver skip value old) value ↔
      ∀ c b, value = dict c → old = some (dict b) → Covers skip c b := by
  by_cases hboth : ∃ c b, value = dict c ∧ old = some (dict b)
  · obtain ⟨c, b, rfl, rfl⟩ := hboth
    rw [mergeOver_dict]
    constructor
    · intro h c' b' hc hb
      cases hc
      cases hb
      exact covers_of_same_merge hd h
    · intro h
      exact (h c b rfl rfl).same_merge hd
  · rw [mergeOver_eq fun c b hc hb => hboth ⟨c, b, hc, hb⟩]
    exact ⟨fun _ c b hc hb => absurd ⟨c, b, hc, hb⟩ hboth, fun _ => .refl value⟩

end Value

end LogRisk.Library
