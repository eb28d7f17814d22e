import LogRisk.Library.Dict
import LogRisk.Library.Paging
import Mathlib.Data.List.Dedup
import Mathlib.Data.List.Induction
import Mathlib.Data.Prod.Lex

/-!
# The items with the highest counts

Items with a key are gathered, their counts added, and the first of them kept.  When lists are
gathered one after the other, and each time only the first items are kept, the counts of what is
dropped are forgotten: the result is exact exactly when nothing of what belongs into it has been
dropped with a count.
-/

namespace LogRisk.Library.TopCounts

open Dict Paging

/-- Items that can be added to an item with the same key. -/
structure Counted (τ κ : Type) where
  key : τ → κ
  count : τ → ℕ
  add : τ → τ → τ
  key_add : ∀ a b, key (add a b) = key a
  count_add : ∀ a b, count (add a b) = count a + count b

variable {τ κ : Type} [LinearOrder κ] (c : Counted τ κ)

/-! ## Totals -/

def total (k : κ) (xs : List τ) : ℕ := ((xs.filter fun t => c.key t = k).map c.count).sum

@[simp] theorem total_nil (k : κ) : total c k [] = 0 := rfl

theorem total_cons (k : κ) (t : τ) (xs : List τ) :
    total c k (t :: xs) = (if c.key t = k then c.count t else 0) + total c k xs := by
  unfold total
  by_cases hk : c.key t = k
  · rw [List.filter_cons_of_pos (by simpa using hk), List.map_cons, List.sum_cons, if_pos hk]
  · rw [List.filter_cons_of_neg (by simpa using hk), if_neg hk, Nat.zero_add]

theorem total_append (k : κ) (xs ys : List τ) :
    total c k (xs ++ ys) = total c k xs + total c k ys := by
  unfold total
  rw [List.filter_append, List.map_append, List.sum_append]

theorem total_of_notMem {k : κ} {xs : List τ} (h : k ∉ xs.map c.key) : total c k xs = 0 := by
  induction xs with
  | nil => rfl
  | cons t xs ih =>
      rw [List.map_cons, List.mem_cons, not_or] at h
      rw [total_cons, if_neg (Ne.symm h.1), ih h.2]

theorem total_of_nodup {xs : List τ} (h : (xs.map c.key).Nodup) {t : τ} (ht : t ∈ xs) :
    total c (c.key t) xs = c.count t := by
  induction xs with
  | nil => cases ht
  | cons u xs ih =>
      rw [List.map_cons, List.nodup_cons] at h
      rw [total_cons]
      rcases List.mem_cons.mp ht with rfl | ht
      · rw [if_pos rfl, total_of_notMem c h.1, Nat.add_zero]
      · have hne : c.key u ≠ c.key t := by
          intro heq
          exact h.1 (heq ▸ List.mem_map_of_mem ht)
        rw [if_neg hne, ih h.2 ht, Nat.zero_add]

/-! ## Gathering -/

/-- The item under a key, with one more added. -/
def join (o : Option τ) (t : τ) : τ :=
  match o with
  | none => t
  | some u => c.add u t

/-- The items, one for each key. -/
def gathered (xs : List τ) : List τ := (groupFold c.key (join c) ∅ xs).values

omit [LinearOrder κ] in
theorem key_join {o : Option τ} {t : τ} {k : κ} (ho : ∀ u, o = some u → c.key u = k)
    (ht : c.key t = k) : c.key (join c o t) = k := by
  cases o with
  | none => exact ht
  | some u => exact (c.key_add u t).trans (ho u rfl)

theorem key_of_get? {xs : List τ} {k : κ} {t : τ}
    (h : (groupFold c.key (join c) ∅ xs).get? k = some t) : c.key t = k := by
  refine groupFold_entries (P := fun k t => c.key t = k) ?_ ?_ h
  · intro k t h
    cases h
  · intro x _ o ho
    exact key_join c ho rfl

theorem keys_gathered (xs : List τ) :
    (gathered c xs).map c.key = (groupFold c.key (join c) ∅ xs).keys := by
  unfold gathered values keys
  rw [List.map_map]
  exact List.map_congr_left fun e he => key_of_get? c (get?_eq_some.mpr he)

theorem nodup_gathered (xs : List τ) : ((gathered c xs).map c.key).Nodup := by
  rw [keys_gathered]
  exact (groupFold c.key (join c) ∅ xs).nodup

theorem mem_keys_gathered {xs : List τ} {k : κ} :
    k ∈ (gathered c xs).map c.key ↔ k ∈ xs.map c.key := by
  rw [keys_gathered, mem_keys_groupFold]
  simp

omit [LinearOrder κ] in
theorem count_foldSome (xs : List τ) (o : Option τ) {t : τ} (h : foldSome (join c) o xs = some t) :
    c.count t = (o.map c.count).getD 0 + (xs.map c.count).sum := by
  induction xs generalizing o with
  | nil =>
      cases h
      rfl
  | cons x xs ih =>
      rw [ih _ h, List.map_cons, List.sum_cons]
      cases o with
      | none =>
          show c.count x + _ = 0 + _
          omega
      | some u =>
          show c.count (c.add u x) + _ = c.count u + _
          rw [c.count_add]
          omega

/-- A gathered item counts what the items of its key count together. -/
theorem count_gathered {xs : List τ} {t : τ} (h : t ∈ gathered c xs) :
    c.count t = total c (c.key t) xs := by
  obtain ⟨k, hk⟩ := mem_values.mp h
  have hkey := key_of_get? c hk
  rw [get?_groupFold, get?_empty] at hk
  rw [count_foldSome c _ _ hk, hkey]
  show 0 + _ = _
  rw [Nat.zero_add]
  rfl

/-! ## The first of them -/

/-- Higher counts first, and keys in order where counts are equal. -/
def rank (k : κ) (n : ℕ) : ℕᵒᵈ ×ₗ κ := toLex (OrderDual.toDual n, k)

omit [LinearOrder κ] in
theorem rank_injective {k k' : κ} {n n' : ℕ} (h : rank k n = rank k' n') : k = k' :=
  congrArg (fun p => (ofLex p).2) h

theorem rank_le_rank {k : κ} {n n' : ℕ} (h : n ≤ n') : rank k n' ≤ rank k n := by
  unfold rank
  rw [Prod.Lex.toLex_le_toLex]
  rcases h.lt_or_eq with hlt | rfl
  · exact .inl (OrderDual.toDual_lt_toDual.mpr hlt)
  · exact .inr ⟨rfl, le_refl k⟩

/-- Gathered, and the first `n` kept. -/
def top (n : ℕ) (xs : List τ) : List τ :=
  (ordered (fun t => rank (c.key t) (c.count t)) (gathered c xs)).take n

/-- The keys of the items, in the order of their totals. -/
def ranked (xs : List τ) : List κ := ordered (fun k => rank k (total c k xs)) (xs.map c.key).dedup

/-- The keys with the highest totals. -/
def leaders (n : ℕ) (xs : List τ) : List κ := (ranked c xs).take n

theorem eq_ordered {α ι : Type} [LinearOrder ι] {f : α → ι} {l rows : List α} (hperm : l.Perm rows)
    (hsorted : l.Pairwise fun a b => f a < f b) : l = ordered f rows := by
  have hkeys : (rows.map f).Nodup := by
    refine (hperm.map f).nodup_iff.mp ?_
    rw [List.Nodup, List.pairwise_map]
    exact hsorted.imp fun hlt => hlt.ne
  refine (hperm.trans (ordered_perm f rows).symm).eq_of_pairwise ?_ hsorted (pairwise_ordered hkeys)
  intro a b _ _ hab hba
  exact absurd hab (lt_asymm hba)

omit [LinearOrder κ] in
theorem nodup_ranks (f : κ → ℕ) {ks : List κ} (h : ks.Nodup) :
    (ks.map fun k => rank k (f k)).Nodup :=
  h.map fun _ _ heq => rank_injective heq

theorem mem_ranked {xs : List τ} {k : κ} : k ∈ ranked c xs ↔ k ∈ xs.map c.key := by
  unfold ranked
  rw [mem_ordered, List.mem_dedup]

theorem pairwise_ranked (xs : List τ) :
    (ranked c xs).Pairwise fun a b => rank a (total c a xs) < rank b (total c b xs) :=
  pairwise_ordered (nodup_ranks _ (List.nodup_dedup _))

theorem nodup_ranked (xs : List τ) : (ranked c xs).Nodup :=
  (ordered_perm _ _).nodup_iff.mpr (List.nodup_dedup _)

theorem nodup_leaders (n : ℕ) (xs : List τ) : (leaders c n xs).Nodup :=
  (nodup_ranked c xs).sublist (List.take_sublist _ _)

theorem mem_of_mem_leaders {n : ℕ} {xs : List τ} {k : κ} (h : k ∈ leaders c n xs) :
    k ∈ xs.map c.key := (mem_ranked c).mp (List.mem_of_mem_take h)

/-- What is kept are the leaders. -/
theorem keys_top (n : ℕ) (xs : List τ) : (top c n xs).map c.key = leaders c n xs := by
  unfold top leaders ranked
  rw [List.map_take]
  congr 1
  set rows := gathered c xs with hrows
  have hnodup : (rows.map fun t => rank (c.key t) (c.count t)).Nodup := by
    have hkeys := nodup_gathered c xs
    rw [List.Nodup, List.pairwise_map] at hkeys ⊢
    exact hkeys.imp fun hne heq => hne (rank_injective heq)
  refine eq_ordered ?_ ?_
  · refine ((ordered_perm _ rows).map c.key).trans ?_
    refine (List.perm_ext_iff_of_nodup (nodup_gathered c xs) (List.nodup_dedup _)).mpr fun k => ?_
    rw [List.mem_dedup]
    exact mem_keys_gathered c
  · rw [List.pairwise_map]
    refine (pairwise_ordered hnodup).imp_of_mem fun {a b} ha hb hlt => ?_
    rw [← count_gathered c (mem_ordered.mp ha), ← count_gathered c (mem_ordered.mp hb)]
    exact hlt

theorem count_top {n : ℕ} {xs : List τ} {t : τ} (h : t ∈ top c n xs) :
    c.count t = total c (c.key t) xs :=
  count_gathered c (mem_ordered.mp (List.mem_of_mem_take h))

theorem nodup_top (n : ℕ) (xs : List τ) : ((top c n xs).map c.key).Nodup := by
  rw [keys_top]
  exact nodup_leaders c n xs

theorem total_top_of_mem {n : ℕ} {xs : List τ} {k : κ} (h : k ∈ (top c n xs).map c.key) :
    total c k (top c n xs) = total c k xs := by
  obtain ⟨t, ht, rfl⟩ := List.mem_map.mp h
  rw [total_of_nodup c (nodup_top c n xs) ht, count_top c ht]

theorem total_top_le (n : ℕ) (xs : List τ) (k : κ) : total c k (top c n xs) ≤ total c k xs := by
  by_cases h : k ∈ (top c n xs).map c.key
  · exact (total_top_of_mem c h).le
  · rw [total_of_notMem c h]
    exact Nat.zero_le _

theorem mem_of_mem_top {n : ℕ} {xs : List τ} {k : κ} (h : k ∈ (top c n xs).map c.key) :
    k ∈ xs.map c.key := by
  rw [keys_top] at h
  exact mem_of_mem_leaders c h

/-! ## Leaders of items some of whose counts are missing -/

/-- Items that have all of the leaders, with their totals, and no more of anything else have the
same leaders. -/
theorem leaders_eq {n : ℕ} {xs ys : List τ}
    (hleaders : ∀ k ∈ leaders c n xs, k ∈ ys.map c.key ∧ total c k ys = total c k xs)
    (hle : ∀ k, total c k ys ≤ total c k xs) (hkeys : ∀ k ∈ ys.map c.key, k ∈ xs.map c.key) :
    leaders c n ys = leaders c n xs := by
  set first := leaders c n xs with hfirst
  set others := ordered (fun k => rank k (total c k ys))
    ((ys.map c.key).dedup.filter fun k => k ∉ first) with hothers
  have hmem : ∀ k, k ∈ others ↔ k ∈ ys.map c.key ∧ k ∉ first := by
    intro k
    rw [hothers, mem_ordered, List.mem_filter, List.mem_dedup, decide_eq_true_eq]
  have hdrop : ∀ k ∈ others, k ∈ (ranked c xs).drop n := by
    intro k hk
    have hk := (hmem k).mp hk
    have hranked := (mem_ranked c).mpr (hkeys k hk.1)
    rw [← List.take_append_drop n (ranked c xs)] at hranked
    exact (List.mem_append.mp hranked).resolve_left hk.2
  have hsplit : ranked c ys = first ++ others := by
    refine (eq_ordered ?_ ?_).symm
    · refine (List.perm_ext_iff_of_nodup ?_ (List.nodup_dedup _)).mpr fun k => ?_
      · refine List.Nodup.append (nodup_leaders c n xs) ?_ fun k hk hk' => ((hmem k).mp hk').2 hk
        exact (ordered_perm _ _).nodup_iff.mpr ((List.nodup_dedup _).filter _)
      · rw [List.mem_append, hmem, List.mem_dedup]
        constructor
        · rintro (hk | hk)
          · exact (hleaders k hk).1
          · exact hk.1
        · intro hk
          by_cases hin : k ∈ first
          · exact .inl hin
          · exact .inr ⟨hk, hin⟩
    · refine List.pairwise_append.mpr ⟨?_, ?_, ?_⟩
      · refine ((pairwise_ranked c xs).sublist (List.take_sublist n _)).imp_of_mem
          fun {a b} ha hb hlt => ?_
        rw [(hleaders a ha).2, (hleaders b hb).2]
        exact hlt
      · exact pairwise_ordered (nodup_ranks _ ((List.nodup_dedup _).filter _))
      · intro a ha b hb
        have hsorted := pairwise_ranked c xs
        rw [← List.take_append_drop n (ranked c xs)] at hsorted
        have hlt := (List.pairwise_append.mp hsorted).2.2 a ha b (hdrop b hb)
        rw [(hleaders a ha).2]
        exact hlt.trans_le (rank_le_rank (hle b))
  show (ranked c ys).take n = first
  rw [hsplit]
  by_cases hshort : (ranked c xs).length ≤ n
  · have hnone : others = [] := by
      refine List.eq_nil_iff_forall_not_mem.mpr fun k hk => ?_
      have hk := hdrop k hk
      rw [List.drop_eq_nil_iff.mpr hshort] at hk
      cases hk
    rw [hnone, List.append_nil]
    refine List.take_of_length_le ?_
    rw [hfirst, leaders, List.length_take]
    omega
  · have hlength : first.length = n := by
      rw [hfirst, leaders, List.length_take]
      omega
    exact List.take_left' hlength

/-! ## One list after the other -/

/-- The lists gathered one after the other, each time the first `n` kept; one list alone stays as
it is. -/
def run (n : ℕ) : List (List τ) → List τ
  | [] => []
  | first :: rest => rest.foldl (fun kept xs => top c n (kept ++ xs)) first

/-- The keys and counts of the result are those of the leaders, with their totals. -/
def Exact (n : ℕ) (xs result : List τ) : Prop :=
  (result.map fun t => (c.key t, c.count t)).Perm
    ((leaders c n xs).map fun k => (k, total c k xs))

/-- What belongs into the result has not been dropped before the last list, unless nothing had
been counted for it and it comes again. -/
def Retains (n : ℕ) (lists : List (List τ)) : Prop :=
  ∀ seen rest, lists = seen ++ rest → 2 ≤ seen.length → rest ≠ [] →
    ∀ k ∈ leaders c n lists.flatten, k ∈ seen.flatten.map c.key →
      k ∈ (run c n seen).map c.key ∨ total c k seen.flatten = 0 ∧ k ∈ rest.flatten.map c.key

theorem run_append {n : ℕ} {seen : List (List τ)} (h : seen ≠ []) (rest : List (List τ)) :
    run c n (seen ++ rest) = rest.foldl (fun kept xs => top c n (kept ++ xs)) (run c n seen) := by
  obtain ⟨first, more, rfl⟩ := List.exists_cons_of_ne_nil h
  rw [List.cons_append, run, run, List.foldl_append]

theorem run_concat {n : ℕ} {seen : List (List τ)} (h : seen ≠ []) (xs : List τ) :
    run c n (seen ++ [xs]) = top c n (run c n seen ++ xs) := by
  rw [run_append c h]
  rfl

/-- Nothing is counted that is not in the lists. -/
theorem foldl_top_le (n : ℕ) (rest : List (List τ)) (kept : List τ) (k : κ) :
    total c k (rest.foldl (fun kept xs => top c n (kept ++ xs)) kept) ≤
        total c k kept + total c k rest.flatten ∧
      (k ∈ (rest.foldl (fun kept xs => top c n (kept ++ xs)) kept).map c.key →
        k ∈ kept.map c.key ∨ k ∈ rest.flatten.map c.key) := by
  induction rest generalizing kept with
  | nil => exact ⟨le_refl _, .inl⟩
  | cons xs rest ih =>
      obtain ⟨hle, hmem⟩ := ih (top c n (kept ++ xs))
      rw [List.foldl_cons, List.flatten_cons]
      constructor
      · have htop := total_top_le c n (kept ++ xs) k
        rw [total_append] at htop ⊢
        omega
      · intro hk
        rw [List.map_append, List.mem_append]
        rcases hmem hk with hk | hk
        · have hk := mem_of_mem_top c hk
          rw [List.map_append, List.mem_append] at hk
          rcases hk with hk | hk
          · exact .inl hk
          · exact .inr (.inl hk)
        · exact .inr (.inr hk)

theorem run_le (n : ℕ) (lists : List (List τ)) (k : κ) :
    total c k (run c n lists) ≤ total c k lists.flatten ∧
      (k ∈ (run c n lists).map c.key → k ∈ lists.flatten.map c.key) := by
  cases lists with
  | nil => exact ⟨le_refl _, fun h => h⟩
  | cons first rest =>
      obtain ⟨hle, hmem⟩ := foldl_top_le c n rest first k
      rw [List.flatten_cons, total_append, List.map_append, List.mem_append]
      exact ⟨hle, hmem⟩

/-- As long as nothing that belongs into the result is dropped with a count, its counts are the
totals so far. -/
theorem total_run {n : ℕ} {lists : List (List τ)} (hretains : Retains c n lists) {k : κ}
    (hk : k ∈ leaders c n lists.flatten) (seen : List (List τ)) :
    ∀ rest, lists = seen ++ rest → seen ≠ [] → rest ≠ [] →
      total c k (run c n seen) = total c k seen.flatten := by
  induction seen using List.reverseRecOn with
  | nil => exact fun _ _ h _ => absurd rfl h
  | append_singleton seen xs ih =>
      intro rest hlists _ hrest
      by_cases hfirst : seen = []
      · subst hfirst
        show total c k xs = total c k (xs ++ [])
        rw [List.append_nil]
      · have hbefore := ih (xs :: rest) (by rw [hlists, List.append_assoc]; rfl) hfirst
          (List.cons_ne_nil _ _)
        have hsum : total c k (run c n seen ++ xs) = total c k (seen ++ [xs]).flatten := by
          rw [total_append, hbefore, List.flatten_append, total_append, List.flatten_singleton]
        rw [run_concat c hfirst]
        by_cases hkept : k ∈ (top c n (run c n seen ++ xs)).map c.key
        · rw [total_top_of_mem c hkept, hsum]
        · rw [total_of_notMem c hkept]
          by_cases hseen : k ∈ (seen ++ [xs]).flatten.map c.key
          · have hlength : 2 ≤ (seen ++ [xs]).length := by
              have hpos := List.length_pos_iff.mpr hfirst
              rw [List.length_append, List.length_singleton]
              omega
            rw [← run_concat c hfirst] at hkept
            have hzero := hretains (seen ++ [xs]) rest hlists hlength hrest k hk hseen
            exact (hzero.resolve_left hkept).1.symm
          · exact (total_of_notMem c hseen).symm

/-- Several lists, gathered one after the other, give the exact result exactly when nothing that
belongs into it has been forgotten. -/
theorem run_exact_iff {n : ℕ} {lists : List (List τ)} (hlists : 2 ≤ lists.length) :
    Exact c n lists.flatten (run c n lists) ↔ Retains c n lists := by
  constructor
  · intro hexact seen rest hsplit hseen hrest k hk hmem
    by_cases hkept : k ∈ (run c n seen).map c.key
    · exact .inl hkept
    · right
      have hseen' : seen ≠ [] := List.ne_nil_of_length_pos (by omega)
      obtain ⟨hle, hkeys⟩ := foldl_top_le c n rest (run c n seen) k
      rw [← run_append c hseen', ← hsplit] at hle hkeys
      have hpair : (k, total c k lists.flatten) ∈
          (run c n lists).map fun t => (c.key t, c.count t) :=
        hexact.mem_iff.mpr (List.mem_map_of_mem hk)
      obtain ⟨t, ht, heq⟩ := List.mem_map.mp hpair
      obtain ⟨hkey, hcount⟩ := Prod.mk.inj heq
      have hnodup : ((run c n lists).map c.key).Nodup := by
        have hperm := hexact.map Prod.fst
        rw [List.map_map, List.map_map] at hperm
        refine hperm.nodup_iff.mpr ?_
        have hid : (leaders c n lists.flatten).map
            (Prod.fst ∘ fun k => (k, total c k lists.flatten)) = leaders c n lists.flatten :=
          List.map_id _
        rw [hid]
        exact nodup_leaders c n _
      have htotal := total_of_nodup c hnodup ht
      rw [hkey, hcount] at htotal
      rw [htotal, total_of_notMem c hkept, hsplit, List.flatten_append, total_append] at hle
      refine ⟨by omega, ?_⟩
      exact (hkeys (hkey ▸ List.mem_map_of_mem ht)).resolve_left hkept
  · intro hretains
    obtain ⟨seen, last, rfl⟩ : ∃ seen last, lists = seen ++ [last] :=
      ⟨lists.dropLast, lists.getLast (List.ne_nil_of_length_pos (by omega)),
        (List.dropLast_append_getLast _).symm⟩
    have hseen : seen ≠ [] := by
      rintro rfl
      simp at hlists
    have hflatten : (seen ++ [last]).flatten = seen.flatten ++ last := by
      rw [List.flatten_append, List.flatten_singleton]
    have hle : ∀ k, total c k (run c n seen ++ last) ≤ total c k (seen ++ [last]).flatten := by
      intro k
      have hseen := (run_le c n seen k).1
      rw [hflatten, total_append, total_append]
      omega
    have hkeys : ∀ k ∈ (run c n seen ++ last).map c.key, k ∈ (seen ++ [last]).flatten.map c.key := by
      intro k hk
      rw [List.map_append, List.mem_append] at hk
      rw [hflatten, List.map_append, List.mem_append]
      exact hk.imp_left (run_le c n seen k).2
    have htotal : ∀ k ∈ leaders c n (seen ++ [last]).flatten,
        total c k (run c n seen ++ last) = total c k (seen ++ [last]).flatten := by
      intro k hk
      rw [total_append, hflatten, total_append,
        total_run c hretains hk seen [last] rfl hseen (List.cons_ne_nil _ _)]
    have hmem : ∀ k ∈ leaders c n (seen ++ [last]).flatten, k ∈ (run c n seen ++ last).map c.key := by
      intro k hk
      have hall := mem_of_mem_leaders c hk
      rw [hflatten, List.map_append, List.mem_append] at hall
      rw [List.map_append, List.mem_append]
      rcases hall with hall | hlast
      · by_cases hone : seen.length = 1
        · obtain ⟨first, rfl⟩ := List.length_eq_one_iff.mp hone
          rw [List.flatten_singleton] at hall
          exact .inl hall
        · have hpos := List.length_pos_iff.mpr hseen
          rcases hretains seen [last] rfl (by omega) (List.cons_ne_nil _ _) k hk hall with
            hkept | ⟨-, hlast⟩
          · exact .inl hkept
          · rw [List.flatten_singleton] at hlast
            exact .inr hlast
      · exact .inr hlast
    have hleaders := leaders_eq c (fun k hk => ⟨hmem k hk, htotal k hk⟩) hle hkeys
    have hpairs : (top c n (run c n seen ++ last)).map (fun t => (c.key t, c.count t)) =
        (leaders c n (seen ++ [last]).flatten).map fun k => (k, total c k (seen ++ [last]).flatten) := by
      rw [← hleaders, ← keys_top, List.map_map]
      refine List.map_congr_left fun t ht => ?_
      have hkey : c.key t ∈ leaders c n (seen ++ [last]).flatten := by
        rw [← hleaders, ← keys_top]
        exact List.mem_map_of_mem ht
      show (c.key t, c.count t) = (c.key t, total c (c.key t) (seen ++ [last]).flatten)
      rw [count_top c ht, htotal _ hkey]
    unfold Exact
    rw [run_concat c hseen, hpairs]

/-- A list that stays as it is is exact exactly when it is short and has no key twice. -/
theorem exact_self_iff {n : ℕ} {xs : List τ} :
    Exact c n xs xs ↔ (xs.map c.key).Nodup ∧ xs.length ≤ n := by
  constructor
  · intro h
    have hkeys := h.map Prod.fst
    rw [List.map_map, List.map_map] at hkeys
    have hid : (leaders c n xs).map (Prod.fst ∘ fun k => (k, total c k xs)) = leaders c n xs :=
      List.map_id _
    rw [hid] at hkeys
    refine ⟨hkeys.nodup_iff.mpr (nodup_leaders c n xs), ?_⟩
    have hlength := hkeys.length_eq
    rw [List.length_map, leaders, List.length_take] at hlength
    omega
  · rintro ⟨hnodup, hlength⟩
    have hperm : (ranked c xs).Perm (xs.map c.key) := by
      refine (ordered_perm _ _).trans ?_
      rw [List.dedup_eq_self.mpr hnodup]
    have hall : leaders c n xs = ranked c xs := by
      refine List.take_of_length_le ?_
      rw [hperm.length_eq, List.length_map]
      exact hlength
    have hpairs : xs.map (fun t => (c.key t, c.count t)) =
        (xs.map c.key).map fun k => (k, total c k xs) := by
      rw [List.map_map]
      refine List.map_congr_left fun t ht => ?_
      show (c.key t, c.count t) = (c.key t, total c (c.key t) xs)
      rw [total_of_nodup c hnodup ht]
    unfold Exact
    rw [hall, hpairs]
    exact (hperm.map _).symm

/-- Nothing that belongs into the result is forgotten; a single list has no key twice and is
short. -/
def Keeps (n : ℕ) : List (List τ) → Prop
  | [xs] => (xs.map c.key).Nodup ∧ xs.length ≤ n
  | lists => Retains c n lists

theorem exact_run_iff {n : ℕ} {lists : List (List τ)} (hlists : lists ≠ []) :
    Exact c n lists.flatten (run c n lists) ↔ Keeps c n lists := by
  match lists with
  | [] => exact absurd rfl hlists
  | [xs] =>
      show Exact c n (xs ++ []) xs ↔ _
      rw [List.append_nil]
      exact exact_self_iff c
  | first :: second :: rest =>
      apply run_exact_iff
      rw [List.length_cons, List.length_cons]
      omega

/-! ## The order of the items -/

theorem total_perm {xs ys : List τ} (h : xs.Perm ys) (k : κ) : total c k xs = total c k ys :=
  ((h.filter _).map c.count).sum_nat

theorem leaders_perm {xs ys : List τ} (h : xs.Perm ys) (n : ℕ) :
    leaders c n xs = leaders c n ys := by
  have htotals : (fun k => rank k (total c k xs)) = fun k => rank k (total c k ys) :=
    funext fun k => congrArg (rank k) (total_perm c h k)
  have hkeys : (xs.map c.key).dedup.Perm (ys.map c.key).dedup := (h.map c.key).dedup
  unfold leaders ranked
  rw [htotals, ordered_eq_of_perm hkeys (nodup_ranks _ (List.nodup_dedup _))]

/-- Exact results of the same items count the same. -/
theorem Exact.perm {n : ℕ} {xs ys result result' : List τ} (h : xs.Perm ys)
    (hxs : Exact c n xs result) (hys : Exact c n ys result') :
    (result.map fun t => (c.key t, c.count t)).Perm
      (result'.map fun t => (c.key t, c.count t)) := by
  refine hxs.trans (List.Perm.trans (List.Perm.of_eq ?_) hys.symm)
  rw [leaders_perm c h]
  exact List.map_congr_left fun k _ => congrArg (Prod.mk k) (total_perm c h k)

end LogRisk.Library.TopCounts
