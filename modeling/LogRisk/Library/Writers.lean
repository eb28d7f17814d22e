import Mathlib.Data.List.Induction
import Mathlib.Data.List.Nodup
import Mathlib.Data.Set.Function

/-!
# Writing to more files than may be open

Texts are written under keys, each key to a file of its own.  Only so many files are
open: the one unused for longest is closed for the next, and opened again at its end.
An open file holds back what it likes of its text until it is closed.
-/

namespace LogRisk.Library.Writers

variable {κ π α : Type}

structure Desk (κ π α : Type) where
  files : π → Option (List α)
  /-- The keys of the open files, the one unused for longest first. -/
  handles : List κ := []
  /-- What an open file has not handed over. -/
  pending : κ → List α := fun _ => []
  everOpened : List κ := []

structure Writing (κ α : Type) where
  key : κ
  text : List α
  /-- How much of what is pending is handed over at once. -/
  handed : ℕ

/-- The text written under a key. -/
def textOf [DecidableEq κ] (writings : List (Writing κ α)) (k : κ) : List α :=
  (writings.filter fun w => decide (w.key = k)).flatMap Writing.text

section Desk

variable [DecidableEq κ] [DecidableEq π] (path : κ → π)

/-- The text goes to the end of the file. -/
def append (files : π → Option (List α)) (p : π) (text : List α) : π → Option (List α) :=
  Function.update files p (some ((files p).getD [] ++ text))

namespace Desk

def close (desk : Desk κ π α) (k : κ) : Desk κ π α :=
  { desk with
    files := append desk.files (path k) (desk.pending k)
    handles := desk.handles.erase k
    pending := Function.update desk.pending k [] }

/-- Room for one more file. -/
def evict (budget : ℕ) (desk : Desk κ π α) : Desk κ π α :=
  match desk.handles with
  | [] => desk
  | oldest :: _ => if budget ≤ desk.handles.length then desk.close path oldest else desk

/-- A file is emptied when it is opened first, and opened at its end from then on. -/
def openFile (desk : Desk κ π α) (k : κ) : Desk κ π α :=
  { desk with
    files := if k ∈ desk.everOpened then append desk.files (path k) []
      else Function.update desk.files (path k) (some [])
    handles := desk.handles ++ [k]
    everOpened := k :: desk.everOpened }

/-- The file of the key is open, and the last one to be closed. -/
def use (budget : ℕ) (desk : Desk κ π α) (k : κ) : Desk κ π α :=
  if k ∈ desk.handles then { desk with handles := desk.handles.erase k ++ [k] }
  else (desk.evict path budget).openFile path k

def put (desk : Desk κ π α) (w : Writing κ α) : Desk κ π α :=
  let text := desk.pending w.key ++ w.text
  { desk with
    files := append desk.files (path w.key) (text.take w.handed)
    pending := Function.update desk.pending w.key (text.drop w.handed) }

def write (budget : ℕ) (desk : Desk κ π α) (w : Writing κ α) : Desk κ π α :=
  (desk.use path budget w.key).put path w

def closeAll (desk : Desk κ π α) : Desk κ π α := desk.handles.foldl (close path) desk

end Desk

/-- The writings one after the other, on a desk with no file open. -/
def written (budget : ℕ) (files : π → Option (List α)) (writings : List (Writing κ α)) :
    Desk κ π α :=
  writings.foldl (Desk.write path budget) { files }

end Desk

/-! ## What a desk keeps -/

variable [DecidableEq κ] [DecidableEq π] {path : κ → π}

/-- File and pending text of a key together are its text; all other files are as they
were. -/
structure Keeps (path : κ → π) (start : π → Option (List α)) (keys : Set κ) (text : κ → List α)
    (desk : Desk κ π α) : Prop where
  nodup : desk.handles.Nodup
  known : ∀ k ∈ desk.everOpened, k ∈ keys
  opened : ∀ k ∈ desk.handles, k ∈ desk.everOpened
  idle : ∀ k, k ∉ desk.handles → desk.pending k = []
  content : ∀ k ∈ desk.everOpened,
    ∃ c, desk.files (path k) = some c ∧ c ++ desk.pending k = text k
  blank : ∀ k, k ∉ desk.everOpened → text k = []
  others : ∀ p, (∀ k ∈ desk.everOpened, path k ≠ p) → desk.files p = start p

section Steps

variable {start : π → Option (List α)} {keys : Set κ} {text : κ → List α} {desk : Desk κ π α}

theorem append_self (files : π → Option (List α)) (p : π) (t : List α) :
    append files p t p = some ((files p).getD [] ++ t) := Function.update_self ..

theorem append_of_ne {files : π → Option (List α)} {p q : π} (h : q ≠ p) (t : List α) :
    append files p t q = files q := Function.update_of_ne h ..

omit [DecidableEq κ] [DecidableEq π] in
theorem keeps_start : Keeps path start keys (fun _ => ([] : List α)) { files := start } where
  nodup := List.nodup_nil
  known _ hk := absurd hk List.not_mem_nil
  opened _ hk := absurd hk List.not_mem_nil
  idle _ _ := rfl
  content _ hk := absurd hk List.not_mem_nil
  blank _ _ := rfl
  others _ _ := rfl

theorem Keeps.close (h : Keeps path start keys text desk) (hpath : Set.InjOn path keys) {k : κ}
    (hk : k ∈ desk.handles) : Keeps path start keys text (desk.close path k) where
  nodup := h.nodup.erase k
  known := h.known
  opened := fun j hj => h.opened j (List.mem_of_mem_erase hj)
  idle := by
    intro j hj
    by_cases hjk : j = k
    · rw [hjk]
      exact Function.update_self ..
    · have hnot : j ∉ desk.handles := fun hmem => hj ((List.mem_erase_of_ne hjk).mpr hmem)
      exact (Function.update_of_ne hjk ..).trans (h.idle j hnot)
  content := by
    intro j hj
    obtain ⟨c, hc, htext⟩ := h.content j hj
    by_cases hjk : j = k
    · subst hjk
      refine ⟨c ++ desk.pending j, ?_, ?_⟩
      · change append desk.files (path j) (desk.pending j) (path j) = _
        rw [append_self, hc]
        rfl
      · change _ ++ Function.update desk.pending j [] j = _
        rw [Function.update_self, List.append_nil, htext]
    · have hne : path j ≠ path k := fun heq =>
        hjk (hpath (h.known j hj) (h.known k (h.opened k hk)) heq)
      refine ⟨c, (append_of_ne hne _).trans hc, ?_⟩
      change c ++ Function.update desk.pending k [] j = _
      rw [Function.update_of_ne hjk, htext]
  blank := h.blank
  others := by
    intro p hp
    exact (append_of_ne (hp k (h.opened k hk)).symm _).trans (h.others p hp)

theorem Keeps.evict (h : Keeps path start keys text desk) (hpath : Set.InjOn path keys)
    (budget : ℕ) : Keeps path start keys text (desk.evict path budget) := by
  unfold Desk.evict
  split
  · exact h
  · rename_i oldest rest hhandles
    split
    · exact h.close hpath (hhandles ▸ List.mem_cons_self)
    · exact h

/-- A file that is not open holds all of its text. -/
theorem Keeps.openFile (h : Keeps path start keys text desk) (hpath : Set.InjOn path keys) {k : κ}
    (hk : k ∉ desk.handles) (hkey : k ∈ keys) :
    Keeps path start keys text (desk.openFile path k) where
  nodup := List.nodup_append.mpr
    ⟨h.nodup, List.nodup_singleton k, fun a ha b hb hab =>
      hk (List.mem_singleton.mp hb ▸ hab ▸ ha)⟩
  known := List.forall_mem_cons.mpr ⟨hkey, h.known⟩
  opened := by
    intro j hj
    rcases List.mem_append.mp hj with hj | hj
    · exact List.mem_cons_of_mem _ (h.opened j hj)
    · rw [List.mem_singleton.mp hj]
      exact List.mem_cons_self
  idle := fun j hj => h.idle j fun hmem => hj (List.mem_append_left _ hmem)
  content := by
    intro j hj
    by_cases hjk : j = k
    · subst hjk
      have hidle : desk.pending j = [] := h.idle j hk
      by_cases hever : j ∈ desk.everOpened
      · obtain ⟨c, hc, htext⟩ := h.content j hever
        refine ⟨c, ?_, htext⟩
        unfold Desk.openFile
        dsimp only
        rw [if_pos hever, append_self, hc]
        simp
      · refine ⟨[], ?_, ?_⟩
        · unfold Desk.openFile
          dsimp only
          rw [if_neg hever, Function.update_self]
        · change [] ++ desk.pending j = text j
          rw [hidle, h.blank j hever]
          rfl
    · have hmem : j ∈ desk.everOpened := (List.mem_cons.mp hj).resolve_left hjk
      obtain ⟨c, hc, htext⟩ := h.content j hmem
      have hne : path j ≠ path k := fun heq => hjk (hpath (h.known j hmem) hkey heq)
      refine ⟨c, ?_, htext⟩
      unfold Desk.openFile
      dsimp only
      split
      · rw [append_of_ne hne, hc]
      · rw [Function.update_of_ne hne, hc]
  blank := fun j hj => h.blank j fun hmem => hj (List.mem_cons_of_mem _ hmem)
  others := by
    intro p hp
    have hne : p ≠ path k := (hp k List.mem_cons_self).symm
    have hold := h.others p fun j hj => hp j (List.mem_cons_of_mem _ hj)
    unfold Desk.openFile
    dsimp only
    split
    · rw [append_of_ne hne, hold]
    · rw [Function.update_of_ne hne, hold]

omit [DecidableEq π] in
/-- The order of the open files carries nothing. -/
theorem Keeps.touch (h : Keeps path start keys text desk) {k : κ} (hk : k ∈ desk.handles) :
    Keeps path start keys text { desk with handles := desk.handles.erase k ++ [k] } := by
  have hperm : (desk.handles.erase k ++ [k]).Perm desk.handles :=
    List.perm_append_comm.trans (List.perm_cons_erase hk).symm
  exact ⟨hperm.nodup_iff.mpr h.nodup, h.known, fun j hj => h.opened j (hperm.mem_iff.mp hj),
    fun j hj => h.idle j fun hmem => hj (hperm.mem_iff.mpr hmem), h.content, h.blank, h.others⟩

theorem mem_evict {budget : ℕ} {k : κ} (hk : k ∈ (desk.evict path budget).handles) :
    k ∈ desk.handles := by
  unfold Desk.evict at hk
  split at hk
  · exact hk
  · split at hk
    · exact List.mem_of_mem_erase hk
    · exact hk

theorem Keeps.use (h : Keeps path start keys text desk) (hpath : Set.InjOn path keys)
    (budget : ℕ) {k : κ} (hkey : k ∈ keys) :
    Keeps path start keys text (desk.use path budget k) ∧
      k ∈ (desk.use path budget k).handles := by
  unfold Desk.use
  split
  · rename_i hk
    exact ⟨h.touch hk, List.mem_append_right _ List.mem_cons_self⟩
  · rename_i hk
    exact ⟨(h.evict hpath budget).openFile hpath (fun hmem => hk (mem_evict hmem)) hkey,
      List.mem_append_right _ List.mem_cons_self⟩

/-- What is written is added to the text of its key, wherever the file is cut. -/
theorem Keeps.put (h : Keeps path start keys text desk) (hpath : Set.InjOn path keys)
    {w : Writing κ α} (hk : w.key ∈ desk.handles) :
    Keeps path start keys (Function.update text w.key (text w.key ++ w.text))
      (desk.put path w) where
  nodup := h.nodup
  known := h.known
  opened := h.opened
  idle := by
    intro j hj
    have hne : j ≠ w.key := fun heq => hj (heq ▸ hk)
    exact (Function.update_of_ne hne ..).trans (h.idle j hj)
  content := by
    intro j hj
    obtain ⟨c, hc, htext⟩ := h.content j hj
    by_cases hjk : j = w.key
    · subst hjk
      refine ⟨c ++ (desk.pending w.key ++ w.text).take w.handed, ?_, ?_⟩
      · change append desk.files (path w.key) _ (path w.key) = _
        rw [append_self, hc]
        rfl
      · change _ ++ Function.update desk.pending w.key _ w.key = _
        rw [Function.update_self, Function.update_self, List.append_assoc, List.take_append_drop,
          ← List.append_assoc, htext]
    · have hne : path j ≠ path w.key := fun heq =>
        hjk (hpath (h.known j hj) (h.known _ (h.opened _ hk)) heq)
      refine ⟨c, (append_of_ne hne _).trans hc, ?_⟩
      change c ++ Function.update desk.pending w.key _ j = _
      rw [Function.update_of_ne hjk, Function.update_of_ne hjk, htext]
  blank := by
    intro j hj
    have hne : j ≠ w.key := fun heq => hj (heq ▸ h.opened _ hk)
    rw [Function.update_of_ne hne]
    exact h.blank j hj
  others := fun p hp => (append_of_ne (hp _ (h.opened _ hk)).symm _).trans (h.others p hp)

theorem Keeps.write (h : Keeps path start keys text desk) (hpath : Set.InjOn path keys)
    (budget : ℕ) {w : Writing κ α} (hkey : w.key ∈ keys) :
    Keeps path start keys (Function.update text w.key (text w.key ++ w.text))
      (desk.write path budget w) := by
  obtain ⟨hkeeps, hopen⟩ := h.use hpath budget hkey
  exact hkeeps.put hpath hopen

end Steps

/-! ## Whole runs -/

variable {start : π → Option (List α)} {keys : Set κ} {writings : List (Writing κ α)} {budget : ℕ}

theorem textOf_append_singleton (writings : List (Writing κ α)) (w : Writing κ α) :
    textOf (writings ++ [w]) =
      Function.update (textOf writings) w.key (textOf writings w.key ++ w.text) := by
  funext k
  unfold textOf
  by_cases hk : k = w.key
  · subst hk
    simp
  · rw [Function.update_of_ne hk, List.filter_append, List.flatMap_append]
    simp [Ne.symm hk]

variable (start budget) in
theorem keeps_written (hpath : Set.InjOn path keys) (hkeys : ∀ w ∈ writings, w.key ∈ keys) :
    Keeps path start keys (textOf writings) (written path budget start writings) := by
  induction writings using List.reverseRecOn with
  | nil => exact keeps_start
  | append_singleton front w ih =>
      have hfront := ih fun v hv => hkeys v (List.mem_append_left _ hv)
      rw [textOf_append_singleton]
      unfold written at hfront ⊢
      rw [List.foldl_append]
      exact hfront.write hpath budget (hkeys w (List.mem_append_right _ List.mem_cons_self))

theorem everOpened_evict (desk : Desk κ π α) :
    (desk.evict path budget).everOpened = desk.everOpened := by
  unfold Desk.evict
  split
  · rfl
  · split <;> rfl

theorem mem_everOpened_use {desk : Desk κ π α} {j k : κ} (h : ∀ j ∈ desk.handles, j ∈ desk.everOpened) :
    j ∈ (desk.use path budget k).everOpened ↔ j = k ∨ j ∈ desk.everOpened := by
  unfold Desk.use
  split
  · rename_i hk
    exact ⟨fun hj => .inr hj, fun hj => hj.elim (fun heq => heq ▸ h k hk) fun hj => hj⟩
  · change j ∈ k :: (desk.evict path budget).everOpened ↔ _
    rw [everOpened_evict, List.mem_cons]

variable (start budget) in
/-- The keys written to are the keys whose files were opened. -/
theorem mem_everOpened (hpath : Set.InjOn path keys) (hkeys : ∀ w ∈ writings, w.key ∈ keys) {k : κ} :
    k ∈ (written path budget start writings).everOpened ↔ k ∈ writings.map Writing.key := by
  induction writings using List.reverseRecOn with
  | nil => exact Iff.rfl
  | append_singleton front w ih =>
      have hfront := fun v hv => hkeys v (List.mem_append_left [w] hv)
      have hkeeps := keeps_written start budget hpath hfront
      have hold := ih hfront
      unfold written at hkeeps hold ⊢
      rw [List.foldl_append, List.map_append, List.mem_append, ← hold]
      change k ∈ (Desk.use path budget _ w.key).everOpened ↔ _
      rw [mem_everOpened_use hkeeps.opened]
      simp [or_comm]

theorem Keeps.closeAll {text : κ → List α} {desk : Desk κ π α}
    (h : Keeps path start keys text desk) (hpath : Set.InjOn path keys) :
    Keeps path start keys text (desk.closeAll path) ∧ (desk.closeAll path).handles = [] ∧
      (desk.closeAll path).everOpened = desk.everOpened := by
  unfold Desk.closeAll
  generalize hhandles : desk.handles = handles
  induction handles generalizing desk with
  | nil => exact ⟨h, hhandles, rfl⟩
  | cons k rest ih =>
      have hrest : (desk.close path k).handles = rest := by
        change desk.handles.erase k = rest
        rw [hhandles, List.erase_cons_head]
      exact ih (h.close hpath (hhandles ▸ List.mem_cons_self)) hrest

variable (start budget) in
/-- However few files are open and however their text is held back, in the end every
file holds what was written under its key, and no other file has changed. -/
theorem files_closeAll (hpath : Set.InjOn path keys) (hkeys : ∀ w ∈ writings, w.key ∈ keys) :
    (∀ k ∈ writings.map Writing.key,
      ((written path budget start writings).closeAll path).files (path k) =
        some (textOf writings k)) ∧
      ∀ p, (∀ k ∈ writings.map Writing.key, path k ≠ p) →
        ((written path budget start writings).closeAll path).files p = start p := by
  have hwritten := keeps_written start budget hpath hkeys
  obtain ⟨hkeeps, hclosed, hever⟩ := hwritten.closeAll hpath
  constructor
  · intro k hk
    rw [← mem_everOpened start budget hpath hkeys, ← hever] at hk
    obtain ⟨c, hc, htext⟩ := hkeeps.content k hk
    have hidle := hkeeps.idle k (by rw [hclosed]; exact List.not_mem_nil)
    rw [hidle, List.append_nil] at htext
    rw [hc, htext]
  · intro p hp
    refine hkeeps.others p fun k hk => hp k ?_
    rw [hever] at hk
    exact (mem_everOpened start budget hpath hkeys).mp hk

/-! ## The number of open files -/

theorem length_use (hbudget : 0 < budget) {desk : Desk κ π α} {k : κ}
    (h : desk.handles.length ≤ budget) : (desk.use path budget k).handles.length ≤ budget := by
  unfold Desk.use
  split
  · rename_i hk
    change (desk.handles.erase k ++ [k]).length ≤ budget
    have hpos := List.length_pos_of_mem hk
    rw [List.length_append, List.length_erase_of_mem hk, List.length_singleton]
    omega
  · change ((desk.evict path budget).handles ++ [k]).length ≤ budget
    rw [List.length_append, List.length_singleton]
    unfold Desk.evict
    split
    · rename_i hnil
      rw [hnil, List.length_nil]
      omega
    · rename_i oldest rest hhandles
      split
      · change (desk.handles.erase oldest).length + 1 ≤ budget
        rw [hhandles, List.erase_cons_head]
        rw [hhandles, List.length_cons] at h
        exact h
      · omega

theorem length_handles (hbudget : 0 < budget) :
    (written path budget start writings).handles.length ≤ budget := by
  induction writings using List.reverseRecOn with
  | nil => exact Nat.zero_le _
  | append_singleton front w ih =>
      unfold written at ih ⊢
      rw [List.foldl_append]
      exact length_use hbudget ih

end LogRisk.Library.Writers
