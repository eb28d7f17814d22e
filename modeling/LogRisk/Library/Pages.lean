import LogRisk.Library.Checks
import LogRisk.Library.Paging

/-!
# Following a cursor from page to page

A page answers with items and, where it has not come to the end, with the key of the last row
it delivered.  A page may be cut by the number of its rows and by the bytes of its items; what
matters to a reader that follows the keys is only that a page delivers a prefix of what remains
and that the prefix is not empty unless nothing remains.
-/

namespace LogRisk.Library.Paging

open Transaction

universe w

variable {α β γ κ : Type} [LinearOrder κ] {ε : Type w}
variable {key : α → κ} {rows : List α}

/-- Selecting rows keeps their order. -/
theorem ordered_filter (hkeys : (rows.map key).Nodup) (p : α → Bool) :
    ordered key (rows.filter p) = (ordered key rows).filter p := by
  have hperm : (ordered key (rows.filter p)).Perm ((ordered key rows).filter p) :=
    (ordered_perm key _).trans ((ordered_perm key rows).symm.filter p)
  have hkept : ((rows.filter p).map key).Nodup := hkeys.sublist (List.filter_sublist.map key)
  refine hperm.eq_of_pairwise ?_ (pairwise_ordered hkept) ((pairwise_ordered hkeys).filter p)
  intro a b _ _ hab hba
  exact absurd hab (lt_asymm hba)

/-- The page behind `after` delivers the first of the remaining rows, in order, each as an item
that `Shows` it; a cursor is given where rows remain, and it denotes the key of the last row
delivered. -/
def Delivers (key : α → κ) (rows : List α) (Shows : α → β → Prop) (Denotes : γ → κ → Prop)
    (after : κ) (page : List β × Option γ) : Prop :=
  ∃ read rest, remaining key after rows = read ++ rest ∧ List.Forall₂ Shows read page.1 ∧
    (rest = [] ∧ page.2 = none ∨
      ∃ h : read ≠ [], ∃ next, page.2 = some next ∧ Denotes next (key (read.getLast h)))

theorem Delivers.mono {Shows : α → β → Prop} {after : κ} {page : List β × Option κ}
    (h : Delivers key rows Shows Eq after page) {Denotes : γ → κ → Prop} {cursorOf : κ → γ}
    (hcursor : ∀ row ∈ rows, Denotes (cursorOf (key row)) (key row)) :
    Delivers key rows Shows Denotes after (page.1, page.2.map cursorOf) := by
  obtain ⟨read, rest, hsplit, hshown, hend⟩ := h
  refine ⟨read, rest, hsplit, hshown, ?_⟩
  rcases hend with ⟨hrest, hnext⟩ | ⟨hread, next, hnext, rfl⟩
  · exact .inl ⟨hrest, by rw [hnext]; rfl⟩
  · refine .inr ⟨hread, _, by rw [hnext]; rfl, ?_⟩
    have hmem : read.getLast hread ∈ remaining key after rows := by
      rw [hsplit]
      exact List.mem_append_left rest (List.getLast_mem hread)
    exact hcursor _ (mem_remaining.mp hmem).1

/-- The pages behind a cursor, one after the other; no answer where the fuel does not last. -/
def follow (fetch : γ → Except ε (List β × Option γ)) : ℕ → γ → Except ε (Option (List β))
  | 0, _ => .ok none
  | fuel + 1, cursor => do
      let (items, next) ← fetch cursor
      match next with
      | none => return some items
      | some cursor => do
          let rest ← follow fetch fuel cursor
          return rest.map (items ++ ·)

theorem follow_last {fetch : γ → Except ε (List β × Option γ)} {cursor : γ} {items : List β}
    (h : fetch cursor = .ok (items, none)) (fuel : ℕ) :
    follow fetch (fuel + 1) cursor = .ok (some items) := by
  rw [follow, h]
  rfl

theorem follow_next {fetch : γ → Except ε (List β × Option γ)} {cursor next : γ} {fuel : ℕ}
    {items rest : List β} (h : fetch cursor = .ok (items, some next))
    (hrest : follow fetch fuel next = .ok (some rest)) :
    follow fetch (fuel + 1) cursor = .ok (some (items ++ rest)) := by
  rw [follow, h]
  show (follow fetch fuel next >>= fun rest => pure (rest.map (items ++ ·))) = _
  rw [hrest]
  rfl

/-- Where following comes to an end, the first page was fetched, and following its cursor comes to
an end. -/
theorem follow_eq_ok {fetch : γ → Except ε (List β × Option γ)} {fuel : ℕ} {cursor : γ}
    {items : List β} (h : follow fetch fuel cursor = .ok (some items)) :
    ∃ page, fetch cursor = .ok page ∧ ∀ next, page.2 = some next →
      ∃ fuel rest, follow fetch fuel next = .ok (some rest) := by
  cases fuel with
  | zero => cases h
  | succ fuel =>
      rw [follow] at h
      obtain ⟨⟨shown, next⟩, hpage, h⟩ := bind_eq_ok.mp h
      refine ⟨(shown, next), hpage, fun cursor' hnext => ?_⟩
      change next = some cursor' at hnext
      subst hnext
      obtain ⟨rest, hrest, h⟩ := bind_eq_ok.mp h
      cases rest with
      | none => cases h
      | some rest => exact ⟨fuel, rest, hrest⟩

/-- The items are the rows, each shown once, in the order of the keys. -/
def Enumerates (key : α → κ) (rows : List α) (Shows : α → β → Prop) (items : List β) : Prop :=
  ∃ l : List α, l.Perm rows ∧ (l.Pairwise fun a b => key a < key b) ∧ List.Forall₂ Shows l items

/-- A reader that follows pages which deliver comes to the end, in one page more than there are
rows at most, and has then every remaining row once, in the order of the keys. -/
theorem follow_of_delivers (hkeys : (rows.map key).Nodup) {Shows : α → β → Prop}
    {Denotes : γ → κ → Prop} {fetch : γ → Except ε (List β × Option γ)}
    (hfetch : ∀ cursor after, Denotes cursor after → ∃ page, fetch cursor = .ok page ∧
      Delivers key rows Shows Denotes after page)
    {fuel : ℕ} {cursor : γ} {after : κ} (hafter : Denotes cursor after)
    (hfuel : (remaining key after rows).length < fuel) :
    ∃ items, follow fetch fuel cursor = .ok (some items) ∧
      List.Forall₂ Shows (remaining key after rows) items := by
  induction fuel generalizing cursor after with
  | zero => omega
  | succ fuel ih =>
      obtain ⟨⟨items, next⟩, hpage, read, rest, hsplit, hshown, hend⟩ := hfetch cursor after hafter
      rcases hend with ⟨hrest, hnext⟩ | ⟨hread, cursor', hnext, hdenotes⟩
      · change next = none at hnext
        subst hrest hnext
        refine ⟨items, follow_last hpage fuel, ?_⟩
        rwa [hsplit, List.append_nil]
      · change next = some cursor' at hnext
        subst hnext
        have hbehind := remaining_prefix_append hkeys hread hsplit
        have hless : (remaining key (key (read.getLast hread)) rows).length < fuel := by
          have hlength : 0 < read.length := List.length_pos_iff.mpr hread
          rw [hsplit, List.length_append] at hfuel
          rw [hbehind]
          omega
        obtain ⟨more, hmore, hshows⟩ := ih hdenotes hless
        refine ⟨items ++ more, follow_next hpage hmore, ?_⟩
        rw [hsplit, ← hbehind]
        exact List.rel_append hshown hshows

/-- From a cursor below all keys the reader enumerates the table. -/
theorem enumerates_of_delivers (hkeys : (rows.map key).Nodup) {Shows : α → β → Prop}
    {Denotes : γ → κ → Prop} {fetch : γ → Except ε (List β × Option γ)}
    (hfetch : ∀ cursor after, Denotes cursor after → ∃ page, fetch cursor = .ok page ∧
      Delivers key rows Shows Denotes after page)
    {cursor : γ} {start : κ} (hstart : Denotes cursor start) (hbelow : ∀ row ∈ rows, start < key row)
    {fuel : ℕ} (hfuel : rows.length < fuel) :
    ∃ items, follow fetch fuel cursor = .ok (some items) ∧ Enumerates key rows Shows items := by
  have hall := remaining_eq_ordered hbelow
  have hless : (remaining key start rows).length < fuel := by
    rw [hall, (ordered_perm key rows).length_eq]
    exact hfuel
  obtain ⟨items, hitems, hshows⟩ := follow_of_delivers hkeys hfetch hstart hless
  rw [hall] at hshows
  exact ⟨items, hitems, _, ordered_perm key rows, pairwise_ordered hkeys, hshows⟩

/-! ## Cutting a page -/

/-- The rows of a page with the items they are shown as; the page ends before the item that
exceeds its bytes, unless it is the first. -/
def fill (render : α → Except ε β) (size : β → ℕ) (budget : ℕ) (tooLarge : ε) (used : ℕ) :
    List α → Except ε (List (α × β))
  | [] => .ok []
  | row :: rest => do
      let item ← render row
      require (size item ≤ budget) tooLarge
      if used ≠ 0 ∧ budget < used + size item then return []
      else do
        let filled ← fill render size budget tooLarge (used + size item) rest
        return (row, item) :: filled

/-- One row more than the page may hold is fetched, to see whether rows remain. -/
def readPage (key : α → κ) (render : α → Except ε β) (size : β → ℕ) (budget : ℕ) (tooLarge : ε)
    (after : κ) (limit : ℕ) (rows : List α) : Except ε (List β × Option κ) := do
  let fetched := page key after (limit + 1) rows
  let filled ← fill render size budget tooLarge 0 (fetched.take limit)
  return (filled.map Prod.snd,
    if filled.length < fetched.length then filled.getLast?.map fun e => key e.1 else none)

variable {render : α → Except ε β} {size : β → ℕ} {budget : ℕ}

/-- The row is shown, within the bytes of a page. -/
def Admitted (render : α → Except ε β) (size : β → ℕ) (budget : ℕ) (row : α) : Prop :=
  ∃ item, render row = .ok item ∧ size item ≤ budget

/-- A page of rows each of which is admitted is a prefix of them, and not the empty one. -/
theorem fill_eq_ok {l : List α} (h : ∀ row ∈ l, Admitted render size budget row) (tooLarge : ε)
    (used : ℕ) :
    ∃ filled, fill render size budget tooLarge used l = .ok filled ∧
      filled.map Prod.fst <+: l ∧ (∀ e ∈ filled, render e.1 = .ok e.2) ∧
      (used = 0 → l ≠ [] → filled ≠ []) := by
  induction l generalizing used with
  | nil => exact ⟨[], rfl, List.prefix_rfl, fun e he => absurd he List.not_mem_nil,
      fun _ hne => absurd rfl hne⟩
  | cons row rest ih =>
      obtain ⟨item, hitem, hsize⟩ := h row List.mem_cons_self
      have hstep : fill render size budget tooLarge used (row :: rest) =
          if used ≠ 0 ∧ budget < used + size item then .ok []
          else do
            let filled ← fill render size budget tooLarge (used + size item) rest
            return (row, item) :: filled := by
        rw [fill, hitem]
        show (require (size item ≤ budget) tooLarge >>= fun _ => _) = _
        rw [require_of hsize]
        rfl
      rw [hstep]
      by_cases hcut : used ≠ 0 ∧ budget < used + size item
      · rw [if_pos hcut]
        exact ⟨[], rfl, List.nil_prefix, fun e he => absurd he List.not_mem_nil,
          fun hzero => absurd hzero hcut.1⟩
      · rw [if_neg hcut]
        obtain ⟨filled, hfilled, hinitial, hshown, -⟩ :=
          ih (fun r hr => h r (List.mem_cons_of_mem row hr)) (used + size item)
        rw [hfilled]
        refine ⟨(row, item) :: filled, rfl, ?_, ?_, fun _ _ => List.cons_ne_nil _ _⟩
        · exact List.cons_prefix_cons.mpr ⟨rfl, hinitial⟩
        · exact List.forall_mem_cons.mpr ⟨hitem, hshown⟩

/-- A page cut by rows and by bytes delivers, whatever the limit and the bytes are. -/
theorem readPage_delivers (tooLarge : ε) {limit : ℕ} (hlimit : 0 < limit)
    (hrows : ∀ row ∈ rows, Admitted render size budget row) (after : κ) :
    ∃ page, readPage key render size budget tooLarge after limit rows = .ok page ∧
      Delivers key rows (fun row item => render row = .ok item) Eq after page := by
  set fetched := page key after (limit + 1) rows with hfetched
  have hadmitted : ∀ row ∈ fetched.take limit, Admitted render size budget row := by
    intro row hrow
    have hmem : row ∈ remaining key after rows :=
      List.mem_of_mem_take (List.mem_of_mem_take hrow)
    exact hrows row (mem_remaining.mp hmem).1
  obtain ⟨filled, hfilled, hinitial, hshown, hne⟩ := fill_eq_ok hadmitted tooLarge 0
  have hpage : readPage key render size budget tooLarge after limit rows =
      .ok (filled.map Prod.snd,
        if filled.length < fetched.length then filled.getLast?.map fun e => key e.1 else none) := by
    rw [readPage, hfilled]
    rfl
  refine ⟨_, hpage, filled.map Prod.fst, (remaining key after rows).drop filled.length, ?_, ?_, ?_⟩
  · have hread : filled.map Prod.fst <+: remaining key after rows :=
      hinitial.trans ((List.take_prefix _ _).trans (List.take_prefix _ _))
    have htake := List.prefix_iff_eq_take.mp hread
    rw [List.length_map] at htake
    rw [htake, List.take_append_drop]
  · rw [List.forall₂_map_left_iff, List.forall₂_map_right_iff, List.forall₂_same]
    exact hshown
  · have hlength : fetched.length = min (limit + 1) (remaining key after rows).length := by
      rw [hfetched, page, List.length_take]
    have hbound : filled.length ≤ min limit fetched.length := by
      simpa using hinitial.length_le
    by_cases hmore : filled.length < fetched.length
    · right
      have hnonempty : filled ≠ [] := by
        refine hne rfl fun hnil => ?_
        rw [List.take_eq_nil_iff] at hnil
        rcases hnil with hnil | hnil
        · omega
        · rw [hnil, List.length_nil] at hmore
          omega
      have hread : filled.map Prod.fst ≠ [] := by simpa using hnonempty
      refine ⟨hread, _, ?_, rfl⟩
      show (if filled.length < fetched.length then _ else none) = _
      rw [if_pos hmore, List.getLast?_eq_getLast_of_ne_nil hnonempty, Option.map_some,
        List.getLast_map]
    · left
      refine ⟨List.drop_eq_nil_iff.mpr (by omega), if_neg hmore⟩

/-- Following pages that are cut by rows and by bytes enumerates the table. -/
theorem enumerates_of_readPage (decode : γ → κ) (cursorOf : κ → γ) (tooLarge : ε)
    (hkeys : (rows.map key).Nodup) (hcursor : ∀ row ∈ rows, decode (cursorOf (key row)) = key row)
    {limit : ℕ} (hlimit : 0 < limit)
    (hrows : ∀ row ∈ rows, Admitted render size budget row)
    {fetch : γ → Except ε (List β × Option γ)}
    (hfetch : ∀ cursor, fetch cursor =
      (readPage key render size budget tooLarge (decode cursor) limit rows).map
        fun page => (page.1, page.2.map cursorOf))
    {cursor : γ} (hbelow : ∀ row ∈ rows, decode cursor < key row) {fuel : ℕ}
    (hfuel : rows.length < fuel) :
    ∃ items, follow fetch fuel cursor = .ok (some items) ∧
      Enumerates key rows (fun row item => render row = .ok item) items := by
  have hdelivers : ∀ cursor after, decode cursor = after → ∃ page, fetch cursor = .ok page ∧
      Delivers key rows (fun row item => render row = .ok item)
        (fun cursor after => decode cursor = after) after page := by
    rintro cursor _ rfl
    obtain ⟨page, hpage, hdelivers⟩ := readPage_delivers tooLarge hlimit hrows (decode cursor)
    refine ⟨(page.1, page.2.map cursorOf), ?_, hdelivers.mono hcursor⟩
    rw [hfetch, hpage]
    rfl
  exact enumerates_of_delivers hkeys hdelivers rfl hbelow hfuel

end LogRisk.Library.Paging
