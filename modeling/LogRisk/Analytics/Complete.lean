import LogRisk.Analytics.Views

/-!
# Complete pages and complete exports

Following the cursors of a view reads every selected row once, newest first, exactly when the
query has a condition and every cursor at the end of a page is short enough to be sent back.  An
export does not send its cursors back.
-/

namespace LogRisk.Analytics

open LogRisk.Library LogRisk.Library.Transaction LogRisk.Library.Paging
open LogRisk.Library.Dict (assoc alterEntries)

variable {α β : Type} {view : View α} {host : Host} {f : Filters}

/-! ## What a view selects -/

/-- The rows that satisfy all conditions. -/
def View.selected (view : View α) : List α :=
  view.rows.filter fun row => view.clauses.all fun clause => clause row

/-- The selected rows, newest first. -/
def View.all (view : View α) : List α := ordered view.position view.selected

/-- Selected rows have different positions, none of which is empty. -/
structure View.Keyed (view : View α) : Prop where
  nodup : (view.selected.map view.position).Nodup
  written : ∀ row ∈ view.selected, view.orderAt row ≠ "" ∧ view.itemId row ≠ ""

theorem positionOf_lt {a b c d : String} :
    positionOf a b < positionOf c d ↔ c < a ∨ c = a ∧ d < b := by
  unfold positionOf
  rw [WithBot.coe_lt_coe, OrderDual.toDual_lt_toDual, Prod.Lex.toLex_lt_toLex]

theorem behind_eq (view : View α) (timestamp itemId : String) (row : α) :
    view.behind timestamp itemId row = decide (positionOf timestamp itemId < view.position row) := by
  unfold View.behind View.position
  rw [decide_eq_decide, positionOf_lt]

theorem bot_lt_position (view : View α) (row : α) : (⊥ : Position) < view.position row :=
  WithBot.bot_lt_coe _

theorem View.Keyed.of_ids (hids : (view.rows.map view.itemId).Nodup)
    (hwritten : ∀ row ∈ view.selected, view.orderAt row ≠ "" ∧ view.itemId row ≠ "") :
    view.Keyed where
  nodup := by
    have hselected : (view.selected.map view.itemId).Nodup :=
      hids.sublist (List.filter_sublist.map view.itemId)
    rw [List.Nodup, List.pairwise_map] at hselected ⊢
    refine hselected.imp fun {a b} hne heq => hne ?_
    have hpair := WithBot.coe_injective heq
    exact congrArg (fun p : (String ×ₗ String)ᵒᵈ => (ofLex (OrderDual.ofDual p)).2) hpair
  written := hwritten

/-! ## Pages behind a position -/

/-- The page that follows a position. -/
def View.pageBehind (view : View α) (host : Host) (f : Filters) (after : Position) : Page α :=
  let rows := (remaining view.position after view.selected).take (f.pageSize + 1)
  let items := rows.take f.pageSize
  { items := items
    nextCursor := if f.pageSize < rows.length then items.getLast?.map (view.cursor host f) else none
    hasMore := f.pageSize < rows.length }

theorem page_start (hclauses : view.clauses.isEmpty = false) :
    view.page host f none = .ok (view.pageBehind host f ⊥) := by
  have hall : remaining view.position ⊥ view.selected = ordered view.position view.selected :=
    remaining_eq_ordered fun row _ => bot_lt_position view row
  rw [View.page, View.pageBehind, hall]
  show (view.select (view.clauses ++ []) >>= fun selected => _) = _
  rw [List.append_nil, View.select, require_of hclauses]
  rfl

theorem page_start_error (hclauses : view.clauses.isEmpty = true) :
    view.page host f none = .error (.database "near \"ORDER\": syntax error") := by
  rw [View.page]
  show (view.select (view.clauses ++ []) >>= fun selected => _) = _
  rw [List.append_nil, View.select, require_of_not (by rw [hclauses]; decide)]
  rfl

/-- The cursor of a selected row continues behind its position. -/
theorem page_continued (hkeyed : view.Keyed) {row : α} (hrow : row ∈ view.selected) :
    view.page host f (some (view.cursor host f row)) =
      .ok (view.pageBehind host f (view.position row)) := by
  obtain ⟨horder, hid⟩ := hkeyed.written row hrow
  have hcontinued : view.continued host f (some (view.cursor host f row)) =
      .ok [view.behind (view.orderAt row) (view.itemId row)] := by
    rw [View.continued, View.cursor, cursorPayload_makeCursor host f horder hid]
    rfl
  have hnonempty : (view.clauses ++ [view.behind (view.orderAt row) (view.itemId row)]).isEmpty =
      false := by
    cases view.clauses <;> rfl
  have hselected : view.rows.filter (fun r =>
      (view.clauses ++ [view.behind (view.orderAt row) (view.itemId row)]).all
        fun clause => clause r) =
      view.selected.filter fun r => decide (view.position row < view.position r) := by
    unfold View.selected
    rw [List.filter_filter]
    refine List.filter_congr fun r _ => ?_
    rw [List.all_append, List.all_cons, List.all_nil, Bool.and_true, behind_eq, Bool.and_comm]
    rfl
  have hremaining : ordered view.position
      (view.selected.filter fun r => decide (view.position row < view.position r)) =
      remaining view.position (view.position row) view.selected :=
    ordered_filter hkeyed.nodup _
  rw [View.page, hcontinued]
  show (view.select _ >>= fun selected => _) = _
  rw [View.select, require_of hnonempty]
  show Except.ok _ = _
  rw [hselected, hremaining]
  rfl

/-! ## Page boundaries -/

/-- The row at the end of a page behind which rows remain. -/
def View.Boundary (view : View α) (size : ℕ) (row : α) : Prop :=
  ∃ j, (j + 1) * size < view.all.length ∧ view.all[(j + 1) * size - 1]? = some row

/-- The cursors that following comes to, and the position that each denotes. -/
def View.Reached (view : View α) (host : Host) (f : Filters) (cursor : Option String)
    (after : Position) : Prop :=
  cursor = none ∧ after = ⊥ ∨
    ∃ row, view.Boundary f.pageSize row ∧ cursor = some (view.cursor host f row) ∧
      after = view.position row

theorem View.Boundary.mem {size : ℕ} {row : α} (h : view.Boundary size row) :
    row ∈ view.selected := by
  obtain ⟨j, -, hrow⟩ := h
  exact mem_ordered.mp (List.mem_of_getElem? hrow)

theorem remaining_start (view : View α) : remaining view.position ⊥ view.selected = view.all :=
  remaining_eq_ordered fun row _ => bot_lt_position view row

theorem remaining_boundary (hkeyed : view.Keyed) {k : ℕ} {row : α} (hrow : view.all[k]? = some row) :
    remaining view.position (view.position row) view.selected = view.all.drop (k + 1) := by
  have hsplit : remaining view.position ⊥ view.selected =
      view.all.take k ++ row :: view.all.drop (k + 1) := by
    obtain ⟨hlt, rfl⟩ := List.getElem?_eq_some_iff.mp hrow
    rw [remaining_start, List.getElem_cons_drop, List.take_append_drop]
  exact remaining_split hkeyed.nodup hsplit

/-- Whatever has been reached, a whole number of pages has been read. -/
theorem reached_pages (hkeyed : view.Keyed) (hsize : 0 < f.pageSize) {cursor : Option String}
    {after : Position} (h : view.Reached host f cursor after) :
    ∃ j, remaining view.position after view.selected = view.all.drop (j * f.pageSize) := by
  rcases h with ⟨-, rfl⟩ | ⟨row, ⟨j, -, hrow⟩, -, rfl⟩
  · exact ⟨0, by rw [remaining_start, Nat.zero_mul, List.drop_zero]⟩
  · refine ⟨j + 1, ?_⟩
    have hpos : 0 < (j + 1) * f.pageSize := Nat.mul_pos (Nat.succ_pos j) hsize
    rw [remaining_boundary hkeyed hrow, Nat.sub_add_cancel hpos]

variable (host) in
theorem pageBehind_items {after : Position} {rest : List α}
    (hafter : remaining view.position after view.selected = rest) :
    (view.pageBehind host f after).items = rest.take f.pageSize := by
  unfold View.pageBehind
  rw [hafter]
  show (rest.take (f.pageSize + 1)).take f.pageSize = _
  rw [List.take_take, Nat.min_eq_left (Nat.le_succ _)]

theorem pageBehind_nextCursor {after : Position} {rest : List α}
    (hafter : remaining view.position after view.selected = rest) :
    (view.pageBehind host f after).nextCursor =
      if f.pageSize < rest.length then (rest.take f.pageSize).getLast?.map (view.cursor host f)
      else none := by
  have hmore : f.pageSize < (rest.take (f.pageSize + 1)).length ↔ f.pageSize < rest.length := by
    rw [List.length_take]
    omega
  rw [← pageBehind_items host hafter]
  unfold View.pageBehind
  rw [hafter]
  exact if_congr hmore rfl rfl

/-- The last row of a page that is full. -/
theorem getLast?_page {size : ℕ} (hsize : 0 < size) (l : List α) {j : ℕ}
    (h : size < (l.drop (j * size)).length) :
    ((l.drop (j * size)).take size).getLast? = l[(j + 1) * size - 1]? := by
  have hindex : j * size + (size - 1) = (j + 1) * size - 1 := by
    rw [Nat.succ_mul]
    omega
  rw [List.getLast?_eq_getElem?, List.length_take, Nat.min_eq_left h.le,
    List.getElem?_take_of_lt (by omega), List.getElem?_drop, hindex]

/-- A page delivers the next rows, with the cursor of the last of them where rows remain. -/
theorem pageBehind_delivers (hsize : 0 < f.pageSize) {after : Position} {j : ℕ}
    (hafter : remaining view.position after view.selected = view.all.drop (j * f.pageSize))
    (shown : α → β) :
    Delivers view.position view.selected (fun row item => shown row = item)
      (view.Reached host f) after ((view.pageBehind host f after).items.map shown,
        (view.pageBehind host f after).nextCursor.map some) := by
  refine ⟨(view.all.drop (j * f.pageSize)).take f.pageSize,
    (view.all.drop (j * f.pageSize)).drop f.pageSize, ?_, ?_, ?_⟩
  · rw [hafter, List.take_append_drop]
  · rw [pageBehind_items host hafter, List.forall₂_map_right_iff, List.forall₂_same]
    exact fun _ _ => rfl
  · by_cases hlong : f.pageSize < (view.all.drop (j * f.pageSize)).length
    · right
      have hread : (view.all.drop (j * f.pageSize)).take f.pageSize ≠ [] := by
        refine List.ne_nil_of_length_pos ?_
        rw [List.length_take]
        omega
      have hlast := List.getLast?_eq_getLast_of_ne_nil hread
      refine ⟨hread, some (view.cursor host f (List.getLast _ hread)), ?_, .inr
        ⟨_, ⟨j, ?_, ?_⟩, rfl, rfl⟩⟩
      · rw [pageBehind_nextCursor hafter, if_pos hlong, hlast]
        rfl
      · rw [List.length_drop] at hlong
        rw [Nat.succ_mul]
        omega
      · rw [← getLast?_page hsize view.all hlong, hlast]
    · left
      refine ⟨List.drop_eq_nil_iff.mpr (by omega), ?_⟩
      rw [pageBehind_nextCursor hafter, if_neg hlong]
      rfl

/-- The cursor of the page before a boundary is that of its row. -/
theorem nextCursor_boundary (hsize : 0 < f.pageSize) {after : Position} {j : ℕ}
    (hafter : remaining view.position after view.selected = view.all.drop (j * f.pageSize))
    {row : α} (hlt : (j + 1) * f.pageSize < view.all.length)
    (hrow : view.all[(j + 1) * f.pageSize - 1]? = some row) :
    (view.pageBehind host f after).nextCursor = some (view.cursor host f row) := by
  have hlong : f.pageSize < (view.all.drop (j * f.pageSize)).length := by
    rw [List.length_drop]
    rw [Nat.succ_mul] at hlt
    omega
  rw [pageBehind_nextCursor hafter, if_pos hlong, getLast?_page hsize view.all hlong, hrow]
  rfl

/-! ## Complete reading -/

/-- Following the cursors from the start comes to an end and has read every selected row once,
newest first. -/
def Complete (fetch : Option String → Outcome (List β × Option (Option String))) (view : View α)
    (shown : α → β) : Prop :=
  ∀ fuel, view.selected.length < fuel → ∃ items, follow fetch fuel none = .ok (some items) ∧
    Enumerates view.position view.selected (fun row item => shown row = item) items

/-- Pages fetched by cursors of which some may be refused. -/
structure Fetches (fetch : Option String → Outcome (List β × Option (Option String)))
    (view : View α) (host : Host) (f : Filters) (shown : α → β) (Accepted : String → Prop) : Prop where
  start : fetch none = (view.page host f none).map fun page =>
    (page.items.map shown, page.nextCursor.map some)
  accepted : ∀ cursor, Accepted cursor → fetch (some cursor) =
    (view.page host f (some cursor)).map fun page => (page.items.map shown, page.nextCursor.map some)
  refused : ∀ cursor, ¬ Accepted cursor → ∃ e, fetch (some cursor) = .error e

variable {fetch : Option String → Outcome (List β × Option (Option String))} {shown : α → β}
variable {Accepted : String → Prop}

theorem complete_of_accepted (h : Fetches fetch view host f shown Accepted) (hkeyed : view.Keyed)
    (hsize : 0 < f.pageSize) (hclauses : view.clauses.isEmpty = false)
    (hboundary : ∀ row, view.Boundary f.pageSize row → Accepted (view.cursor host f row)) :
    Complete fetch view shown := by
  intro fuel hfuel
  have hfetch : ∀ cursor after, view.Reached host f cursor after → ∃ page,
      fetch cursor = .ok page ∧ Delivers view.position view.selected
        (fun row item => shown row = item) (view.Reached host f) after page := by
    intro cursor after hreached
    obtain ⟨j, hafter⟩ := reached_pages hkeyed hsize hreached
    refine ⟨_, ?_, pageBehind_delivers hsize hafter shown⟩
    rcases hreached with ⟨rfl, rfl⟩ | ⟨row, hrow, rfl, rfl⟩
    · rw [h.start, page_start hclauses]
      rfl
    · rw [h.accepted _ (hboundary row hrow), page_continued hkeyed hrow.mem]
      rfl
  exact enumerates_of_delivers hkeyed.nodup hfetch (.inl ⟨rfl, rfl⟩)
    (fun row _ => bot_lt_position view row) hfuel

theorem Fetches.accepted_of_ok (h : Fetches fetch view host f shown Accepted) {cursor : String}
    {page : List β × Option (Option String)} (hpage : fetch (some cursor) = .ok page) :
    Accepted cursor := by
  by_contra hrefused
  obtain ⟨e, he⟩ := h.refused cursor hrefused
  rw [hpage] at he
  cases he

/-- Following that comes to an end goes on behind a page at whose end there is a boundary. -/
theorem follows_next (h : Fetches fetch view host f shown Accepted) (hsize : 0 < f.pageSize)
    {cursor : Option String} (after : Position)
    (hfetch : fetch cursor = .ok ((view.pageBehind host f after).items.map shown,
      (view.pageBehind host f after).nextCursor.map some)) {j : ℕ}
    (hafter : remaining view.position after view.selected = view.all.drop (j * f.pageSize))
    {row : α} (hlt : (j + 1) * f.pageSize < view.all.length)
    (hrow : view.all[(j + 1) * f.pageSize - 1]? = some row)
    (hfollow : ∃ fuel items, follow fetch fuel cursor = .ok (some items)) :
    Accepted (view.cursor host f row) ∧ ∃ fuel items,
      follow fetch fuel (some (view.cursor host f row)) = .ok (some items) := by
  obtain ⟨fuel, items, hitems⟩ := hfollow
  obtain ⟨page, hpage, hbehind⟩ := follow_eq_ok hitems
  cases hfetch.symm.trans hpage
  have hnext : (view.pageBehind host f after).nextCursor.map some =
      some (some (view.cursor host f row)) := by
    rw [nextCursor_boundary hsize hafter hlt hrow]
    rfl
  obtain ⟨fuel', rest, hrest⟩ := hbehind _ hnext
  obtain ⟨next, hfetched, -⟩ := follow_eq_ok hrest
  exact ⟨h.accepted_of_ok hfetched, fuel', rest, hrest⟩

/-- Following that comes to an end has fetched the page behind every boundary. -/
theorem follows_boundary (h : Fetches fetch view host f shown Accepted) (hkeyed : view.Keyed)
    (hsize : 0 < f.pageSize) (hclauses : view.clauses.isEmpty = false)
    (hfollow : ∃ fuel items, follow fetch fuel none = .ok (some items)) (j : ℕ) {row : α}
    (hlt : (j + 1) * f.pageSize < view.all.length)
    (hrow : view.all[(j + 1) * f.pageSize - 1]? = some row) :
    Accepted (view.cursor host f row) ∧ ∃ fuel items,
      follow fetch fuel (some (view.cursor host f row)) = .ok (some items) := by
  induction j generalizing row with
  | zero =>
      refine follows_next h hsize ⊥ ?_ ?_ hlt hrow hfollow
      · rw [h.start, page_start hclauses]
        rfl
      · rw [remaining_start, Nat.zero_mul, List.drop_zero]
  | succ j ih =>
      have hpos : 0 < (j + 1) * f.pageSize := Nat.mul_pos (Nat.succ_pos j) hsize
      have hbefore : (j + 1) * f.pageSize < view.all.length := by
        rw [Nat.succ_mul] at hlt
        omega
      have hindex : (j + 1) * f.pageSize - 1 < view.all.length := by omega
      have hprevious := List.getElem?_eq_getElem hindex
      obtain ⟨haccepted, hgoes⟩ := ih hbefore hprevious
      have hmem : view.Boundary f.pageSize view.all[(j + 1) * f.pageSize - 1] :=
        ⟨j, hbefore, hprevious⟩
      refine follows_next h hsize (view.position view.all[(j + 1) * f.pageSize - 1]) ?_ ?_ hlt hrow
        hgoes
      · rw [h.accepted _ haccepted, page_continued hkeyed hmem.mem]
        rfl
      · rw [remaining_boundary hkeyed hprevious, Nat.sub_add_cancel hpos]

/-- A view is read completely exactly when its query has a condition and every cursor at the end
of a page is accepted. -/
theorem complete_iff (h : Fetches fetch view host f shown Accepted) (hkeyed : view.Keyed)
    (hsize : 0 < f.pageSize) :
    Complete fetch view shown ↔ view.clauses.isEmpty = false ∧
      ∀ row, view.Boundary f.pageSize row → Accepted (view.cursor host f row) := by
  constructor
  · intro hcomplete
    obtain ⟨items, hitems, -⟩ := hcomplete (view.selected.length + 1) (Nat.lt_succ_self _)
    have hclauses : view.clauses.isEmpty = false := by
      obtain ⟨page, hpage, -⟩ := follow_eq_ok hitems
      cases hempty : view.clauses.isEmpty with
      | false => rfl
      | true =>
          rw [h.start, page_start_error hempty] at hpage
          cases hpage
    refine ⟨hclauses, ?_⟩
    rintro row ⟨j, hlt, hrow⟩
    exact (follows_boundary h hkeyed hsize hclauses ⟨_, _, hitems⟩ j hlt hrow).1
  · rintro ⟨hclauses, hboundary⟩
    exact complete_of_accepted h hkeyed hsize hclauses hboundary

end LogRisk.Analytics
