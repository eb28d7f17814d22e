import LogRisk.Events.Stream

/-!
# Delivery of events

The numbers in the table are the places of the rows.  While a list that a manager holds is
the beginning of the table, its client is given the events in order and each once.  A
review event takes its number from the table: where the list lacks a row of another
process, the event is numbered beyond its place, and the client's next cursor passes over
the row that the next merge puts there.
-/

namespace LogRisk.Events

variable {β : Type} [DecidableEq β]

/-- The events are numbered by their places. -/
def Contiguous (events : List (Event β)) : Prop :=
  events.map (·.sequence) = List.range events.length

theorem nextSequence_le_iff (table : List (Event β)) {n : ℕ} :
    nextSequence table ≤ n ↔ ∀ e ∈ table, e.sequence + 1 ≤ n := by
  unfold nextSequence
  induction table with
  | nil => simp
  | cons e table ih =>
      rw [List.map_cons, List.foldr_cons, Nat.max_le, ih, List.forall_mem_cons]

namespace Contiguous

variable {events events' : List (Event β)}

theorem nil : Contiguous ([] : List (Event β)) := rfl

theorem concat (h : Contiguous events) (body : β) :
    Contiguous (events ++ [⟨events.length, body⟩]) := by
  unfold Contiguous
  rw [List.map_append, show events.map (·.sequence) = _ from h, List.length_append,
    List.length_singleton, List.range_succ]
  rfl

theorem of_prefix (h : Contiguous events) (hle : events' <+: events) : Contiguous events' := by
  have hmap : events'.map (·.sequence) <+: List.range events.length := by
    have hmap := hle.map (·.sequence)
    rwa [show events.map (·.sequence) = _ from h] at hmap
  have htake := List.prefix_iff_eq_take.mp hmap
  rw [List.length_map, List.take_range, Nat.min_eq_left hle.length_le] at htake
  exact htake

theorem sequence_lt (h : Contiguous events) {e : Event β} (he : e ∈ events) :
    e.sequence < events.length := by
  have hmem : e.sequence ∈ events.map (·.sequence) := List.mem_map_of_mem he
  rw [show events.map (·.sequence) = _ from h] at hmem
  exact List.mem_range.mp hmem

theorem mem_iff (h : Contiguous events) {k : ℕ} :
    k ∈ events.map (·.sequence) ↔ k < events.length := by
  rw [show events.map (·.sequence) = _ from h]
  exact List.mem_range

theorem getLast (h : Contiguous events) {last : Event β} (hlast : events.getLast? = some last) :
    last.sequence + 1 = events.length := by
  obtain ⟨before, rfl⟩ := List.getLast?_eq_some_iff.mp hlast
  have hmap := h
  unfold Contiguous at hmap
  rw [List.map_append, List.length_append, List.length_singleton, List.range_succ] at hmap
  have hend := List.singleton_inj.mp (List.append_inj' hmap rfl).2
  rw [List.length_append, List.length_singleton]
  exact congrArg (· + 1) hend

theorem pairwise (h : Contiguous events) :
    events.Pairwise fun e e' => e.sequence < e'.sequence := by
  rw [← List.pairwise_map (f := Event.sequence) (R := (· < ·)),
    show events.map Event.sequence = _ from h]
  exact List.pairwise_lt_range

theorem ordered_eq (h : Contiguous events) : ordered events = events := by
  unfold ordered
  exact (h.pairwise.imp fun hlt => hlt.le).insertionSort_eq

theorem nextSequence_eq (h : Contiguous events) : nextSequence events = events.length := by
  apply Nat.le_antisymm
  · exact (nextSequence_le_iff events).mpr fun e he => h.sequence_lt he
  · cases hn : events.length with
    | zero => exact Nat.zero_le _
    | succ n =>
        have hmem : n ∈ events.map (·.sequence) := h.mem_iff.mpr (by omega)
        obtain ⟨e, he, hseq⟩ := List.mem_map.mp hmem
        have hle := (nextSequence_le_iff events).mp (Nat.le_refl _) e he
        omega

theorem append_numbered (h : Contiguous events) (bodies : List β) :
    Contiguous (events ++ numbered events bodies) := by
  unfold Contiguous numbered
  rw [h.nextSequence_eq, List.map_append, show events.map (·.sequence) = _ from h,
    List.length_append, List.length_mapIdx, List.range_add]
  refine congrArg _ (List.ext_getElem (by simp) fun i hi hi' => ?_)
  simp

theorem insertRow_of_lt (h : Contiguous events) {e : Event β} (he : e.sequence < events.length) :
    insertRow events e = events := by
  unfold insertRow
  rw [if_pos (h.mem_iff.mpr he)]

theorem insertRow_next (h : Contiguous events) (body : β) :
    insertRow events ⟨events.length, body⟩ = events ++ [⟨events.length, body⟩] := by
  unfold insertRow
  rw [if_neg (fun hmem => absurd (h.mem_iff.mp hmem) (Nat.lt_irrefl _))]

theorem foldl_insertRow {new : List (Event β)} (h : Contiguous (events ++ new)) :
    (events ++ new).foldl insertRow events = events ++ new := by
  have hevents : Contiguous events := h.of_prefix (List.prefix_append _ _)
  have hold : ∀ rest, rest ⊆ events → rest.foldl insertRow events = events := by
    intro rest hrest
    induction rest with
    | nil => rfl
    | cons e rest ih =>
        rw [List.foldl_cons, hevents.insertRow_of_lt (hevents.sequence_lt (hrest List.mem_cons_self))]
        exact ih fun x hx => hrest (List.mem_cons_of_mem _ hx)
  rw [List.foldl_append, hold events (List.Subset.refl _)]
  clear hold
  induction new generalizing events with
  | nil => exact (List.append_nil _).symm
  | cons e rest ih =>
      have hstep : Contiguous (events ++ [e] ++ rest) := by rwa [← List.append_cons]
      have hlast := (hstep.of_prefix (List.prefix_append _ _)).getLast List.getLast?_concat
      rw [List.length_append, List.length_singleton] at hlast
      have he : e = ⟨events.length, e.body⟩ := by
        rw [← Nat.add_right_cancel hlast]
      rw [List.foldl_cons, he, hevents.insertRow_next, ← he, List.append_cons events e rest]
      exact ih hstep (hstep.of_prefix (List.prefix_append _ _))

end Contiguous

/-! ## The merge -/

/-- The loop has appended events numbered by their places. -/
structure Merging (table : List (Event β)) (m : Merge β) : Prop where
  grown : table <+: m.merged
  contiguous : Contiguous m.merged
  next : m.next = m.merged.length
  used : ∀ k, k ∈ m.used ↔ k < m.merged.length

theorem firstFree_of_not_mem {used : List ℕ} {sequence : ℕ} (h : sequence ∉ used) (fuel : ℕ) :
    firstFree used fuel sequence = sequence := by
  cases fuel with
  | zero => rfl
  | succ fuel => exact if_neg h

theorem Merging.start {table : List (Event β)} (h : Contiguous table) :
    Merging table (.start table) where
  grown := by
    change table <+: ordered table
    exact h.ordered_eq.symm ▸ List.prefix_refl table
  contiguous := by
    change Contiguous (ordered table)
    rwa [h.ordered_eq]
  next := by
    change nextSequence table = (ordered table).length
    rw [h.ordered_eq, h.nextSequence_eq]
  used k := by
    change k ∈ (ordered table).map (·.sequence) ↔ k < (ordered table).length
    rw [h.ordered_eq]
    exact h.mem_iff

theorem Merging.add {table : List (Event β)} {m : Merge β} (h : Merging table m)
    {incoming : Event β} (hle : incoming.sequence ≤ table.length) : Merging table (m.add incoming) := by
  unfold Merge.add
  split
  · exact h
  · have hgrown := h.grown.length_le
    have hfirst : (if incoming.sequence ∈ m.used then m.next else incoming.sequence) =
        m.merged.length := by
      split
      · exact h.next
      · rename_i hfree
        rw [h.used] at hfree
        omega
    have hfree : m.merged.length ∉ m.used := fun hmem => Nat.lt_irrefl _ ((h.used _).mp hmem)
    simp only [hfirst, firstFree_of_not_mem hfree]
    refine ⟨h.grown.trans (List.prefix_append _ _), h.contiguous.concat incoming.body, ?_,
      fun k => ?_⟩
    · rw [List.length_append, List.length_singleton]
      change max m.next (m.merged.length + 1) = m.merged.length + 1
      rw [h.next]
      omega
    · rw [List.mem_cons, h.used, List.length_append, List.length_singleton]
      omega

theorem mergedEvents_spec {table incoming : List (Event β)} (h : Contiguous table)
    (hle : ∀ e ∈ incoming, e.sequence ≤ table.length) :
    ∃ new, mergedEvents table incoming = table ++ new ∧ Contiguous (table ++ new) := by
  have hmerging : ∀ m, Merging table m → Merging table (incoming.foldl Merge.add m) := by
    induction incoming with
    | nil => exact fun m hm => hm
    | cons e rest ih =>
        intro m hm
        exact ih (fun x hx => hle x (List.mem_cons_of_mem _ hx)) _
          (hm.add (hle e List.mem_cons_self))
  have hend := hmerging _ (.start h)
  obtain ⟨new, hnew⟩ := hend.grown
  exact ⟨new, hnew.symm, hnew ▸ hend.contiguous⟩

/-! ## Reading -/

/-- What the client has received is the beginning of the list up to its cursor. -/
structure Delivered (events : List (Event β)) (s : State β) : Prop where
  received : s.received <+: events
  cursor : s.cursor = s.received.length

theorem Delivered.deliver {events page : List (Event β)} {s : State β} (h : Delivered events s)
    (hc : Contiguous events) (hpage : page <+: events.drop s.cursor) :
    Delivered events (s.deliver page) ∧ (s.deliver page).received = s.received ++ page := by
  have hall : s.received ++ page <+: events := by
    obtain ⟨rest, hrest⟩ := hpage
    refine ⟨rest, ?_⟩
    rw [List.append_assoc, hrest, h.cursor]
    obtain ⟨tail, rfl⟩ := h.received
    rw [List.drop_left]
  unfold State.deliver
  split
  · rename_i hnone
    rw [List.getLast?_eq_none_iff.mp hnone, List.append_nil]
    exact ⟨h, rfl⟩
  · rename_i last hlast
    refine ⟨⟨hall, ?_⟩, rfl⟩
    refine (hc.of_prefix hall).getLast ?_
    rw [List.getLast?_append, hlast]
    rfl

/-! ## A job whose lists the processes hold -/

/-- A manager that numbers an event by the table holds every row of it. -/
def UpToDate (m : ℕ) (s : State β) : Action β → Prop
  | .emitReview p _ => p = m → s.table.length ≤ (s.job m).length
  | .resolve p _ => p = m → ∀ events, s.lists m = some events → s.table.length ≤ events.length
  | _ => True

structure Inv (m : ℕ) (s : State β) : Prop where
  contiguous : Contiguous s.table
  held : ∀ p events, s.lists p = some events →
    events.length ≤ s.table.length ∧ ∀ e ∈ events, e.sequence < s.table.length
  own : ∀ events, s.lists m = some events → events <+: s.table ∧ s.received <+: events
  received : s.received <+: s.table
  cursor : s.cursor = s.received.length

section Lists

variable {m : ℕ} {s : State β}

namespace Inv

theorem job_held (h : Inv m s) (p : ℕ) :
    (s.job p).length ≤ s.table.length ∧ ∀ e ∈ s.job p, e.sequence < s.table.length := by
  unfold State.job
  cases hlist : s.lists p with
  | some events => exact h.held p events hlist
  | none =>
      change (ordered s.table).length ≤ _ ∧ ∀ e ∈ ordered s.table, _
      rw [h.contiguous.ordered_eq]
      exact ⟨Nat.le_refl _, fun e he => h.contiguous.sequence_lt he⟩

theorem job_own (h : Inv m s) : s.job m <+: s.table ∧ s.received <+: s.job m := by
  unfold State.job
  cases hlist : s.lists m with
  | some events => exact h.own events hlist
  | none =>
      change ordered s.table <+: _ ∧ _ <+: ordered s.table
      rw [h.contiguous.ordered_eq]
      exact ⟨List.prefix_refl _, h.received⟩

/-- The table grows, and a process has another list. -/
theorem grow (h : Inv m s) {new : List (Event β)} (hnew : Contiguous (s.table ++ new)) (p : ℕ)
    (list : Option (List (Event β)))
    (hheld : ∀ events, list = some events → events.length ≤ (s.table ++ new).length ∧
      ∀ e ∈ events, e.sequence < (s.table ++ new).length)
    (hown : p = m → ∀ events, list = some events →
      events <+: s.table ++ new ∧ s.received <+: events) :
    Inv m { s.setList p list with table := s.table ++ new } where
  contiguous := hnew
  held q events hq := by
    change Function.update s.lists p list q = some events at hq
    by_cases hqp : q = p
    · rw [hqp, Function.update_self] at hq
      exact hheld events hq
    · rw [Function.update_of_ne hqp] at hq
      obtain ⟨hlength, hsequence⟩ := h.held q events hq
      have hle : s.table.length ≤ (s.table ++ new).length := by simp
      exact ⟨hlength.trans hle, fun e he => (hsequence e he).trans_le hle⟩
  own events hm := by
    change Function.update s.lists p list m = some events at hm
    by_cases hpm : p = m
    · rw [hpm, Function.update_self] at hm
      exact hown hpm events hm
    · rw [Function.update_of_ne (Ne.symm hpm)] at hm
      obtain ⟨hinitial, hreceived⟩ := h.own events hm
      exact ⟨hinitial.trans (List.prefix_append _ _), hreceived⟩
  received := h.received.trans (List.prefix_append _ _)
  cursor := h.cursor

/-- A process has another list, and the table is the same. -/
theorem setList (h : Inv m s) (p : ℕ) {list : Option (List (Event β))}
    (hheld : ∀ events, list = some events → events.length ≤ s.table.length ∧
      ∀ e ∈ events, e.sequence < s.table.length)
    (hown : p = m → ∀ events, list = some events →
      events <+: s.table ∧ s.received <+: events) : Inv m (s.setList p list) := by
  have hnil : s.table ++ [] = s.table := List.append_nil _
  have hgrow := h.grow (hnil.symm ▸ h.contiguous) p list (by rwa [hnil]) (by rwa [hnil])
  rwa [hnil] at hgrow

theorem load (h : Inv m s) (p : ℕ) : Inv m (s.setList p (some (s.job p))) := by
  refine h.setList p (fun events hevents => ?_) fun hp events hevents => ?_
  · rw [← Option.some.inj hevents]
    exact h.job_held p
  · rw [← Option.some.inj hevents, hp]
    exact h.job_own

theorem reload (h : Inv m s) (p : ℕ) : Inv m (s.setList p (some (ordered s.table))) := by
  rw [h.contiguous.ordered_eq]
  refine h.setList p (fun events hevents => ?_) fun _ events hevents => ?_
  · rw [← Option.some.inj hevents]
    exact ⟨Nat.le_refl _, fun e he => h.contiguous.sequence_lt he⟩
  · rw [← Option.some.inj hevents]
    exact ⟨List.prefix_refl _, h.received⟩

theorem emit (h : Inv m s) (p : ℕ) (body : β) : Inv m (s.emit p body) := by
  obtain ⟨hlength, hsequence⟩ := h.job_held p
  have hincoming : ∀ e ∈ s.job p ++ [⟨(s.job p).length, body⟩], e.sequence ≤ s.table.length := by
    intro e he
    rcases List.mem_append.mp he with he | he
    · exact (hsequence e he).le
    · rw [List.mem_singleton.mp he]
      exact hlength
  obtain ⟨new, hmerged, hnew⟩ := mergedEvents_spec h.contiguous hincoming
  unfold State.emit State.save
  simp only [hmerged, hnew.foldl_insertRow]
  refine h.grow hnew p _ (fun events hevents => ?_) fun _ events hevents => ?_
  · rw [← Option.some.inj hevents]
    exact ⟨Nat.le_refl _, fun e he => hnew.sequence_lt he⟩
  · rw [← Option.some.inj hevents]
    exact ⟨List.prefix_refl _, h.received.trans (List.prefix_append _ _)⟩

/-- Events numbered by the table go to the end of a list that holds every row. -/
theorem extend (h : Inv m s) {new events : List (Event β)} (hnew : Contiguous (s.table ++ new))
    (hheld : events.length ≤ s.table.length ∧ ∀ e ∈ events, e.sequence < s.table.length) :
    (events ++ new).length ≤ (s.table ++ new).length ∧
      ∀ e ∈ events ++ new, e.sequence < (s.table ++ new).length := by
  constructor
  · rw [List.length_append, List.length_append]
    exact Nat.add_le_add_right hheld.1 _
  · intro e he
    rcases List.mem_append.mp he with he | he
    · refine (hheld.2 e he).trans_le ?_
      simp
    · exact hnew.sequence_lt (List.mem_append_right _ he)

theorem extend_own (h : Inv m s) {new events : List (Event β)} (hinitial : events <+: s.table)
    (hreceived : s.received <+: events) (hall : s.table.length ≤ events.length) :
    events ++ new <+: s.table ++ new ∧ s.received <+: events ++ new := by
  rw [hinitial.eq_of_length_le hall]
  exact ⟨List.prefix_refl _, h.received.trans (List.prefix_append _ _)⟩

theorem emitReview (h : Inv m s) {p : ℕ} {body : β}
    (hcurrent : p = m → s.table.length ≤ (s.job m).length) : Inv m (s.emitReview p body) := by
  unfold State.emitReview
  rw [h.contiguous.nextSequence_eq]
  have hnew := h.contiguous.concat body
  refine h.grow hnew p _ (fun events hevents => ?_) fun hp events hevents => ?_
  · rw [← Option.some.inj hevents]
    exact h.extend hnew (h.job_held p)
  · rw [← Option.some.inj hevents, hp]
    exact h.extend_own h.job_own.1 h.job_own.2 (hcurrent hp)

theorem resolve (h : Inv m s) {p : ℕ} {bodies : List β}
    (hcurrent : p = m → ∀ events, s.lists m = some events → s.table.length ≤ events.length) :
    Inv m (s.resolve p bodies) := by
  unfold State.resolve
  have hnew := h.contiguous.append_numbered bodies
  refine h.grow hnew p _ (fun events hevents => ?_) fun hp events hevents => ?_
  · obtain ⟨current, hlist, rfl⟩ := Option.map_eq_some_iff.mp hevents
    exact h.extend hnew (h.held p current hlist)
  · obtain ⟨current, hlist, rfl⟩ := Option.map_eq_some_iff.mp hevents
    rw [hp] at hlist
    obtain ⟨hinitial, hreceived⟩ := h.own current hlist
    exact h.extend_own hinitial hreceived (hcurrent hp current hlist)

theorem refresh (h : Inv m s) (p : ℕ) : Inv m (s.refresh p) := by
  unfold State.refresh
  split
  · exact h.reload p
  · split
    · exact h
    · exact h.reload p

/-- After a read the client has received the whole list. -/
theorem wait (h : Inv m s) : Inv m (s.wait m) ∧ (s.wait m).received = s.job m := by
  have hload := h.load m
  obtain ⟨hinitial, hreceived⟩ := h.job_own
  have hdelivered : Delivered (s.job m) (s.setList m (some (s.job m))) := ⟨hreceived, h.cursor⟩
  obtain ⟨hnext, hall⟩ := hdelivered.deliver (h.contiguous.of_prefix hinitial) (List.prefix_refl _)
  have hwhole : (s.wait m).received = s.job m := by
    refine hall.trans ?_
    obtain ⟨rest, hrest⟩ := hreceived
    change s.received ++ (s.job m).drop s.cursor = s.job m
    rw [← hrest, h.cursor, List.drop_left]
  have hsame : (s.wait m).table = s.table ∧
      (s.wait m).lists = Function.update s.lists m (some (s.job m)) := by
    unfold State.wait State.deliver
    split
    · exact ⟨rfl, rfl⟩
    · exact ⟨rfl, rfl⟩
  refine ⟨⟨?_, ?_, fun events hm => ?_, ?_, hnext.cursor⟩, hwhole⟩
  · rw [hsame.1]
    exact h.contiguous
  · rw [hsame.1, hsame.2]
    exact hload.held
  · rw [hsame.2, Function.update_self] at hm
    rw [hsame.1, hwhole, ← Option.some.inj hm]
    exact ⟨hinitial, List.prefix_refl _⟩
  · rw [hsame.1, hwhole]
    exact hinitial

theorem step (h : Inv m s) {a : Action β} (ha : UpToDate m s a) : Inv m (step m s a) := by
  cases a with
  | emit p body => exact h.emit p body
  | emitReview p body => exact h.emitReview ha
  | resolve p bodies => exact h.resolve ha
  | load p => exact h.load p
  | refresh p => exact h.refresh p
  | trim p => exact h.setList p (fun _ hnone => by cases hnone) fun _ _ hnone => by cases hnone
  | wait => exact h.wait.1

end Inv

theorem created_lists {p q : ℕ} {events : List (Event β)}
    (h : (created p : State β).lists q = some events) : events = [] := by
  change Function.update (fun _ => none) p (some []) q = some events at h
  rw [Function.update_apply] at h
  split at h
  · exact (Option.some.inj h).symm
  · cases h

theorem created_inv (m p : ℕ) : Inv m (created p : State β) where
  contiguous := .nil
  held q events hq := by
    rw [created_lists hq]
    exact ⟨Nat.le_refl _, fun e he => absurd he List.not_mem_nil⟩
  own events hm := by
    rw [created_lists hm]
    exact ⟨List.prefix_refl _, List.prefix_refl _⟩
  received := List.prefix_refl _
  cursor := rfl

end Lists

/-! ## A paged job -/

/-- A length that was read before is not beyond the rows. -/
def PagedAction.Possible (s : State β) : PagedAction β → Prop
  | .emit read _ => read ≤ nextSequence s.table
  | _ => True

structure PagedInv (s : State β) : Prop where
  contiguous : Contiguous s.table
  delivered : Delivered s.table s

theorem Contiguous.sequence_getElem {events : List (Event β)} (h : Contiguous events) {i : ℕ}
    (hi : i < events.length) : events[i].sequence = i := by
  have hget : (events.map (·.sequence))[i]? = some i := by
    rw [show events.map (·.sequence) = _ from h, List.getElem?_range hi]
  rw [List.getElem?_map, List.getElem?_eq_getElem hi] at hget
  exact Option.some.inj hget

theorem Contiguous.filter_eq_drop {events : List (Event β)} (h : Contiguous events) (start : ℕ) :
    (events.filter fun e => start ≤ e.sequence ∧ e.sequence < events.length) =
      events.drop start := by
  conv_lhs => rw [← List.take_append_drop start events]
  rw [List.filter_append, List.filter_eq_nil_iff.mpr, List.filter_eq_self.mpr, List.nil_append]
  · intro e he
    obtain ⟨i, hi, rfl⟩ := List.mem_iff_getElem.mp he
    rw [List.length_drop] at hi
    rw [List.getElem_drop, h.sequence_getElem, List.take_append_drop]
    exact decide_eq_true ⟨Nat.le_add_right _ _, by omega⟩
  · intro e he
    have hlt := (h.of_prefix (List.take_prefix start events)).sequence_lt he
    rw [List.length_take] at hlt
    simp only [decide_eq_true_eq]
    omega

theorem Contiguous.page_eq {s : State β} (h : Contiguous s.table) (start : ℕ) :
    s.page start (nextSequence s.table) = (s.table.drop start).take 200 := by
  unfold State.page
  rw [h.nextSequence_eq, h.filter_eq_drop]
  unfold ordered
  rw [((h.pairwise.sublist (List.drop_sublist start s.table)).imp fun hlt =>
    hlt.le).insertionSort_eq]

theorem deliver_table (s : State β) (page : List (Event β)) :
    (s.deliver page).table = s.table := by
  unfold State.deliver
  split
  · rfl
  · rfl

namespace PagedInv

variable {s : State β}

theorem grow (h : PagedInv s) {new : List (Event β)} (hnew : Contiguous (s.table ++ new)) :
    PagedInv { s with table := s.table ++ new } :=
  ⟨hnew, h.delivered.received.trans (List.prefix_append _ _), h.delivered.cursor⟩

theorem emit (h : PagedInv s) {read : ℕ} {body : β} (hread : read ≤ nextSequence s.table) :
    PagedInv (s.emitPaged read body) := by
  rw [h.contiguous.nextSequence_eq] at hread
  unfold State.emitPaged
  rcases Nat.lt_or_eq_of_le hread with hlt | rfl
  · rw [h.contiguous.insertRow_of_lt hlt]
    exact h
  · rw [h.contiguous.insertRow_next]
    exact h.grow (h.contiguous.concat body)

/-- A read gives the client the next rows, at most 200 of them. -/
theorem wait (h : PagedInv s) :
    PagedInv s.waitPaged ∧ s.waitPaged.received = s.received ++ (s.table.drop s.cursor).take 200 := by
  unfold State.waitPaged
  rw [h.contiguous.page_eq]
  obtain ⟨hnext, hreceived⟩ := h.delivered.deliver h.contiguous (List.take_prefix 200 _)
  refine ⟨⟨?_, ?_⟩, hreceived⟩
  · rw [deliver_table]
    exact h.contiguous
  · rw [deliver_table]
    exact hnext

theorem step (h : PagedInv s) {a : PagedAction β} (ha : a.Possible s) :
    PagedInv (stepPaged s a) := by
  cases a with
  | emit read body => exact h.emit ha
  | review bodies => exact h.grow (h.contiguous.append_numbered bodies)
  | wait => exact h.wait.1

end PagedInv

/-! ## Histories -/

/-- The steps of a job, of which the client asks the process `m`. -/
def Step (permits : State β → Action β → Prop) (paged : Bool) (m : ℕ) (s s' : State β) : Prop :=
  if paged then ∃ a : PagedAction β, a.Possible s ∧ s' = stepPaged s a
  else ∃ a, permits s a ∧ s' = step m s a

/-- The states of the job that the process `p` has created. -/
abbrev Reachable (permits : State β → Action β → Prop) (paged : Bool) (m p : ℕ) : Type :=
  { s : State β // Relation.ReflTransGen (Step permits paged m) (created p) s }

def eventList (paged : Bool) (m : ℕ) (s : State β) : List (Event β) :=
  if paged then ordered s.table else s.job m

def waitForEvents (paged : Bool) (m : ℕ) (s : State β) : State β :=
  if paged then s.waitPaged else s.wait m

theorem reachable_inv {m p : ℕ} (s : Reachable (β := β) (UpToDate m) false m p) : Inv m s.val := by
  obtain ⟨s, hs⟩ := s
  induction hs with
  | refl => exact created_inv m p
  | tail _ hstep ih =>
      obtain ⟨a, ha, rfl⟩ := hstep
      exact ih.step ha

theorem reachable_pagedInv {permits : State β → Action β → Prop} {m p : ℕ}
    (s : Reachable permits true m p) : PagedInv s.val := by
  obtain ⟨s, hs⟩ := s
  induction hs with
  | refl => exact ⟨.nil, List.prefix_refl _, rfl⟩
  | tail _ hstep ih =>
      obtain ⟨a, ha, rfl⟩ := hstep
      exact ih.step ha

/-- Where a manager that numbers an event by the table holds every row, its client has received
the beginning of the event list, in order and without a gap, and the next read goes on. -/
theorem events_delivered (paged : Bool) (m p : ℕ)
    (s : Reachable (β := β) (UpToDate m) paged m p) :
    Delivered (eventList paged m s.val) s.val ∧
      (s.val.received ≠ eventList paged m s.val →
        s.val.received.length < (waitForEvents paged m s.val).received.length) := by
  cases paged with
  | false =>
      have hinv := reachable_inv s
      refine ⟨⟨hinv.job_own.2, hinv.cursor⟩, fun hmore => ?_⟩
      change _ < (s.val.wait m).received.length
      rw [hinv.wait.2]
      refine lt_of_le_of_ne hinv.job_own.2.length_le fun hlength => hmore ?_
      exact hinv.job_own.2.eq_of_length hlength
  | true =>
      have hinv := reachable_pagedInv s
      have hlist : eventList true m s.val = s.val.table := hinv.contiguous.ordered_eq
      rw [hlist]
      refine ⟨hinv.delivered, fun hmore => ?_⟩
      change _ < s.val.waitPaged.received.length
      have hle := hinv.delivered.received.length_le
      have hlength : s.val.received.length ≠ s.val.table.length := fun hlength =>
        hmore (hinv.delivered.received.eq_of_length hlength)
      rw [hinv.wait.2, hinv.delivered.cursor, List.length_append, List.length_take,
        List.length_drop]
      omega

/-! ## An event that is passed over -/

/-- The other process adds a row to the table before the client's manager, whose list lacks it,
adds one: the manager's next event brings the row into its list behind the cursor. -/
def passedOver : State ℕ :=
  [Action.emit 0 0, .wait, .load 1, .emitReview 1 1, .emitReview 0 2, .wait, .emit 0 3, .wait].foldl
    (step 0) (created 0)

theorem run_steps (m : ℕ) (s : State β) (actions : List (Action β)) :
    Relation.ReflTransGen (Step (fun _ _ => True) false m) s (actions.foldl (step m) s) := by
  induction actions generalizing s with
  | nil => exact .refl
  | cons a actions ih => exact .head ⟨a, trivial, rfl⟩ (ih (step m s a))

theorem event_lost : ∃ s : Reachable (β := ℕ) (fun _ _ => True) false 0 0,
    ¬ Delivered (eventList false 0 s.val) s.val := by
  refine ⟨⟨passedOver, run_steps 0 (created 0) _⟩, fun h => ?_⟩
  have hreceived : passedOver.received = [⟨0, 0⟩, ⟨2, 2⟩, ⟨3, 3⟩] := by rfl
  have hlist : eventList false 0 passedOver = [⟨0, 0⟩, ⟨1, 1⟩, ⟨2, 2⟩, ⟨3, 3⟩] := by rfl
  have hinitial := h.received
  rw [hreceived, hlist] at hinitial
  exact absurd hinitial (by decide)

end LogRisk.Events
