import LogRisk.Library.Links

/-!
# Classes by parents

Items below a bound point to a parent, roots to themselves.  Looking for a root shortens the
path that it goes along, and hanging one root below another joins their classes.
-/

namespace LogRisk.Library.UnionFind

open Links

abbrev Parents : Type := ℕ → ℕ

/-- The parent of an item that is not a root. -/
def up (parent : Parents) (i : ℕ) : Option ℕ := if parent i = i then none else some (parent i)

/-- The root that an item leads to. -/
def EndsAt (next : ℕ → Option ℕ) (i root : ℕ) : Prop := Leads next i root ∧ next root = none

/-- Every item below the bound leads to a root below it. -/
structure Forest (n : ℕ) (parent : Parents) : Prop where
  acyclic : Acyclic (up parent)
  within : ∀ i j, up parent i = some j → i < n ∧ j < n

/-- The root of an item, and the parents after every item on the way points past its parent. -/
def root : ℕ → Parents → ℕ → ℕ × Parents
  | 0, parent, i => (i, parent)
  | fuel + 1, parent, i =>
      if parent i = i then (i, parent)
      else
        let parent' := Function.update parent i (parent (parent i))
        root fuel parent' (parent' i)

variable {n : ℕ} {parent parent' : Parents} {i j r : ℕ}

theorem up_eq_none : up parent i = none ↔ parent i = i := by
  unfold up
  split <;> simp_all

theorem up_eq_some : up parent i = some j ↔ parent i ≠ i ∧ parent i = j := by
  unfold up
  split <;> simp_all

theorem EndsAt.unique {next : ℕ → Option ℕ} {r' : ℕ} (h : EndsAt next i r) (h' : EndsAt next i r') :
    r = r' := by
  obtain ⟨hpath, hend⟩ := h
  obtain ⟨hpath', hend'⟩ := h'
  induction hpath using Relation.ReflTransGen.head_induction_on with
  | refl =>
      rcases Relation.ReflTransGen.cases_head hpath' with heq | ⟨x, hx, _⟩
      · exact heq
      · rw [hend] at hx
        cases hx
  | head hstep _ ih =>
      rcases Relation.ReflTransGen.cases_head hpath' with heq | ⟨x, hx, hrest⟩
      · rw [heq, hend'] at hstep
        cases hstep
      · obtain rfl := Option.some.inj (hstep.symm.trans hx)
        exact ih hrest

theorem Forest.exists_root (h : Forest n parent) (i : ℕ) : ∃ r, EndsAt (up parent) i r := by
  obtain ⟨r, hpath, hend⟩ := h.acyclic.exists_end (Finset.range n)
    (fun x y hxy => Finset.mem_range.mpr (h.within x y hxy).1) i
  exact ⟨r, hpath, hend⟩

/-! ## Shortening a path -/

/-- No way from a parent leads back. -/
theorem Forest.ne_of_leads (h : Forest n parent) (hi : parent i ≠ i)
    (hpath : Leads (up parent) (parent i) j) : j ≠ i := by
  rintro rfl
  exact h.acyclic j (parent j) (up_eq_some.mpr ⟨hi, rfl⟩) hpath

theorem leads_parent (parent : Parents) (i : ℕ) : Leads (up parent) i (parent i) := by
  by_cases hroot : parent i = i
  · rw [hroot]
  · exact .single (up_eq_some.mpr ⟨hroot, rfl⟩)

theorem up_update_of_ne {x : ℕ} (h : x ≠ i) (j : ℕ) :
    up (Function.update parent i j) x = up parent x := by
  unfold up
  rw [Function.update_of_ne h]

theorem up_halved (h : Forest n parent) (hi : parent i ≠ i) :
    up (Function.update parent i (parent (parent i))) i = some (parent (parent i)) := by
  rw [up_eq_some, Function.update_self]
  exact ⟨h.ne_of_leads hi (leads_parent parent (parent i)), rfl⟩

/-- An item that is not a root may point past its parent. -/
theorem Forest.halve (h : Forest n parent) (hi : parent i ≠ i) :
    Forest n (Function.update parent i (parent (parent i))) ∧
      ∀ x r, EndsAt (up parent) x r → EndsAt (up (Function.update parent i (parent (parent i)))) x r := by
  have hup : up parent i = some (parent i) := up_eq_some.mpr ⟨hi, rfl⟩
  have hgrand := leads_parent parent (parent i)
  have hother : ∀ x, x ≠ i → up (Function.update parent i (parent (parent i))) x = up parent x :=
    fun x hx => up_update_of_ne hx _
  have hself := up_halved h hi
  have hforest : Forest n (Function.update parent i (parent (parent i))) := by
    refine ⟨h.acyclic.update hother fun t ht => ?_, fun x y hxy => ?_⟩
    · obtain rfl := Option.some.inj (hself.symm.trans ht)
      intro hback
      exact h.ne_of_leads hi (hgrand.trans hback) rfl
    · by_cases hx : x = i
      · subst hx
        obtain rfl := Option.some.inj (hself.symm.trans hxy)
        obtain ⟨hlt, hparent⟩ := h.within _ _ hup
        refine ⟨hlt, ?_⟩
        by_cases hroot : parent (parent x) = parent x
        · rw [hroot]
          exact hparent
        · exact (h.within _ _ (up_eq_some.mpr ⟨hroot, rfl⟩)).2
      · rw [hother x hx] at hxy
        exact h.within x y hxy
  refine ⟨hforest, fun x r hr => ?_⟩
  obtain ⟨r', hr'⟩ := hforest.exists_root x
  have hsteps : ∀ a b, up (Function.update parent i (parent (parent i))) a = some b →
      Leads (up parent) a b := by
    intro a b hab
    by_cases ha : a = i
    · subst ha
      obtain rfl := Option.some.inj (hself.symm.trans hab)
      exact hgrand.head hup
    · exact .single ((hother a ha).symm.trans hab)
  have hend : EndsAt (up parent) x r' := by
    refine ⟨?_, ?_⟩
    · exact Leads.carries (P := fun y => Leads (up parent) x y) hr'.1
        (fun a b hab ha => ha.trans (hsteps a b hab)) .refl
    · have hne : r' ≠ i := by
        rintro rfl
        exact absurd (hself.symm.trans hr'.2) (Option.some_ne_none _)
      rw [← hother r' hne]
      exact hr'.2
  rw [hr.unique hend]
  exact hr'

/-! ## Roots -/

/-- Looking for a root finds it and leaves every root. -/
theorem Forest.finds {fuel : ℕ} (h : Forest n parent) (hfuel : Within (up parent) fuel i) :
    EndsAt (up parent) i (root fuel parent i).1 ∧ Forest n (root fuel parent i).2 ∧
      ∀ x r, EndsAt (up parent) x r → EndsAt (up (root fuel parent i).2) x r := by
  induction fuel generalizing parent i with
  | zero => exact ⟨⟨.refl, hfuel⟩, h, fun _ _ hr => hr⟩
  | succ fuel ih =>
      unfold root
      split
      · rename_i hroot
        exact ⟨⟨.refl, up_eq_none.mpr hroot⟩, h, fun _ _ hr => hr⟩
      · rename_i hi
        obtain ⟨hforest, hends⟩ := h.halve hi
        have hself := up_halved h hi
        have hparent : Within (up parent) fuel (parent i) := hfuel _ (up_eq_some.mpr ⟨hi, rfl⟩)
        have hgrand : Within (up parent) fuel (parent (parent i)) := by
          by_cases hroot : parent (parent i) = parent i
          · rwa [hroot]
          · cases fuel with
            | zero => exact absurd (up_eq_none.mp hparent) hroot
            | succ fuel => exact (hparent _ (up_eq_some.mpr ⟨hroot, rfl⟩)).mono (Nat.le_succ fuel)
        have hshort : Within (up (Function.update parent i (parent (parent i)))) fuel
            (parent (parent i)) :=
          hgrand.congr fun y hy => up_update_of_ne
            (h.ne_of_leads hi ((leads_parent parent (parent i)).trans hy)) _
        obtain ⟨hfound, hforest', hends'⟩ := ih hforest hshort
        refine ⟨?_, ?_, fun x r hr => ?_⟩
        · obtain ⟨r, hr⟩ := h.exists_root i
          have hsame := (hends i r hr).unique ⟨hfound.1.head hself, hfound.2⟩
          rw [hsame] at hr
          simpa only [Function.update_self] using hr
        · simpa only [Function.update_self] using hforest'
        · simpa only [Function.update_self] using hends' x r (hends x r hr)

/-- As many steps as there are items are enough. -/
theorem Forest.within_bound (h : Forest n parent) (i : ℕ) : Within (up parent) n i := by
  have hway := h.acyclic.within (Finset.range n)
    (fun x y hxy => Finset.mem_range.mpr (h.within x y hxy).1) i
  rwa [Finset.card_range] at hway

/-! ## Classes -/

/-- Two items have one root. -/
def Same (parent : Parents) (i j : ℕ) : Prop :=
  ∃ r, EndsAt (up parent) i r ∧ EndsAt (up parent) j r

/-- The roots of two items, and the second root hung below the first. -/
def join (n : ℕ) (parent : Parents) (i j : ℕ) : Parents :=
  let left := root n parent i
  let right := root n left.2 j
  Function.update right.2 right.1 left.1

theorem forest_id (n : ℕ) : Forest n id where
  acyclic _ _ h := absurd rfl (up_eq_some.mp h).1
  within _ _ h := absurd rfl (up_eq_some.mp h).1

/-- Hanging a root below another one leads its items there. -/
theorem EndsAt.hang {a b x : ℕ} (ha : up parent a = none) (hb : up parent b = none)
    (h : EndsAt (up parent) x r) :
    EndsAt (up (Function.update parent b a)) x (if r = b then a else r) := by
  by_cases hab : a = b
  · subst hab
    have hsame : Function.update parent a a = parent := by
      rw [Function.update_eq_self_iff]
      exact (up_eq_none.mp ha).symm
    have hroot : (if r = a then a else r) = r := by
      split
      · rename_i heq
        exact heq.symm
      · rfl
    rw [hsame, hroot]
    exact h
  · have hother : ∀ x, x ≠ b → up (Function.update parent b a) x = up parent x :=
      fun x hx => up_update_of_ne hx a
    have hself : up (Function.update parent b a) b = some a := by
      rw [up_eq_some, Function.update_self]
      exact ⟨hab, rfl⟩
    -- ways to a root do not pass the root that was hung
    have hpath : Leads (up (Function.update parent b a)) x r := by
      refine Leads.carries (P := fun y => Leads (up (Function.update parent b a)) x y) h.1
        (fun y z hyz hy => hy.tail ?_) .refl
      have hyb : y ≠ b := by
        rintro rfl
        rw [hb] at hyz
        cases hyz
      exact (hother y hyb).trans hyz
    by_cases hr : r = b
    · rw [if_pos hr]
      subst hr
      exact ⟨hpath.tail hself, (hother a hab).trans ha⟩
    · rw [if_neg hr]
      exact ⟨hpath, (hother r hr).trans h.2⟩

/-- A root below the bound hung below another one. -/
theorem Forest.hang {a b : ℕ} (h : Forest n parent) (ha : up parent a = none)
    (hb : up parent b = none) (han : a < n) (hbn : b < n) :
    Forest n (Function.update parent b a) ∧ Same (Function.update parent b a) a b ∧
      ∀ i j, Same parent i j → Same (Function.update parent b a) i j := by
  by_cases hab : a = b
  · subst hab
    have hsame : Function.update parent a a = parent := by
      rw [Function.update_eq_self_iff]
      exact (up_eq_none.mp ha).symm
    rw [hsame]
    exact ⟨h, ⟨a, ⟨.refl, ha⟩, ⟨.refl, ha⟩⟩, fun _ _ hij => hij⟩
  · have hother : ∀ x, x ≠ b → up (Function.update parent b a) x = up parent x :=
      fun x hx => up_update_of_ne hx a
    have hself : up (Function.update parent b a) b = some a := by
      rw [up_eq_some, Function.update_self]
      exact ⟨hab, rfl⟩
    have hend : up (Function.update parent b a) a = none := (hother a hab).trans ha
    have hforest : Forest n (Function.update parent b a) := by
      refine ⟨h.acyclic.update hother fun t ht hback => ?_, fun x y hxy => ?_⟩
      · obtain rfl := Option.some.inj (hself.symm.trans ht)
        rcases Relation.ReflTransGen.cases_head hback with heq | ⟨x, hx, _⟩
        · exact hab heq
        · rw [ha] at hx
          cases hx
      · by_cases hx : x = b
        · subst hx
          obtain rfl := Option.some.inj (hself.symm.trans hxy)
          exact ⟨hbn, han⟩
        · exact h.within x y ((hother x hx).symm.trans hxy)
    exact ⟨hforest, ⟨a, ⟨.refl, hend⟩, ⟨.single hself, hend⟩⟩,
      fun i j ⟨r, hi, hj⟩ => ⟨_, hi.hang ha hb, hj.hang ha hb⟩⟩

theorem Forest.lt_of_endsAt (h : Forest n parent) (hi : i < n) (hr : EndsAt (up parent) i r) : r < n :=
  Leads.carries (P := fun x => x < n) hr.1 (fun x y hxy _ => (h.within x y hxy).2) hi

/-- Joining two items makes them the same and keeps what was the same. -/
theorem Forest.join (h : Forest n parent) (hi : i < n) (hj : j < n) :
    Forest n (join n parent i j) ∧ Same (UnionFind.join n parent i j) i j ∧
      ∀ x y, Same parent x y → Same (UnionFind.join n parent i j) x y := by
  obtain ⟨hleft, hforest, hends⟩ := h.finds (h.within_bound i)
  obtain ⟨hright, hforest', hends'⟩ := hforest.finds (hforest.within_bound j)
  have hleft' := hends' _ _ (hends _ _ hleft)
  have hright' := hends' _ _ hright
  obtain ⟨hjoined, hroots, hkeep⟩ := hforest'.hang hleft'.2 hright'.2
    (h.lt_of_endsAt hi hleft) (hforest.lt_of_endsAt hj hright)
  refine ⟨hjoined, ?_, fun x y ⟨r, hx, hy⟩ =>
    hkeep x y ⟨r, hends' _ _ (hends _ _ hx), hends' _ _ (hends _ _ hy)⟩⟩
  obtain ⟨r, ha, hb⟩ := hroots
  obtain ⟨r₁, hi₁, ha₁⟩ := hkeep i _ ⟨_, hleft', ⟨.refl, hleft'.2⟩⟩
  obtain ⟨r₂, hj₂, hb₂⟩ := hkeep j _ ⟨_, hright', ⟨.refl, hright'.2⟩⟩
  exact ⟨r, ha₁.unique ha ▸ hi₁, hb₂.unique hb ▸ hj₂⟩

/-- Joining two items makes no others the same but those of their classes. -/
theorem Forest.same_of_join (h : Forest n parent) {x y : ℕ} (hxy : Same (UnionFind.join n parent i j) x y) :
    Same parent x y ∨ (Same parent x i ∧ Same parent j y) ∨ (Same parent x j ∧ Same parent i y) := by
  obtain ⟨hleft, hforest, hends⟩ := h.finds (h.within_bound i)
  obtain ⟨hright, hforest', hends'⟩ := hforest.finds (hforest.within_bound j)
  have hj : EndsAt (up parent) j (root n (root n parent i).2 j).1 := by
    obtain ⟨r, hr⟩ := h.exists_root j
    rw [hright.unique (hends j r hr)]
    exact hr
  have hleft' := hends' _ _ (hends _ _ hleft)
  have hright' := hends' _ _ hright
  have hjoined : ∀ z r, EndsAt (up parent) z r → EndsAt (up (UnionFind.join n parent i j)) z
      (if r = (root n (root n parent i).2 j).1 then (root n parent i).1 else r) := fun z r hr =>
    (hends' _ _ (hends _ _ hr)).hang hleft'.2 hright'.2
  obtain ⟨rx, hrx⟩ := h.exists_root x
  obtain ⟨ry, hry⟩ := h.exists_root y
  obtain ⟨r, hx, hy⟩ := hxy
  have heq := ((hjoined x rx hrx).unique hx).trans ((hjoined y ry hry).unique hy).symm
  by_cases hxj : rx = (root n (root n parent i).2 j).1
  · rw [if_pos hxj] at heq
    by_cases hyj : ry = (root n (root n parent i).2 j).1
    · exact .inl ⟨rx, hrx, hxj.trans hyj.symm ▸ hry⟩
    · rw [if_neg hyj] at heq
      exact .inr (.inr ⟨⟨rx, hrx, hxj ▸ hj⟩, ⟨ry, heq ▸ hleft, hry⟩⟩)
  · rw [if_neg hxj] at heq
    by_cases hyj : ry = (root n (root n parent i).2 j).1
    · rw [if_pos hyj] at heq
      exact .inr (.inl ⟨⟨rx, hrx, heq ▸ hleft⟩, ⟨ry, hyj ▸ hj, hry⟩⟩)
    · rw [if_neg hyj] at heq
      exact .inl ⟨rx, hrx, heq ▸ hry⟩

/-- Items that are found to have the same root are of one class. -/
theorem Forest.same_of_root_eq (h : Forest n parent) (hij : (root n parent i).1 = (root n parent j).1) :
    Same parent i j :=
  ⟨_, (h.finds (h.within_bound i)).1, hij ▸ (h.finds (h.within_bound j)).1⟩

/-- Items of one class are found to have the same root. -/
theorem Forest.root_eq (h : Forest n parent) (hij : Same parent i j) :
    (root n parent i).1 = (root n parent j).1 := by
  obtain ⟨r, hi, hj⟩ := hij
  have hri := (h.finds (h.within_bound i)).1.unique hi
  have hrj := (h.finds (h.within_bound j)).1.unique hj
  exact hri.trans hrj.symm

end LogRisk.Library.UnionFind
