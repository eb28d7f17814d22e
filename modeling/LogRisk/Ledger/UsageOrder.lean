import LogRisk.Ledger.Usage

/-!
# Usage in every order

What a sequence of reports leaves in the row of a call: each count that was reported, a total
that was reported or derived, and whether anything was invalid on the way.  A total that comes
after input and output have been completed by reports without one meets a derived total; the same
reports in another order do not.
-/

namespace LogRisk.Ledger

open LogRisk.Library LogRisk.Library.Transaction

/-! ## One merge -/

/-- What a merge that meets no contradiction makes of the counts. -/
def combine (old new : Usage) : Usage :=
  let merged : Usage := ⟨fun f => (old.tokens f).or (new.tokens f), old.invalid || new.invalid⟩
  if (merged.tokens .totalTokens).isNone then deriveTotal merged else merged

theorem mergeUsage_eq_ok {old new u : Usage} :
    mergeUsage old new = .ok u ↔
      (∀ f, ¬ contradicts (old.tokens f) (new.tokens f)) ∧ u = combine old new := by
  unfold mergeUsage
  rw [bind_eq_ok]
  constructor
  · rintro ⟨_, hfields, h⟩
    refine ⟨fun f => ?_, (pure_eq_ok.mp h).symm⟩
    exact require_eq_ok.mp (forM_eq_ok.mp hfields f (mem_tokenFields f))
  · rintro ⟨hfields, rfl⟩
    exact ⟨(), forM_eq_ok.mpr fun f _ => require_eq_ok.mpr (hfields f), rfl⟩

/-- A merge that fails fails with a conflict. -/
theorem mergeUsage_error {old new : Usage} {e : LedgerError} (h : mergeUsage old new = .error e) :
    ∃ message, e = .conflict message := by
  have hfields : ∀ fs : List TokenField, (fs.forM fun f =>
      require (¬ contradicts (old.tokens f) (new.tokens f))
        (LedgerError.conflict ("物理调用 " ++ f.name ++ " 已有冲突值"))) = .error e →
      ∃ message, e = .conflict message := by
    intro fs
    induction fs with
    | nil => exact fun h => by cases h
    | cons f fs ih =>
        intro h
        by_cases hf : contradicts (old.tokens f) (new.tokens f)
        · change (require _ _ >>= fun _ => _) = Except.error e at h
          rw [require_of_not (not_not.mpr hf)] at h
          exact ⟨_, (Except.error.inj h).symm⟩
        · change (require _ _ >>= fun _ => _) = Except.error e at h
          rw [require_of hf] at h
          exact ih h
  unfold mergeUsage at h
  cases hloop : (tokenFields.forM fun f =>
      require (¬ contradicts (old.tokens f) (new.tokens f))
        (LedgerError.conflict ("物理调用 " ++ f.name ++ " 已有冲突值"))) with
  | error e' =>
      rw [hloop] at h
      obtain rfl := Except.error.inj h
      exact hfields _ hloop
  | ok _ =>
      rw [hloop] at h
      cases h

theorem deriveTotal_eq {u : Usage} {i o : ℕ} (hi : u.tokens .inputTokens = some i)
    (ho : u.tokens .outputTokens = some o) :
    deriveTotal u = if maxInt64 < i + o then { u with invalid := true }
      else { u with tokens := fun f => if f = .totalTokens then some (i + o) else u.tokens f } := by
  unfold deriveTotal
  rw [hi, ho]

/-- Without input or output no total is derived. -/
theorem deriveTotal_of_missing {u : Usage}
    (h : ¬ ∃ i o, u.tokens .inputTokens = some i ∧ u.tokens .outputTokens = some o) :
    deriveTotal u = u := by
  unfold deriveTotal
  split
  · rename_i i o hi ho
    exact absurd ⟨i, o, hi, ho⟩ h
  · rfl

theorem deriveTotal_tokens_of_ne (u : Usage) {f : TokenField} (hf : f ≠ .totalTokens) :
    (deriveTotal u).tokens f = u.tokens f := by
  by_cases hknown : ∃ i o, u.tokens .inputTokens = some i ∧ u.tokens .outputTokens = some o
  · obtain ⟨i, o, hi, ho⟩ := hknown
    rw [deriveTotal_eq hi ho]
    split
    · rfl
    · exact if_neg hf
  · rw [deriveTotal_of_missing hknown]

theorem deriveTotal_total (u : Usage) (h : u.tokens .totalTokens = none) (t : ℕ) :
    (deriveTotal u).tokens .totalTokens = some t ↔ ∃ i o, u.tokens .inputTokens = some i ∧
      u.tokens .outputTokens = some o ∧ i + o = t ∧ i + o ≤ maxInt64 := by
  by_cases hknown : ∃ i o, u.tokens .inputTokens = some i ∧ u.tokens .outputTokens = some o
  · obtain ⟨i, o, hi, ho⟩ := hknown
    rw [deriveTotal_eq hi ho, hi, ho]
    constructor
    · intro htotal
      split at htotal
      · exact absurd (htotal.symm.trans h) (by simp)
      · rename_i hsmall
        exact ⟨i, o, rfl, rfl, Option.some.inj htotal, not_lt.mp hsmall⟩
    · rintro ⟨i', o', hi', ho', rfl, hle⟩
      obtain rfl := Option.some.inj hi'
      obtain rfl := Option.some.inj ho'
      rw [if_neg (not_lt.mpr hle)]
      rfl
  · rw [deriveTotal_of_missing hknown, h]
    refine ⟨fun h => (by cases h), ?_⟩
    rintro ⟨i, o, hi, ho, -⟩
    exact absurd ⟨i, o, hi, ho⟩ hknown

theorem deriveTotal_invalid (u : Usage) :
    (deriveTotal u).invalid = true ↔ u.invalid = true ∨ ∃ i o,
      u.tokens .inputTokens = some i ∧ u.tokens .outputTokens = some o ∧ maxInt64 < i + o := by
  by_cases hknown : ∃ i o, u.tokens .inputTokens = some i ∧ u.tokens .outputTokens = some o
  · obtain ⟨i, o, hi, ho⟩ := hknown
    rw [deriveTotal_eq hi ho, hi, ho]
    split
    · rename_i hlarge
      exact ⟨fun _ => .inr ⟨i, o, rfl, rfl, hlarge⟩, fun _ => rfl⟩
    · rename_i hsmall
      refine ⟨.inl, ?_⟩
      rintro (hinvalid | ⟨i', o', hi', ho', hlarge⟩)
      · exact hinvalid
      · obtain rfl := Option.some.inj hi'
        obtain rfl := Option.some.inj ho'
        exact absurd hlarge hsmall
  · rw [deriveTotal_of_missing hknown]
    refine ⟨.inl, ?_⟩
    rintro (hinvalid | ⟨i, o, hi, ho, -⟩)
    · exact hinvalid
    · exact absurd ⟨i, o, hi, ho⟩ hknown

theorem combine_tokens (old new : Usage) {f : TokenField} (hf : f ≠ .totalTokens) :
    (combine old new).tokens f = (old.tokens f).or (new.tokens f) := by
  unfold combine
  simp only
  split
  · exact deriveTotal_tokens_of_ne _ hf
  · rfl

/-- The total after a merge was there, or reported, or is derived. -/
theorem combine_total (old new : Usage) (t : ℕ) :
    (combine old new).tokens .totalTokens = some t ↔
      (old.tokens .totalTokens).or (new.tokens .totalTokens) = some t ∨
      (old.tokens .totalTokens = none ∧ new.tokens .totalTokens = none) ∧
        ∃ i o, (combine old new).tokens .inputTokens = some i ∧
          (combine old new).tokens .outputTokens = some o ∧ i + o = t ∧ i + o ≤ maxInt64 := by
  have hinput := combine_tokens old new (f := .inputTokens) (by decide)
  have houtput := combine_tokens old new (f := .outputTokens) (by decide)
  rw [hinput, houtput]
  unfold combine
  simp only
  split
  · rename_i hnone
    rw [Option.isNone_iff_eq_none] at hnone
    rw [deriveTotal_total _ hnone, hnone]
    have hboth : old.tokens .totalTokens = none ∧ new.tokens .totalTokens = none :=
      Option.or_eq_none_iff.mp hnone
    simp [hboth]
  · rename_i hsome
    have hnot : ¬ (old.tokens .totalTokens = none ∧ new.tokens .totalTokens = none) := by
      rw [← Option.or_eq_none_iff, ← Option.isNone_iff_eq_none]
      exact hsome
    simp [hnot]

theorem combine_invalid (old new : Usage) :
    (combine old new).invalid = true ↔ old.invalid = true ∨ new.invalid = true ∨
      (old.tokens .totalTokens = none ∧ new.tokens .totalTokens = none) ∧
        ∃ i o, (combine old new).tokens .inputTokens = some i ∧
          (combine old new).tokens .outputTokens = some o ∧ maxInt64 < i + o := by
  have hinput := combine_tokens old new (f := .inputTokens) (by decide)
  have houtput := combine_tokens old new (f := .outputTokens) (by decide)
  rw [hinput, houtput]
  unfold combine
  simp only
  split
  · rename_i hnone
    rw [Option.isNone_iff_eq_none, Option.or_eq_none_iff] at hnone
    rw [deriveTotal_invalid, Bool.or_eq_true, or_assoc, and_iff_right hnone]
  · rename_i hsome
    rw [Option.isNone_iff_eq_none, Option.or_eq_none_iff] at hsome
    rw [Bool.or_eq_true]
    simp [hsome]

theorem combine_of_old {old new : Usage} {f : TokenField} {x : ℕ} (h : old.tokens f = some x) :
    (combine old new).tokens f = some x := by
  by_cases hf : f = .totalTokens
  · subst hf
    refine (combine_total old new x).mpr (.inl ?_)
    rw [h, Option.some_or]
  · rw [combine_tokens old new hf, h, Option.some_or]

theorem combine_of_new {old new : Usage} {f : TokenField} {x : ℕ}
    (hagree : ¬ contradicts (old.tokens f) (new.tokens f)) (h : new.tokens f = some x) :
    (combine old new).tokens f = some x := by
  cases hold : old.tokens f with
  | some y =>
      have hxy : y = x := by
        by_contra hne
        exact hagree ⟨y, x, hold, h, hne⟩
      exact hxy ▸ combine_of_old hold
  | none =>
      by_cases hf : f = .totalTokens
      · subst hf
        refine (combine_total old new x).mpr (.inl ?_)
        rw [hold, Option.none_or, h]
      · rw [combine_tokens old new hf, hold, Option.none_or, h]

/-! ## Sequences of usages -/

/-- A field is reported with a value. -/
def Knows (f : TokenField) (x : ℕ) (us : List Usage) : Prop := ∃ u ∈ us, u.tokens f = some x

/-- No total is reported. -/
def Silent (us : List Usage) : Prop := ∀ u ∈ us, u.tokens .totalTokens = none

/-- No field is reported with two values. -/
def Agreeing (us : List Usage) : Prop := ∀ f x y, Knows f x us → Knows f y us → x = y

/-- Input and output come without a total, too large together for one to be derived. -/
def Overflown (us : List Usage) : Prop :=
  ∃ seen i o, seen <+: us ∧ Silent seen ∧ Knows .inputTokens i seen ∧ Knows .outputTokens o seen ∧
    maxInt64 < i + o

/-- A total comes after another one has been derived. -/
def Clash (us : List Usage) : Prop :=
  ∃ seen u i o t, seen ++ [u] <+: us ∧ Silent seen ∧ Knows .inputTokens i seen ∧
    Knows .outputTokens o seen ∧ i + o ≤ maxInt64 ∧ u.tokens .totalTokens = some t ∧ t ≠ i + o

def mergeAll (us : List Usage) : Result Usage := us.foldlM mergeUsage ⟨fun _ => none, false⟩

theorem Knows.mono {f : TokenField} {x : ℕ} {us vs : List Usage} (h : Knows f x us)
    (hsub : ∀ u ∈ us, u ∈ vs) : Knows f x vs := by
  obtain ⟨u, hu, hx⟩ := h
  exact ⟨u, hsub u hu, hx⟩

theorem Knows.perm {f : TokenField} {x : ℕ} {us vs : List Usage} (h : us.Perm vs) :
    Knows f x us ↔ Knows f x vs :=
  ⟨fun hus => hus.mono fun _ hu => h.mem_iff.mp hu, fun hvs => hvs.mono fun _ hu => h.mem_iff.mpr hu⟩

theorem Agreeing.perm {us vs : List Usage} (h : us.Perm vs) (hus : Agreeing us) : Agreeing vs :=
  fun f x y hx hy => hus f x y ((Knows.perm h).mpr hx) ((Knows.perm h).mpr hy)

/-- What a sequence of merges has made of the usages so far. -/
structure Summary (us : List Usage) (s : Usage) : Prop where
  contains : ∀ f x, Knows f x us → s.tokens f = some x
  reported : ∀ f, f ≠ .totalTokens → ∀ x, s.tokens f = some x → Knows f x us
  total : ∀ t, s.tokens .totalTokens = some t → Knows .totalTokens t us ∨ Silent us ∧
    ∃ i o, s.tokens .inputTokens = some i ∧ s.tokens .outputTokens = some o ∧ i + o = t ∧
      i + o ≤ maxInt64
  missing : s.tokens .totalTokens = none → ∀ i o, s.tokens .inputTokens = some i →
    s.tokens .outputTokens = some o → maxInt64 < i + o
  invalid : s.invalid = true ↔ (∃ u ∈ us, u.invalid = true) ∨ Overflown us

theorem summary_nil : Summary [] ⟨fun _ => none, false⟩ := by
  refine ⟨?_, fun _ _ _ h => (by cases h), fun _ h => (by cases h), fun _ _ _ h => (by cases h), ?_⟩
  · rintro f x ⟨u, hu, -⟩
    exact absurd hu List.not_mem_nil
  · refine ⟨fun h => (by cases h), ?_⟩
    rintro (⟨u, hu, -⟩ | ⟨seen, i, o, hseen, -, ⟨u, hu, -⟩, -⟩)
    · exact absurd hu List.not_mem_nil
    · rw [List.prefix_nil.mp hseen] at hu
      exact absurd hu List.not_mem_nil

theorem Summary.silent {us : List Usage} {s : Usage} (h : Summary us s)
    (hs : s.tokens .totalTokens = none) : Silent us := by
  intro u hu
  cases htotal : u.tokens .totalTokens with
  | none => rfl
  | some t =>
      have := h.contains _ t ⟨u, hu, htotal⟩
      rw [hs] at this
      cases this

/-- Where no total is reported, input and output that can be added up have been. -/
theorem Summary.derived {us : List Usage} {s : Usage} (h : Summary us s) (hsilent : Silent us)
    {i o : ℕ} (hi : s.tokens .inputTokens = some i) (ho : s.tokens .outputTokens = some o)
    (hle : i + o ≤ maxInt64) : s.tokens .totalTokens = some (i + o) := by
  cases htotal : s.tokens .totalTokens with
  | none => exact absurd (h.missing htotal i o hi ho) (not_lt.mpr hle)
  | some t =>
      rcases h.total t htotal with ⟨u, hu, hut⟩ | ⟨-, i', o', hi', ho', hsum, -⟩
      · rw [hsilent u hu] at hut
        cases hut
      · obtain rfl := Option.some.inj (hi'.symm.trans hi)
        obtain rfl := Option.some.inj (ho'.symm.trans ho)
        rw [hsum]

theorem knows_concat {f : TokenField} {x : ℕ} {us : List Usage} {u : Usage} :
    Knows f x (us ++ [u]) ↔ Knows f x us ∨ u.tokens f = some x := by
  unfold Knows
  simp only [List.mem_append, List.mem_singleton]
  constructor
  · rintro ⟨v, hv | rfl, hx⟩
    · exact .inl ⟨v, hv, hx⟩
    · exact .inr hx
  · rintro (⟨v, hv, hx⟩ | hx)
    · exact ⟨v, .inl hv, hx⟩
    · exact ⟨u, .inr rfl, hx⟩

theorem silent_concat {us : List Usage} {u : Usage} :
    Silent (us ++ [u]) ↔ Silent us ∧ u.tokens .totalTokens = none := by
  unfold Silent
  simp only [List.mem_append, List.mem_singleton]
  constructor
  · intro h
    exact ⟨fun v hv => h v (.inl hv), h u (.inr rfl)⟩
  · rintro ⟨hus, hu⟩ v (hv | rfl)
    · exact hus v hv
    · exact hu

theorem overflown_concat {us : List Usage} {u : Usage} :
    Overflown (us ++ [u]) ↔ Overflown us ∨ Silent (us ++ [u]) ∧ ∃ i o,
      Knows .inputTokens i (us ++ [u]) ∧ Knows .outputTokens o (us ++ [u]) ∧ maxInt64 < i + o := by
  constructor
  · rintro ⟨seen, i, o, hseen, hsilent, hi, ho, hlarge⟩
    rcases List.prefix_concat_iff.mp hseen with rfl | hseen
    · exact .inr ⟨hsilent, i, o, hi, ho, hlarge⟩
    · exact .inl ⟨seen, i, o, hseen, hsilent, hi, ho, hlarge⟩
  · rintro (⟨seen, i, o, hseen, hrest⟩ | ⟨hsilent, i, o, hi, ho, hlarge⟩)
    · exact ⟨seen, i, o, hseen.trans (List.prefix_append _ _), hrest⟩
    · exact ⟨_, i, o, List.prefix_rfl, hsilent, hi, ho, hlarge⟩

/-- One more usage that contradicts nothing. -/
theorem Summary.combine {us : List Usage} {s u : Usage} (h : Summary us s)
    (hagree : ∀ f, ¬ contradicts (s.tokens f) (u.tokens f)) :
    Summary (us ++ [u]) (Ledger.combine s u) := by
  have hcontains : ∀ f x, Knows f x (us ++ [u]) → (Ledger.combine s u).tokens f = some x := by
    intro f x hx
    rcases knows_concat.mp hx with hx | hx
    · exact combine_of_old (h.contains f x hx)
    · exact combine_of_new (hagree f) hx
  have hreported : ∀ f, f ≠ .totalTokens → ∀ x, (Ledger.combine s u).tokens f = some x →
      Knows f x (us ++ [u]) := by
    intro f hf x hx
    rw [combine_tokens s u hf, Option.or_eq_some_iff] at hx
    rcases hx with hx | ⟨-, hx⟩
    · exact knows_concat.mpr (.inl (h.reported f hf x hx))
    · exact knows_concat.mpr (.inr hx)
  have hsilent : s.tokens .totalTokens = none ∧ u.tokens .totalTokens = none →
      Silent (us ++ [u]) := fun hnone => silent_concat.mpr ⟨h.silent hnone.1, hnone.2⟩
  refine ⟨hcontains, hreported, ?_, ?_, ?_⟩
  · intro t ht
    rcases (combine_total s u t).mp ht with hor | ⟨hnone, hderived⟩
    · rcases Option.or_eq_some_iff.mp hor with hs | ⟨-, hu⟩
      · rcases h.total t hs with hknows | ⟨hsil, i, o, hi, ho, hsum⟩
        · exact .inl (knows_concat.mpr (.inl hknows))
        · cases hu : u.tokens .totalTokens with
          | some t' =>
              have heq : t = t' := by
                by_contra hne
                exact hagree .totalTokens ⟨t, t', hs, hu, hne⟩
              exact .inl (knows_concat.mpr (.inr (heq ▸ hu)))
          | none =>
              exact .inr ⟨silent_concat.mpr ⟨hsil, hu⟩, i, o, combine_of_old hi,
                combine_of_old ho, hsum⟩
      · exact .inl (knows_concat.mpr (.inr hu))
    · exact .inr ⟨hsilent hnone, hderived⟩
  · intro hnone i o hi ho
    by_contra hle
    have hboth : s.tokens .totalTokens = none ∧ u.tokens .totalTokens = none := by
      constructor
      · cases hs : s.tokens .totalTokens with
        | none => rfl
        | some t => exact absurd ((combine_of_old hs).symm.trans hnone) (by simp)
      · cases hu : u.tokens .totalTokens with
        | none => rfl
        | some t => exact absurd ((combine_of_new (hagree _) hu).symm.trans hnone) (by simp)
    have hderived := (combine_total s u (i + o)).mpr
      (.inr ⟨hboth, i, o, hi, ho, rfl, not_lt.mp hle⟩)
    rw [hnone] at hderived
    cases hderived
  · rw [combine_invalid, h.invalid, overflown_concat]
    constructor
    · rintro ((⟨v, hv, hinvalid⟩ | hover) | hu | ⟨hnone, i, o, hi, ho, hlarge⟩)
      · exact .inl ⟨v, List.mem_append_left _ hv, hinvalid⟩
      · exact .inr (.inl hover)
      · exact .inl ⟨u, List.mem_append_right _ (List.mem_singleton.mpr rfl), hu⟩
      · exact .inr (.inr ⟨hsilent hnone, i, o, hreported _ (by decide) i hi,
          hreported _ (by decide) o ho, hlarge⟩)
    · rintro (⟨v, hv, hinvalid⟩ | hover | ⟨hsil, i, o, hi, ho, hlarge⟩)
      · rcases List.mem_append.mp hv with hv | hv
        · exact .inl (.inl ⟨v, hv, hinvalid⟩)
        · rw [List.mem_singleton.mp hv] at hinvalid
          exact .inr (.inl hinvalid)
      · exact .inl (.inr hover)
      · obtain ⟨hus, hu⟩ := silent_concat.mp hsil
        have hi := hcontains _ i hi
        have ho := hcontains _ o ho
        refine .inr (.inr ⟨⟨?_, hu⟩, i, o, hi, ho, hlarge⟩)
        cases hs : s.tokens .totalTokens with
        | none => rfl
        | some t =>
            rcases h.total t hs with ⟨v, hv, hvt⟩ | ⟨-, i', o', hi', ho', hsum, hle⟩
            · rw [hus v hv] at hvt
              cases hvt
            · obtain rfl := Option.some.inj ((combine_of_old hi').symm.trans hi)
              obtain rfl := Option.some.inj ((combine_of_old ho').symm.trans ho)
              omega

theorem mergeAll_concat {us : List Usage} {u s : Usage} :
    mergeAll (us ++ [u]) = .ok s ↔ ∃ s', mergeAll us = .ok s' ∧
      (∀ f, ¬ contradicts (s'.tokens f) (u.tokens f)) ∧ s = Ledger.combine s' u := by
  unfold mergeAll
  rw [List.foldlM_append, bind_eq_ok]
  refine exists_congr fun s' => and_congr_right fun _ => ?_
  rw [List.foldlM_cons, bind_eq_ok]
  constructor
  · rintro ⟨_, hmerge, h⟩
    obtain rfl := pure_eq_ok.mp h
    exact mergeUsage_eq_ok.mp hmerge
  · intro h
    exact ⟨s, mergeUsage_eq_ok.mpr h, rfl⟩

theorem summary_of_mergeAll {us : List Usage} {s : Usage} (h : mergeAll us = .ok s) :
    Summary us s := by
  induction us using List.reverseRecOn generalizing s with
  | nil =>
      obtain rfl := pure_eq_ok.mp h
      exact summary_nil
  | append_singleton us u ih =>
      obtain ⟨s', hs', hagree, rfl⟩ := mergeAll_concat.mp h
      exact (ih hs').combine hagree

/-! ## When a sequence is accepted -/

theorem mergeAll_prefix {us vs : List Usage} {s : Usage} (h : mergeAll us = .ok s)
    (hinitial : vs <+: us) : ∃ s', mergeAll vs = .ok s' := by
  obtain ⟨rest, rfl⟩ := hinitial
  unfold mergeAll at h ⊢
  rw [List.foldlM_append, bind_eq_ok] at h
  obtain ⟨s', hs', -⟩ := h
  exact ⟨s', hs'⟩

/-- Accepted are the sequences without two values for a field and without a total that meets
another one that has been derived. -/
theorem mergeAll_isOk_iff {us : List Usage} :
    (∃ s, mergeAll us = .ok s) ↔ Agreeing us ∧ ¬ Clash us := by
  constructor
  · rintro ⟨s, hs⟩
    constructor
    · intro f x y hx hy
      have hsummary := summary_of_mergeAll hs
      exact Option.some.inj ((hsummary.contains f x hx).symm.trans (hsummary.contains f y hy))
    · rintro ⟨seen, u, i, o, t, hseen, hsilent, hi, ho, hle, ht, hne⟩
      obtain ⟨next, hnext⟩ := mergeAll_prefix hs hseen
      obtain ⟨s', hs', hagree, -⟩ := mergeAll_concat.mp hnext
      have hsummary := summary_of_mergeAll hs'
      have htotal := hsummary.derived hsilent (hsummary.contains _ i hi)
        (hsummary.contains _ o ho) hle
      exact hagree .totalTokens ⟨i + o, t, htotal, ht, hne.symm⟩
  · intro h
    induction us using List.reverseRecOn with
    | nil => exact ⟨_, rfl⟩
    | append_singleton us u ih =>
        obtain ⟨hagree, hclash⟩ := h
        have hagree' : Agreeing us := fun f x y hx hy =>
          hagree f x y (knows_concat.mpr (.inl hx)) (knows_concat.mpr (.inl hy))
        have hclash' : ¬ Clash us := by
          rintro ⟨seen, v, i, o, t, hseen, hrest⟩
          exact hclash ⟨seen, v, i, o, t, hseen.trans (List.prefix_append _ _), hrest⟩
        obtain ⟨s, hs⟩ := ih ⟨hagree', hclash'⟩
        have hsummary := summary_of_mergeAll hs
        refine ⟨_, mergeAll_concat.mpr ⟨s, hs, fun f => ?_, rfl⟩⟩
        rintro ⟨x, y, hx, hy, hne⟩
        by_cases hf : f = .totalTokens
        · subst hf
          rcases hsummary.total x hx with hknows | ⟨hsilent, i, o, hi, ho, rfl, hle⟩
          · exact hne (hagree _ x y (knows_concat.mpr (.inl hknows)) (knows_concat.mpr (.inr hy)))
          · exact hclash ⟨us, u, i, o, y, List.prefix_rfl, hsilent,
              hsummary.reported _ (by decide) i hi, hsummary.reported _ (by decide) o ho, hle, hy,
              hne.symm⟩
        · have hknows := hsummary.reported f hf x hx
          exact hne (hagree f x y (knows_concat.mpr (.inl hknows)) (knows_concat.mpr (.inr hy)))

/-- The counts do not depend on the order. -/
theorem tokens_perm {us vs : List Usage} (hperm : us.Perm vs) {s s' : Usage}
    (hs : Summary us s) (hs' : Summary vs s') : s.tokens = s'.tokens := by
  have hhalf : ∀ {us vs : List Usage} {s s' : Usage}, us.Perm vs → Summary us s → Summary vs s' →
      ∀ f x, s.tokens f = some x → s'.tokens f = some x := by
    intro us vs s s' hperm hs hs' f x hx
    by_cases hf : f = .totalTokens
    · subst hf
      rcases hs.total x hx with hknows | ⟨hsilent, i, o, hi, ho, rfl, hle⟩
      · exact hs'.contains _ x ((Knows.perm hperm).mp hknows)
      · have hfield : ∀ f, f ≠ .totalTokens → ∀ y, s.tokens f = some y →
            s'.tokens f = some y := fun f hf y hy =>
          hs'.contains f y ((Knows.perm hperm).mp (hs.reported f hf y hy))
        refine hs'.derived (fun u hu => hsilent u (hperm.mem_iff.mpr hu)) ?_ ?_ hle
        · exact hfield _ (by decide) i hi
        · exact hfield _ (by decide) o ho
    · exact hs'.contains f x ((Knows.perm hperm).mp (hs.reported f hf x hx))
  funext f
  refine Option.ext fun x => ⟨hhalf hperm hs hs' f x, hhalf hperm.symm hs' hs f x⟩

/-! ## Contested totals -/

/-- Input and output are both reported without a total, and a total that is not their sum is
reported too.  Where they are too large to be added up, this shows in the quality only, and not
if it is invalid anyway. -/
def Contested (us : List Usage) : Prop :=
  ∃ i o t, (∃ a ∈ us, a.tokens .totalTokens = none ∧ a.tokens .inputTokens = some i) ∧
    (∃ b ∈ us, b.tokens .totalTokens = none ∧ b.tokens .outputTokens = some o) ∧
    Knows .totalTokens t us ∧ t ≠ i + o ∧ (i + o ≤ maxInt64 ∨ ∀ d ∈ us, d.invalid = false)

/-- Every order gives the same counts and quality, or every order is rejected. -/
def Independent (us : List Usage) : Prop :=
  (∃ outcome : (TokenField → Option ℕ) × UsageQuality, ∀ order, order.Perm us →
    ∃ s, mergeAll order = .ok s ∧ (s.tokens, qualityOf s) = outcome) ∨
  ∀ order, order.Perm us → ∃ message, mergeAll order = .error (.conflict message)

theorem mergeAll_error {us : List Usage} (h : ¬ ∃ s, mergeAll us = .ok s) :
    ∃ message, mergeAll us = .error (.conflict message) := by
  have hraises : ∀ (us : List Usage) (s : Usage) (e : LedgerError),
      us.foldlM mergeUsage s = .error e → ∃ message, e = .conflict message := by
    intro us
    induction us with
    | nil => exact fun _ _ h => by cases h
    | cons u us ih =>
        intro s e h
        rw [List.foldlM_cons] at h
        cases hmerge : mergeUsage s u with
        | error e' =>
            rw [hmerge] at h
            obtain rfl := Except.error.inj h
            exact mergeUsage_error hmerge
        | ok s' =>
            rw [hmerge] at h
            exact ih s' e h
  cases hrun : mergeAll us with
  | ok s => exact absurd ⟨s, hrun⟩ h
  | error e =>
      obtain ⟨message, rfl⟩ := hraises us _ e hrun
      exact ⟨message, rfl⟩

theorem not_clash_of_not_contested {us order : List Usage} (hperm : order.Perm us)
    (h : ¬ Contested us) : ¬ Clash order := by
  rintro ⟨seen, u, i, o, t, hseen, hsilent, ⟨a, ha, hai⟩, ⟨b, hb, hbo⟩, hle, ht, hne⟩
  have hmem : ∀ v ∈ seen ++ [u], v ∈ us := fun v hv => hperm.mem_iff.mp (hseen.subset hv)
  refine h ⟨i, o, t, ⟨a, hmem a (List.mem_append_left _ ha), hsilent a ha, hai⟩,
    ⟨b, hmem b (List.mem_append_left _ hb), hsilent b hb, hbo⟩, ⟨u, ?_, ht⟩, hne, .inl hle⟩
  exact hmem u (List.mem_append_right _ (List.mem_singleton.mpr rfl))

/-- Where nothing is contested, what overflows in one order does in every order, or the usages
are invalid anyway. -/
theorem overflown_of_not_contested {us order : List Usage} (hperm : order.Perm us)
    (hbound : ∀ t, Knows .totalTokens t us → t ≤ maxInt64) (h : ¬ Contested us)
    (hover : Overflown order) : (∃ u ∈ us, u.invalid = true) ∨ Overflown us := by
  obtain ⟨seen, i, o, hseen, hsilent, ⟨a, ha, hai⟩, ⟨b, hb, hbo⟩, hlarge⟩ := hover
  have hmem : ∀ v ∈ seen, v ∈ us := fun v hv => hperm.mem_iff.mp (hseen.subset hv)
  by_cases hall : Silent us
  · exact .inr ⟨us, i, o, List.prefix_rfl, hall, ⟨a, hmem a ha, hai⟩, ⟨b, hmem b hb, hbo⟩, hlarge⟩
  · left
    unfold Silent at hall
    push_neg at hall
    obtain ⟨c, hc, hct⟩ := hall
    obtain ⟨t, ht⟩ := Option.ne_none_iff_exists'.mp hct
    have hknows : Knows .totalTokens t us := ⟨c, hc, ht⟩
    have hle := hbound t hknows
    by_contra hnone
    push_neg at hnone
    refine h ⟨i, o, t, ⟨a, hmem a ha, hsilent a ha, hai⟩, ⟨b, hmem b hb, hsilent b hb, hbo⟩, hknows,
      by omega, .inr fun d hd => ?_⟩
    exact Bool.eq_false_iff.mpr (hnone d hd)

theorem qualityOf_eq {s s' : Usage} (htokens : s.tokens = s'.tokens)
    (hinvalid : s.invalid = true ↔ s'.invalid = true) : qualityOf s = qualityOf s' := by
  unfold qualityOf
  rw [htokens, Bool.eq_iff_iff.mpr hinvalid]

/-- The reports without a total first, or last. -/
def silentFirst (us : List Usage) : List Usage :=
  us.filter (fun u => (u.tokens .totalTokens).isNone) ++
    us.filter fun u => !(u.tokens .totalTokens).isNone

def silentLast (us : List Usage) : List Usage :=
  us.filter (fun u => !(u.tokens .totalTokens).isNone) ++
    us.filter fun u => (u.tokens .totalTokens).isNone

theorem silentFirst_perm (us : List Usage) : (silentFirst us).Perm us :=
  List.filter_append_perm _ us

theorem silentLast_perm (us : List Usage) : (silentLast us).Perm us :=
  List.perm_append_comm.trans (silentFirst_perm us)

/-- With a total in front nothing is derived. -/
theorem eq_nil_of_silent {us seen : List Usage} {t : ℕ} (hknows : Knows .totalTokens t us)
    (hseen : seen <+: silentLast us) (hsilent : Silent seen) : seen = [] := by
  obtain ⟨c, hc, hct⟩ := hknows
  cases hparts : us.filter fun u => !(u.tokens .totalTokens).isNone with
  | nil =>
      have hmem : c ∈ us.filter fun u => !(u.tokens .totalTokens).isNone :=
        List.mem_filter.mpr ⟨hc, by rw [hct]; rfl⟩
      rw [hparts] at hmem
      cases hmem
  | cons d rest =>
      have hd : (!(d.tokens .totalTokens).isNone) = true := by
        have hmem : d ∈ us.filter fun u => !(u.tokens .totalTokens).isNone := by
          rw [hparts]
          exact List.mem_cons_self
        exact (List.mem_filter.mp hmem).2
      cases seen with
      | nil => rfl
      | cons e seen =>
          unfold silentLast at hseen
          rw [hparts, List.cons_append, List.cons_prefix_cons] at hseen
          rw [← hseen.1, hsilent e List.mem_cons_self] at hd
          cases hd

theorem independent_iff {us : List Usage} (hbound : ∀ t, Knows .totalTokens t us → t ≤ maxInt64) :
    Independent us ↔ ¬ (Agreeing us ∧ Contested us) := by
  constructor
  · rintro hindependent ⟨hagree, i, o, t, ⟨a, ha, hatotal, hai⟩, ⟨b, hb, hbtotal, hbo⟩, hknows, hne,
      hvalid⟩
    have hfirst : Knows .inputTokens i (us.filter fun u => (u.tokens .totalTokens).isNone) ∧
        Knows .outputTokens o (us.filter fun u => (u.tokens .totalTokens).isNone) := by
      refine ⟨⟨a, List.mem_filter.mpr ⟨ha, by rw [hatotal]; rfl⟩, hai⟩,
        ⟨b, List.mem_filter.mpr ⟨hb, by rw [hbtotal]; rfl⟩, hbo⟩⟩
    have hsilent : Silent (us.filter fun u => (u.tokens .totalTokens).isNone) := fun u hu =>
      Option.isNone_iff_eq_none.mp (List.mem_filter.mp hu).2
    have hlate : ∃ s, mergeAll (silentLast us) = .ok s := by
      refine mergeAll_isOk_iff.mpr ⟨hagree.perm (silentLast_perm us).symm, ?_⟩
      rintro ⟨seen, u, _, _, _, hseen, hsil, ⟨v, hv, -⟩, -⟩
      have hinitial := (List.prefix_append seen [u]).trans hseen
      rw [eq_nil_of_silent hknows hinitial hsil] at hv
      cases hv
    obtain ⟨late, hlate⟩ := hlate
    rcases hindependent with ⟨outcome, hall⟩ | hnone
    · obtain ⟨early, hearly, hoearly⟩ := hall _ (silentFirst_perm us)
      obtain ⟨late', hlate', holate⟩ := hall _ (silentLast_perm us)
      obtain rfl := Except.ok.inj (hlate'.symm.trans hlate)
      have hlarge : maxInt64 < i + o := by
        by_contra hle
        obtain ⟨c, hc, hct⟩ := hknows
        have hrest : c ∈ us.filter fun u => !(u.tokens .totalTokens).isNone :=
          List.mem_filter.mpr ⟨hc, by rw [hct]; rfl⟩
        obtain ⟨d, rest, hparts⟩ := List.exists_cons_of_ne_nil (List.ne_nil_of_mem hrest)
        have hd : d ∈ us.filter fun u => !(u.tokens .totalTokens).isNone := by
          rw [hparts]
          exact List.mem_cons_self
        obtain ⟨hdus, hdtotal⟩ := List.mem_filter.mp hd
        obtain ⟨t', ht'⟩ : ∃ t', d.tokens .totalTokens = some t' := by
          cases htotal : d.tokens .totalTokens with
          | none =>
              rw [htotal] at hdtotal
              cases hdtotal
          | some t' => exact ⟨t', rfl⟩
        have heq : t' = t := hagree .totalTokens t' t ⟨d, hdus, ht'⟩ ⟨c, hc, hct⟩
        refine (mergeAll_isOk_iff.mp ⟨early, hearly⟩).2 ⟨_, d, i, o, t', ?_, hsilent, hfirst.1,
          hfirst.2, not_lt.mp hle, ht', heq ▸ hne⟩
        refine ⟨rest, ?_⟩
        unfold silentFirst
        rw [hparts, List.append_assoc]
        rfl
      have hearlyInvalid : early.invalid = true := by
        refine (summary_of_mergeAll hearly).invalid.mpr (.inr ⟨_, i, o, ?_, hsilent, hfirst.1,
          hfirst.2, hlarge⟩)
        exact List.prefix_append _ _
      have hlateValid : ¬ late'.invalid = true := by
        intro hinvalid
        rcases (summary_of_mergeAll hlate').invalid.mp hinvalid with ⟨u, hu, hinvalid⟩ | hover
        · have hu := (silentLast_perm us).mem_iff.mp hu
          rw [hvalid.resolve_left (not_le.mpr hlarge) u hu] at hinvalid
          cases hinvalid
        · obtain ⟨seen, _, _, hseen, hsil, ⟨v, hv, -⟩, -⟩ := hover
          rw [eq_nil_of_silent hknows hseen hsil] at hv
          cases hv
      have hquality : qualityOf early = qualityOf late' :=
        congrArg Prod.snd (hoearly.trans holate.symm)
      unfold qualityOf at hquality
      rw [if_pos hearlyInvalid, if_neg hlateValid] at hquality
      split_ifs at hquality
    · obtain ⟨message, hmessage⟩ := hnone _ (silentLast_perm us)
      rw [hlate] at hmessage
      cases hmessage
  · intro h
    by_cases hagree : Agreeing us
    · have hcontested : ¬ Contested us := fun hcontested => h ⟨hagree, hcontested⟩
      have hok : ∀ order, order.Perm us → ∃ s, mergeAll order = .ok s := fun order hperm =>
        mergeAll_isOk_iff.mpr ⟨hagree.perm hperm.symm, not_clash_of_not_contested hperm hcontested⟩
      obtain ⟨s, hs⟩ := hok us (List.Perm.refl us)
      refine .inl ⟨(s.tokens, qualityOf s), fun order hperm => ?_⟩
      obtain ⟨s', hs'⟩ := hok order hperm
      have hsummary := summary_of_mergeAll hs
      have hsummary' := summary_of_mergeAll hs'
      have htokens := tokens_perm hperm hsummary' hsummary
      refine ⟨s', hs', Prod.ext htokens (qualityOf_eq htokens ?_)⟩
      rw [hsummary.invalid, hsummary'.invalid]
      have hinvalid : (∃ u ∈ order, u.invalid = true) ↔ ∃ u ∈ us, u.invalid = true :=
        exists_congr fun u => and_congr_left fun _ => hperm.mem_iff
      rw [hinvalid]
      constructor
      · rintro (hin | hover)
        · exact .inl hin
        · exact overflown_of_not_contested hperm hbound hcontested hover
      · rintro (hin | hover)
        · exact .inl hin
        · have hcontested' : ¬ Contested order := by
            rintro ⟨i, o, t, ⟨a, ha, hai⟩, ⟨b, hb, hbo⟩, hknows, hne, hvalid⟩
            refine hcontested ⟨i, o, t, ⟨a, hperm.mem_iff.mp ha, hai⟩, ⟨b, hperm.mem_iff.mp hb, hbo⟩,
              (Knows.perm hperm).mp hknows, hne, hvalid.imp_right fun hd d hin => ?_⟩
            exact hd d (hperm.mem_iff.mpr hin)
          have hover' := overflown_of_not_contested hperm.symm
            (fun t ht => hbound t ((Knows.perm hperm).mp ht)) hcontested' hover
          rwa [hinvalid] at hover'
    · refine .inr fun order hperm => mergeAll_error fun hok => ?_
      exact hagree ((mergeAll_isOk_iff.mp hok).1.perm hperm)

end LogRisk.Ledger
