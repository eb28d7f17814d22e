import Mathlib
import LogRisk.Library.Log
import LogRisk.Streaming.Run

/-!
# Reading a Kafka topic up to a locked end

The adapter seeks every partition, asks for the end offsets unless the checkpoint
holds locked ones, and polls until every position has reached its end.  A message
behind the end of its partition is dropped; every other one is handed on with a
cursor that holds the next offset of each partition read so far.

How much a poll returns is the broker's choice.  It returns the messages of a
partition in the order of their offsets, from the consumer's position on.
-/

namespace LogRisk.Kafka

open LogRisk.Library LogRisk.Library.Transaction LogRisk.Streaming

/-- A message with its decoded value. -/
structure Message (ν : Type) where
  partition : ℕ
  offset : ℕ
  value : ν
deriving DecidableEq

/-- The content of a topic: the messages of every partition with increasing
offsets, and the offset each partition begins at. -/
structure Topic (ν : Type) where
  partitions : List ℕ
  log : ℕ → List (Message ν)
  beginning : ℕ → ℕ
  nodup : partitions.Nodup
  increasing : ∀ p, Log.Increasing Message.offset (log p)
  own : ∀ p, ∀ m ∈ log p, m.partition = p

variable {ν : Type}

/-- `str(partition.partition)`. -/
def partitionKey (p : ℕ) : String := toString p

theorem partitionKey_injective : Function.Injective partitionKey := fun _ _ h => Nat.repr_inj.mp h

/-- The end offsets under the texts of the partition numbers. -/
def offsetsOf (f : ℕ → ℕ) : List ℕ → OffsetMap
  | [] => ∅
  | p :: rest => (offsetsOf f rest).insert (partitionKey p) (f p)

def partitionKeys (partitions : List ℕ) : Finset String := (partitions.map partitionKey).toFinset

inductive SourceError where
  | source (message : String)
  | cursor (error : CursorError)
deriving DecidableEq

/-- The state of the generator behind `read`: the consumer's positions, the locked
ends, the next offsets seen and what is left of the last poll. -/
structure Reader (ν : Type) where
  ends : ℕ → ℕ
  current : OffsetMap
  position : ℕ → ℕ
  pending : List (Message ν)
  polled : Bool

/-- The next offset of a partition, its beginning where the map has none. -/
def nextOffset (topic : Topic ν) (offsets : OffsetMap) (p : ℕ) : ℕ :=
  match offsets.lookup (partitionKey p) with
  | some n => n.toNat
  | none => topic.beginning p

def nonnegative (offsets : OffsetMap) : Prop := ∀ key ∈ offsets.keys, 0 ≤ offsets.offset key

instance (offsets : OffsetMap) : Decidable (nonnegative offsets) :=
  inferInstanceAs (Decidable (∀ key ∈ offsets.keys, _))

/-- The end offsets of a read: those locked in the checkpoint, else the broker's. -/
def endOffsets (topic : Topic ν) (brokerEnds : ℕ → ℕ) (stored : OffsetMap) :
    Except SourceError (ℕ → ℕ) :=
  if stored = ∅ then .ok brokerEnds
  else if stored.keys = partitionKeys topic.partitions then
    .ok fun p => (stored.offset (partitionKey p)).toNat
  else .error (.source "Kafka Topic 分区已变化，不能继续恢复")

/-- The head of `read`, up to the first poll. -/
def openReader (topic : Topic ν) (bootstrapFingerprint : String) (brokerEnds : ℕ → ℕ)
    (cursor : SourceCursor) : Except SourceError (Reader ν) := do
  require (cursor.kind = "" ∨ cursor.kind = "kafka")
    (.source "Kafka 来源不能使用其他来源的 Checkpoint")
  require (topic.partitions ≠ []) (.source "Kafka Topic 不存在或没有可用分区")
  let offsets := cursorOffsets cursor
  require (nonnegative offsets) (.source "Kafka Checkpoint 无效")
  require (∀ stored ∈ cursor.value.bootstrapFingerprint,
      stored = "" ∨ stored = bootstrapFingerprint)
    (.source "Kafka Bootstrap 来源已变化，不能继续恢复")
  let stored := cursor.value.highWater.getD ∅
  require (nonnegative stored) (.source "Kafka 高水位 Checkpoint 无效")
  let ends ← endOffsets topic brokerEnds stored
  return { ends := ends, current := offsets, position := nextOffset topic offsets, pending := []
           polled := false }

/-- The cursor of the adapter: next offsets, locked ends and the broker it read. -/
def checkpoint (topic : Topic ν) (bootstrapFingerprint : String) (ends : ℕ → ℕ)
    (current : OffsetMap) : SourceCursor where
  kind := "kafka"
  value :=
    { partitions := some current
      highWater := some (offsetsOf ends topic.partitions)
      bootstrapFingerprint := some bootstrapFingerprint }

namespace Reader

/-- `consumer.poll`: the broker advances every partition by some distance. -/
def poll (topic : Topic ν) (advance : ℕ → ℕ) (r : Reader ν) : Reader ν :=
  { r with
    position := fun p => r.position p + advance p
    pending := topic.partitions.flatMap fun p =>
      Log.slice Message.offset (r.position p) (r.position p + advance p) (topic.log p)
    polled := true }

/-- Every position has reached its end. -/
def Reached (topic : Topic ν) (r : Reader ν) : Prop :=
  ∀ p ∈ topic.partitions, r.ends p ≤ r.position p

instance (topic : Topic ν) (r : Reader ν) : Decidable (r.Reached topic) :=
  inferInstanceAs (Decidable (∀ p ∈ topic.partitions, _))

/-- The cursor that goes with the next offsets seen. -/
def cursor (topic : Topic ν) (bootstrapFingerprint : String) (r : Reader ν) : SourceCursor :=
  checkpoint topic bootstrapFingerprint r.ends r.current

/-- Leave the first message of the last poll, which lies behind its end. -/
def skip (r : Reader ν) : Reader ν := { r with pending := r.pending.tail }

/-- Consume the first message of the last poll. -/
def consume (m : Message ν) (r : Reader ν) : Reader ν :=
  { r with
    pending := r.pending.tail
    current := r.current.insert (partitionKey m.partition) ((m.offset + 1 : ℕ) : ℤ) }

end Reader

/-! ## Offset maps -/

theorem mem_offsetsOf {f : ℕ → ℕ} {ps : List ℕ} {key : String} :
    key ∈ offsetsOf f ps ↔ ∃ p ∈ ps, key = partitionKey p := by
  induction ps with
  | nil => simp [offsetsOf, Finmap.notMem_empty]
  | cons p rest ih => simp [offsetsOf, ih]

theorem keys_offsetsOf (f : ℕ → ℕ) (ps : List ℕ) : (offsetsOf f ps).keys = partitionKeys ps := by
  ext key
  rw [Finmap.mem_keys, mem_offsetsOf, partitionKeys, List.mem_toFinset, List.mem_map]
  simp only [eq_comm]

theorem lookup_offsetsOf {f : ℕ → ℕ} {ps : List ℕ} {p : ℕ} (hp : p ∈ ps) :
    (offsetsOf f ps).lookup (partitionKey p) = some (f p : ℤ) := by
  induction ps with
  | nil => cases hp
  | cons q rest ih =>
      rw [offsetsOf]
      by_cases hq : q = p
      · rw [hq, Finmap.lookup_insert]
      · have hne : partitionKey p ≠ partitionKey q := fun h => hq (partitionKey_injective h).symm
        rw [Finmap.lookup_insert_of_ne _ hne]
        exact ih ((List.mem_cons.mp hp).resolve_left fun h => hq h.symm)

theorem offsetsOf_congr {f g : ℕ → ℕ} {ps : List ℕ} (h : ∀ p ∈ ps, f p = g p) :
    offsetsOf f ps = offsetsOf g ps := by
  induction ps with
  | nil => rfl
  | cons p rest ih =>
      rw [offsetsOf, offsetsOf, h p (List.mem_cons_self ..),
        ih fun q hq => h q (List.mem_cons_of_mem _ hq)]

theorem offsetsOf_ne_empty {f : ℕ → ℕ} {ps : List ℕ} (h : ps ≠ []) : offsetsOf f ps ≠ ∅ := by
  obtain ⟨p, rest, rfl⟩ := List.exists_cons_of_ne_nil h
  intro hempty
  have hmem : partitionKey p ∈ offsetsOf f (p :: rest) :=
    mem_offsetsOf.mpr ⟨p, List.mem_cons_self .., rfl⟩
  rw [hempty] at hmem
  exact Finmap.notMem_empty hmem

theorem nextOffset_insert (topic : Topic ν) (offsets : OffsetMap) (p n q : ℕ) :
    nextOffset topic (offsets.insert (partitionKey p) (n : ℤ)) q =
      if q = p then n else nextOffset topic offsets q := by
  by_cases hq : q = p
  · subst hq
    rw [if_pos rfl, nextOffset, Finmap.lookup_insert]
    rfl
  · have hne : partitionKey q ≠ partitionKey p := fun h => hq (partitionKey_injective h)
    rw [if_neg hq, nextOffset, Finmap.lookup_insert_of_ne _ hne]
    rfl

/-- Offsets a reader of the topic can hold: of known partitions, from their
beginning up to their locked end. -/
structure ValidOffsets (topic : Topic ν) (ends : ℕ → ℕ) (offsets : OffsetMap) : Prop where
  known : ∀ key ∈ offsets, ∃ p ∈ topic.partitions, key = partitionKey p
  bounds : ∀ p ∈ topic.partitions, ∀ n, offsets.lookup (partitionKey p) = some n →
    (topic.beginning p : ℤ) ≤ n ∧ n ≤ ends p

theorem ValidOffsets.empty (topic : Topic ν) (ends : ℕ → ℕ) : ValidOffsets topic ends ∅ where
  known key h := absurd h Finmap.notMem_empty
  bounds p _ n h := by simp at h

variable {topic : Topic ν} {ends : ℕ → ℕ} {offsets : OffsetMap}

theorem ValidOffsets.beginning_le (h : ValidOffsets topic ends offsets) {p : ℕ}
    (hp : p ∈ topic.partitions) : topic.beginning p ≤ nextOffset topic offsets p := by
  unfold nextOffset
  split
  · rename_i n hn
    have hbounds := h.bounds p hp n hn
    omega
  · exact le_refl _

/-- A partition is read up to its end at most, or not at all. -/
theorem ValidOffsets.le_end_or (h : ValidOffsets topic ends offsets) {p : ℕ}
    (hp : p ∈ topic.partitions) :
    nextOffset topic offsets p ≤ ends p ∨ nextOffset topic offsets p = topic.beginning p := by
  unfold nextOffset
  split
  · rename_i n hn
    have hbounds := h.bounds p hp n hn
    exact .inl (by omega)
  · exact .inr rfl

theorem ValidOffsets.insert (h : ValidOffsets topic ends offsets) {p n : ℕ}
    (hp : p ∈ topic.partitions) (hlo : topic.beginning p ≤ n) (hhi : n ≤ ends p) :
    ValidOffsets topic ends (offsets.insert (partitionKey p) (n : ℤ)) where
  known key hkey := by
    rw [Finmap.mem_insert] at hkey
    rcases hkey with rfl | hold
    · exact ⟨p, hp, rfl⟩
    · exact h.known key hold
  bounds q hq m hm := by
    by_cases hqp : q = p
    · subst hqp
      rw [Finmap.lookup_insert] at hm
      obtain rfl := Option.some.inj hm
      omega
    · have hne : partitionKey q ≠ partitionKey p := fun h => hqp (partitionKey_injective h)
      rw [Finmap.lookup_insert_of_ne _ hne] at hm
      exact h.bounds q hq m hm

theorem offset_eq_of_lookup {key : String} {n : ℤ} (h : offsets.lookup key = some n) :
    OffsetMap.offset offsets key = n := by
  rw [OffsetMap.offset, h]
  rfl

theorem nextOffset_le_of_covers {stored : OffsetMap} (h : ValidOffsets topic ends offsets)
    (hcovers : offsets.Covers stored) {p : ℕ} (hp : p ∈ topic.partitions) :
    nextOffset topic stored p ≤ nextOffset topic offsets p := by
  cases hstored : stored.lookup (partitionKey p) with
  | none =>
      have hnext : nextOffset topic stored p = topic.beginning p := by rw [nextOffset, hstored]
      rw [hnext]
      exact h.beginning_le hp
  | some n =>
      have hmem : partitionKey p ∈ stored.keys :=
        Finmap.mem_keys.mpr (Finmap.lookup_isSome.mp (by simp [hstored]))
      obtain ⟨hin, hle⟩ := hcovers _ hmem
      obtain ⟨n', hn'⟩ := Option.isSome_iff_exists.mp (Finmap.lookup_isSome.mpr hin)
      rw [offset_eq_of_lookup hstored, offset_eq_of_lookup hn'] at hle
      rw [nextOffset, nextOffset, hstored, hn']
      exact Int.toNat_le_toNat hle

/-- Moving one partition on moves the map on, and the old map does not cover the
new one. -/
theorem covers_insert {p n : ℕ} (h : ∀ m, offsets.lookup (partitionKey p) = some m → m < n) :
    OffsetMap.Covers (offsets.insert (partitionKey p) (n : ℤ)) offsets ∧
      ¬OffsetMap.Covers offsets (offsets.insert (partitionKey p) (n : ℤ)) := by
  constructor
  · intro key hkey
    rw [Finmap.mem_keys] at hkey
    refine ⟨Finmap.mem_insert.mpr (.inr hkey), ?_⟩
    by_cases hp : key = partitionKey p
    · subst hp
      obtain ⟨m, hm⟩ := Option.isSome_iff_exists.mp (Finmap.lookup_isSome.mpr hkey)
      rw [offset_eq_of_lookup hm, offset_eq_of_lookup (Finmap.lookup_insert _)]
      exact (h m hm).le
    · rw [OffsetMap.offset, OffsetMap.offset, Finmap.lookup_insert_of_ne _ hp]
  · intro hcovers
    obtain ⟨hmem, hle⟩ := hcovers (partitionKey p)
      (Finmap.mem_keys.mpr (Finmap.mem_insert.mpr (.inl rfl)))
    obtain ⟨m, hm⟩ := Option.isSome_iff_exists.mp (Finmap.lookup_isSome.mpr hmem)
    rw [offset_eq_of_lookup hm, offset_eq_of_lookup (Finmap.lookup_insert _)] at hle
    have hlt := h m hm
    omega

theorem lt_of_nextOffset_le {p n : ℕ} (h : nextOffset topic offsets p ≤ n) (m : ℤ)
    (hm : offsets.lookup (partitionKey p) = some m) : m < (n + 1 : ℕ) := by
  have hnext : nextOffset topic offsets p = m.toNat := by rw [nextOffset, hm]
  have hle := Int.self_le_toNat m
  omega

/-! ## Cursors of the adapter -/

/-- The cursors a reading up to these ends can store. -/
structure Storable (topic : Topic ν) (bootstrapFingerprint : String) (ends : ℕ → ℕ)
    (cursor : SourceCursor) : Prop where
  form : cursor = SourceCursor.empty ∨
    cursor = checkpoint topic bootstrapFingerprint ends (cursorOffsets cursor)
  valid : ValidOffsets topic ends (cursorOffsets cursor)

theorem Storable.empty (topic : Topic ν) (bootstrapFingerprint : String) (ends : ℕ → ℕ) :
    Storable topic bootstrapFingerprint ends SourceCursor.empty where
  form := .inl rfl
  valid := .empty topic ends

theorem checkpoint_ne_empty (topic : Topic ν) (fingerprint : String) (ends : ℕ → ℕ)
    (current : OffsetMap) : checkpoint topic fingerprint ends current ≠ SourceCursor.empty :=
  fun h => absurd (congrArg SourceCursor.kind h) (by decide : "kafka" ≠ "")

theorem checkpoint_congr {ends' : ℕ → ℕ} (h : ∀ p ∈ topic.partitions, ends p = ends' p)
    (fingerprint : String) (current : OffsetMap) :
    checkpoint topic fingerprint ends current = checkpoint topic fingerprint ends' current := by
  rw [checkpoint, checkpoint, offsetsOf_congr h]

theorem mapFallsBehind_of_covers {candidate current : OffsetMap}
    (h : candidate.Covers current) : mapFallsBehind candidate current = .ok false := by
  have hsub : current.keys ⊆ candidate.keys := fun key hkey => Finmap.mem_keys.mpr (h key hkey).1
  have hlow : ¬∃ key ∈ current.keys, key ∈ candidate ∧ candidate.offset key < current.offset key := by
    rintro ⟨key, hkey, _, hlt⟩
    exact absurd (h key hkey).2 (not_le.mpr hlt)
  rw [mapFallsBehind, if_neg fun hss => hss.2 hsub, if_neg hlow, if_pos hsub]

/-- The pipeline keeps a cursor of the adapter that moves on. -/
theorem cursorAtLeast_checkpoint (topic : Topic ν) (fingerprint : String) (ends : ℕ → ℕ)
    {candidate current : OffsetMap} (h : candidate.Covers current) :
    cursorAtLeast (checkpoint topic fingerprint ends candidate)
      (checkpoint topic fingerprint ends current) =
        .ok (checkpoint topic fingerprint ends candidate) := by
  have hpartitions := mapFallsBehind_of_covers h
  have hends := mapFallsBehind_of_covers (OffsetMap.Covers.refl (offsetsOf ends topic.partitions))
  have hbehind : kafkaFallsBehind (checkpoint topic fingerprint ends candidate)
      (checkpoint topic fingerprint ends current) = .ok false := by
    rw [kafkaFallsBehind]
    refine bind_eq_ok.mpr ⟨false, hpartitions, bind_eq_ok.mpr ⟨false, hends, rfl⟩⟩
  simp [cursorAtLeast, checkpoint, bind, Except.bind] at hbehind ⊢
  rw [hbehind]
  rfl

end LogRisk.Kafka
