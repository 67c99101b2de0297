import ContextIntelligence.Queue.Directory

/-!
# Seeding the counters from the spool directory

`recovery_seed_counts` and `refresh_all_stats` walk the directory key by key and skip a key they
fail on, but not the same keys. The residual is the sum of what the two make of each key
(`residual_eq_sum`): the dead letters that only the seeds count, less the lines and dead letters
that only the statistics count (`keyDebit_eq`).
-/

namespace ContextIntelligence.Queue

open Lib.Lines

namespace Directory

/-! ## The two passes -/

/-- The body of `refresh_all_stats` for one key: its `in_queue` and its `dead`. -/
def keyStats (d : Directory) (key : WorkerKey) : Except Fault (Nat × Nat) := do
  let committed ← readCommittedOffset (d.files key).offset
  let inQueue ← streamNewlines d.maxSeek (d.files key).log committed none
  let dead ← countDead d.maxSeek (d.files key)
  return (inQueue, dead)

def keyTotals (d : Directory) (key : WorkerKey) : Nat × Nat :=
  match d.keyStats key with
  | .ok stats => stats
  | .error _ => (0, 0)

/-- `refresh_all_stats`: the `in_queue_total` and the `dead_total`. -/
def refreshAllStats (d : Directory) : Nat × Nat :=
  d.allWorkerKeys.foldl
    (fun totals key => (totals.1 + (d.keyTotals key).1, totals.2 + (d.keyTotals key).2)) (0, 0)

/-- The guarded body of `recovery_seed_counts` for one key: what it adds to the accepted and to
the written events. -/
def keySeed (d : Directory) (key : WorkerKey) : Except Fault (ℤ × ℤ) := do
  let committed ← readCommittedOffset (d.files key).offset
  let completeEnd ← lastCompleteEnd (d.files key).log
  let dead ← countDead d.maxSeek (d.files key)
  let before ← streamNewlines d.maxSeek (d.files key).log 0 (some committed)
  let pending ← streamNewlines d.maxSeek (d.files key).log committed (some completeEnd)
  let writtenSeed : ℤ := max 0 ((before : ℤ) - dead)
  return (writtenSeed + pending + dead, writtenSeed)

/-- What a key adds to the seeds; an unsafe key is rejected before its files are touched, and one
that raises is skipped. -/
def keySeeds (d : Directory) (key : WorkerKey) : ℤ × ℤ :=
  if isSafeSessionComponent key then
    match d.keySeed key with
    | .ok seeds => seeds
    | .error _ => (0, 0)
  else (0, 0)

/-- `recovery_seed_counts`: the accepted and the written events. -/
def recoverySeedCounts (d : Directory) : ℤ × ℤ :=
  d.allWorkerKeys.foldl
    (fun seeds key => (seeds.1 + (d.keySeeds key).1, seeds.2 + (d.keySeeds key).2)) (0, 0)

/-- The residual of `pipeline_metrics` when the counters are the seeds and the snapshot is that of
the same directory. -/
def residual (d : Directory) : ℤ :=
  d.recoverySeedCounts.1 - d.recoverySeedCounts.2 - d.refreshAllStats.1 - d.refreshAllStats.2

/-! ## The residual key by key -/

def keyDebit (d : Directory) (key : WorkerKey) : ℤ :=
  (d.keySeeds key).1 - (d.keySeeds key).2 - (d.keyTotals key).1 - (d.keyTotals key).2

theorem residual_eq_sum (d : Directory) : d.residual = (d.allWorkerKeys.map d.keyDebit).sum := by
  -- the four accumulators of the two loops, from any values they have reached
  have hloops : ∀ (keys : List WorkerKey) (seeds : ℤ × ℤ) (totals : Nat × Nat),
      (keys.foldl (fun seeds key =>
          (seeds.1 + (d.keySeeds key).1, seeds.2 + (d.keySeeds key).2)) seeds).1
        - (keys.foldl (fun seeds key =>
            (seeds.1 + (d.keySeeds key).1, seeds.2 + (d.keySeeds key).2)) seeds).2
        - (keys.foldl (fun totals key =>
            (totals.1 + (d.keyTotals key).1, totals.2 + (d.keyTotals key).2)) totals).1
        - (keys.foldl (fun totals key =>
            (totals.1 + (d.keyTotals key).1, totals.2 + (d.keyTotals key).2)) totals).2
      = seeds.1 - seeds.2 - totals.1 - totals.2 + (keys.map d.keyDebit).sum := by
    intro keys
    induction keys with
    | nil => intro seeds totals; simp
    | cons key keys ih =>
      intro seeds totals
      simp only [List.foldl_cons, List.map_cons, List.sum_cons]
      rw [ih]
      simp only [keyDebit]
      omega
  have htotal := hloops d.allWorkerKeys (0, 0) (0, 0)
  rw [residual, recoverySeedCounts, refreshAllStats, htotal]
  simp

/-- The dead letters of a safe key that the statistics leave out: it has a log, and its offset lies
beyond what the file system can seek to. -/
def uncounted (d : Directory) (key : WorkerKey) : ℕ :=
  match (d.files key).log, readCommittedOffset (d.files key).offset,
    countDead d.maxSeek (d.files key) with
  | .bytes _, .ok committed, .ok dead =>
    if isSafeSessionComponent key ∧ (d.maxSeek : ℤ) < committed then dead else 0
  | _, _, _ => 0

/-- The complete lines behind the offset and the dead letters of an unsafe key, as far as its files
can be read: the seeds leave them out. -/
def unseeded (d : Directory) (key : WorkerKey) : ℕ :=
  if isSafeSessionComponent key then 0
  else match (d.files key).log, readCommittedOffset (d.files key).offset,
    countDead d.maxSeek (d.files key) with
  | .missing, .ok _, .ok dead => dead
  | .bytes content, .ok committed, .ok dead =>
    if 0 ≤ committed ∧ committed ≤ d.maxSeek then
      (content.drop committed.toNat).count newline + dead
    else 0
  | _, _, _ => 0

section Body

variable {d : Directory} {key : WorkerKey} {committed : ℤ} {dead : Nat}

theorem keyStats_eq (hoffset : readCommittedOffset (d.files key).offset = .ok committed) :
    d.keyStats key = (do
      let inQueue ← streamNewlines d.maxSeek (d.files key).log committed none
      let dead ← countDead d.maxSeek (d.files key)
      return (inQueue, dead)) := by
  rw [keyStats, hoffset]
  rfl

theorem keySeed_eq (hoffset : readCommittedOffset (d.files key).offset = .ok committed)
    (hdead : countDead d.maxSeek (d.files key) = .ok dead) :
    d.keySeed key = (do
      let completeEnd ← lastCompleteEnd (d.files key).log
      let before ← streamNewlines d.maxSeek (d.files key).log 0 (some committed)
      let pending ← streamNewlines d.maxSeek (d.files key).log committed (some completeEnd)
      let writtenSeed : ℤ := max 0 ((before : ℤ) - dead)
      return (writtenSeed + pending + dead, writtenSeed)) := by
  rw [keySeed, hoffset, hdead]
  rfl

/-- The statistics of a key whose offset and dead letters can be read. -/
theorem keyTotals_eq (hoffset : readCommittedOffset (d.files key).offset = .ok committed)
    (hdead : countDead d.maxSeek (d.files key) = .ok dead) :
    d.keyTotals key = match (d.files key).log with
      | .missing => (0, dead)
      | .unreadable => (0, 0)
      | .bytes content =>
        if 0 ≤ committed ∧ committed ≤ d.maxSeek then
          ((content.drop committed.toNat).count newline, dead)
        else (0, 0) := by
  rw [keyTotals, keyStats_eq hoffset, hdead]
  cases (d.files key).log with
  | missing =>
    rw [streamNewlines_missing]
    rfl
  | unreadable => rfl
  | bytes content =>
    dsimp only
    split_ifs with hin
    · obtain ⟨offset, rfl⟩ := Int.eq_ofNat_of_zero_le hin.1
      rw [streamNewlines_bytes (by omega) content none rfl]
      rfl
    · have hseek : seek d.maxSeek committed = .error .osError := by
        rcases Int.lt_or_le committed 0 with hneg | hnonneg
        · exact seek_of_neg hneg
        · exact seek_of_lt (not_le.1 fun hle => hin ⟨hnonneg, hle⟩)
      rw [streamNewlines_of_seek_error rfl hseek, error_bind]

theorem exists_before (content : Bytes) (maxSeek : Nat) (committed : ℤ) :
    ∃ before, streamNewlines maxSeek (.bytes content) 0 (some committed) = .ok before := by
  by_cases hle : (some committed).any (· ≤ (0 : ℤ)) = true
  · exact ⟨0, streamNewlines_of_le _ _ hle⟩
  · have hstop : (some committed).any (· ≤ ((0 : Nat) : ℤ)) = false := by simpa using hle
    exact ⟨_, streamNewlines_bytes (Nat.zero_le maxSeek) content _ hstop⟩

/-- The pending lines that the seeds count: an offset beyond the end of the log leaves none. -/
theorem streamNewlines_pending {content : Bytes} (hlog : (d.files key).log = .bytes content)
    (hnonneg : 0 ≤ committed) :
    streamNewlines d.maxSeek (.bytes content) committed
        (some ((completeEnd newline 0 [] content : Nat) : ℤ))
      = .ok ((content.drop committed.toNat).count newline) := by
  obtain ⟨offset, rfl⟩ := Int.eq_ofNat_of_zero_le hnonneg
  rcases Nat.lt_or_ge d.maxSeek offset with hlt | hle
  · have hfits := d.fits key content hlog
    have hlen := completeEnd_add_torn_length newline 0 [] content
    simp only [List.length_nil] at hlen
    have hend : (some (completeEnd newline 0 [] content : ℤ)).any (· ≤ (offset : ℤ)) = true := by
      simp only [Option.any_some, decide_eq_true_iff]
      omega
    rw [streamNewlines_of_le _ _ hend, Int.toNat_natCast, List.drop_eq_nil_of_le (by omega)]
    rfl
  · exact streamNewlines_to_completeEnd hle content

/-- What the seeds of a safe key count as accepted and not as written. -/
theorem keySeeds_sub (hsafe : isSafeSessionComponent key = true)
    (hoffset : readCommittedOffset (d.files key).offset = .ok committed)
    (hdead : countDead d.maxSeek (d.files key) = .ok dead) :
    (d.keySeeds key).1 - (d.keySeeds key).2 = match (d.files key).log with
      | .missing => (dead : ℤ)
      | .unreadable => 0
      | .bytes content =>
        if 0 ≤ committed then (((content.drop committed.toNat).count newline + dead : ℕ) : ℤ)
        else 0 := by
  rw [keySeeds, if_pos hsafe, keySeed_eq hoffset hdead]
  cases hlog : (d.files key).log with
  | missing =>
    rw [lastCompleteEnd]
    simp only [ok_bind, streamNewlines_missing]
    simp [pure, Except.pure]
  | unreadable => rfl
  | bytes content =>
    obtain ⟨before, hbefore⟩ := exists_before content d.maxSeek committed
    rw [lastCompleteEnd_bytes, ok_bind, hbefore, ok_bind]
    dsimp only
    split_ifs with hnonneg
    · rw [streamNewlines_pending hlog hnonneg]
      simp only [ok_bind, pure, Except.pure]
      push_cast
      ring
    · have hpend : (some (completeEnd newline 0 [] content : ℤ)).any (· ≤ committed) = false := by
        simp only [Option.any_some, decide_eq_false_iff_not]
        omega
      rw [streamNewlines_of_seek_error hpend (seek_of_neg (not_le.1 hnonneg)), error_bind]
      rfl

/-- A key whose offset or dead letters cannot be read counts nowhere. -/
theorem keyDebit_of_error {fault : Fault}
    (h : readCommittedOffset (d.files key).offset = .error fault
      ∨ countDead d.maxSeek (d.files key) = .error fault) : d.keyDebit key = 0 := by
  have hseed : ∃ fault, d.keySeed key = .error fault := by
    rw [keySeed]
    rcases h with h | h <;> rw [h]
    · exact ⟨fault, rfl⟩
    · cases readCommittedOffset (d.files key).offset with
      | error fault => exact ⟨fault, rfl⟩
      | ok committed => cases lastCompleteEnd (d.files key).log <;> exact ⟨_, rfl⟩
  have hstats : ∃ fault, d.keyStats key = .error fault := by
    rw [keyStats]
    rcases h with h | h <;> rw [h]
    · exact ⟨fault, rfl⟩
    · cases readCommittedOffset (d.files key).offset with
      | error fault => exact ⟨fault, rfl⟩
      | ok committed =>
        rw [ok_bind]
        cases streamNewlines d.maxSeek (d.files key).log committed none <;> exact ⟨_, rfl⟩
  obtain ⟨_, hseed⟩ := hseed
  obtain ⟨_, hstats⟩ := hstats
  simp [keyDebit, keySeeds, keyTotals, hseed, hstats]

end Body

/-- What the two passes make of a key, read off its files. -/
theorem keyDebit_eq (d : Directory) (key : WorkerKey) :
    d.keyDebit key = d.uncounted key - d.unseeded key := by
  unfold uncounted unseeded
  cases hoffset : readCommittedOffset (d.files key).offset with
  | error fault =>
    rw [keyDebit_of_error (.inl hoffset)]
    cases (d.files key).log <;> simp
  | ok committed =>
  cases hdead : countDead d.maxSeek (d.files key) with
  | error fault =>
    rw [keyDebit_of_error (.inr hdead)]
    cases (d.files key).log <;> simp
  | ok dead =>
  have htotals := keyTotals_eq hoffset hdead
  by_cases hsafe : isSafeSessionComponent key = true
  · have hseeds := keySeeds_sub hsafe hoffset hdead
    rw [keyDebit, hseeds, htotals]
    cases hlog : (d.files key).log with
    | missing => simp [hsafe]
    | unreadable => simp [hsafe]
    | bytes content =>
      -- beyond what can be sought there is nothing left of the log
      have hnone (hlt : (d.maxSeek : ℤ) < committed) :
          (content.drop committed.toNat).count newline = 0 := by
        rw [List.drop_eq_nil_of_le ((d.fits key content hlog).trans (by omega)), List.count_nil]
      simp only [hsafe, true_and, if_true]
      split_ifs <;> grind
  · rw [keyDebit, keySeeds, if_neg hsafe, htotals]
    cases (d.files key).log with
    | missing => simp [hsafe]
    | unreadable => simp
    | bytes content =>
      simp only [hsafe]
      split_ifs <;> grind

/-! ## The directory -/

theorem keySeeds_written_nonneg (d : Directory) (key : WorkerKey) : 0 ≤ (d.keySeeds key).2 := by
  rw [keySeeds]
  split
  · cases hseed : d.keySeed key with
    | error fault => exact Int.le_refl 0
    | ok seeds =>
      -- the only value the body returns is one with a clamped second part
      rw [keySeed] at hseed
      cases hoffset : readCommittedOffset (d.files key).offset with
      | error fault => rw [hoffset] at hseed; cases hseed
      | ok committed =>
      cases hend : lastCompleteEnd (d.files key).log with
      | error fault => rw [hoffset, hend] at hseed; cases hseed
      | ok completeEnd =>
      cases hdead : countDead d.maxSeek (d.files key) with
      | error fault => rw [hoffset, hend, hdead] at hseed; cases hseed
      | ok dead =>
      rw [hoffset, hend, hdead, ok_bind, ok_bind, ok_bind] at hseed
      cases hbefore : streamNewlines d.maxSeek (d.files key).log 0 (some committed) with
      | error fault => rw [hbefore] at hseed; cases hseed
      | ok before =>
      cases hpend : streamNewlines d.maxSeek (d.files key).log committed
          (some (completeEnd : ℤ)) with
      | error fault => rw [hbefore, ok_bind, hpend] at hseed; cases hseed
      | ok pending =>
        rw [hbefore, ok_bind, hpend] at hseed
        cases hseed
        exact Int.le_max_left ..
  · exact Int.le_refl 0

theorem recoverySeedCounts_written_nonneg (d : Directory) : 0 ≤ d.recoverySeedCounts.2 := by
  have hloop : ∀ (keys : List WorkerKey) (seeds : ℤ × ℤ), 0 ≤ seeds.2 →
      0 ≤ (keys.foldl (fun seeds key =>
        (seeds.1 + (d.keySeeds key).1, seeds.2 + (d.keySeeds key).2)) seeds).2 := by
    intro keys
    induction keys with
    | nil => intro seeds h; exact h
    | cons key keys ih =>
      intro seeds h
      exact ih _ (Int.add_nonneg h (d.keySeeds_written_nonneg key))
  exact hloop d.allWorkerKeys (0, 0) (Int.le_refl 0)

/-- Seeding leaves a residual of the dead letters that only the seeds count, less what only the
statistics count; so it leaves none exactly when the two agree, as they do when both are 0. The
written events are never negative. -/
theorem seeding_residual (d : Directory) :
    d.residual = ((d.allWorkerKeys.map d.uncounted).sum : ℤ) - (d.allWorkerKeys.map d.unseeded).sum
      ∧ (d.residual = 0
        ↔ (d.allWorkerKeys.map d.uncounted).sum = (d.allWorkerKeys.map d.unseeded).sum)
      ∧ 0 ≤ d.recoverySeedCounts.2 := by
  have hsum : d.residual = ((d.allWorkerKeys.map d.uncounted).sum : ℤ)
      - (d.allWorkerKeys.map d.unseeded).sum := by
    rw [residual_eq_sum]
    induction d.allWorkerKeys with
    | nil => rfl
    | cons key keys ih =>
      simp only [List.map_cons, List.sum_cons, keyDebit_eq, ih]
      push_cast
      ring
  refine ⟨hsum, ?_, d.recoverySeedCounts_written_nonneg⟩
  rw [hsum, sub_eq_zero]
  norm_cast

def single (key : WorkerKey) (files : KeyFiles) (maxSeek : Nat)
    (hfits : ∀ bytes, files.log = .bytes bytes → bytes.length ≤ maxSeek) : Directory where
  keys := [key]
  files := fun other => if other = key then files else KeyFiles.absent
  maxSeek := maxSeek
  complete := by
    intro other hother
    rw [List.mem_singleton] at hother
    rw [if_neg hother]
  fits := by
    intro other bytes hbytes
    split at hbytes
    · exact hfits bytes hbytes
    · cases hbytes

/-- A pending line under the name `a<TAB>b` is in the queue of the statistics and in no seed, so
the residual is negative; dead letters of the key `a`, whose offset is corrupt and beyond what can
be sought, are in the seeds and not in the statistics, so it is positive. -/
theorem seeding_residual_of_unsafe_key :
    (single [97, 9, 98] ⟨.bytes [120, newline], .missing, .missing⟩ (2 ^ 40) (by
        rintro _ ⟨⟩
        decide)).residual = -1
      ∧ (single [97] ⟨.bytes [120, newline], .value (2 ^ 63), .bytes [123, newline]⟩ (2 ^ 40) (by
        rintro _ ⟨⟩
        decide)).residual = 1 := by
  decide +kernel

end Directory

end ContextIntelligence.Queue
