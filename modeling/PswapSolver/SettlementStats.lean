import PswapSolver.FiniteMap
import PswapSolver.Order
import PswapSolver.OrderStatistics

/-! # The window of settlement durations

The model of `SettlementStats` in `swap_eta.rs`.  The executor records how long each order took
to settle; the price API reports the median per pair over the last 24 hours.

A record prunes the pair's queue twice: the samples older than the window as of the record are
popped from the front, and then the oldest until a thousand are left.  As long as the times do
not decrease, the queue holds those of the pair's last thousand samples that are young enough as
of the last record (`Retained`), and a later query that filters again finds exactly those that are
young enough for it.
-/
namespace PswapSolver
open OrderStatistics

/-- Retention window for samples, 24 hours. -/
def windowSecs : Nat := 24 * 60 * 60

/-- Cap on the samples retained for a pair. -/
def maxSamplesPerPair : Nat := 1000

/-- One settlement: when it was observed and how long it took, a `u64`. -/
structure Sample where
  atUnix : Nat
  durationSecs : Nat
  duration_lt : durationSecs < 2 ^ 64

/-- Recent settlement durations by directed pair. -/
structure SettlementStats where
  byPair : FiniteMap Pair (List Sample)

/-- Pops from the front while the queue is longer than `cap`. -/
def popWhileLonger (cap : Nat) : List Sample → List Sample
  | [] => []
  | s :: q => if cap < (s :: q).length then popWhileLonger cap q else s :: q

/-- Median of the numbers; the mean of the two middle ones is taken in `u128` and floored. -/
def medianOf (v : List Nat) : Option Nat :=
  if v = [] then none
  else
    let v := v.insertionSort (· ≤ ·)
    let n := v.length
    some (if n % 2 = 1 then (v[n / 2]?).getD 0
      else asU64 (((v[n / 2 - 1]?).getD 0 + (v[n / 2]?).getD 0) / 2))

namespace SettlementStats

def new : SettlementStats := ⟨∅⟩

/-- Records that an order of the pair settled. -/
def record (stats : SettlementStats) (pair : Pair) (sample : Sample) : SettlementStats :=
  let q := (stats.byPair.lookup pair).getD [] ++ [sample]
  let cutoff := sample.atUnix - windowSecs
  let q := q.dropWhile fun s => decide (s.atUnix < cutoff)
  let q := popWhileLonger maxSamplesPerPair q
  ⟨stats.byPair.insert pair q⟩

/-- Median settlement seconds of the pair over the last window. -/
def medianSecs (stats : SettlementStats) (pair : Pair) (nowUnix : Nat) : Option Nat :=
  match stats.byPair.lookup pair with
  | none => none
  | some q =>
    let cutoff := nowUnix - windowSecs
    medianOf ((q.filter fun s => decide (cutoff ≤ s.atUnix)).map Sample.durationSecs)

/-- The statistics after a sequence of records. -/
def recordAll (calls : List (Pair × Sample)) : SettlementStats :=
  calls.foldl (fun stats call => stats.record call.1 call.2) new

end SettlementStats

/-! ## The median -/

theorem getElem?_insertionSort {v : List Nat} {k : Nat} (hk : k < v.length) :
    ∃ x ∈ v, (v.insertionSort (· ≤ ·))[k]? = some x := by
  have hk' : k < (v.insertionSort (· ≤ ·)).length := by rwa [List.length_insertionSort]
  refine ⟨_, ?_, List.getElem?_eq_getElem hk'⟩
  rw [← List.mem_insertionSort (· ≤ ·)]
  exact List.getElem_mem hk'

/-- **`median_of` computes the median** of numbers that fit in a `u64`. -/
theorem isMedian_medianOf {v : List Nat} (h : ∀ x ∈ v, x < 2 ^ 64) : IsMedian v (medianOf v) := by
  by_cases hnil : v = []
  · rw [medianOf, if_pos hnil]
    exact hnil
  have hlen : 0 < v.length := List.length_pos_of_ne_nil hnil
  rw [medianOf, if_neg hnil]
  dsimp only
  rw [List.length_insertionSort]
  obtain ⟨upper, hmem, hupper⟩ := getElem?_insertionSort (v := v) (k := v.length / 2) (by omega)
  by_cases hodd : v.length % 2 = 1
  · rw [if_pos hodd, hupper]
    exact Or.inl ⟨hodd, isRank_insertionSort hupper⟩
  · obtain ⟨lower, hmem', hlower⟩ :=
      getElem?_insertionSort (v := v) (k := v.length / 2 - 1) (by omega)
    rw [if_neg hodd, hupper, hlower]
    refine Or.inr ⟨hlen, by omega, lower, upper, isRank_insertionSort hlower,
      isRank_insertionSort hupper, ?_⟩
    -- the mean of two `u64` is one
    have hle := h lower hmem'
    have hue := h upper hmem
    simp only [Option.getD_some]
    apply asU64_of_lt
    omega

/-! ## What is retained -/

/-- The samples of a pair, oldest first. -/
def samplesOf (calls : List (Pair × Sample)) (pair : Pair) : List Sample :=
  (calls.filter fun call => decide (call.1 = pair)).map Prod.snd

/-- The times do not decrease. -/
def Chronological (samples : List Sample) : Prop :=
  samples.Pairwise fun s s' => s.atUnix ≤ s'.atUnix

/-- **The samples a query is promised**: the pair's last thousand, as far as they are young
enough. -/
def promised (samples : List Sample) (nowUnix : Nat) : List Sample :=
  (samples.rtake maxSamplesPerPair).filter fun s => decide (nowUnix - windowSecs ≤ s.atUnix)

/-- The queue is what a query at some time, not later than `nowUnix`, was promised. -/
def Retained (q samples : List Sample) (nowUnix : Nat) : Prop :=
  ∃ t ≤ nowUnix, q = promised samples t

theorem popWhileLonger_eq_rtake (cap : Nat) (q : List Sample) :
    popWhileLonger cap q = q.rtake cap := by
  induction q with
  | nil => simp [popWhileLonger]
  | cons s q ih =>
    rw [popWhileLonger, ih, List.rtake, List.rtake, List.length_cons]
    by_cases hlong : cap < q.length + 1
    · rw [if_pos hlong, show q.length + 1 - cap = q.length - cap + 1 by omega, List.drop_succ_cons]
    · rw [if_neg hlong, show q.length + 1 - cap = 0 by omega, List.drop_zero]

theorem Chronological.lasting {samples : List Sample} (h : Chronological samples) (cutoff : Nat) :
    samples.Pairwise fun s s' =>
      decide (cutoff ≤ s.atUnix) = true → decide (cutoff ≤ s'.atUnix) = true := by
  refine List.Pairwise.imp ?_ h
  intro s s' hle hs
  rw [decide_eq_true_eq] at hs ⊢
  omega

theorem Chronological.sublist {samples samples' : List Sample} (h : Chronological samples)
    (hsub : samples'.Sublist samples) : Chronological samples' := List.Pairwise.sublist hsub h

theorem promised_sublist (samples : List Sample) (t : Nat) :
    (promised samples t).Sublist samples :=
  List.Sublist.trans List.filter_sublist (List.drop_sublist _ _)

/-- On samples in order, popping the old ones and then all but the last `n` leaves the young ones
among the last `n`. -/
theorem pruned_eq {q : List Sample} (h : Chronological q) (cutoff n : Nat) :
    popWhileLonger n (q.dropWhile fun s => decide (s.atUnix < cutoff)) =
      (q.rtake n).filter fun s => decide (cutoff ≤ s.atUnix) := by
  have hold : (fun s : Sample => decide (s.atUnix < cutoff)) =
      fun s => !decide (cutoff ≤ s.atUnix) := by
    funext s
    rw [← decide_not]
    exact decide_eq_decide.mpr Nat.not_le.symm
  rw [popWhileLonger_eq_rtake, hold, dropWhile_eq_filter (h.lasting cutoff),
    filter_rtake (h.lasting cutoff)]

/-- Filtering by two cutoffs is filtering by the later one. -/
theorem filter_cutoffs {cutoff cutoff' : Nat} (hle : cutoff ≤ cutoff') (samples : List Sample) :
    (samples.filter fun s => decide (cutoff ≤ s.atUnix)).filter
        (fun s => decide (cutoff' ≤ s.atUnix)) =
      samples.filter fun s => decide (cutoff' ≤ s.atUnix) := by
  rw [List.filter_filter]
  apply List.filter_congr
  intro s _
  rw [← Bool.decide_and]
  apply decide_eq_decide.mpr
  omega

/-- The last `n` are among the last `n + 1`. -/
theorem rtake_rtake_succ (samples : List Sample) (n : Nat) :
    (samples.rtake (n + 1)).rtake n = samples.rtake n := by
  unfold List.rtake
  rw [List.drop_drop, List.length_drop]
  congr 1
  omega

/-- **One more sample**: the young among the last `n` are the same whether all samples are looked
at or only the last `n` before it, less the old ones. -/
theorem window_concat {samples : List Sample} {sample : Sample} {cutoff cutoff' : Nat}
    (hle : cutoff ≤ cutoff') (hchron : Chronological (samples ++ [sample])) (n : Nat) :
    ((((samples.rtake n).filter fun s => decide (cutoff ≤ s.atUnix)) ++ [sample]).rtake n).filter
        (fun s => decide (cutoff' ≤ s.atUnix)) =
      ((samples ++ [sample]).rtake n).filter fun s => decide (cutoff' ≤ s.atUnix) := by
  have hlast : Chronological ((samples ++ [sample]).rtake (n + 1)) :=
    hchron.sublist (List.drop_sublist _ _)
  have hqueue : Chronological
      (((samples.rtake n).filter fun s => decide (cutoff ≤ s.atUnix)) ++ [sample]) := by
    refine hlast.sublist ?_
    rw [List.rtake_concat_succ]
    exact List.filter_sublist.append (List.Sublist.refl _)
  rw [filter_rtake (hqueue.lasting cutoff'), List.filter_append, filter_cutoffs hle,
    ← List.filter_append, ← List.rtake_concat_succ, ← filter_rtake (hlast.lasting cutoff'),
    rtake_rtake_succ]

/-- **A record keeps the promise**: what it leaves of a queue is what a query at its time is
promised. -/
theorem Retained.record {q samples : List Sample} {sample : Sample}
    (h : Retained q samples sample.atUnix) (hchron : Chronological (samples ++ [sample])) :
    popWhileLonger maxSamplesPerPair
        ((q ++ [sample]).dropWhile fun s => decide (s.atUnix < sample.atUnix - windowSecs)) =
      promised (samples ++ [sample]) sample.atUnix := by
  obtain ⟨t, ht, hq⟩ := h
  have hsub : q.Sublist samples := hq ▸ promised_sublist samples t
  have hqueue : Chronological (q ++ [sample]) :=
    hchron.sublist (hsub.append (List.Sublist.refl _))
  rw [pruned_eq hqueue, hq]
  exact window_concat (Nat.sub_le_sub_right ht _) hchron _

/-- A later query finds in a queue what it is promised. -/
theorem promised_later {t nowUnix : Nat} (h : t ≤ nowUnix) (samples : List Sample) :
    (promised samples t).filter (fun s => decide (nowUnix - windowSecs ≤ s.atUnix)) =
      promised samples nowUnix :=
  filter_cutoffs (Nat.sub_le_sub_right h _) _

/-! ## Runs -/

namespace SettlementStats

theorem lookup_record (stats : SettlementStats) (pair pair' : Pair) (sample : Sample) :
    (stats.record pair sample).byPair.lookup pair' =
      if pair' = pair then
        some (popWhileLonger maxSamplesPerPair (((stats.byPair.lookup pair).getD [] ++
          [sample]).dropWhile fun s => decide (s.atUnix < sample.atUnix - windowSecs)))
      else stats.byPair.lookup pair' := by
  unfold record
  exact FiniteMap.lookup_insert_if ..

theorem recordAll_concat (calls : List (Pair × Sample)) (call : Pair × Sample) :
    recordAll (calls ++ [call]) = (recordAll calls).record call.1 call.2 := by
  unfold recordAll
  rw [List.foldl_append]
  rfl

end SettlementStats

theorem samplesOf_concat (calls : List (Pair × Sample)) (call : Pair × Sample) (pair : Pair) :
    samplesOf (calls ++ [call]) pair =
      if call.1 = pair then samplesOf calls pair ++ [call.2] else samplesOf calls pair := by
  unfold samplesOf
  rw [List.filter_append]
  by_cases h : call.1 = pair
  · simp [h]
  · simp [h]

/-- The calls come at times that do not decrease. -/
def CallsInOrder (calls : List (Pair × Sample)) : Prop :=
  calls.Pairwise fun call call' => call.2.atUnix ≤ call'.2.atUnix

theorem CallsInOrder.chronological {calls : List (Pair × Sample)} (h : CallsInOrder calls)
    (pair : Pair) : Chronological (samplesOf calls pair) :=
  List.pairwise_map.mpr (List.Pairwise.sublist List.filter_sublist h)

/-- **After any sequence of records in order**, each pair's queue is what a query at some time
not later than `nowUnix` was promised. -/
theorem retained_recordAll {calls : List (Pair × Sample)} (h : CallsInOrder calls) {nowUnix : Nat}
    (hnow : ∀ call ∈ calls, call.2.atUnix ≤ nowUnix) (pair : Pair) :
    Retained (((SettlementStats.recordAll calls).byPair.lookup pair).getD [])
      (samplesOf calls pair) nowUnix := by
  induction calls using List.reverseRecOn generalizing nowUnix with
  | nil => exact ⟨0, Nat.zero_le _, by simp [samplesOf, promised, SettlementStats.recordAll,
      SettlementStats.new]⟩
  | append_singleton calls call ih =>
    obtain ⟨hcalls, -, hlast⟩ := List.pairwise_append.mp h
    have hcall : call.2.atUnix ≤ nowUnix := hnow call (by simp)
    have hbefore : ∀ c ∈ calls, c.2.atUnix ≤ call.2.atUnix := by
      intro c hc
      exact hlast c hc call (by simp)
    have hchron := h.chronological pair
    rw [SettlementStats.recordAll_concat, SettlementStats.lookup_record, samplesOf_concat]
    rw [samplesOf_concat] at hchron
    by_cases hpair : call.1 = pair
    · subst hpair
      rw [if_pos rfl] at hchron ⊢
      rw [if_pos rfl, Option.getD_some]
      exact ⟨call.2.atUnix, hcall, (ih hcalls hbefore).record hchron⟩
    · rw [if_neg (Ne.symm hpair), if_neg hpair]
      obtain ⟨t, ht, hq⟩ := ih hcalls hbefore
      exact ⟨t, ht.trans hcall, hq⟩

/-- A pair without a queue has the median of no samples, which is none. -/
theorem SettlementStats.medianSecs_eq (stats : SettlementStats) (pair : Pair) (nowUnix : Nat) :
    stats.medianSecs pair nowUnix =
      medianOf (((((stats.byPair.lookup pair).getD []).filter fun s =>
        decide (nowUnix - windowSecs ≤ s.atUnix))).map Sample.durationSecs) := by
  unfold medianSecs
  cases stats.byPair.lookup pair with
  | none => rfl
  | some q => rfl

/-- **The window computes the median it promises.**  After any sequence of records at times that
do not decrease, and at any query time not before them, `median_secs` is the median of the
durations of those among the pair's last thousand samples that are at most a window old. -/
theorem median_secs_is_promised {calls : List (Pair × Sample)} (h : CallsInOrder calls)
    {nowUnix : Nat} (hnow : ∀ call ∈ calls, call.2.atUnix ≤ nowUnix) (pair : Pair)
    (m : Option Nat) :
    IsMedian ((promised (samplesOf calls pair) nowUnix).map Sample.durationSecs) m ↔
      m = (SettlementStats.recordAll calls).medianSecs pair nowUnix := by
  obtain ⟨t, ht, hq⟩ := retained_recordAll h hnow pair
  have hmedian : IsMedian ((promised (samplesOf calls pair) nowUnix).map Sample.durationSecs)
      ((SettlementStats.recordAll calls).medianSecs pair nowUnix) := by
    have hrange : ∀ x ∈ (promised (samplesOf calls pair) nowUnix).map Sample.durationSecs,
        x < 2 ^ 64 := by
      intro x hx
      obtain ⟨s, -, rfl⟩ := List.mem_map.mp hx
      exact s.duration_lt
    rw [SettlementStats.medianSecs_eq, hq, promised_later ht]
    generalize (promised (samplesOf calls pair) nowUnix).map Sample.durationSecs = v at hrange ⊢
    exact isMedian_medianOf hrange
  constructor
  · intro hm
    exact hm.unique hmedian
  · rintro rfl
    exact hmedian

/-- An old sample and two new ones. -/
def threeCalls : List (Pair × Sample) :=
  [((1, 2), ⟨100, 5, by decide⟩), ((1, 2), ⟨90000, 50, by decide⟩),
    ((1, 2), ⟨90001, 60, by decide⟩)]

/-- The old sample is gone, and the mean of the other two is reported. -/
theorem median_secs_of_threeCalls :
    CallsInOrder threeCalls ∧ (∀ call ∈ threeCalls, call.2.atUnix ≤ 90001) ∧
    (SettlementStats.recordAll threeCalls).medianSecs (1, 2) 90001 = some 55 ∧
    IsMedian ((promised (samplesOf threeCalls (1, 2)) 90001).map Sample.durationSecs)
      (some 55) := by
  have horder : CallsInOrder threeCalls := by
    unfold CallsInOrder threeCalls
    simp
  have hnow : ∀ call ∈ threeCalls, call.2.atUnix ≤ 90001 := by
    unfold threeCalls
    simp
  have hmedian : (SettlementStats.recordAll threeCalls).medianSecs (1, 2) 90001 = some 55 := by
    decide
  exact ⟨horder, hnow, hmedian,
    (median_secs_is_promised horder hnow (1, 2) (some 55)).mpr hmedian.symm⟩

end PswapSolver
