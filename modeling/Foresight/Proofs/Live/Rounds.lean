import Foresight.Live.Tracking
import Mathlib.Data.List.Dedup
import Mathlib.Data.List.Induction

/-!
# Rounds of saves

What a debouncer does, told from what has happened alone. Events come in rounds: a round ends with a
flush, or with the event after which there were enough saves in it and a quiet period since the last
of them (`EndsRound`). A debouncer remembers of a round the files that were saved in it, their
number, and what is left of the quiet period (`Waits`); each event keeps that up and hands over the
files exactly when it ends the round (`Waits.step`). All about whole histories follows by induction.
-/

namespace Foresight

def SaveEvent.file? : SaveEvent → Option String
  | .save file => some file
  | _ => none

namespace Debouncer

/-! ## Histories -/

/-- The files that were saved, once for each save. -/
def saved (events : List SaveEvent) : List String := events.filterMap SaveEvent.file?

/-- The time since the latest save, if there was none for `since` before. -/
def quietSince (since : Nat) (events : List SaveEvent) : Nat :=
  events.foldl (fun since e =>
    match e with
    | .save _ => 0
    | .elapse ms => since + ms
    | .flush | .disconnect => since) since

/-- The time since the latest save. -/
def quiet (events : List SaveEvent) : Nat := quietSince 0 events

/-- Whether an event after those of a round ends it. -/
def EndsRound (threshold quietPeriod : Nat) (round : List SaveEvent) (e : SaveEvent) : Prop :=
  e = .flush ∨
    threshold ≤ (saved (round ++ [e])).length ∧ quietPeriod ≤ quiet (round ++ [e])

instance (threshold quietPeriod : Nat) (round : List SaveEvent) (e : SaveEvent) :
    Decidable (EndsRound threshold quietPeriod round e) :=
  inferInstanceAs (Decidable (_ ∨ _))

theorem endsRound_iff {threshold quietPeriod : Nat} {round : List SaveEvent} {e : SaveEvent}
    (h : e ≠ .flush) : EndsRound threshold quietPeriod round e ↔
      threshold ≤ (saved (round ++ [e])).length ∧ quietPeriod ≤ quiet (round ++ [e]) :=
  or_iff_right h

/-- The round after an event: the one that went on, or a new one. -/
def nextRound (threshold quietPeriod : Nat) (round : List SaveEvent) (e : SaveEvent) :
    List SaveEvent :=
  if EndsRound threshold quietPeriod round e then [] else round ++ [e]

/-- The events since a round has ended last. -/
def roundAfter (threshold quietPeriod : Nat) (events : List SaveEvent) : List SaveEvent :=
  events.foldl (nextRound threshold quietPeriod) []

/-- A debouncer after some events. -/
def after (d : Debouncer) (events : List SaveEvent) : Debouncer :=
  events.foldl (fun d e => (d.step e).1) d

/-- All batches that are handed over in the course of some events. -/
def handedOver (d : Debouncer) : List SaveEvent → List (List String)
  | [] => []
  | e :: later => (d.step e).2 ++ (d.step e).1.handedOver later

variable {threshold quietPeriod since : Nat} {events round : List SaveEvent} {d : Debouncer}

theorem saved_append (events later : List SaveEvent) :
    saved (events ++ later) = saved events ++ saved later :=
  List.filterMap_append

theorem quietSince_append (events later : List SaveEvent) :
    quietSince since (events ++ later) = quietSince (quietSince since events) later :=
  List.foldl_append

/-- What was before a save does not matter. -/
theorem quietSince_eq_quiet (h : saved events ≠ []) : quietSince since events = quiet events := by
  induction events generalizing since with
  | nil => exact absurd rfl h
  | cons e later ih =>
    cases e with
    | save file => rfl
    | elapse ms =>
      unfold quiet
      exact (ih h).trans (ih h).symm
    | flush => exact ih h
    | disconnect => exact ih h

/-- If there was a save lately, what was earlier does not matter. -/
theorem quiet_append_eq (earlier : List SaveEvent) (h : saved events ≠ []) :
    quiet (earlier ++ events) = quiet events :=
  (quietSince_append earlier events).trans (quietSince_eq_quiet h)

/-- The current round is the last part of what has happened. -/
theorem exists_append_roundAfter (threshold quietPeriod : Nat) (events : List SaveEvent) :
    ∃ earlier, earlier ++ roundAfter threshold quietPeriod events = events := by
  induction events using List.reverseRecOn with
  | nil => exact ⟨[], rfl⟩
  | append_singleton events e ih =>
    obtain ⟨earlier, hevents⟩ := ih
    unfold roundAfter
    rw [List.foldl_concat, ← roundAfter, nextRound]
    split
    · exact ⟨events ++ [e], List.append_nil _⟩
    · exact ⟨earlier, by rw [← List.append_assoc, hevents]⟩

/-- A file that is saved again moves to the end. -/
theorem dedup_concat (files : List String) (file : String) :
    (files ++ [file]).dedup = files.dedup.filter (· != file) ++ [file] := by
  induction files with
  | nil => rfl
  | cons other files ih =>
    rw [List.cons_append]
    by_cases hsame : other = file
    · rw [List.dedup_cons_of_mem (by simp [hsame]), ih]
      by_cases hmem : other ∈ files
      · rw [List.dedup_cons_of_mem hmem]
      · rw [List.dedup_cons_of_notMem hmem, List.filter_cons_of_neg (by simp [hsame])]
    · by_cases hmem : other ∈ files
      · rw [List.dedup_cons_of_mem (by simp [hmem]), List.dedup_cons_of_mem hmem, ih]
      · rw [List.dedup_cons_of_notMem (by simp [hsame, hmem]), List.dedup_cons_of_notMem hmem,
          List.filter_cons_of_pos (by simp [hsame]), List.cons_append, ih]

/-! ## What a debouncer remembers -/

/-- A debouncer has counted the saves of these files. If there were enough of them, a quiet period
runs of which so much is left. -/
structure Counts (threshold quietPeriod : Nat) (files : List String) (left : Nat)
    (d : Debouncer) : Prop where
  threshold_eq : d.threshold = threshold
  threshold_pos : 0 < threshold
  quietPeriod_eq : d.quietPeriod = quietPeriod
  pending : d.pending = files.dedup
  saves : d.saves = files.length
  timer : d.timer = if threshold ≤ files.length then some left else none

/-- A debouncer has counted the saves of a round that goes on. -/
structure Waits (threshold quietPeriod : Nat) (round : List SaveEvent) (d : Debouncer) : Prop
    extends Counts threshold quietPeriod (saved round) (quietPeriod - quiet round) d where
  unfinished : threshold ≤ (saved round).length → quiet round < quietPeriod

theorem waits_new (threshold quietPeriod : Nat) :
    Waits (max threshold 1) quietPeriod [] (new threshold quietPeriod) :=
  have hfew : ¬ max threshold 1 ≤ (saved []).length := by simp [saved]
  { threshold_eq := rfl
    threshold_pos := by omega
    quietPeriod_eq := rfl
    pending := rfl
    saves := rfl
    timer := (if_neg hfew).symm
    unfinished := fun henough => absurd henough hfew }

/-- What a debouncer hands over of some files, if anything. -/
def batchesOf (d : Debouncer) (files : List String) : List (List String) :=
  if files ≠ [] ∧ d.connected = true then [files.dedup] else []

variable {files : List String} {left : Nat}

theorem Counts.timerRunning_iff (h : Counts threshold quietPeriod files left d) :
    d.timerRunning = true ↔ threshold ≤ d.saves := by
  rw [timerRunning, h.timer, h.saves]
  split
  · rename_i henough
    exact iff_of_true rfl henough
  · rename_i hfew
    exact iff_of_false Bool.false_ne_true hfew

theorem Counts.flush (h : Counts threshold quietPeriod files left d) :
    Waits threshold quietPeriod [] d.flush.1 ∧ d.flush.2 = d.batchesOf files := by
  have hfew : ¬ threshold ≤ (saved []).length := Nat.not_le_of_lt h.threshold_pos
  refine ⟨{ h with
    pending := rfl
    saves := rfl
    timer := (if_neg hfew).symm
    unfinished := fun henough => absurd henough hfew }, ?_⟩
  have hnothing : (d.pending.isEmpty || !d.connected) = true ↔
      ¬ (files ≠ [] ∧ d.connected = true) := by
    simp [h.pending, List.dedup_eq_nil, imp_iff_not_or, or_comm]
  have hbatches : d.flush.2 =
      if (d.pending.isEmpty || !d.connected) = true then [] else [d.pending] := rfl
  rw [hbatches, batchesOf, if_congr hnothing rfl rfl, ite_not, h.pending]

/-- The last event of a round, or of what is known of it, lets time go by. -/
theorem Counts.elapse (h : Counts threshold quietPeriod (saved round) (quietPeriod - since) d)
    {ms : Nat} (hquiet : quiet round = since + ms) :
    Waits threshold quietPeriod
        (if threshold ≤ (saved round).length ∧ quietPeriod ≤ quiet round then [] else round)
        (d.elapse ms).1 ∧
      (d.elapse ms).2 = if threshold ≤ (saved round).length ∧ quietPeriod ≤ quiet round
        then d.batchesOf (saved round) else [] := by
  have htimer := h.timer
  unfold Debouncer.elapse
  by_cases henough : threshold ≤ (saved round).length
  · rw [if_pos henough] at htimer
    rw [htimer]
    dsimp only
    by_cases hover : quietPeriod ≤ quiet round
    · have hends : threshold ≤ (saved round).length ∧ quietPeriod ≤ quiet round :=
        ⟨henough, hover⟩
      rw [if_pos hends, if_pos hends, if_pos (by omega)]
      exact h.flush
    · have hgoes := fun hends : threshold ≤ (saved round).length ∧ quietPeriod ≤ quiet round =>
        hover hends.2
      rw [if_neg hgoes, if_neg hgoes, if_neg (by omega)]
      refine ⟨{ h with
        timer := ?_
        unfinished := fun _ => Nat.lt_of_not_le hover }, rfl⟩
      rw [if_pos henough, hquiet, Nat.sub_sub]
  · have hgoes := fun hends : threshold ≤ (saved round).length ∧ quietPeriod ≤ quiet round =>
      henough hends.1
    rw [if_neg henough] at htimer
    rw [htimer, if_neg hgoes, if_neg hgoes]
    exact ⟨{ h with
      timer := by rw [htimer, if_neg henough]
      unfinished := fun h => absurd h henough }, rfl⟩

theorem Waits.record (h : Waits threshold quietPeriod round d) (file : String) :
    Counts threshold quietPeriod (saved (round ++ [.save file])) quietPeriod (d.record file) := by
  have hsaved : saved (round ++ [.save file]) = saved round ++ [file] := saved_append ..
  have hlength : (saved (round ++ [.save file])).length = (saved round).length + 1 := by
    rw [hsaved, List.length_append, List.length_singleton]
  refine ⟨h.threshold_eq, h.threshold_pos, h.quietPeriod_eq, ?_, ?_, ?_⟩
  · rw [hsaved, dedup_concat, ← h.pending]
    rfl
  · rw [hlength, ← h.saves]
    rfl
  · have htimer : (d.record file).timer =
        if threshold ≤ (saved round).length + 1 then some quietPeriod else d.timer := by
      rw [← h.threshold_eq, ← h.saves, ← h.quietPeriod_eq]
      rfl
    rw [htimer, hlength]
    split
    · rfl
    · rw [h.timer, if_neg (by omega)]

/-! ## Each event -/

theorem connected_step (d : Debouncer) (e : SaveEvent) :
    (d.step e).1.connected = (d.connected && e != .disconnect) := by
  have helapse : ∀ (ms : Nat) (d : Debouncer), (d.elapse ms).1.connected = d.connected := by
    intro ms d
    unfold Debouncer.elapse
    split
    · rfl
    · split
      · rfl
      · rfl
  cases e with
  | save file => exact (helapse 0 (d.record file)).trans (by simp [Debouncer.record])
  | elapse ms => exact (helapse ms d).trans (by simp)
  | flush => simp [Debouncer.step, Debouncer.flush]
  | disconnect => simp [Debouncer.step, Debouncer.disconnect]

/-- An event keeps up what is remembered of the round. It hands over the files of the round if it
ends it, and nothing otherwise. -/
theorem Waits.step (h : Waits threshold quietPeriod round d) (e : SaveEvent) :
    Waits threshold quietPeriod (nextRound threshold quietPeriod round e) (d.step e).1 ∧
      (d.step e).2 = if EndsRound threshold quietPeriod round e
        then d.batchesOf (saved (round ++ [e])) else [] := by
  have hsame : e.file? = none → saved (round ++ [e]) = saved round := by
    intro hnone
    rw [saved_append, saved, saved, List.filterMap_cons_none hnone, List.filterMap_nil,
      List.append_nil]
  have hquiet : quiet (round ++ [e]) = quietSince (quiet round) [e] := quietSince_append ..
  unfold nextRound
  cases e with
  | flush =>
    have hends : EndsRound threshold quietPeriod round .flush := .inl rfl
    rw [if_pos hends, if_pos hends, hsame rfl]
    exact h.flush
  | elapse ms =>
    simp only [endsRound_iff (SaveEvent.noConfusion : SaveEvent.elapse ms ≠ .flush)]
    have hcounts := h.toCounts
    rw [← hsame rfl] at hcounts
    exact hcounts.elapse hquiet
  | save file =>
    simp only [endsRound_iff (SaveEvent.noConfusion : SaveEvent.save file ≠ .flush)]
    exact (h.record file).elapse hquiet
  | disconnect =>
    have hgoes : ¬ EndsRound threshold quietPeriod round .disconnect := by
      rintro (hflush | ⟨henough, hover⟩)
      · cases hflush
      · rw [hsame rfl] at henough
        rw [hquiet] at hover
        exact absurd hover (Nat.not_le_of_lt (h.unfinished henough))
    rw [if_neg hgoes, if_neg hgoes]
    have hstill : quiet (round ++ [.disconnect]) = quiet round := hquiet
    obtain ⟨hcounts, hunfinished⟩ := h
    rw [← hsame rfl, ← hstill] at hcounts
    rw [← hsame rfl, ← hstill] at hunfinished
    exact ⟨{ hcounts with unfinished := hunfinished }, rfl⟩

theorem Waits.step_snd (h : Waits threshold quietPeriod round d) (e : SaveEvent) :
    (d.step e).2 = if EndsRound threshold quietPeriod round e ∧ saved (round ++ [e]) ≠ [] ∧
        d.connected = true
      then [(saved (round ++ [e])).dedup] else [] := by
  rw [(h.step e).2, batchesOf]
  exact (ite_and ..).symm

/-- Only what ends a round with saves in it hands anything over. -/
theorem Waits.ends_of_step_snd (h : Waits threshold quietPeriod round d) {e : SaveEvent}
    (hsome : (d.step e).2 ≠ []) :
    EndsRound threshold quietPeriod round e ∧ saved (round ++ [e]) ≠ [] := by
  rw [h.step_snd] at hsome
  split at hsome
  · rename_i hends
    exact ⟨hends.1, hends.2.1⟩
  · exact absurd rfl hsome

/-! ## Runs -/

theorem Waits.after (h : Waits threshold quietPeriod round d) (events : List SaveEvent) :
    Waits threshold quietPeriod (events.foldl (nextRound threshold quietPeriod) round)
      (d.after events) := by
  induction events generalizing round d with
  | nil => exact h
  | cons e later ih => exact ih (h.step e).1

theorem connected_after (d : Debouncer) (events : List SaveEvent) :
    (d.after events).connected = true ↔ d.connected = true ∧ .disconnect ∉ events := by
  induction events generalizing d with
  | nil => simp [Debouncer.after]
  | cons e later ih =>
    have hstep := ih (d.step e).1
    rw [connected_step, Bool.and_eq_true, bne_iff_ne] at hstep
    refine hstep.trans ?_
    rw [List.mem_cons, not_or, and_assoc, ne_comm]

theorem Waits.handedOver_eq_nil (h : Waits threshold quietPeriod round d)
    (hconnected : d.connected = false) (events : List SaveEvent) : d.handedOver events = [] := by
  induction events generalizing round d with
  | nil => rfl
  | cons e later ih =>
    have hnone : (d.step e).2 = [] := by
      rw [h.step_snd, if_neg]
      simp [hconnected]
    have hrest : (d.step e).1.handedOver later = [] :=
      ih (h.step e).1 (by rw [connected_step, hconnected, Bool.false_and])
    rw [handedOver, hnone, hrest, List.append_nil]

/-! ## Where a saved file ends up -/

variable {file : String} {e : SaveEvent} {later : List SaveEvent} {batch : List String}
  {batches : List (List String)}

theorem Waits.count_of_endsRound (h : Waits threshold quietPeriod round d)
    (hends : EndsRound threshold quietPeriod round e) (hfile : file ∈ saved (round ++ [e]))
    (hbatches : d.handedOver (e :: later) = batch :: batches) : batch.count file = 1 := by
  cases hconnected : d.connected with
  | false =>
    rw [h.handedOver_eq_nil hconnected] at hbatches
    cases hbatches
  | true =>
    rw [handedOver, h.step_snd,
      if_pos ⟨hends, List.ne_nil_of_mem hfile, hconnected⟩] at hbatches
    obtain rfl := (List.cons.inj hbatches).1
    exact List.count_eq_one_of_mem (List.nodup_dedup _) (List.mem_dedup.mpr hfile)

/-- A file that was saved in this round is in the next batch, once. -/
theorem Waits.count_first (h : Waits threshold quietPeriod round d)
    (hfile : file ∈ saved (round ++ [e]))
    (hbatches : d.handedOver (e :: later) = batch :: batches) : batch.count file = 1 := by
  induction later generalizing e round d with
  | nil =>
    by_cases hends : EndsRound threshold quietPeriod round e
    · exact h.count_of_endsRound hends hfile hbatches
    · rw [handedOver, (h.step e).2, if_neg hends] at hbatches
      cases hbatches
  | cons next later ih =>
    by_cases hends : EndsRound threshold quietPeriod round e
    · exact h.count_of_endsRound hends hfile hbatches
    · obtain ⟨hnext, hnone⟩ := h.step e
      rw [nextRound, if_neg hends] at hnext
      rw [handedOver, hnone, if_neg hends, List.nil_append] at hbatches
      refine ih hnext ?_ hbatches
      rw [saved_append]
      exact List.mem_append_left _ hfile

/-- A file that was not saved in this round is in no batch until it is saved. -/
theorem Waits.not_mem_batch (h : Waits threshold quietPeriod round d) (hfile : file ∉ saved round)
    (hlater : .save file ∉ later) (hbatch : batch ∈ d.handedOver later) : file ∉ batch := by
  induction later generalizing round d with
  | nil => cases hbatch
  | cons e later ih =>
    rw [List.mem_cons, not_or] at hlater
    have hstill : file ∉ saved (round ++ [e]) := by
      rw [saved_append, List.mem_append, not_or]
      refine ⟨hfile, fun hsaved => hlater.1 ?_⟩
      obtain ⟨event, hevent, hsome⟩ := List.mem_filterMap.mp hsaved
      obtain rfl := List.mem_singleton.mp hevent
      cases event with
      | save other => exact congrArg SaveEvent.save (Option.some.inj hsome).symm
      | elapse ms => cases hsome
      | flush => cases hsome
      | disconnect => cases hsome
    rcases List.mem_append.mp hbatch with hnow | hafter
    · rw [h.step_snd] at hnow
      split at hnow
      · obtain rfl := List.mem_singleton.mp hnow
        exact fun hmem => hstill (List.mem_dedup.mp hmem)
      · cases hnow
    · refine ih (h.step e).1 ?_ hlater.2 hafter
      unfold nextRound
      split
      · exact List.not_mem_nil
      · exact hstill

/-! ## Whole histories -/

/-- After any events, what waits are the files saved since the last round has ended, each once and
in the order of their last saves, and a quiet period runs exactly if there were enough saves. The
next event hands over the files of the round if it ends it, while somebody takes them; this is a
flush or there has been no save for a whole quiet period. A saved file is in the first batch after
it was saved, once, and in no other until it is saved again. -/
theorem batches_follow_saves (threshold quietPeriod : Nat) (events : List SaveEvent) :
    let d := (new threshold quietPeriod).after events
    let round := roundAfter (max threshold 1) quietPeriod events
    (∃ earlier, earlier ++ round = events) ∧
    (d.pending = (saved round).dedup ∧ d.pending.Nodup ∧ d.saves = (saved round).length) ∧
    (d.timerRunning = true ↔ max threshold 1 ≤ d.saves) ∧
    (∀ e, (d.step e).2 =
      if EndsRound (max threshold 1) quietPeriod round e ∧ saved (round ++ [e]) ≠ [] ∧
          .disconnect ∉ events
        then [(saved (round ++ [e])).dedup] else []) ∧
    (∀ e, (d.step e).2 ≠ [] → e = .flush ∨
      max threshold 1 ≤ (saved (round ++ [e])).length ∧ quietPeriod ≤ quiet (events ++ [e])) ∧
    (∀ file later batch batches, d.handedOver (.save file :: later) = batch :: batches →
      batch.count file = 1) ∧
    ∀ e, (d.step e).2 ≠ [] → ∀ file later, .save file ∉ later →
      ∀ batch ∈ (d.step e).1.handedOver later, file ∉ batch := by
  intro d round
  have hwaits : Waits (max threshold 1) quietPeriod round d :=
    (waits_new threshold quietPeriod).after events
  have hconnected : d.connected = true ↔ .disconnect ∉ events :=
    (connected_after _ events).trans (and_iff_right rfl)
  obtain ⟨earlier, hround⟩ := exists_append_roundAfter (max threshold 1) quietPeriod events
  refine ⟨⟨earlier, hround⟩, ⟨hwaits.pending, ?_, hwaits.saves⟩, hwaits.timerRunning_iff,
    ?_, ?_, ?_, ?_⟩
  · rw [hwaits.pending]
    exact List.nodup_dedup _
  · intro e
    rw [hwaits.step_snd]
    exact if_congr (and_congr_right' (and_congr_right' hconnected)) rfl rfl
  · intro e hsome
    obtain ⟨hends, hsaved⟩ := hwaits.ends_of_step_snd hsome
    refine hends.imp id fun hover => ⟨hover.1, ?_⟩
    rw [← hround, List.append_assoc, quiet_append_eq earlier hsaved]
    exact hover.2
  · intro file later batch batches hbatches
    exact hwaits.count_first (by simp [saved, SaveEvent.file?]) hbatches
  · intro e hsome file later hlater batch hbatch
    have hnext := (hwaits.step e).1
    rw [nextRound, if_pos (hwaits.ends_of_step_snd hsome).1] at hnext
    exact hnext.not_mem_batch List.not_mem_nil hlater hbatch

/-! Three saves of two files, and a third file once they are handed over. -/

def edited : List SaveEvent := [.save "A.cs", .elapse 10, .save "B.cs", .save "A.cs"]

theorem batches_follow_saves_edited :
    ((new 2 30).after edited).pending = ["B.cs", "A.cs"] ∧
    (SaveEvent.elapse 30 = .flush ∨
      max 2 1 ≤ (saved (roundAfter (max 2 1) 30 edited ++ [.elapse 30])).length ∧
        30 ≤ quiet (edited ++ [.elapse 30])) ∧
    ["B.cs", "A.cs", "C.cs"].count "C.cs" = 1 ∧ "A.cs" ∉ ["C.cs"] := by
  obtain ⟨-, ⟨hpending, -⟩, -, -, hquiet, hfirst, hlater⟩ := batches_follow_saves 2 30 edited
  exact ⟨hpending.trans (by decide +kernel), hquiet (.elapse 30) (by decide +kernel),
    hfirst "C.cs" [.elapse 30] ["B.cs", "A.cs", "C.cs"] [] (by decide +kernel),
    hlater (.elapse 30) (by decide +kernel) "A.cs" [.save "C.cs", .flush] (by decide +kernel)
      ["C.cs"] (by decide +kernel)⟩

end Debouncer

end Foresight
