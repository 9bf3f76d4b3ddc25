import Retracer.Sse.Stream

/-! # A replay that stops before the tip

A failed or an empty page ends the replay but not the stream: the live rows above the
ceiling follow all the same. So nothing more is emitted exactly as long as none of the rows
delivered to the subscription is above the ceiling.
-/

namespace Retracer

open KeyedTable Execution Broadcast

/-- The rows delivered live that the stream lets through. -/
def BlockStream.passed (sent : List BlockRow) (s : BlockStream) : List BlockRow :=
  (delivered sent s.since s.position).filter fun row => s.ceiling < row.height

/-- First what was replayed, then what was let through. -/
structure BlockStream.Shaped (sent : List BlockRow) (s : BlockStream) : Prop where
  since_le : s.since ≤ s.position
  position_le : s.position ≤ sent.length
  replay : s.replaying = true → s.position = s.since ∧ s.stopped = none
  live : s.replaying = false → ∃ replayed, s.emitted = replayed ++ s.passed sent ∧
    ∀ rows ∈ s.stopped, rows = replayed

section

variable {sent : List BlockRow} {s : BlockStream}

theorem BlockStream.Shaped.passed_eq_nil (h : s.Shaped sent) (hreplay : s.replaying = true) :
    s.passed sent = [] := by
  rw [BlockStream.passed, (h.replay hreplay).1, delivered_self]
  rfl

/-- Still replaying, whatever was emitted or read. -/
theorem BlockStream.Shaped.stay {phase : StreamPhase} {emitted : List BlockRow}
    (h : s.Shaped sent) (hreplay : s.replaying = true)
    (hphase : ({ s with phase, emitted } : BlockStream).replaying = true) :
    ({ s with phase, emitted } : BlockStream).Shaped sent := by
  refine ⟨h.since_le, h.position_le, fun _ => h.replay hreplay, fun hlive => ?_⟩
  rw [hphase] at hlive
  cases hlive

/-- The replay is over, at its end or before. -/
theorem BlockStream.Shaped.leave {stopped : Option (List BlockRow)} (h : s.Shaped sent)
    (hreplay : s.replaying = true) (hstopped : ∀ rows ∈ stopped, rows = s.emitted) :
    ({ s with phase := .live, stopped } : BlockStream).Shaped sent := by
  refine ⟨h.since_le, h.position_le, fun hno => (nomatch hno),
    fun _ => ⟨s.emitted, ?_, hstopped⟩⟩
  show s.emitted = s.emitted ++ s.passed sent
  rw [h.passed_eq_nil hreplay, List.append_nil]

theorem BlockStream.Shaped.stop (h : s.Shaped sent) (hreplay : s.replaying = true) :
    s.stop.Shaped sent := by
  apply h.leave hreplay
  intro rows hrows
  exact (Option.some.inj hrows).symm

theorem BlockStream.passed_receive {row : BlockRow} (hle : s.since ≤ s.position)
    (hrow : sent[s.position]? = some row) :
    (s.receive row).passed sent =
      s.passed sent ++ if s.ceiling < row.height then [row] else [] := by
  show (delivered sent s.since (s.position + 1)).filter _ = _
  rw [delivered_succ hle hrow, List.filter_append, BlockStream.passed]
  congr 1
  by_cases habove : s.ceiling < row.height <;> simp [BlockStream.receive, habove]

theorem BlockStream.Shaped.receive {row : BlockRow} (h : s.Shaped sent)
    (hlive : s.replaying = false) (hrow : sent[s.position]? = some row) :
    (s.receive row).Shaped sent := by
  have hlt : s.position < sent.length := (List.getElem?_eq_some_iff.mp hrow).1
  obtain ⟨replayed, hemitted, hstopped⟩ := h.live hlive
  refine ⟨Nat.le_succ_of_le h.since_le, hlt, fun hno => ?_, fun _ => ⟨replayed, ?_, hstopped⟩⟩
  · have hsame : (s.receive row).replaying = s.replaying := rfl
    rw [hsame, hlive] at hno
    cases hno
  · rw [BlockStream.passed_receive h.since_le hrow, ← List.append_assoc, ← hemitted]
    rfl

/-- What is broadcast later is not let through yet. -/
theorem BlockStream.Shaped.passed_append (h : s.Shaped sent) (more : List BlockRow) :
    s.passed (sent ++ more) = s.passed sent := by
  rw [BlockStream.passed, delivered_append h.position_le, BlockStream.passed]

theorem BlockStream.Shaped.broadcast (h : s.Shaped sent) (more : List BlockRow) :
    s.Shaped (sent ++ more) := by
  refine ⟨h.since_le, ?_, h.replay, fun hlive => ?_⟩
  · rw [List.length_append]
    exact Nat.le_add_right_of_le h.position_le
  · rw [h.passed_append]
    exact h.live hlive

theorem BlockStream.Shaped.advance [Collation] {c : StreamConfig} {db : Database}
    {s' : BlockStream} (h : s.Shaped sent) (hs : s.Advanced c db sent s') : s'.Shaped sent := by
  cases hs with
  | emit hphase => exact h.stay (by rw [BlockStream.replaying, hphase]) rfl
  | finish hphase _ =>
      have hreplay : s.replaying = true := by rw [BlockStream.replaying, hphase]
      apply h.leave hreplay
      intro rows hrows
      rw [(h.replay hreplay).2] at hrows
      cases hrows
  | start hphase _ _ _ => exact h.stay (by rw [BlockStream.replaying, hphase]) rfl
  | empty hphase _ _ => exact h.stop (by rw [BlockStream.replaying, hphase])
  | actions hphase _ _ => exact h.stay (by rw [BlockStream.replaying, hphase]) rfl
  | undecoded hphase _ _ => exact h.stop (by rw [BlockStream.replaying, hphase])
  | page hphase _ _ _ => exact h.stay (by rw [BlockStream.replaying, hphase]) rfl
  | noBlocks hphase _ _ => exact h.stop (by rw [BlockStream.replaying, hphase])
  | lag hphase =>
      have hlive : s.replaying = false := by rw [BlockStream.replaying, hphase]
      exact ⟨h.since_le, h.position_le, fun hno => (by cases hno), fun _ => h.live hlive⟩
  | receive hphase hrow => exact h.receive (by rw [BlockStream.replaying, hphase]) hrow

end

/-! ## Along a run -/

/-- A subscription begins somewhere in the channel; a stream is shaped. -/
def StreamState.Shaped (s : StreamState) : Prop :=
  match s.subscriber with
  | .absent => True
  | .subscribed _ position => position ≤ s.sent.length
  | .streaming stream => stream.Shaped s.sent

theorem StreamState.Shaped.of_streaming {s : StreamState} {stream : BlockStream}
    (h : s.Shaped) (hsub : s.subscriber = .streaming stream) : stream.Shaped s.sent := by
  rw [StreamState.Shaped, hsub] at h
  exact h

theorem StreamState.Shaped.of_subscribed {s : StreamState} {fromHeight : Option Nat}
    {position : Nat} (h : s.Shaped) (hsub : s.subscriber = .subscribed fromHeight position) :
    position ≤ s.sent.length := by
  rw [StreamState.Shaped, hsub] at h
  exact h

theorem BlockStream.shaped_open {sent : List BlockRow} {fromHeight : Option Nat} {position : Nat}
    {cursor : Option Int} {opened : List IndexableBlock} (h : position ≤ sent.length) :
    (BlockStream.open fromHeight position cursor opened).Shaped sent :=
  ⟨Nat.le_refl _, h, fun _ => ⟨rfl, rfl⟩, fun hno => nomatch hno⟩

variable [Postgres] [Collation] {c : StreamConfig}

theorem shaped_step {s s' : StreamState} {op : StreamOp} (h : s.Shaped)
    (hs : s.Stepped c op s') : s'.Shaped := by
  unfold StreamState.Shaped at h ⊢
  cases hs with
  | refused => exact h
  | commit _ _ _ =>
      cases hsub : s.subscriber with
      | absent => trivial
      | subscribed fromHeight position =>
          rw [hsub] at h
          exact h
      | streaming stream =>
          rw [hsub] at h
          exact ⟨h.since_le, h.position_le, h.replay, h.live⟩
  | broadcast _ =>
      cases hsub : s.subscriber with
      | absent => trivial
      | subscribed fromHeight position =>
          rw [hsub] at h
          show position ≤ (s.sent ++ [_]).length
          rw [List.length_append]
          exact Nat.le_add_right_of_le h
      | streaming stream =>
          rw [hsub] at h
          exact h.broadcast _
  | rollback _ _ => exact h
  | subscribe _ => exact Nat.le_refl s.sent.length
  | readTip hsub =>
      rw [hsub] at h
      exact BlockStream.shaped_open h
  | advance hsub hadvance =>
      rw [hsub] at h
      exact h.advance hadvance
  | fail hsub hreplay =>
      rw [hsub] at h
      exact h.stop hreplay

/-- After the replay has stopped, nothing is emitted as long as no row delivered live is
above the ceiling, and no longer. -/
theorem nothing_after_failed_replay_iff {ops : List StreamOp} {s : StreamState}
    {stream : BlockStream} {rows : List BlockRow}
    (hrun : exec (streamStep c) {} ops = some s) (hstream : s.subscriber = .streaming stream)
    (hstopped : stream.stopped = some rows) :
    stream.emitted = rows ↔
      ∀ row ∈ delivered s.sent stream.since stream.position, row.height ≤ stream.ceiling := by
  have h0 : StreamState.Shaped {} := trivial
  have hall : s.Shaped :=
    exec_preserves (fun _ _ _ h hs => shaped_step h (stepped_of_streamStep hs)) h0 hrun
  have hshaped := hall.of_streaming hstream
  have hlive : stream.replaying = false := by
    cases hreplay : stream.replaying with
    | false => rfl
    | true =>
        rw [(hshaped.replay hreplay).2] at hstopped
        cases hstopped
  obtain ⟨replayed, hemitted, hsame⟩ := hshaped.live hlive
  rw [hemitted, hsame rows hstopped, List.append_right_eq_self, BlockStream.passed,
    List.filter_eq_nil_iff]
  simp only [decide_eq_true_eq, Int.not_lt]

/-! ## Concrete runs -/

section

omit [Postgres] [Collation]

/-- The read of the second page fails; the block after the tip comes in live. -/
def failedReplay (after : List StreamOp) : List StreamOp :=
  [.commit [.bare 0 "g" "", .bare 1 "a" "g"], .broadcast, .broadcast, .subscribe (some 0),
    .readTip, .advance, .advance, .advance, .advance, .fail] ++ after

/-- The heights emitted before the replay stopped and in all. -/
def BlockStream.heights (s : BlockStream) : Option (List Int) × List Int :=
  (s.stopped.map fun rows => rows.map (·.height), s.emitted.map (·.height))

/-- Until something comes in. -/
theorem nothing_after_failed_replay_yet :
    ∃ stream, streamAfter (failedReplay []) = some stream ∧
      ∃ rows, stream.stopped = some rows ∧ stream.emitted = rows := by
  have hheights : (streamAfter (failedReplay [])).map (fun stream =>
      (stream.heights, stream.since, stream.position)) =
        some ((some [0], [0]), 2, 2) := by decide
  obtain ⟨stream, hstream, hall⟩ := Option.map_eq_some_iff.mp hheights
  obtain ⟨hstopped, hbounds⟩ := Prod.mk.inj hall
  obtain ⟨hsince, hposition⟩ := Prod.mk.inj hbounds
  obtain ⟨s, hs, hsub⟩ := exec_of_streamAfter hstream
  obtain ⟨rows, hrows, _⟩ := Option.map_eq_some_iff.mp (Prod.mk.inj hstopped).1
  refine ⟨stream, hstream, rows, hrows, ?_⟩
  apply (@nothing_after_failed_replay_iff .plain .plain _ _ _ _ _ hs hsub hrows).mpr
  intro row hrow
  rw [hsince, hposition, delivered_self] at hrow
  cases hrow

/-- Block 2 follows block 0: a client that goes on from there never has block 1. -/
theorem failed_replay_goes_on :
    ¬ ∀ (ops : List StreamOp) (stream : BlockStream) (rows : List BlockRow),
      streamAfter ops = some stream → stream.stopped = some rows → stream.emitted = rows := by
  intro h
  have hheights : (streamAfter (failedReplay [.commit [.bare 2 "b" "a"], .broadcast, .advance])).map
      BlockStream.heights = some (some [0], [0, 2]) := by decide
  obtain ⟨stream, hstream, hboth⟩ := Option.map_eq_some_iff.mp hheights
  obtain ⟨hstopped, hemitted⟩ := Prod.mk.inj hboth
  obtain ⟨rows, hrows, hbefore⟩ := Option.map_eq_some_iff.mp hstopped
  rw [h _ stream rows hstream hrows, hbefore] at hemitted
  cases hemitted

end

end Retracer
