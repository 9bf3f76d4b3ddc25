import Mathlib.Data.List.DropRight
import Retracer.Webhooks.Rows

/-! # The failure clock

A hook that keeps failing is disabled. Its row has the time since when; one statement keeps
it, another clears it, and both decide only about what the row has. Here the clock is read
from the history of the hook instead.
-/

namespace Retracer

open KeyedTable Sorting Execution

/-! ## The history of a hook -/

inductive HookEvent where
  | registered
  /-- A block was delivered in full and found stored. -/
  | delivered
  /-- A drain failed, recorded at this time. -/
  | failed (now : Int)
deriving DecidableEq

def HookEvent.failedAt : HookEvent → Option Int
  | .failed now => some now
  | .registered | .delivered => none

abbrev HookLog := List HookEvent

/-- The time of the first failure since the last block delivered, or since the registration. -/
def HookLog.failingSince (log : HookLog) : Option Int :=
  (log.rtakeWhile fun e => e.failedAt.isSome).head?.bind HookEvent.failedAt

/-- Since the registration, a failure came `MAX_FAILING` or more after the first one. -/
def HookLog.Overdue (log : HookLog) : Prop :=
  ∃ before now after, log = before ++ .failed now :: after ∧ HookEvent.registered ∉ after ∧
    ∃ since, HookLog.failingSince (before ++ [.failed now]) = some since ∧
      since + maxFailing ≤ now

theorem HookLog.failingSince_failed (log : HookLog) (now : Int) :
    HookLog.failingSince (log ++ [.failed now]) = some (log.failingSince.getD now) := by
  unfold HookLog.failingSince
  rw [List.rtakeWhile_concat_pos _ _ _ rfl]
  cases hstreak : log.rtakeWhile fun e => e.failedAt.isSome with
  | nil => rfl
  | cons e rest =>
      have hfailed : e.failedAt.isSome = true := by
        apply List.mem_rtakeWhile_imp (p := fun e : HookEvent => e.failedAt.isSome) (l := log)
        rw [hstreak]
        exact List.mem_cons_self
      obtain ⟨since, hsince⟩ := Option.isSome_iff_exists.mp hfailed
      simp [hsince]

theorem HookLog.failingSince_of_not_failed (log : HookLog) {e : HookEvent}
    (h : e.failedAt = none) : HookLog.failingSince (log ++ [e]) = none := by
  unfold HookLog.failingSince
  rw [List.rtakeWhile_concat_neg _ _ _ (by simp [h])]
  rfl

/-- The failure is the last event or comes before it. -/
theorem HookLog.overdue_concat {log : HookLog} {e : HookEvent} :
    HookLog.Overdue (log ++ [e]) ↔
      e ≠ .registered ∧ log.Overdue ∨
        ∃ now, e = .failed now ∧ log.failingSince.getD now + maxFailing ≤ now := by
  constructor
  · rintro ⟨before, now, after, hsplit, hregistered, since, hsince, hle⟩
    rcases List.eq_nil_or_concat after with rfl | ⟨init, last, rfl⟩
    · obtain ⟨rfl, hlast⟩ := List.append_inj' hsplit rfl
      cases hlast
      rw [HookLog.failingSince_failed, Option.some.injEq] at hsince
      rw [← hsince] at hle
      exact .inr ⟨now, rfl, hle⟩
    · rw [List.concat_eq_append, ← List.cons_append, ← List.append_assoc] at hsplit
      obtain ⟨rfl, hlast⟩ := List.append_inj' hsplit rfl
      cases hlast
      rw [List.concat_eq_append, List.mem_append, not_or, List.mem_singleton] at hregistered
      exact .inl ⟨Ne.symm hregistered.2, before, now, init, rfl, hregistered.1, since, hsince, hle⟩
  · rintro (⟨hne, before, now, after, rfl, hregistered, hsince⟩ | ⟨now, rfl, hle⟩)
    · refine ⟨before, now, after ++ [e], by simp, ?_, hsince⟩
      rw [List.mem_append, not_or, List.mem_singleton]
      exact ⟨hregistered, Ne.symm hne⟩
    · exact ⟨log, now, [], rfl, List.not_mem_nil, _, log.failingSince_failed now, hle⟩

/-! ## What a step means to a hook -/

def HookState.event (id : Int) (s : HookState) (op : HookOp) (s' : HookState) :
    Option HookEvent :=
  match op, s.dispatcher with
  | .upsert _ _, _ =>
      if ∃ row ∈ s'.registered.drop s.registered.length, row.id = id then some .registered
      else none
  | .mark, .draining _ hook (.posting [] block _) _ _ =>
      if hook.id = id ∧ (webhookDelivered s.store.db hook.id block.height block.hash).2 = true then
        some .delivered
      else none
  | .record _ now _, .draining _ hook (.failed _) _ _ =>
      if hook.id = id then some (.failed now) else none
  | _, _ => none

def HookLog.note (id : Int) (log : HookLog) (s : HookState) (op : HookOp) (s' : HookState) :
    HookLog :=
  log ++ (s.event id op s').toList

/-- The row says what the history says, and a hook that is overdue gets nothing. -/
structure ClockExact (id : Int) (log : HookLog) (s : HookState) (op : HookOp) (s' : HookState) :
    Prop where
  since : ∀ w ∈ s'.store.db.webhooks.rows, w.id = id →
    w.failingSince = (log.note id s op s').failingSince
  disabled : ∀ w ∈ s'.store.db.webhooks.rows, w.id = id →
    (w.enabled = false ↔ (log.note id s op s').Overdue)
  silent : log.Overdue → ∀ post ∈ s'.posts.drop s.posts.length, post.hook.id ≠ id

/-- A failure is recorded whenever there is one. -/
def FailuresRecorded (_ : HookState) (op : HookOp) (_ : HookState) : Prop :=
  match op with
  | .record _ _ written => written = true
  | _ => True

instance (s : HookState) (op : HookOp) (s' : HookState) : Decidable (FailuresRecorded s op s') := by
  unfold FailuresRecorded
  split <;> infer_instance

/-! ## Rounds -/

/-- A hook is in a round once, and only if it was enabled when the hooks were listed. -/
structure Dispatcher.Round (d : Dispatcher) : Prop where
  distinct : (d.held.map (·.id)).Nodup
  enabled : ∀ tip hook phase pending more, d = .draining tip hook phase pending more →
    ∀ w ∈ d.held, w.enabled = true

section

variable {tip : Int} {hook : WebhooksRow} {phase : DrainPhase}
  {pending more : List WebhooksRow} {d : Dispatcher}

theorem Dispatcher.round_proceed (hdistinct : ((pending ++ more).map (·.id)).Nodup)
    (henabled : ∀ w ∈ pending ++ more, w.enabled = true) :
    (Dispatcher.proceed tip pending more).Round := by
  constructor
  · rw [Dispatcher.held_proceed]
    exact hdistinct
  · intro _ _ _ _ _ _
    rw [Dispatcher.held_proceed]
    exact henabled

theorem Dispatcher.Round.of_draining
    (h : (Dispatcher.draining tip hook phase pending more).Round) :
    hook.id ∉ (pending ++ more).map (·.id) ∧ ((pending ++ more).map (·.id)).Nodup ∧
      ∀ w ∈ hook :: (pending ++ more), w.enabled = true := by
  obtain ⟨hdistinct, henabled⟩ := h
  exact ⟨(List.nodup_cons.mp hdistinct).1, (List.nodup_cons.mp hdistinct).2,
    henabled _ _ _ _ _ rfl⟩

/-- The copy may be another one of the same row. -/
theorem Dispatcher.Round.draining (h : (Dispatcher.draining tip hook phase pending more).Round)
    (hook' : WebhooksRow) (phase' : DrainPhase) (hid : hook'.id = hook.id)
    (hsame : hook'.enabled = hook.enabled) :
    (Dispatcher.draining tip hook' phase' pending more).Round := by
  obtain ⟨hnew, hdistinct, henabled⟩ := h.of_draining
  constructor
  · rw [← hid] at hnew
    exact List.nodup_cons.mpr ⟨hnew, hdistinct⟩
  · intro _ _ _ _ _ _ w hw
    rcases List.mem_cons.mp hw with rfl | hin
    · rw [hsame]
      exact henabled hook List.mem_cons_self
    · exact henabled w (List.mem_cons_of_mem _ hin)

/-- The hook is put back or left out. -/
theorem Dispatcher.Round.proceed (h : (Dispatcher.draining tip hook phase pending more).Round)
    (hook' : WebhooksRow) (owed : Bool) (hid : hook'.id = hook.id)
    (hsame : hook'.enabled = hook.enabled) :
    (Dispatcher.proceed tip pending (if owed then more ++ [hook'] else more)).Round := by
  obtain ⟨hnew, hdistinct, henabled⟩ := h.of_draining
  cases owed with
  | false =>
      exact Dispatcher.round_proceed hdistinct fun w hw => henabled w (List.mem_cons_of_mem _ hw)
  | true =>
      apply Dispatcher.round_proceed
      · rw [if_pos rfl, ← List.append_assoc, List.map_append]
        refine List.nodup_append.mpr ⟨hdistinct, List.nodup_singleton _, ?_⟩
        rintro id hin _ hlast rfl
        rw [List.map_singleton, List.mem_singleton, hid] at hlast
        rw [hlast] at hin
        exact hnew hin
      · intro w hw
        rw [if_pos rfl, ← List.append_assoc] at hw
        rcases List.mem_append.mp hw with hin | hlast
        · exact henabled w (List.mem_cons_of_mem _ hin)
        · rw [List.mem_singleton.mp hlast, hsame]
          exact henabled hook List.mem_cons_self

end

theorem nodup_listWebhooks (db : Database) (chainId : String) :
    ((listWebhooks db chainId).map (·.id)).Nodup := by
  have hrows : ((db.webhooks.rows.filter fun w => w.chainId = chainId).map (·.id)).Nodup :=
    db.webhooks.nodup.sublist (List.filter_sublist.map _)
  exact ((List.perm_insertionSort _ _).map _).nodup_iff.mpr hrows

theorem Dispatcher.round_of_idle {d : Dispatcher} (h : d.held = []) : d.Round := by
  constructor
  · rw [h]
    exact List.nodup_nil
  · intro _ _ _ _ _ _
    rw [h]
    exact fun w hw => nomatch hw

section

variable [Postgres] [Collation] {c : HookConfig} {s s' : HookState} {op : HookOp}

omit [Postgres] [Collation] in
theorem Dispatcher.round_pendingHooks {hooks : List WebhooksRow} (tip : Int) (backoff : Backoff)
    (now : Nat) (h : (hooks.map (·.id)).Nodup) :
    (Dispatcher.proceed tip (pendingHooks hooks tip backoff now) []).Round := by
  apply Dispatcher.round_proceed
  · rw [List.append_nil]
    exact h.sublist ((List.filter_sublist.trans List.filter_sublist).map _)
  · intro w hw
    rw [List.append_nil] at hw
    have hin := (List.mem_filter.mp (List.mem_of_mem_filter hw)).2
    exact (of_decide_eq_true hin).1

theorem round_step (h : s.dispatcher.Round) (hs : s.Stepped c op s') : s'.dispatcher.Round := by
  cases hs with
  | store _ | status | refused | register _ | upsert _ _ | remove => exact h
  | restart | wake _ | allDisabled _ | noTip _ | failEarly => exact Dispatcher.round_of_idle rfl
  | list _ => exact ⟨nodup_listWebhooks _ _, fun _ _ _ _ _ hno => nomatch hno⟩
  | readTip hphase =>
      rw [hphase] at h
      exact ⟨h.distinct, fun _ _ _ _ _ hno => nomatch hno⟩
  | cap hphase _ =>
      rw [hphase] at h
      exact Dispatcher.round_pendingHooks _ _ _ h.distinct
  | @selectNone tip hook _ _ hphase | @readNone tip hook _ _ _ hphase
  | @markMissed tip hook _ _ _ _ hphase _ =>
      rw [hphase] at h
      exact h.proceed hook false rfl rfl
  | select hphase _ _ | readActions hphase _ _ | read hphase _ _ | post hphase
  | postFailed hphase | fail hphase =>
      rw [hphase] at h
      exact h.draining _ _ rfl rfl
  | @mark tip hook pending more block later hphase _ =>
      rw [hphase] at h
      cases later with
      | nil => exact h.proceed { hook with cursorHeight := block.height } _ rfl rfl
      | cons next later => exact h.draining { hook with cursorHeight := block.height } _ rfl rfl
  | @record tip hook _ _ _ _ _ _ _ _ hphase _ =>
      rw [hphase] at h
      exact h.proceed hook false rfl rfl

end

/-! ## The row -/

/-- The clock of the row is that of the history. -/
structure WebhooksRow.OnClock (log : HookLog) (w : WebhooksRow) : Prop where
  since : w.failingSince = log.failingSince
  disabled : w.enabled = false ↔ log.Overdue

section

variable {log : HookLog} {w w' : WebhooksRow}

theorem WebhooksRow.OnClock.congr (h : w.OnClock log) (hsince : w'.failingSince = w.failingSince)
    (henabled : w'.enabled = w.enabled) : w'.OnClock log := by
  constructor
  · rw [hsince]
    exact h.since
  · rw [henabled]
    exact h.disabled

theorem WebhooksRow.onClock_registered (log : HookLog) (hsince : w.failingSince = none)
    (henabled : w.enabled = true) : w.OnClock (log ++ [.registered]) := by
  constructor
  · rw [hsince, HookLog.failingSince_of_not_failed log rfl]
  · rw [henabled, HookLog.overdue_concat]
    simp

theorem WebhooksRow.OnClock.delivered (h : w.OnClock log) (cursorHeight : Int) :
    { w with cursorHeight, failingSince := none, lastError := none : WebhooksRow }.OnClock
      (log ++ [.delivered]) := by
  constructor
  · rw [HookLog.failingSince_of_not_failed log rfl]
  · rw [HookLog.overdue_concat]
    simpa using h.disabled

theorem WebhooksRow.OnClock.failed (h : w.OnClock log) (hnot : ¬ log.Overdue) (error : String)
    (now : Int) :
    { w with
      lastError := some error
      failingSince := some (w.failingSince.getD now)
      enabled := now - maxFailing < w.failingSince.getD now : WebhooksRow }.OnClock
      (log ++ [.failed now]) := by
  constructor
  · rw [HookLog.failingSince_failed, h.since]
  · rw [HookLog.overdue_concat, h.since, decide_eq_false_iff_not]
    constructor
    · intro hlate
      exact .inr ⟨now, rfl, by omega⟩
    · rintro (⟨_, hoverdue⟩ | ⟨time, heq, hlate⟩)
      · exact absurd hoverdue hnot
      · cases heq
        omega

end

/-! ## Along a run -/

structure HookState.OnClock (c : HookConfig) (id : Int) (log : HookLog) (s : HookState) :
    Prop where
  sane : s.Sane c
  round : s.dispatcher.Round
  rows : ∀ w ∈ s.store.db.webhooks.rows, w.id = id → w.OnClock log
  held : log.Overdue → ∀ w ∈ s.dispatcher.held, w.id = id → w.enabled = false

section

variable {c : HookConfig} {id : Int} {log : HookLog} {s s' : HookState} {op : HookOp}

theorem HookLog.note_of_none (h : s.event id op s' = none) : log.note id s op s' = log := by
  rw [HookLog.note, h, Option.toList_none, List.append_nil]

theorem HookLog.note_of_ite {p : Prop} [Decidable p] {e : HookEvent}
    (h : s.event id op s' = if p then some e else none) :
    log.note id s op s' = if p then log ++ [e] else log := by
  rw [HookLog.note, h]
  split
  · rfl
  · exact List.append_nil log

theorem HookState.event_mark {tip : Int} {hook : WebhooksRow} {block : BlockRow}
    {later : List BlockRow} {pending more : List WebhooksRow}
    (hphase : s.dispatcher = .draining tip hook (.posting [] block later) pending more) :
    s.event id .mark s' =
      if hook.id = id ∧ (webhookDelivered s.store.db hook.id block.height block.hash).2 = true then
        some .delivered
      else none := by
  simp only [HookState.event, hphase]

theorem HookState.event_record {tip : Int} {hook : WebhooksRow} {error : String}
    {pending more : List WebhooksRow} {instant : Nat} {now : Int} {written : Bool}
    (hphase : s.dispatcher = .draining tip hook (.failed error) pending more) :
    s.event id (.record instant now written) s' =
      if hook.id = id then some (.failed now) else none := by
  simp only [HookState.event, hphase]

/-- A hook in a round is not overdue. -/
theorem HookState.OnClock.not_overdue (h : s.OnClock c id log) {tip : Int} {hook : WebhooksRow}
    {phase : DrainPhase} {pending more : List WebhooksRow}
    (hphase : s.dispatcher = .draining tip hook phase pending more) (hid : hook.id = id) :
    ¬ log.Overdue := by
  intro hoverdue
  have hmem : hook ∈ s.dispatcher.held := HookState.mem_held hphase (.inl rfl)
  have henabled := h.round.enabled _ _ _ _ _ hphase hook hmem
  rw [h.held hoverdue hook hmem hid] at henabled
  cases henabled

/-- The statement finds the one row with the id of the hook, if it finds any. -/
theorem HookState.rows_mark {w' : WebhooksRow} {hookId height : Int} {hash : String}
    (h : ∀ w ∈ s.store.db.webhooks.rows, w.id = id → w.OnClock log)
    (hw' : w' ∈ (webhookDelivered s.store.db hookId height hash).1.webhooks.rows)
    (hid' : w'.id = id) :
    w'.OnClock
      (if hookId = id ∧ (webhookDelivered s.store.db hookId height hash).2 = true then
        log ++ [.delivered] else log) := by
  obtain ⟨w, hw, rfl⟩ := List.mem_map.mp hw'
  by_cases hhit : w.id = hookId ∧ blockIsStored s.store.db w.chainId height hash = true
  · rw [if_pos hhit] at hid' ⊢
    have hfound := found_webhookDelivered.mpr ⟨w, hw, hhit⟩
    rw [if_pos ⟨hhit.1.symm.trans hid', hfound⟩]
    exact (h w hw hid').delivered height
  · rw [if_neg hhit] at hid' ⊢
    rw [if_neg]
    · exact h w hw hid'
    · rintro ⟨rfl, hfound⟩
      obtain ⟨u, hu, huid, hstored⟩ := found_webhookDelivered.mp hfound
      obtain rfl := s.store.db.webhooks.eq_of_key_eq hu hw (huid.trans hid'.symm)
      exact hhit ⟨huid, hstored⟩

theorem HookState.rows_record {w' : WebhooksRow} {hookId now : Int} {error : String}
    (h : ∀ w ∈ s.store.db.webhooks.rows, w.id = id → w.OnClock log)
    (hnot : hookId = id → ¬ log.Overdue)
    (hw' : w' ∈ (webhookFailed s.store.db hookId error now (now - maxFailing)).webhooks.rows)
    (hid' : w'.id = id) :
    w'.OnClock (if hookId = id then log ++ [.failed now] else log) := by
  obtain ⟨w, hw, rfl⟩ := List.mem_map.mp hw'
  by_cases hhit : w.id = hookId
  · rw [if_pos hhit] at hid' ⊢
    have hsame : hookId = id := hhit.symm.trans hid'
    rw [if_pos hsame]
    exact (h w hw hid').failed (hnot hsame) error now
  · rw [if_neg hhit] at hid' ⊢
    rw [if_neg fun hsame => hhit (hid'.trans hsame.symm)]
    exact h w hw hid'

theorem clock_upsertWebhook (db : Database) (chainId : String) (r : HookRequest)
    (cursorHeight nextId now : Int) :
    (upsertWebhook db chainId r cursorHeight nextId now).2.failingSince = none ∧
      (upsertWebhook db chainId r cursorHeight nextId now).2.enabled = true := by
  unfold upsertWebhook
  split <;> exact ⟨rfl, rfl⟩

variable [Postgres] [Collation]

omit [Collation] in
theorem HookState.rows_store {op : ChainOp} {store : StoreState} {w' : WebhooksRow}
    (hs : chainStep c.chainId c.extractor s.store op = some store)
    (hw' : w' ∈ store.db.webhooks.rows) :
    ∃ w ∈ s.store.db.webhooks.rows, w'.id = w.id ∧ w'.failingSince = w.failingSince ∧
      w'.enabled = w.enabled := by
  cases op with
  | insert blocks =>
      rcases chainStep_insert hs with rfl | ⟨_, db, hdb, rfl⟩
      · exact ⟨w', hw', rfl, rfl, rfl⟩
      · rw [webhooks_insertBlocks hdb] at hw'
        exact ⟨w', hw', rfl, rfl, rfl⟩
  | rollback height =>
      cases hs
      obtain ⟨w, hw, rfl⟩ := List.mem_map.mp hw'
      refine ⟨w, hw, ?_⟩
      split <;> exact ⟨rfl, rfl, rfl⟩

omit [Postgres] [Collation] in
theorem HookState.OnClock.rows_upsert (h : s.OnClock c id log) {place : Nat} {now : Int}
    {r : Registration} {db : Database} {row : WebhooksRow}
    (hupsert : upsertWebhook s.store.db c.chainId r.request r.cursorHeight s.nextId now = (db, row))
    {w : WebhooksRow} (hw : w ∈ db.webhooks.rows) (hid : w.id = id)
    (hregistered : s'.registered = s.registered ++ [row]) :
    w.OnClock (log.note id s (.upsert place now) s') := by
  have hevent : s.event id (.upsert place now) s' =
      if row.id = id then some .registered else none := by
    simp only [HookState.event, hregistered, List.drop_left, List.mem_singleton, exists_eq_left]
  rw [HookLog.note_of_ite hevent]
  obtain ⟨_, hrows⟩ := upsertWebhook_spec h.sane.fresh hupsert
  rcases hrows w hw with rfl | ⟨hold, hne⟩
  · rw [if_pos hid]
    have hclock := clock_upsertWebhook s.store.db c.chainId r.request r.cursorHeight s.nextId now
    rw [hupsert] at hclock
    exact WebhooksRow.onClock_registered log hclock.1 hclock.2
  · rw [if_neg fun hsame => hne (hid.trans hsame.symm)]
    exact h.rows w hold hid

theorem HookState.OnClock.rows_step (h : s.OnClock c id log) (hs : hookStep c s op = some s')
    (hrecorded : FailuresRecorded s op s') :
    ∀ w ∈ s'.store.db.webhooks.rows, w.id = id → w.OnClock (log.note id s op s') := by
  intro w hw hid
  cases HookState.stepped hs with
  | store hstore =>
      rw [HookLog.note_of_none rfl]
      obtain ⟨u, hu, huid, hsince, henabled⟩ := HookState.rows_store hstore hw
      exact (h.rows u hu (huid.symm.trans hid)).congr hsince henabled
  | upsert _ hupsert => exact h.rows_upsert hupsert hw hid rfl
  | remove =>
      rw [HookLog.note_of_none rfl]
      exact h.rows w (List.mem_of_mem_filter hw) hid
  | mark hphase _ =>
      rw [HookState.store_advance] at hw
      rw [HookLog.note_of_ite (HookState.event_mark hphase)]
      exact HookState.rows_mark h.rows hw hid
  | markMissed hphase _ =>
      rw [HookLog.note_of_ite (HookState.event_mark hphase)]
      exact HookState.rows_mark h.rows hw hid
  | @record tip hook error pending more instant now written backoff db hphase hdb =>
      rw [HookLog.note_of_ite (HookState.event_record hphase)]
      simp only [FailuresRecorded] at hrecorded
      subst hrecorded
      have hwritten : db = webhookFailed s.store.db hook.id error now (now - maxFailing) := by
        simp only [hookStep, HookState.dispatch, hphase] at hs
        have hstores := congrArg (fun t : HookState => t.store.db) (Option.some.inj hs)
        exact hstores.symm
      subst hwritten
      exact HookState.rows_record h.rows (h.not_overdue hphase) hw hid
  | status | restart | refused | register _ | wake _ | allDisabled _ | list _ | noTip _
  | readTip _ | cap _ _ | selectNone _ | select _ _ _ | readActions _ _ _ | readNone _
  | read _ _ _ | post _ | postFailed _ | failEarly | fail _ =>
      rw [HookLog.note_of_none rfl]
      exact h.rows w hw hid

omit [Postgres] [Collation] in
/-- Overdue after a step: so it was before, or the step records a failure of the hook. -/
theorem HookLog.overdue_note (h : (log.note id s op s').Overdue) :
    log.Overdue ∨ ∃ instant now written tip hook error pending more,
      op = .record instant now written ∧
        s.dispatcher = .draining tip hook (.failed error) pending more ∧ hook.id = id := by
  unfold HookLog.note at h
  cases hevent : s.event id op s' with
  | none =>
      rw [hevent, Option.toList_none, List.append_nil] at h
      exact .inl h
  | some e =>
      rw [hevent, Option.toList_some, HookLog.overdue_concat] at h
      rcases h with ⟨_, hoverdue⟩ | ⟨now, rfl, _⟩
      · exact .inl hoverdue
      · unfold HookState.event at hevent
        split at hevent
        · split at hevent <;> cases hevent
        · split at hevent <;> cases hevent
        · next hphase =>
            split at hevent
            · next hid => exact .inr ⟨_, _, _, _, _, _, _, _, rfl, hphase, hid⟩
            · cases hevent
        · cases hevent

/-- A copy of an overdue hook is out of every round. -/
theorem HookState.OnClock.held_step (h : s.OnClock c id log) (hs : s.Stepped c op s')
    (hoverdue : (log.note id s op s').Overdue) :
    ∀ w ∈ s'.dispatcher.held, w.id = id → w.enabled = false := by
  intro w hw hid
  rcases HookLog.overdue_note hoverdue with
    hbefore | ⟨instant, now, written, tip, hook, error, pending, more, rfl, hphase, hhook⟩
  · cases hs.copied hw with
    | held hheld => exact h.held hbefore w hheld hid
    | listed _ hlisted => exact (h.rows w (mem_listWebhooks hlisted).1 hid).disabled.mpr hbefore
    | moved _ hphase _ hcopy =>
        rw [hcopy] at hid
        exact absurd hbefore (h.not_overdue hphase hid)
  · have hround := h.round
    rw [hphase] at hround
    have hout : hook.id ∉ (pending ++ more).map (·.id) := hround.of_draining.1
    cases hs with
    | record hphase' _ =>
        cases hphase'.symm.trans hphase
        rw [Dispatcher.held_proceed] at hw
        rw [hhook, ← hid] at hout
        exact absurd (List.mem_map_of_mem hw) hout

theorem onClock_step (h : s.OnClock c id log) (hs : hookStep c s op = some s')
    (hrecorded : FailuresRecorded s op s') : s'.OnClock c id (log.note id s op s') :=
  ⟨sane_step h.sane (HookState.stepped hs), round_step h.round (HookState.stepped hs),
    h.rows_step hs hrecorded, h.held_step (HookState.stepped hs)⟩

omit [Postgres] [Collation] in
theorem onClock_empty (c : HookConfig) (id : Int) : HookState.OnClock c id [] {} :=
  ⟨sane_empty, Dispatcher.round_of_idle rfl, (fun _ hw => nomatch hw),
    fun _ _ hw => nomatch hw⟩

/-- A step posts to the hook of the round, if to any. -/
theorem HookState.OnClock.silent (h : s.OnClock c id log) (hs : s.Stepped c op s')
    (hoverdue : log.Overdue) : ∀ post ∈ s'.posts.drop s.posts.length, post.hook.id ≠ id := by
  intro post hpost hid
  have hkept : post ∉ s.posts.drop s.posts.length := by simp
  cases hs with
  | post hphase | postFailed hphase =>
      rw [List.drop_left, List.mem_singleton] at hpost
      rw [hpost] at hid
      exact h.not_overdue hphase hid hoverdue
  | @mark _ _ _ _ _ later _ _ => cases later <;> exact hkept hpost
  | _ => exact hkept hpost

/-- On every run that records its failures, the clock of a hook is the time of its first failure
since the last block delivered or the registration, and it is disabled from the first failure
`MAX_FAILING` after that on, until it is registered again, and gets no POST. -/
theorem failure_clock_exact (c : HookConfig) (id : Int) (ops : List HookOp)
    (hrecorded : Always (hookStep c) FailuresRecorded {} ops) :
    EveryStep (hookStep c) (HookLog.note id) (ClockExact id) [] {} ops := by
  apply everyStep_imp (I := HookState.OnClock c id) ?_ ?_ (onClock_empty c id)
    (everyStep_of_always hrecorded)
  · intro log s op s' h hs hrec
    exact onClock_step h hs hrec
  · intro log s op s' h hs hrec
    have hrows := h.rows_step hs hrec
    exact ⟨fun w hw hid => (hrows w hw hid).since, fun w hw hid => (hrows w hw hid).disabled,
      h.silent (HookState.stepped hs)⟩

end

/-- Block 0 is delivered, block 1 is refused now and three days later, and after that the hook
is not gone round to. -/
def refusedTwice : List HookOp :=
  [.store (.insert [.bare 0 "g" "", .transfer 1 "a" "g" "alice" "tx"])] ++ registration 0 ++
    firstPage 0 ++ [.mark, .post (some "refused"), .record 0 100 true] ++
    firstPage 10 ++ [.post (some "refused"), .record 10 (100 + maxFailing) true, .wake, .list]

theorem failure_clock_exact_refused :
    (exec smallHookStep {} refusedTwice).map (fun s =>
      s.store.db.webhooks.rows.map fun w => (w.enabled, w.failingSince)) =
        some [(false, some 100)] ∧
      EveryStep smallHookStep (HookLog.note 1) (ClockExact 1) [] {} refusedTwice :=
  ⟨by decide, @failure_clock_exact .plain .plain .small 1 refusedTwice (by decide)⟩

end Retracer
