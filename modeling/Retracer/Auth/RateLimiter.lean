import Retracer.Auth.Cidr
import Retracer.Library.Sweeping

/-! # The rate limiter

`RateLimiter::allow` counts the calls of an address in windows of 60 seconds. When the map
has grown past a threshold it first drops every entry whose window is over, of whatever
address. Time is a count of nanoseconds.
-/

namespace Retracer

open KeyedTable Sweeping

/-! ## The limiter -/

/-- `RATE_LIMIT_WINDOW`. -/
def rateLimitWindow : Nat := 60 * 10 ^ 9

/-- `RATE_LIMIT_SWEEP_THRESHOLD`. -/
def rateLimitSweepThreshold : Nat := 10000

structure Hit where
  ip : IpAddr
  since : Nat
  count : UInt32

instance : Keyed Hit IpAddr := ⟨Hit.ip⟩

/-- `duration_since` is zero for an instant in the future. -/
def Hit.isOver (now : Nat) (hit : Hit) : Bool := rateLimitWindow < now - hit.since

/-- A window that is over starts again, and the call counts. -/
def Hit.touch (now : Nat) (hit : Hit) : Hit :=
  let hit := if hit.isOver now then { hit with since := now, count := 0 } else hit
  { hit with count := hit.count + 1 }

theorem Hit.key_touch (now : Nat) (hit : Hit) : key (hit.touch now) = key hit := by
  unfold touch
  split <;> rfl

structure RateLimiter where
  maxPerWindow : UInt32
  hits : Table Hit

def RateLimiter.new (maxPerWindow : UInt32) : RateLimiter := ⟨maxPerWindow, .empty⟩

/-- The map as a call finds it, after the sweep. -/
def RateLimiter.swept (threshold : Nat) (limiter : RateLimiter) (now : Nat) : Table Hit :=
  if threshold < limiter.hits.rows.length then limiter.hits.deleteWhere (Hit.isOver now)
  else limiter.hits

/-- The entry of the address after a call. -/
def RateLimiter.entry (threshold : Nat) (limiter : RateLimiter) (ip : IpAddr) (now : Nat) :
    Hit :=
  (((limiter.swept threshold now).find? ip).getD ⟨ip, now, 0⟩).touch now

/-- The limiter after a call, and the answer. -/
def RateLimiter.allow (threshold : Nat) (limiter : RateLimiter) (ip : IpAddr) (now : Nat) :
    RateLimiter × Bool :=
  let entry := limiter.entry threshold ip now
  ({ limiter with
      hits := (limiter.swept threshold now).upsert entry (Hit.touch now) (Hit.key_touch now) },
    entry.count ≤ limiter.maxPerWindow)

/-! ## The counter of one address -/

/-- A window by its start and the calls in it. -/
structure CallWindow where
  start : Nat
  calls : Nat
deriving DecidableEq

/-- A call later than 60 seconds after the start begins the next window. -/
def CallWindow.next (now : Nat) : Option CallWindow → CallWindow
  | none => ⟨now, 1⟩
  | some w => if rateLimitWindow < now - w.start then ⟨now, 1⟩ else ⟨w.start, w.calls + 1⟩

/-- Among the first `maxPerWindow` calls of its window. -/
def windowAnswers (maxPerWindow : Nat) : Option CallWindow → List Nat → List Bool
  | _, [] => []
  | w, now :: calls =>
      let w := CallWindow.next now w
      decide (w.calls ≤ maxPerWindow) :: windowAnswers maxPerWindow (some w) calls

/-! ## Runs -/

structure Call where
  ip : IpAddr
  now : Nat

/-- Every call with its answer. -/
def RateLimiter.answers (threshold : Nat) : RateLimiter → List Call → List (Call × Bool)
  | _, [] => []
  | limiter, call :: calls =>
      let (limiter, allowed) := limiter.allow threshold call.ip call.now
      (call, allowed) :: limiter.answers threshold calls

def answersTo (ip : IpAddr) (answers : List (Call × Bool)) : List Bool :=
  (answers.filter fun answer => answer.1.ip = ip).map (·.2)

def instantsOf (ip : IpAddr) (calls : List Call) : List Nat :=
  (calls.filter fun call => call.ip = ip).map Call.now

/-! ## The sweep cannot be seen -/

/-- The entry that the counter of the address stands for. -/
def CallWindow.hit (ip : IpAddr) (w : CallWindow) : Hit := ⟨ip, w.start, UInt32.ofNat w.calls⟩

/-- The map holds the window of the address, unless that is over. -/
def RateLimiter.Tracks (limiter : RateLimiter) (ip : IpAddr) (now : Nat)
    (w : Option CallWindow) : Prop :=
  Kept (Hit.isOver now) (limiter.hits.find? ip) (w.map (CallWindow.hit ip))

section

variable {threshold now later : Nat} {limiter : RateLimiter} {ip other : IpAddr}
  {w : Option CallWindow}

theorem Hit.isOver_of_le {hit : Hit} (hle : now ≤ later) (h : hit.isOver now = true) :
    hit.isOver later = true := by
  simp only [Hit.isOver, decide_eq_true_eq] at h ⊢
  omega

theorem Hit.touch_of_isOver {hit : Hit} (h : hit.isOver now = true) :
    hit.touch now = ⟨hit.ip, now, 1⟩ := by
  rw [touch, if_pos h]
  rfl

theorem Hit.touch_new : (⟨ip, now, 0⟩ : Hit).touch now = ⟨ip, now, 1⟩ := by
  have hover : (⟨ip, now, 0⟩ : Hit).isOver now = false := by simp [isOver]
  rw [touch, hover]
  rfl

/-- Touching the entry is the next window. -/
theorem CallWindow.touch_hit :
    ((w.map (CallWindow.hit ip)).getD ⟨ip, now, 0⟩).touch now =
      (CallWindow.next now w).hit ip := by
  cases w with
  | none => exact Hit.touch_new
  | some w =>
      rw [Option.map_some, Option.getD_some, CallWindow.next]
      by_cases hover : rateLimitWindow < now - w.start
      · rw [if_pos hover]
        exact Hit.touch_of_isOver (decide_eq_true hover)
      · have hopen : (w.hit ip).isOver now = false := decide_eq_false hover
        rw [if_neg hover, Hit.touch, hopen]
        simp [CallWindow.hit]

namespace RateLimiter

theorem Tracks.of_le (h : limiter.Tracks ip now w) (hle : now ≤ later) :
    limiter.Tracks ip later w :=
  Kept.mono h fun _ hr => Hit.isOver_of_le hle hr

theorem Tracks.swept (h : limiter.Tracks ip now w) :
    Kept (Hit.isOver now) ((limiter.swept threshold now).find? ip)
      (w.map (CallWindow.hit ip)) := by
  unfold RateLimiter.swept
  split
  · exact Kept.deleteWhere h fun _ hr => hr
  · exact h

theorem Tracks.entry (h : limiter.Tracks ip now w) :
    limiter.entry threshold ip now = (CallWindow.next now w).hit ip := by
  rw [← CallWindow.touch_hit]
  apply Kept.getD h.swept
  intro hit hhit hover
  obtain ⟨w, _, rfl⟩ := Option.mem_map.mp hhit
  rw [Hit.touch_of_isOver hover, Hit.touch_new]
  rfl

theorem key_entry : key (limiter.entry threshold ip now) = ip := by
  rw [RateLimiter.entry, Hit.key_touch]
  cases hfound : (limiter.swept threshold now).find? ip with
  | none => rfl
  | some hit => exact (Table.find?_eq_some_iff.mp hfound).2

theorem find?_allow :
    (limiter.allow threshold other now).1.hits.find? ip =
      if ip = other then some (limiter.entry threshold other now)
      else (limiter.swept threshold now).find? ip := by
  simp only [allow]
  rw [Table.find?_upsert, key_entry]
  by_cases hip : ip = other
  · subst hip
    rw [if_pos rfl, if_pos rfl]
    cases hfound : (limiter.swept threshold now).find? ip with
    | none => rfl
    | some hit => simp [RateLimiter.entry, hfound]
  · rw [if_neg hip, if_neg hip]

/-- A call of the address itself. -/
theorem Tracks.allow_own (h : limiter.Tracks ip now w) (threshold : Nat) :
    (limiter.allow threshold ip now).1.Tracks ip now (some (CallWindow.next now w)) := by
  rw [Tracks, find?_allow, if_pos rfl, h.entry]
  exact Kept.refl _ _

/-- A call of another address. -/
theorem Tracks.allow_other (h : limiter.Tracks ip now w) (threshold : Nat) (hip : ip ≠ other) :
    (limiter.allow threshold other now).1.Tracks ip now w := by
  rw [Tracks, find?_allow, if_neg hip]
  exact h.swept

theorem maxPerWindow_allow :
    (limiter.allow threshold ip now).1.maxPerWindow = limiter.maxPerWindow := rfl

/-- The answer is that of the counter, with the count in 32 bits. -/
theorem Tracks.answer (h : limiter.Tracks ip now w) (threshold : Nat) :
    (limiter.allow threshold ip now).2 =
      decide ((CallWindow.next now w).calls % 2 ^ 32 ≤ limiter.maxPerWindow.toNat) := by
  simp only [allow, h.entry, CallWindow.hit, UInt32.le_iff_toNat_le, UInt32.toNat_ofNat']

end RateLimiter

theorem CallWindow.calls_next_le : (CallWindow.next now w).calls ≤ w.elim 0 calls + 1 := by
  cases w with
  | none => exact Nat.le_refl 1
  | some w =>
      simp only [CallWindow.next]
      split <;> simp

end

/-- The run from any limiter that tracks the address. -/
theorem RateLimiter.Tracks.answersTo {limiter : RateLimiter} {threshold now : Nat}
    {ip : IpAddr} {w : Option CallWindow} {calls : List Call} (h : limiter.Tracks ip now w)
    (hordered : (now :: calls.map Call.now).Pairwise (· ≤ ·))
    (hfew : w.elim 0 CallWindow.calls + calls.length < 2 ^ 32) :
    Retracer.answersTo ip (limiter.answers threshold calls) =
      windowAnswers limiter.maxPerWindow.toNat w (instantsOf ip calls) := by
  induction calls generalizing limiter now w with
  | nil => rfl
  | cons call calls ih =>
      obtain ⟨other, instant⟩ := call
      rw [List.map_cons, List.pairwise_cons] at hordered
      have hnow : limiter.Tracks ip instant w := h.of_le (hordered.1 instant List.mem_cons_self)
      rw [List.length_cons] at hfew
      by_cases hip : other = ip
      · subst hip
        have hcalls : (CallWindow.next instant w).calls ≤ _ := CallWindow.calls_next_le
        have hanswer := hnow.answer threshold
        rw [Nat.mod_eq_of_lt (by omega)] at hanswer
        have hrest := ih (hnow.allow_own threshold) hordered.2
          (by simp only [Option.elim_some]; omega)
        simp only [answers, Retracer.answersTo, instantsOf, List.filter_cons, decide_true,
          if_true, List.map_cons, windowAnswers] at hrest ⊢
        rw [hanswer, hrest, maxPerWindow_allow]
      · have hrest := ih (hnow.allow_other threshold (Ne.symm hip)) hordered.2
          (by omega)
        simp only [answers, Retracer.answersTo, instantsOf, List.filter_cons, hip, decide_false]
          at hrest ⊢
        exact hrest

theorem RateLimiter.tracks_new (maxPerWindow : UInt32) (ip : IpAddr) (now : Nat) :
    (RateLimiter.new maxPerWindow).Tracks ip now none := Kept.refl _ _

/-- Whatever the threshold and whoever else calls, an address is answered as by a counter of
its own that never sweeps. -/
theorem rate_limiter_sweep_is_invisible (maxPerWindow : UInt32) (threshold : Nat)
    (calls : List Call) (hordered : (calls.map Call.now).Pairwise (· ≤ ·))
    (hfew : calls.length < 2 ^ 32) (ip : IpAddr) :
    answersTo ip ((RateLimiter.new maxPerWindow).answers threshold calls) =
      windowAnswers maxPerWindow.toNat none (instantsOf ip calls) := by
  apply (RateLimiter.tracks_new maxPerWindow ip 0).answersTo
  · exact List.pairwise_cons.mpr ⟨fun _ _ => Nat.zero_le _, hordered⟩
  · rw [Option.elim_none, Nat.zero_add]
    exact hfew

/-- The last instant of a window and the first one behind it, with a sweep at every call. -/
theorem rate_limiter_window_boundary :
    answersTo (.v4 1) ((RateLimiter.new 1).answers 0
      [⟨.v4 1, 0⟩, ⟨.v4 2, 0⟩, ⟨.v4 1, 60 * 10 ^ 9⟩, ⟨.v4 1, 60 * 10 ^ 9 + 1⟩]) =
      [true, false, true] :=
  (rate_limiter_sweep_is_invisible 1 0 _ (by decide) (by decide) (.v4 1)).trans (by decide)

end Retracer
