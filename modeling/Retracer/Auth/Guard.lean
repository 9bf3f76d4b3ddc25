import Mathlib.Data.Nat.Count
import Retracer.Auth.ClientIp
import Retracer.Auth.RateLimiter

/-! # The request guard

`rest_guard` lets `/health` through, then checks the token, and counts only what the token
check let through. So a request with a wrong token is answered without being counted.
-/

namespace Retracer

open KeyedTable Sweeping

/-! ## The guard -/

structure GuardConfig where
  token : Option String
  rateLimiter : Option RateLimiter
  trustedProxies : Option TrustedProxies

namespace GuardConfig

/-- The budget per second, over a window of 60. -/
def new (token : Option String) (rateLimitRps : Option UInt32) : GuardConfig :=
  { token
    rateLimiter := rateLimitRps.map fun rps =>
      RateLimiter.new (UInt32.ofNat (min (rps.toNat * 60) (2 ^ 32 - 1)))
    trustedProxies := none }

def withTrustedProxies (guard : GuardConfig) (proxies : Option TrustedProxies) : GuardConfig :=
  { guard with trustedProxies := proxies.filter fun p => !p.isEmpty }

end GuardConfig

/-- What the guard reads of a request: the first value of either header. -/
structure GuardedRequest where
  peer : IpAddr
  path : String
  authorization : Option HeaderValue
  forwardedFor : Option HeaderValue

/-- `passed` is the answer of the handler. -/
inductive GuardAnswer where
  | passed
  | unauthorized
  | tooManyRequests
deriving DecidableEq

def tokenMatches (expected : String) (headerValue : Option String) : Bool :=
  headerValue.any fun value => value == "Bearer " ++ expected

def authExempt (path : String) : Bool := path == "/health" || path == "/ready"

def rateLimitExempt (path : String) : Bool := path == "/health"

section

variable [HeaderText]

/-- The token check, which ends in a 401. -/
def refused (token : Option String) (req : GuardedRequest) : Bool :=
  !authExempt req.path &&
    token.any fun token => !tokenMatches token (req.authorization.bind HeaderValue.toStr)

def requestIp (trusted : Option TrustedProxies) (req : GuardedRequest) : IpAddr :=
  clientIp req.peer (req.forwardedFor.bind HeaderValue.toStr) trusted

/-- One request at an instant. The limiter is behind a lock, so calls do not overlap. -/
def restGuard (guard : GuardConfig) (req : GuardedRequest) (now : Nat) :
    GuardConfig × GuardAnswer :=
  if rateLimitExempt req.path then (guard, .passed)
  else if refused guard.token req then (guard, .unauthorized)
  else
    match guard.rateLimiter with
    | none => (guard, .passed)
    | some limiter =>
        let (limiter, allowed) :=
          limiter.allow rateLimitSweepThreshold (requestIp guard.trustedProxies req) now
        ({ guard with rateLimiter := some limiter },
          if allowed then .passed else .tooManyRequests)

/-! ## Runs -/

/-- Every request with its answer. -/
def guardAnswers : GuardConfig → List (GuardedRequest × Nat) → List (GuardedRequest × GuardAnswer)
  | _, [] => []
  | guard, (req, now) :: requests =>
      let (guard, answer) := restGuard guard req now
      (req, answer) :: guardAnswers guard requests

/-- Attributed to the address, and not for `/health`. -/
def concerns (trusted : Option TrustedProxies) (ip : IpAddr) (req : GuardedRequest) : Bool :=
  !rateLimitExempt req.path && requestIp trusted req == ip

/-- How many requests of the address are answered with anything but a 429. -/
def attempts (guard : GuardConfig) (ip : IpAddr) (requests : List (GuardedRequest × Nat)) : Nat :=
  (guardAnswers guard requests).countP fun answer =>
    concerns guard.trustedProxies ip answer.1 && answer.2 != .tooManyRequests

end

/-! ## The budget of one window -/

/-- The counts of a `u32`. -/
def u32Size : Nat := 2 ^ 32

/-- Of the first `calls` calls of a window, those let through. The count wraps at `m`. -/
def admitted (m maxPerWindow calls : Nat) : Nat :=
  Nat.count (fun k => (k + 1) % m ≤ maxPerWindow) calls

theorem admitted_succ (m maxPerWindow calls : Nat) :
    admitted m maxPerWindow (calls + 1) =
      admitted m maxPerWindow calls + if (calls + 1) % m ≤ maxPerWindow then 1 else 0 :=
  Nat.count_succ _ _

theorem admitted_of_lt {m maxPerWindow calls : Nat} (h : calls < m) :
    admitted m maxPerWindow calls = min calls maxPerWindow := by
  induction calls with
  | zero => simp [admitted]
  | succ calls ih =>
      have hmod : (calls + 1) % m = calls + 1 := Nat.mod_eq_of_lt h
      rw [admitted_succ, ih (by omega), hmod]
      split <;> omega

theorem admitted_mono (m maxPerWindow : Nat) {a b : Nat} (h : a ≤ b) :
    admitted m maxPerWindow a ≤ admitted m maxPerWindow b := Nat.count_monotone _ h

/-- The call at which the count wraps to zero is let through again. -/
theorem lt_admitted_of_le {m maxPerWindow calls : Nat} (hm : maxPerWindow < m)
    (h : m ≤ calls) : maxPerWindow < admitted m maxPerWindow calls := by
  have hlast : admitted m maxPerWindow m = maxPerWindow + 1 := by
    obtain ⟨n, rfl⟩ : ∃ n, m = n + 1 := ⟨m - 1, by omega⟩
    rw [admitted_succ, admitted_of_lt (Nat.lt_succ_self n), Nat.mod_self,
      if_pos (Nat.zero_le _)]
    omega
  have hle := admitted_mono m maxPerWindow h
  omega

/-- When refusals are not counted, the budget holds if there are none, or if the requests
are too few for it to matter. -/
theorem budget_iff {m maxPerWindow refusals calls : Nat} (hm : maxPerWindow < m) :
    refusals + admitted m maxPerWindow calls ≤ maxPerWindow ↔
      refusals = 0 ∧ calls < m ∨ refusals + calls ≤ maxPerWindow := by
  by_cases h : calls < m
  · rw [admitted_of_lt h]
    omega
  · have hmany := lt_admitted_of_le hm (Nat.not_lt.mp h)
    omega

/-- Requests of the address that the token check refuses. -/
def refusals [HeaderText] (guard : GuardConfig) (ip : IpAddr)
    (requests : List (GuardedRequest × Nat)) : Nat :=
  requests.countP fun r => concerns guard.trustedProxies ip r.1 && refused guard.token r.1

/-- Requests of the address that reach the limiter. -/
def counted [HeaderText] (guard : GuardConfig) (ip : IpAddr)
    (requests : List (GuardedRequest × Nat)) : Nat :=
  requests.countP fun r => concerns guard.trustedProxies ip r.1 && !refused guard.token r.1

/-- The requests from `start` on have made `calls` calls, all in one window. -/
def CallWindow.Counts (start calls : Nat) (w : Option CallWindow) : Prop :=
  if calls = 0 then ∀ v ∈ w, rateLimitWindow < start - v.start
  else ∃ v, w = some v ∧ start ≤ v.start ∧ v.calls = calls

theorem CallWindow.Counts.step {start calls now : Nat} {w : Option CallWindow}
    (h : Counts start calls w) (hlo : start ≤ now) (hhi : now ≤ start + rateLimitWindow) :
    (next now w).calls = calls + 1 ∧ Counts start (calls + 1) (some (next now w)) := by
  unfold Counts at h
  split at h
  · rename_i hzero
    subst hzero
    have hnext : next now w = ⟨now, 1⟩ := by
      cases w with
      | none => rfl
      | some v =>
          have hover := h v rfl
          rw [next, if_pos (by omega)]
    rw [hnext]
    exact ⟨rfl, ⟨now, 1⟩, rfl, hlo, rfl⟩
  · obtain ⟨v, rfl, hstart, hcalls⟩ := h
    have hnext : next now (some v) = ⟨v.start, v.calls + 1⟩ := by
      rw [next, if_neg (by omega)]
    rw [hnext, hcalls]
    exact ⟨rfl, ⟨v.start, calls + 1⟩, rfl, hstart, rfl⟩

section

variable [HeaderText] {guard : GuardConfig} {limiter : RateLimiter} {ip : IpAddr}
  {req : GuardedRequest}
  {requests : List (GuardedRequest × Nat)} {start now instant calls : Nat}
  {w : Option CallWindow}

theorem restGuard_of_exempt (h : rateLimitExempt req.path = true) :
    restGuard guard req now = (guard, .passed) := by
  rw [restGuard, if_pos h]

theorem restGuard_of_refused (h : rateLimitExempt req.path = false)
    (hrefused : refused guard.token req = true) :
    restGuard guard req now = (guard, .unauthorized) := by
  rw [restGuard, h, if_neg Bool.false_ne_true, if_pos hrefused]

theorem restGuard_of_counted (h : rateLimitExempt req.path = false)
    (hrefused : refused guard.token req = false) (hlimiter : guard.rateLimiter = some limiter) :
    restGuard guard req now =
      ({ guard with
          rateLimiter := some
            (limiter.allow rateLimitSweepThreshold (requestIp guard.trustedProxies req) now).1 },
        if (limiter.allow rateLimitSweepThreshold (requestIp guard.trustedProxies req) now).2 then
          .passed
        else .tooManyRequests) := by
  simp [restGuard, h, hrefused, hlimiter]

theorem restGuard_trustedProxies :
    (restGuard guard req now).1.trustedProxies = guard.trustedProxies := by
  unfold restGuard
  split
  · rfl
  · split
    · rfl
    · cases guard.rateLimiter <;> rfl

theorem restGuard_token : (restGuard guard req now).1.token = guard.token := by
  unfold restGuard
  split
  · rfl
  · split
    · rfl
    · cases guard.rateLimiter <;> rfl

theorem attempts_cons :
    attempts guard ip ((req, now) :: requests) =
      attempts (restGuard guard req now).1 ip requests +
        if concerns guard.trustedProxies ip req &&
          (restGuard guard req now).2 != .tooManyRequests then 1 else 0 := by
  rw [attempts, attempts, guardAnswers, restGuard_trustedProxies]
  exact List.countP_cons

theorem refusals_cons :
    refusals guard ip ((req, now) :: requests) =
      refusals guard ip requests +
        if concerns guard.trustedProxies ip req && refused guard.token req then 1 else 0 :=
  List.countP_cons

theorem counted_cons :
    counted guard ip ((req, now) :: requests) =
      counted guard ip requests +
        if concerns guard.trustedProxies ip req && !refused guard.token req then 1 else 0 :=
  List.countP_cons

theorem refusals_restGuard :
    refusals (restGuard guard req now).1 ip requests = refusals guard ip requests := by
  rw [refusals, restGuard_trustedProxies, restGuard_token]
  rfl

theorem counted_restGuard :
    counted (restGuard guard req now).1 ip requests = counted guard ip requests := by
  rw [counted, restGuard_trustedProxies, restGuard_token]
  rfl

omit [HeaderText] in
theorem answer_ne_tooManyRequests (allowed : Bool) :
    ((if allowed = true then GuardAnswer.passed else .tooManyRequests) != .tooManyRequests) =
      allowed := by
  cases allowed <;> rfl

/-- One request: a counted one of the address is the next call of its window, and what is
added to the attempts is what the token check refuses or the limiter admits. -/
theorem restGuard_step (req : GuardedRequest) (hlimiter : guard.rateLimiter = some limiter)
    (h : limiter.Tracks ip now w) (hcounts : CallWindow.Counts start calls w)
    (hlo : start ≤ now) (hhi : now ≤ start + rateLimitWindow) :
    ∃ limiter' w', (restGuard guard req now).1.rateLimiter = some limiter' ∧
      limiter'.maxPerWindow = limiter.maxPerWindow ∧ limiter'.Tracks ip now w' ∧
      CallWindow.Counts start
        (calls + if concerns guard.trustedProxies ip req && !refused guard.token req then 1 else 0)
        w' ∧
      (if concerns guard.trustedProxies ip req &&
          (restGuard guard req now).2 != .tooManyRequests then 1 else 0) +
          admitted u32Size limiter.maxPerWindow.toNat calls =
        (if concerns guard.trustedProxies ip req && refused guard.token req then 1 else 0) +
          admitted u32Size limiter.maxPerWindow.toNat
            (calls +
              if concerns guard.trustedProxies ip req && !refused guard.token req then 1
              else 0) := by
  cases hexempt : rateLimitExempt req.path with
  | true =>
      have hnot : concerns guard.trustedProxies ip req = false := by simp [concerns, hexempt]
      rw [restGuard_of_exempt hexempt, hnot]
      exact ⟨limiter, w, hlimiter, rfl, h, hcounts, rfl⟩
  | false =>
      cases hrefused : refused guard.token req with
      | true =>
          have hanswer : (GuardAnswer.unauthorized != .tooManyRequests) = true := rfl
          rw [restGuard_of_refused hexempt hrefused]
          simp only [hanswer, Bool.not_true, Bool.and_false, Bool.false_eq_true, if_false,
            Nat.add_zero]
          exact ⟨limiter, w, hlimiter, rfl, h, hcounts, trivial⟩
      | false =>
          have hrun : restGuard guard req now = _ :=
            restGuard_of_counted hexempt hrefused hlimiter
          by_cases hip : requestIp guard.trustedProxies req = ip
          · have hown : concerns guard.trustedProxies ip req = true := by
              simp [concerns, hexempt, hip]
            obtain ⟨hcalls, hnext⟩ := hcounts.step hlo hhi
            have hanswer := h.answer rateLimitSweepThreshold
            rw [hcalls] at hanswer
            rw [hip] at hrun
            have hgiven : ((restGuard guard req now).2 != .tooManyRequests) =
                decide ((calls + 1) % u32Size ≤ limiter.maxPerWindow.toNat) := by
              rw [hrun]
              exact (answer_ne_tooManyRequests _).trans hanswer
            refine ⟨_, _, by rw [hrun], RateLimiter.maxPerWindow_allow,
              h.allow_own rateLimitSweepThreshold, ?_, ?_⟩
            · rw [hown]
              exact hnext
            · simp only [hown, hgiven, Bool.true_and, Bool.and_false, Bool.not_false,
                decide_eq_true_eq, Bool.false_eq_true, if_false, if_true, admitted_succ]
              omega
          · have hother : concerns guard.trustedProxies ip req = false := by
              simp [concerns, hip]
            rw [hother]
            exact ⟨_, w, by rw [hrun], RateLimiter.maxPerWindow_allow,
              h.allow_other rateLimitSweepThreshold (Ne.symm hip), hcounts, rfl⟩

/-- The attempts of a run within one window, from the call it has come to. -/
theorem attempts_add (hlimiter : guard.rateLimiter = some limiter)
    (h : limiter.Tracks ip now w) (hcounts : CallWindow.Counts start calls w)
    (hordered : (now :: requests.map (·.2)).Pairwise (· ≤ ·))
    (hwindow : ∀ r ∈ requests, start ≤ r.2 ∧ r.2 ≤ start + rateLimitWindow) :
    attempts guard ip requests + admitted u32Size limiter.maxPerWindow.toNat calls =
      refusals guard ip requests +
        admitted u32Size limiter.maxPerWindow.toNat (calls + counted guard ip requests) := by
  induction requests generalizing guard limiter now calls w with
  | nil => rfl
  | cons head requests ih =>
      obtain ⟨req, instant⟩ := head
      rw [List.map_cons, List.pairwise_cons] at hordered
      rw [List.forall_mem_cons] at hwindow
      obtain ⟨⟨hlo, hhi⟩, hwindow⟩ := hwindow
      have hnow : limiter.Tracks ip instant w :=
        h.of_le (hordered.1 instant List.mem_cons_self)
      obtain ⟨limiter', w', hafter, hmax, htracks, hnext, hstep⟩ :=
        restGuard_step req hlimiter hnow hcounts hlo hhi
      have hrest := ih hafter htracks hnext hordered.2 hwindow
      rw [hmax, refusals_restGuard, counted_restGuard] at hrest
      rw [attempts_cons, refusals_cons, counted_cons, Nat.add_comm (counted guard ip requests),
        ← Nat.add_assoc calls]
      omega

end

/-! ## When the budget holds -/

/-- The requests of the address that are not for `/health`. -/
def concerning [HeaderText] (guard : GuardConfig) (ip : IpAddr)
    (requests : List (GuardedRequest × Nat)) :
    Nat :=
  requests.countP fun r => concerns guard.trustedProxies ip r.1

/-- The same requests with other tokens. -/
def SameButTokens (requests right : List (GuardedRequest × Nat)) : Prop :=
  List.Forall₂ (fun r s => s.2 = r.2 ∧ s.1 = { r.1 with authorization := s.1.authorization })
    requests right

/-- At most `maxPerWindow` attempts, and no more than with tokens that are right. -/
def WithinBudget [HeaderText] (guard : GuardConfig) (maxPerWindow : UInt32) (ip : IpAddr)
    (requests : List (GuardedRequest × Nat)) : Prop :=
  attempts guard ip requests ≤ maxPerWindow.toNat ∧
    ∀ right, SameButTokens requests right → refusals guard ip right = 0 →
      attempts guard ip requests ≤ attempts guard ip right

section

variable [HeaderText] {guard : GuardConfig} {limiter : RateLimiter} {ip : IpAddr}
  {requests right : List (GuardedRequest × Nat)} {start : Nat}

theorem concerning_eq : concerning guard ip requests =
    refusals guard ip requests + counted guard ip requests := by
  unfold concerning refusals counted
  induction requests with
  | nil => rfl
  | cons r requests ih =>
      simp only [List.countP_cons, ih]
      cases concerns guard.trustedProxies ip r.1 <;> cases refused guard.token r.1 <;>
        simp <;> omega

theorem refusals_eq_zero_iff : refusals guard ip requests = 0 ↔
    ∀ r ∈ requests, concerns guard.trustedProxies ip r.1 = true →
      refused guard.token r.1 = false := by
  simp [refusals, List.countP_eq_zero]

omit [HeaderText] in
theorem SameButTokens.instants (h : SameButTokens requests right) :
    right.map (·.2) = requests.map (·.2) := by
  induction h with
  | nil => rfl
  | cons hhead _ ih => rw [List.map_cons, List.map_cons, ih, hhead.1]

theorem SameButTokens.concerning (h : SameButTokens requests right) :
    concerning guard ip right = Retracer.concerning guard ip requests := by
  unfold Retracer.concerning
  induction h with
  | nil => rfl
  | cons hhead _ ih =>
      rw [List.countP_cons, List.countP_cons, ih, hhead.2]
      rfl

/-- The attempts of the requests of one window. -/
theorem attempts_eq (hlimiter : guard.rateLimiter = some limiter)
    (hnew : ∀ hit ∈ limiter.hits.find? ip, hit.isOver start = true)
    (hordered : (requests.map (·.2)).Pairwise (· ≤ ·))
    (hwindow : ∀ now ∈ requests.map (·.2), start ≤ now ∧ now ≤ start + rateLimitWindow) :
    attempts guard ip requests = refusals guard ip requests +
      admitted u32Size limiter.maxPerWindow.toNat (counted guard ip requests) := by
  have hbefore : (start :: requests.map (·.2)).Pairwise (· ≤ ·) :=
    List.pairwise_cons.mpr ⟨fun now hnow => (hwindow now hnow).1, hordered⟩
  rw [List.forall_mem_map] at hwindow
  -- nothing of the window before the requests is open any more
  have htracks : limiter.Tracks ip start none ∨
      ∃ w, limiter.Tracks ip start (some w) ∧ rateLimitWindow < start - w.start := by
    cases hfound : limiter.hits.find? ip with
    | none => exact .inl (.inl hfound)
    | some hit =>
        have hover := hnew hit hfound
        simp only [Hit.isOver, decide_eq_true_eq] at hover
        refine .inr ⟨⟨hit.since, hit.count.toNat⟩, .inl ?_, hover⟩
        have hip : hit.ip = ip := (Table.find?_eq_some_iff.mp hfound).2
        subst hip
        simp [hfound, CallWindow.hit]
  have hrun : attempts guard ip requests + admitted u32Size limiter.maxPerWindow.toNat 0 =
      refusals guard ip requests +
        admitted u32Size limiter.maxPerWindow.toNat (0 + counted guard ip requests) := by
    obtain hnone | ⟨w, hsome, hover⟩ := htracks
    · exact attempts_add hlimiter hnone (by simp [CallWindow.Counts]) hbefore hwindow
    · exact attempts_add hlimiter hsome (by simp [CallWindow.Counts, hover]) hbefore hwindow
  rw [Nat.zero_add] at hrun
  exact hrun

/-- The requests of a client in one window of its limiter: they stay within the budget if
and only if none of them is refused for its token and the 32-bit count does not wrap, or
they are no more than the budget anyway. -/
theorem guard_budget_iff (hlimiter : guard.rateLimiter = some limiter)
    (hnew : ∀ hit ∈ limiter.hits.find? ip, hit.isOver start = true)
    (hordered : (requests.map (·.2)).Pairwise (· ≤ ·))
    (hwindow : ∀ now ∈ requests.map (·.2), start ≤ now ∧ now ≤ start + rateLimitWindow) :
    WithinBudget guard limiter.maxPerWindow ip requests ↔
      (∀ r ∈ requests, concerns guard.trustedProxies ip r.1 = true →
          refused guard.token r.1 = false) ∧ concerning guard ip requests < 2 ^ 32 ∨
        concerning guard ip requests ≤ limiter.maxPerWindow.toNat := by
  have hfits : limiter.maxPerWindow.toNat < u32Size := limiter.maxPerWindow.toNat_lt
  have hattempts := attempts_eq hlimiter hnew hordered hwindow
  have hbudget : attempts guard ip requests ≤ limiter.maxPerWindow.toNat ↔
      refusals guard ip requests = 0 ∧ counted guard ip requests < u32Size ∨
        concerning guard ip requests ≤ limiter.maxPerWindow.toNat := by
    rw [hattempts, concerning_eq]
    exact budget_iff hfits
  have hcount : concerning guard ip requests =
      refusals guard ip requests + counted guard ip requests := concerning_eq
  rw [← refusals_eq_zero_iff]
  constructor
  · intro h
    refine (hbudget.mp h.1).imp_left fun ⟨hzero, hlt⟩ => ⟨hzero, ?_⟩
    rw [hcount, hzero, Nat.zero_add]
    exact hlt
  · intro h
    have hholds : attempts guard ip requests ≤ limiter.maxPerWindow.toNat := by
      refine hbudget.mpr (h.imp_left fun ⟨hzero, hlt⟩ => ⟨hzero, ?_⟩)
      rw [hcount, hzero, Nat.zero_add] at hlt
      exact hlt
    refine ⟨hholds, fun right hright hzero => ?_⟩
    have hall : counted guard ip right = concerning guard ip requests := by
      rw [← hright.concerning, concerning_eq, hzero, Nat.zero_add]
    have hbest : attempts guard ip right = _ := attempts_eq hlimiter hnew
      (by rw [hright.instants]; exact hordered) (by rw [hright.instants]; exact hwindow)
    rw [hzero, Nat.zero_add, hall] at hbest
    rw [hbest]
    obtain ⟨hnone, _⟩ | hfew := h
    · rw [hattempts, hcount, hnone, Nat.zero_add, Nat.zero_add]
    · rw [admitted_of_lt (Nat.lt_of_le_of_lt hfew hfits), Nat.min_eq_left hfew]
      have hle : admitted u32Size limiter.maxPerWindow.toNat (counted guard ip requests) ≤
          counted guard ip requests := Nat.count_le _
      omega

end

/-- A request without a token, from one peer. -/
def anonymous (path : String) : GuardedRequest := ⟨.v4 1, path, none, none⟩

/-- A few readiness checks, and a request that is refused. -/
theorem guard_budget_few :
    @WithinBudget .visibleAscii (.new (some "secret") (some 1)) 60 (.v4 1)
      [(anonymous "/ready", 0), (anonymous "/v1/chains", 5)] := by
  have hlimiter : (GuardConfig.new (some "secret") (some 1)).rateLimiter =
      some (RateLimiter.new 60) := rfl
  have hnew : ∀ hit ∈ (RateLimiter.new 60).hits.find? (.v4 1), hit.isOver 0 = true := by decide
  exact (@guard_budget_iff .visibleAscii _ _ _ _ _ hlimiter hnew (by decide) (by decide)).mpr
    (.inr (by decide))

/-- A budget of 60, and 61 requests without the token at one instant. -/
theorem guard_budget_exceeded :
    ¬ ∀ (guard : GuardConfig) (limiter : RateLimiter) (ip : IpAddr) (start : Nat)
        (requests : List (GuardedRequest × Nat)), guard.rateLimiter = some limiter →
      (∀ hit ∈ limiter.hits.find? ip, hit.isOver start = true) →
      (requests.map (·.2)).Pairwise (· ≤ ·) →
      (∀ now ∈ requests.map (·.2), start ≤ now ∧ now ≤ start + rateLimitWindow) →
        @WithinBudget .visibleAscii guard limiter.maxPerWindow ip requests := by
  intro h
  have hbudget := (h (.new (some "secret") (some 1)) (.new 60) (.v4 1) 0
    (List.replicate 61 (anonymous "/v1/chains", 0)) rfl (by decide) (by decide) (by decide)).1
  revert hbudget
  decide

end Retracer
