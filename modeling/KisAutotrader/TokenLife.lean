import Mathlib.Tactic.Linarith
import KisAutotrader.History
import KisAutotrader.AuthToken

/-!
# The life of an access token

Every call of `get_access_token` either returns a token that is still valid or
raises, and a failed attempt keeps the next one away for a minute.
-/
namespace KisAutotrader.AuthToken.TokenLife
open Coroutine History

/-- No request follows a failed attempt within a minute of its beginning. -/
def MinuteApart (before : List Entry) (entry : Entry) : Prop :=
  ∀ time, entry = .sent time → ∀ began, .failed began ∈ before → began + refreshRetryInterval ≤ time

/-- The record so far, and the throttle against the failed attempts in it. -/
structure Throttled (w : World) : Prop where
  apart : EachAfter MinuteApart w.log
  covered : ∀ began, .failed began ∈ w.log → began + refreshRetryInterval ≤ w.clock ∨
    ∃ r ∈ w.auth.refreshRetryAfter, began + refreshRetryInterval ≤ r

/-- Every failed attempt lies a minute back. -/
structure Rested (w : World) : Prop where
  apart : EachAfter MinuteApart w.log
  past : ∀ began, .failed began ∈ w.log → began + refreshRetryInterval ≤ w.clock

theorem Throttled.elapse {w : World} (h : Throttled w) (now : ℚ) : Throttled (w.elapse now) := by
  refine ⟨h.apart, fun began hb => ?_⟩
  obtain hpast | hcovered := h.covered began hb
  · exact Or.inl (hpast.trans (le_max_left _ _))
  · exact Or.inr hcovered

theorem Rested.elapse {w : World} (h : Rested w) (now : ℚ) : Rested (w.elapse now) :=
  ⟨h.apart, fun began hb => (h.past began hb).trans (le_max_left _ _)⟩

theorem Rested.onAuth {w : World} (h : Rested w) (f : KISAuth → KISAuth) : Rested (w.onAuth f) :=
  ⟨h.apart, h.past⟩

theorem Rested.sent {w : World} (h : Rested w) : Rested (w.note (.sent w.clock)) := by
  refine ⟨EachAfter.snoc h.apart ?_, fun began hb => ?_⟩
  · intro time htime began hb
    obtain rfl := Entry.sent.inj htime
    exact h.past began hb
  · obtain hb | hb := List.mem_append.mp hb
    · exact h.past began hb
    · simp at hb

theorem Rested.issued {w : World} (h : Rested w) : Throttled (w.note .issued) := by
  refine ⟨EachAfter.snoc h.apart ?_, fun began hb => ?_⟩
  · intro time htime
    cases htime
  · obtain hb | hb := List.mem_append.mp hb
    · exact Or.inl (h.past began hb)
    · simp at hb

/-- The throttle is set to a minute after the beginning of the failed attempt. -/
theorem Rested.failed {w : World} {now : ℚ} (h : Rested w) :
    Throttled ((w.onAuth (setRetryAfter (some (now + refreshRetryInterval)))).note (.failed now)) := by
  refine ⟨EachAfter.snoc h.apart ?_, fun began hb => ?_⟩
  · intro time htime
    cases htime
  · obtain hb | hb := List.mem_append.mp hb
    · exact Or.inl (h.past began hb)
    · obtain rfl := Entry.failed.inj (List.mem_singleton.mp hb)
      exact Or.inr ⟨_, rfl, le_rfl⟩

/-- An attempt that the throttle lets pass finds every failure a minute back. -/
theorem Throttled.rested {w : World} (h : Throttled w)
    (hpass : w.auth.refreshRetryAfter.any (w.clock < ·) = false) : Rested w := by
  refine ⟨h.apart, fun began hb => ?_⟩
  obtain hpast | ⟨r, hr, hcovered⟩ := h.covered began hb
  · exact hpast
  · rw [hr] at hpass
    have hlate : r ≤ w.clock := by simpa using hpass
    exact hcovered.trans hlate

/-- Time has passed and something may have been recorded; without an issuance a token stays
the one there was. -/
structure Since (w v : World) : Prop where
  clock : w.clock ≤ v.clock
  kept : ∃ new, v.log = w.log ++ new ∧
    (.issued ∉ new → ∀ info ∈ w.auth.tokenInfo, v.auth.tokenInfo = some info)

theorem Since.refl (w : World) : Since w w := ⟨le_rfl, [], by simp, fun _ _ hinfo => hinfo⟩

theorem Since.elapse {w v : World} (h : Since w v) (now : ℚ) : Since w (v.elapse now) :=
  ⟨h.clock.trans (le_max_left _ _), h.kept⟩

theorem Since.trans {u v w : World} (huv : Since u v) (hvw : Since v w) : Since u w := by
  obtain ⟨new, hnew, hkept⟩ := huv.kept
  obtain ⟨more, hmore, hkept'⟩ := hvw.kept
  refine ⟨huv.clock.trans hvw.clock, new ++ more, by rw [hmore, hnew, List.append_assoc], ?_⟩
  intro hnone info hinfo
  have hmid : v.auth.tokenInfo = some info :=
    hkept (fun hissued => hnone (List.mem_append_left _ hissued)) info hinfo
  exact hkept' (fun hissued => hnone (List.mem_append_right _ hissued)) info hmid

/-- The end of `_issue_token`: what it has recorded so far, and a failure leaves the token. -/
structure Attempted (w : World) (result : Except AuthError Unit) (v : World) : Prop where
  rested : Rested v
  clock : w.clock ≤ v.clock
  grown : ∃ new, v.log = w.log ++ new
  failed : ∀ e, result = .error e → v.auth.tokenInfo = w.auth.tokenInfo

theorem Attempted.elapse {w v : World} {result : Except AuthError Unit}
    (h : Attempted w result v) (now : ℚ) : Attempted w result (v.elapse now) :=
  ⟨h.rested.elapse now, h.clock.trans (le_max_left _ _), h.grown, h.failed⟩

theorem Attempted.sent {w v : World} {result : Except AuthError Unit}
    (h : Attempted w result v) : Attempted w result (v.note (.sent v.clock)) := by
  obtain ⟨new, hnew⟩ := h.grown
  have hgrown : (v.note (.sent v.clock)).log = w.log ++ (new ++ [.sent v.clock]) := by
    simp [World.note, hnew]
  exact ⟨h.rested.sent, h.clock, ⟨_, hgrown⟩, h.failed⟩

theorem Attempted.setToken {w v : World} {result : Except AuthError Unit}
    (h : Attempted w result v) (info : TokenInfo) :
    Attempted w (.ok ()) (v.onAuth (AuthToken.setToken info)) :=
  ⟨h.rested.onAuth _, h.clock, h.grown, by simp⟩

theorem Rested.attempted {w : World} (h : Rested w) (result : Except AuthError Unit) :
    Attempted w result w :=
  ⟨h, le_rfl, ⟨[], by simp⟩, fun _ _ => rfl⟩

section Rules
variable {w v : World}

/-- No condition on the environment, no guarantee at its calls. -/
def Ends {α : Type} (p : AuthM α) (Q : α → World → Prop) (w : World) : Prop :=
  wp serve (fun _ _ _ => True) (fun _ _ => True) p Q w

theorem ends_bind {α β : Type} (p : AuthM α) (g : α → AuthM β) (Q : β → World → Prop) :
    Ends (p >>= g) Q w ↔ Ends p (fun a => Ends (g a) Q) w := wp_bind p g Q w

theorem ends_get (Q : World → World → Prop) : Ends get Q w ↔ Q w w := Iff.rfl

theorem datetimeNow_rule {Q : ℚ → World → Prop}
    (h : ∀ now, Q (w.elapse now).clock (w.elapse now)) : Ends datetimeNow Q w :=
  ⟨trivial, fun reply _ => h reply.now⟩

theorem loadFromCache_rule {Q : Option TokenInfo → World → Prop}
    (h : ∀ now cached, Q cached (w.elapse now)) : Ends loadFromCache Q w :=
  ⟨trivial, fun reply _ => h reply.now reply.cached⟩

theorem postToken_rule {Q : Except AuthError TokenResponse → World → Prop}
    (h : ∀ now response, Q response ((w.note (.sent w.clock)).elapse now)) : Ends postToken Q w :=
  ⟨trivial, fun reply _ => h reply.now reply.response⟩

theorem saveToCache_rule {Q : Unit → World → Prop} (h : ∀ now, Q () (w.elapse now)) :
    Ends saveToCache Q w :=
  ⟨trivial, fun reply _ => h reply.now⟩

theorem isExpired_rule (info : TokenInfo) {Q : Except AuthError Bool → World → Prop}
    (hspent : ∀ now result, (∀ e ∈ info.expiresAt, e ≤ (w.elapse now).clock) →
      result ≠ .ok false → Q result (w.elapse now))
    (hvalid : ∀ now, (∃ e ∈ info.expiresAt, (w.elapse now).clock < e) →
      Q (.ok false) (w.elapse now)) : Ends info.isExpired Q w := by
  rw [TokenInfo.isExpired, ends_bind]
  apply datetimeNow_rule
  intro now
  cases hexp : info.expiresAt with
  | none => exact hspent now (.error .other) (by simp [hexp]) (by simp)
  | some e =>
    by_cases hlate : e ≤ (w.elapse now).clock
    · have htrue : decide ((w.elapse now).clock ≥ e) = true := decide_eq_true hlate
      simp only [htrue]
      exact hspent now (.ok true) (by simpa [hexp] using hlate) (by simp)
    · have hfalse : decide ((w.elapse now).clock ≥ e) = false := decide_eq_false hlate
      simp only [hfalse]
      exact hvalid now ⟨e, hexp, not_le.mp hlate⟩

theorem shouldRefresh_rule (info : TokenInfo) {Q : Except AuthError Bool → World → Prop}
    (hanswer : ∀ now b, Q (.ok b) (w.elapse now))
    (hraise : ∀ now, info.expiresAt = none → Q (.error .other) (w.elapse now)) :
    Ends info.shouldRefresh Q w := by
  rw [TokenInfo.shouldRefresh, ends_bind]
  apply datetimeNow_rule
  intro now
  cases hexp : info.expiresAt with
  | none => exact hraise now hexp
  | some e => exact hanswer now _

theorem parseExpires_rule (expires : Option ℚ) {Q : ℚ → World → Prop}
    (hhere : ∀ e, Q e w) (hlater : ∀ now e, Q e (w.elapse now)) :
    Ends (parseExpires expires) Q w := by
  cases expires with
  | some e => exact hhere e
  | none =>
    rw [parseExpires.eq_2, ends_bind]
    apply datetimeNow_rule
    intro now
    exact hlater now _

theorem requestToken_rule (h : Attempted w (.error .other) v) :
    Ends requestToken (Attempted w) v := by
  rw [requestToken, ends_bind]
  apply postToken_rule
  intro now response
  have hsent := h.sent.elapse now
  have hfail : ∀ e, Attempted w (.error e) ((v.note (.sent v.clock)).elapse now) :=
    fun e => ⟨hsent.rested, hsent.clock, hsent.grown, fun _ _ => hsent.failed _ rfl⟩
  cases response with
  | error e => exact hfail e
  | ok response =>
    dsimp only
    split
    · exact hfail _
    · have hsaved : ∀ u, Attempted w (.error .other) u → ∀ e : ℚ, Ends (do
          modify (World.onAuth (setToken ⟨response.accessToken, some e⟩))
          saveToCache
          pure (.ok ())) (Attempted w) u := by
        intro u hu e
        rw [ends_bind]
        show Ends (saveToCache >>= fun _ => pure (.ok ())) (Attempted w) _
        rw [ends_bind]
        apply saveToCache_rule
        intro now
        exact (hu.setToken _).elapse now
      rw [ends_bind]
      apply parseExpires_rule
      · intro e
        exact hsaved _ hsent e
      · intro now e
        exact hsaved _ (hsent.elapse now) e

theorem issueToken_rule (h : Rested w) : Ends issueToken (Attempted w) w := by
  have hstart : Attempted w (.error .other) w := h.attempted _
  rw [issueToken, ends_bind]
  apply loadFromCache_rule
  intro now cached
  have hloaded := hstart.elapse now
  cases cached with
  | none => exact requestToken_rule hloaded
  | some cached =>
    dsimp only
    rw [ends_bind]
    apply shouldRefresh_rule
    · intro now' b
      cases b with
      | true => exact requestToken_rule (hloaded.elapse now')
      | false => exact (hloaded.elapse now').setToken cached
    · intro now' _
      exact hloaded.elapse now'

/-- The token, if there is one, is past its expiry or has none to compare. -/
def Spent (w : World) : Prop := ∀ info ∈ w.auth.tokenInfo, ∀ e ∈ info.expiresAt, e ≤ w.clock

/-- The token is the one that stands in memory and is not past its expiry. -/
def Current (token : String) (w : World) : Prop :=
  ∃ info ∈ w.auth.tokenInfo, info.accessToken = token ∧ ∃ e ∈ info.expiresAt, w.clock < e

/-- The expiry check on the token in memory. -/
theorem isExpired_memory_rule {info : TokenInfo} (hinfo : v.auth.tokenInfo = some info)
    {Q : Except AuthError Bool → World → Prop}
    (hspent : ∀ now result, Spent (v.elapse now) → result ≠ .ok false → Q result (v.elapse now))
    (hvalid : ∀ now, Current info.accessToken (v.elapse now) → Q (.ok false) (v.elapse now)) :
    Ends info.isExpired Q v := by
  apply isExpired_rule
  · intro now result hlate hresult
    refine hspent now result (fun other hother => ?_) hresult
    obtain rfl := Option.some.inj (hinfo.symm.trans hother)
    exact hlate
  · intro now hearly
    exact hvalid now ⟨info, hinfo, rfl, hearly⟩

theorem Throttled.ofAuth (h : Throttled w) {f : KISAuth → KISAuth}
    (hf : ∀ a, (f a).refreshRetryAfter = a.refreshRetryAfter) : Throttled (w.onAuth f) := by
  refine ⟨h.apart, fun began hb => ?_⟩
  obtain hpast | ⟨r, hr, hcovered⟩ := h.covered began hb
  · exact Or.inl hpast
  · exact Or.inr ⟨r, (hf w.auth).trans hr, hcovered⟩

/-- The state a call has reached from `w`. -/
structure Reached (w v : World) : Prop where
  throttled : Throttled v
  since : Since w v

theorem Reached.elapse (h : Reached w v) (now : ℚ) : Reached w (v.elapse now) :=
  ⟨h.throttled.elapse now, h.since.elapse now⟩

theorem fallBack_rule (h : Reached w v) (error : AuthError) :
    Ends (fallBack error) (fun result u => Reached w u ∧ (result ≠ .ok () → Spent u)) v := by
  rw [fallBack, ends_bind, ends_get]
  cases hinfo : v.auth.tokenInfo with
  | none => exact ⟨h, fun _ info hsome => by simp [hinfo] at hsome⟩
  | some info =>
    dsimp only
    rw [ends_bind]
    apply isExpired_memory_rule hinfo
    · intro now result hdone hresult
      match result with
      | .error _ => exact ⟨h.elapse now, fun _ => hdone⟩
      | .ok true => exact ⟨h.elapse now, fun _ => hdone⟩
      | .ok false => exact absurd rfl hresult
    · intro now _
      exact ⟨h.elapse now, fun hne => absurd rfl hne⟩

theorem refreshToken_rule (h : Reached w v) :
    Ends refreshToken (fun result u => Reached w u ∧ (result ≠ .ok () → Spent u)) v := by
  rw [refreshToken, ends_bind]
  apply datetimeNow_rule
  intro now
  have hhere := h.elapse now
  rw [ends_bind, ends_get]
  split
  · exact ⟨hhere, fun hne => absurd rfl hne⟩
  · rename_i hpass
    have hrested : Rested (v.elapse now) :=
      hhere.throttled.rested (by simpa using hpass)
    rw [ends_bind]
    refine wp_mono (issueToken_rule hrested) fun result u hu => ?_
    obtain ⟨new, hnew⟩ := hu.grown
    cases result with
    | ok _ =>
      have hissued : (u.onAuth (setRetryAfter none)).log ++ [.issued] =
          (v.elapse now).log ++ (new ++ [.issued]) := by
        simp [World.onAuth, hnew]
      refine ⟨⟨(hu.rested.onAuth _).issued, hhere.since.trans ⟨hu.clock, _, hissued, ?_⟩⟩, ?_⟩
      · intro hnone
        simp at hnone
      · intro hne
        exact absurd rfl hne
    | error e =>
      have hfailed : (u.onAuth (setRetryAfter (some ((v.elapse now).clock +
          refreshRetryInterval)))).log ++ [.failed (v.elapse now).clock] =
          (v.elapse now).log ++ (new ++ [.failed (v.elapse now).clock]) := by
        simp [World.onAuth, hnew]
      refine fallBack_rule ⟨hu.rested.failed, hhere.since.trans ⟨hu.clock, _, hfailed, ?_⟩⟩ e
      intro _ info hinfo
      exact (hu.failed e rfl).trans hinfo

theorem loadIfNone_rule (h : Throttled w) : Ends loadIfNone (fun _ v => Reached w v) w := by
  rw [loadIfNone, ends_bind, ends_get]
  cases hinfo : w.auth.tokenInfo with
  | some info => exact ⟨h, Since.refl w⟩
  | none =>
    dsimp only
    rw [ends_bind]
    apply loadFromCache_rule
    intro now cached
    have hlog : (w.elapse now).log = w.log ++ [] := by simp [World.elapse]
    refine ⟨(h.elapse now).ofAuth fun _ => rfl, ((Since.refl w).elapse now).clock, [], hlog, ?_⟩
    intro _ info hsome
    simp [hinfo] at hsome

theorem needsRefresh_rule (h : Reached w v) :
    Ends needsRefresh (fun result u => Reached w u ∧ (∀ e, result = .error e → Spent u)) v := by
  rw [needsRefresh, ends_bind, ends_get]
  cases hinfo : v.auth.tokenInfo with
  | none => exact ⟨h, by simp⟩
  | some info =>
    apply shouldRefresh_rule
    · intro now b
      exact ⟨h.elapse now, by simp⟩
    · intro now hnone
      refine ⟨h.elapse now, fun _ _ other hother e he => ?_⟩
      obtain rfl := Option.some.inj (hinfo.symm.trans hother)
      simp [hnone] at he

/-- How a call ends: with the token in memory while it is valid, with an error only when there is
none. -/
def Ended (w : World) (result : Except AuthError String) (v : World) : Prop :=
  Reached w v ∧ (∀ token, result = .ok token → Current token v) ∧
    (∀ e, result = .error e → Spent v)

theorem useToken_rule (h : Reached w v) : Ends useToken (Ended w) v := by
  rw [useToken, ends_bind, ends_get]
  cases hinfo : v.auth.tokenInfo with
  | none => exact ⟨h, by simp, fun _ _ info hsome => by simp [hinfo] at hsome⟩
  | some info =>
    dsimp only
    rw [ends_bind]
    apply isExpired_memory_rule hinfo
    · intro now result hdone hresult
      match result with
      | .error _ => exact ⟨h.elapse now, by simp, fun _ _ => hdone⟩
      | .ok true => exact ⟨h.elapse now, by simp, fun _ _ => hdone⟩
      | .ok false => exact absurd rfl hresult
    · intro now hvalid
      refine ⟨h.elapse now, fun token htoken => ?_, by simp⟩
      obtain rfl := Except.ok.inj htoken
      exact hvalid

theorem getAccessToken_rule (h : Throttled w) : Ends getAccessToken (Ended w) w := by
  rw [getAccessToken, ends_bind]
  refine wp_mono (loadIfNone_rule h) fun _ v hv => ?_
  rw [ends_bind]
  refine wp_mono (needsRefresh_rule hv) fun needed u hu => ?_
  obtain ⟨hreached, hspent⟩ := hu
  match needed with
  | .error e => exact ⟨hreached, by simp, fun _ _ => hspent e rfl⟩
  | .ok false => exact useToken_rule hreached
  | .ok true =>
    dsimp only
    rw [ends_bind]
    refine wp_mono (refreshToken_rule hreached) fun refreshed x hx => ?_
    cases refreshed with
    | error e => exact ⟨hx.1, by simp, fun _ _ => hx.2 (by simp)⟩
    | ok _ => exact useToken_rule hx.1

end Rules

theorem throttled_runCalls (calls : List (ℕ → Reply)) (now : ℚ) :
    Throttled (runCalls calls { clock := now }) := by
  have hstart : Throttled ({ clock := now } : World) := ⟨eachAfter_nil _, by simp⟩
  have hcall : ∀ (i : Unit) w, Throttled w →
      wp serve (fun _ _ _ => True) (fun _ _ => True)
        (do let _ ← getAccessToken; pure ()) (fun _ => Throttled) w := by
    intro _ w hw
    rw [wp_bind]
    exact wp_mono (getAccessToken_rule hw) fun _ v hv => hv.1.throttled
  exact (run_invariant hcall hstart (runMeets_true _ _)).2

end KisAutotrader.AuthToken.TokenLife
