import Mathlib.Data.List.Range
import KisAutotrader.HttpClient

/-!
# Orders are not transmitted twice

A request that is not idempotent repeats its transmission only after a 429
response, so at most its last transmission can have been accepted.
-/
namespace KisAutotrader.HttpClient.OrderTransmission
open Interleaving

/-- Every answer so far was a 429 response. -/
def AllTooMany (r : Request) : Prop := ∀ a ∈ r.answers, a.tooMany = true

/-- Every transmission but the last was answered by a 429 response. -/
def OnlyAfterTooMany (r : Request) : Prop :=
  ∀ k, k + 1 < r.sent → ∃ a, r.answers[k]? = some a ∧ a.tooMany = true

/-- The transmissions of a request, by the place it stands at in the retry loop. -/
def Transcript (r : Request) : Prop :=
  match r.phase with
  | .authorising | .hashing => r.sent = 0 ∧ r.answers = []
  | .acquiring k => k < maxRetries ∧ r.sent = k ∧ r.answers.length = k ∧
      (r.idempotent = false → AllTooMany r)
  | .transmitting k => k < maxRetries ∧ r.sent = k + 1 ∧ r.answers.length = k ∧
      (r.idempotent = false → AllTooMany r)
  | .backoff k _ => k < maxRetries ∧ r.sent = k + 1 ∧ r.answers.length = k + 1 ∧
      (r.idempotent = false → AllTooMany r)
  | .returned | .raised => r.sent ≤ maxRetries ∧ r.answers.length = r.sent ∧
      (r.idempotent = false → OnlyAfterTooMany r)

theorem AllTooMany.only {r : Request} (h : AllTooMany r) (hsent : r.sent ≤ r.answers.length + 1) :
    OnlyAfterTooMany r := by
  intro k hk
  have hlt : k < r.answers.length := by omega
  exact ⟨r.answers[k], List.getElem?_eq_getElem hlt, h _ (List.getElem_mem hlt)⟩

/-- The next attempt of the loop, after as many answers as it has had attempts. -/
theorem tryAttempt_transcript {r : Request} (k : ℕ) (hk : k ≤ maxRetries) (hsent : r.sent = k)
    (hlength : r.answers.length = k) (hmany : r.idempotent = false → AllTooMany r) :
    Transcript { r with phase := tryAttempt k } := by
  unfold tryAttempt
  by_cases hlt : k < maxRetries
  · rw [if_pos hlt]
    exact ⟨hlt, hsent, hlength, hmany⟩
  · rw [if_neg hlt]
    refine ⟨by simp only; omega, by simp only; omega, fun horder => ?_⟩
    exact AllTooMany.only (hmany horder) (by simp only; omega)

theorem AllTooMany.snoc {r : Request} {a : Answer} {phase : Phase} (h : AllTooMany r)
    (hmany : a.tooMany = true) : AllTooMany { r with phase, answers := r.answers ++ [a] } := by
  intro b hb
  obtain hb | hb := List.mem_append.mp hb
  · exact h b hb
  · obtain rfl := List.mem_singleton.mp hb
    exact hmany

/-- An answered transmission was the last one, or all before it were rejected. -/
theorem ended_transcript {r : Request} {k : ℕ} {a : Answer} {phase : Phase} (h : Transcript r)
    (hphase : r.phase = .transmitting k) (hend : phase = .returned ∨ phase = .raised) :
    Transcript { r with phase, answers := r.answers ++ [a] } := by
  simp only [Transcript, hphase] at h
  obtain ⟨hk, hsent, hlength, hmany⟩ := h
  have honly : r.idempotent = false →
      OnlyAfterTooMany { r with phase, answers := r.answers ++ [a] } := by
    intro horder j hj
    simp only at hj
    have hlt : j < r.answers.length := by omega
    refine ⟨r.answers[j], ?_, hmany horder _ (List.getElem_mem hlt)⟩
    rw [List.getElem?_append_left hlt, List.getElem?_eq_getElem hlt]
  have hlength' : (r.answers ++ [a]).length = r.sent := by
    rw [List.length_append, List.length_singleton]
    omega
  obtain rfl | rfl := hend
  · exact ⟨by simp only; omega, hlength', honly⟩
  · exact ⟨by simp only; omega, hlength', honly⟩

theorem raised_transcript {r : Request} (h : Transcript r) (hphase : ∀ k, r.phase ≠ .transmitting k) :
    Transcript { r with phase := .raised } := by
  unfold Transcript at h
  split at h
  next => exact ⟨by simp [h.1], by simp [h], fun _ k hk => by simp [h.1] at hk⟩
  next => exact ⟨by simp [h.1], by simp [h], fun _ k hk => by simp [h.1] at hk⟩
  next k _ =>
    obtain ⟨hk, hsent, hlength, hmany⟩ := h
    exact ⟨by simp only; omega, by simp only; omega,
      fun horder => AllTooMany.only (hmany horder) (by simp only; omega)⟩
  next k hcase => exact absurd hcase (hphase k)
  next k _ _ =>
    obtain ⟨hk, hsent, hlength, hmany⟩ := h
    exact ⟨by simp only; omega, by simp only; omega,
      fun horder => AllTooMany.only (hmany horder) (by simp only; omega)⟩
  next => exact h
  next => exact h

theorem new_transcript (idempotent useHashkey available : Bool) :
    Transcript (.new idempotent useHashkey available) := by
  cases available with
  | true => exact ⟨rfl, rfl⟩
  | false => exact ⟨Nat.zero_le _, rfl, fun _ k hk => absurd hk (Nat.not_lt_zero _)⟩

theorem Transcript.sent {r : Request} (h : Transcript r) (horder : r.idempotent = false) :
    r.sent ≤ maxRetries ∧ r.sent ≤ r.answers.length + 1 ∧ OnlyAfterTooMany r := by
  have hnone : r.sent = 0 → OnlyAfterTooMany r := fun hzero k hk => by omega
  unfold Transcript at h
  split at h
  next => exact ⟨by omega, by omega, hnone h.1⟩
  next => exact ⟨by omega, by omega, hnone h.1⟩
  next k _ =>
    obtain ⟨hk, hsent, hlength, hmany⟩ := h
    exact ⟨by omega, by omega, (hmany horder).only (by omega)⟩
  next k _ =>
    obtain ⟨hk, hsent, hlength, hmany⟩ := h
    exact ⟨by omega, by omega, (hmany horder).only (by omega)⟩
  next k _ _ =>
    obtain ⟨hk, hsent, hlength, hmany⟩ := h
    exact ⟨by omega, by omega, (hmany horder).only (by omega)⟩
  next => exact ⟨h.1, by omega, h.2.2 horder⟩
  next => exact ⟨h.1, by omega, h.2.2 horder⟩

def Transcribed (s : State) : Prop := ∀ r ∈ s.requests, Transcript r

theorem Transcribed.get {s : State} {i : ℕ} {r : Request} (h : Transcribed s)
    (hr : s.requests[i]? = some r) : Transcript r := h r (List.mem_of_getElem? hr)

theorem Transcribed.put {s : State} {i : ℕ} {r : Request} (h : Transcribed s) (hr : Transcript r) :
    Transcribed (s.put i r) := forall_set h hr

theorem Transcribed.proceed {s : State} (h : Transcribed s) (i : ℕ) : Transcribed (proceed i s) := by
  have hproceeded := proceed_proceeded i s
  generalize HttpClient.proceed i s = t at hproceeded ⊢
  cases hproceeded with
  | stay => exact h
  | authorised r hr hphase =>
    have hold := h.get hr
    simp only [Transcript, hphase] at hold
    refine h.put ?_
    split
    · exact hold
    · refine tryAttempt_transcript 0 (Nat.zero_le _) hold.1 (by simp [hold.2]) fun _ a ha => ?_
      simp [hold.2] at ha
  | hashed r hr hphase =>
    have hold := h.get hr
    simp only [Transcript, hphase] at hold
    refine h.put (tryAttempt_transcript 0 (Nat.zero_le _) hold.1 (by simp [hold.2]) fun _ a ha => ?_)
    simp [hold.2] at ha
  | transmits r k hr hphase =>
    have hold := h.get hr
    simp only [Transcript, hphase] at hold
    obtain ⟨hk, hsent, hlength, hmany⟩ := hold
    exact h.put ⟨hk, by simp only; omega, hlength, hmany⟩
  | retries r k wake hr hphase =>
    have hold := h.get hr
    simp only [Transcript, hphase] at hold
    obtain ⟨hk, hsent, hlength, hmany⟩ := hold
    exact h.put (tryAttempt_transcript (k + 1) hk hsent hlength hmany)

theorem Transcribed.answer {s : State} (h : Transcribed s) (i : ℕ) (a : Answer) :
    Transcribed (answer i a s) := by
  have hanswered := answer_answered i a s
  generalize HttpClient.answer i a s = t at hanswered ⊢
  cases hanswered with
  | stay => exact h
  | repeated r k wake hr hphase hmany =>
    have hold := h.get hr
    simp only [Transcript, hphase] at hold
    obtain ⟨hk, hsent, hlength, hall⟩ := hold
    exact h.put ⟨hk, hsent, by simp [hlength], fun horder => (hall horder).snoc hmany⟩
  | failed r k hr hphase _ _ =>
    exact forall_set h (ended_transcript (h.get hr) hphase (Or.inr rfl))
  | retried r k hr hphase _ hagain =>
    have hold := h.get hr
    simp only [Transcript, hphase] at hold
    obtain ⟨hk, hsent, hlength, hall⟩ := hold
    refine forall_set h ⟨hk, hsent, by simp [hlength], fun horder => ?_⟩
    -- only idempotent requests are repeated after a failure
    simp only at horder
    simp [Answer.final, horder] at hagain
  | succeeded r k phase hr hphase hend =>
    exact forall_set h (ended_transcript (h.get hr) hphase hend)
  | raised r k hr hphase =>
    exact h.put (ended_transcript (h.get hr) hphase (Or.inr rfl))

theorem transcribed_step (s : State) (e : Event) (h : Transcribed s) : Transcribed (step s e) := by
  cases e with
  | tick now => exact h
  | request idempotent useHashkey =>
    intro r hr
    obtain hr | hr := List.mem_append.mp hr
    · exact h r hr
    · obtain rfl := List.mem_singleton.mp hr
      exact new_transcript idempotent useHashkey _
  | proceed i => exact h.proceed i
  | fail i =>
    have hfailed := fail_failed i s
    simp only [step]
    generalize fail i s = t at hfailed ⊢
    cases hfailed with
    | stay => exact h
    | raised r hr hphase => exact h.put (raised_transcript (h.get hr) hphase)
  | answer i a => exact h.answer i a
  | checkOpen => exact h

/-- A request that is not idempotent transmits at most three times, each time but the first
directly after a 429 response; if those mean rejection, at most one transmission is accepted. -/
theorem orders_sent_once (threshold : ℕ) (timeout now : ℚ) (events : List Event) (r : Request)
    (hr : r ∈ (run step (.start threshold timeout now) events).requests)
    (horder : r.idempotent = false) :
    r.sent ≤ maxRetries ∧ r.sent ≤ r.answers.length + 1 ∧ OnlyAfterTooMany r ∧
    ∀ accepted : ℕ → Bool,
      (∀ k a, r.answers[k]? = some a → a.tooMany = true → accepted k = false) →
      (List.range r.sent).countP accepted ≤ 1 := by
  have hstart : Transcribed (State.start threshold timeout now) := by
    intro q hq
    simp [State.start] at hq
  have htranscript := invariant_always transcribed_step events hstart r hr
  have hsent := htranscript.sent horder
  refine ⟨hsent.1, hsent.2.1, hsent.2.2, fun accepted hrejected => ?_⟩
  by_cases hzero : r.sent = 0
  · simp [hzero]
  · obtain ⟨n, hn⟩ := Nat.exists_eq_succ_of_ne_zero hzero
    have hnone : (List.range n).countP accepted = 0 := by
      rw [List.countP_eq_zero]
      intro k hk
      have hlt := List.mem_range.mp hk
      obtain ⟨a, ha, hmany⟩ := hsent.2.2 k (by omega)
      simp [hrejected k a ha hmany]
    rw [hn, List.range_succ, List.countP_append, hnone]
    have hlast : [n].countP accepted ≤ [n].length := List.countP_le_length
    simpa using hlast

/-- An order that is answered by a 429 response and then accepted. -/
def repeatedOrder : List Event := [.request false true, .proceed 0, .proceed 0, .proceed 0,
  .answer 0 (.response 429 (some 1) true), .tick 101, .proceed 0, .proceed 0,
  .answer 0 (.response 200 none true)]

def repeatedRequest : Request :=
  { idempotent := false, useHashkey := true, phase := .returned, sent := 2,
    answers := [.response 429 (some 1) true, .response 200 none true] }

theorem orders_sent_once_repeated : repeatedRequest.sent ≤ maxRetries ∧
    repeatedRequest.sent ≤ repeatedRequest.answers.length + 1 ∧ OnlyAfterTooMany repeatedRequest ∧
    ∀ accepted : ℕ → Bool,
      (∀ k a, repeatedRequest.answers[k]? = some a → a.tooMany = true → accepted k = false) →
      (List.range repeatedRequest.sent).countP accepted ≤ 1 :=
  orders_sent_once 5 30 100 repeatedOrder repeatedRequest (by decide +kernel) rfl

end KisAutotrader.HttpClient.OrderTransmission
