import KisAutotrader.Acknowledged
import KisAutotrader.Interleaving
import KisAutotrader.Text

/-!
# The command bot

One task asks Telegram for updates and handles them in turn. The server keeps each
update until a request asks for what lies after it, and answers with the earliest ones.
-/
namespace KisAutotrader.TelegramBot
open Acknowledged Interleaving Text

/-- A message as `_handle_update` reads it: absent fields are empty. -/
structure Message where
  chatId : String
  text : String
  deriving DecidableEq, Repr

/-- An update; where its message is of another shape, reading it raises. -/
structure Update where
  updateId : ℕ
  message : Option Message
  deriving DecidableEq, Repr

/-- `getUpdates` returns at most a hundred updates. -/
def limit : ℕ := 100

/-- The bot's settings, and the commands registered. -/
structure Config where
  enabled : Bool
  token : String
  chatId : String
  commands : List String

/-- What an update asks for. -/
inductive Request
  | malformed
  | ignored
  | unknown (chatId command : String)
  | run (chatId command args : String)
  deriving DecidableEq, Repr

/-- `parts[0].lstrip("/").split("@")[0]` -/
def commandOf (part : List Char) : List Char := (part.dropWhile (· == '/')).takeWhile (· != '@')

/-- `text.split(maxsplit=1)` of a text that starts with a character that is no space. -/
def splitText (text : List Char) : List Char × List Char :=
  (text.takeWhile (!isSpace ·), (text.dropWhile (!isSpace ·)).dropWhile isSpace)

/-- What `_handle_update` reads from an update. -/
def request (config : Config) (update : Update) : Request :=
  match update.message with
  | none => .malformed
  | some message =>
    let text := stripChars message.text.toList
    if message.chatId ≠ config.chatId then .ignored
    else if text.head? ≠ some '/' then .ignored
    else
      let parts := splitText text
      let command := String.ofList (commandOf parts.1)
      if command ∈ config.commands then .run message.chatId command (String.ofList parts.2)
      else .unknown message.chatId command

/-- The chat that is answered. -/
def Request.chat : Request → Option String
  | .unknown chatId _ => some chatId
  | .run chatId _ _ => some chatId
  | _ => none

/-- The answer to a command that is not registered. -/
def unknownReply (config : Config) (command : String) : String :=
  "알 수 없는 명령: /" ++ command ++ "\n사용 가능: /" ++ ", /".intercalate config.commands

/-- The answer where a handler raises: a hundred characters of its error. -/
def failedReply (error : String) : String :=
  "명령 처리 실패: " ++ String.ofList (error.toList.take 100)

/-- Where the task waits. -/
inductive Phase
  | stopped
  | flushing
  | polling
  | handling (batch : List Update)
  | running (update : Update) (chatId : String) (batch : List Update)
  | replying (update : Update) (chatId text : String) (batch : List Update)
  | sleeping
  deriving DecidableEq, Repr

/-- The server, the bot, and what the bot has done. -/
structure State where
  lastId : ℕ
  pending : List Update
  offset : ℕ
  phase : Phase
  dispatched : List (ℕ × String × String)
  replies : List (ℕ × String × String)
  deriving DecidableEq, Repr

def initial : State := ⟨0, [], 0, .stopped, [], []⟩

/-- What happens next: on the server, in the answer to a request, in a handler, or to the process. -/
inductive Event
  | post (update : Update)
  | expire (updateId : ℕ)
  | start
  | answered
  | refused (seen : Bool)
  | raised (seen : Bool)
  | handle
  | returned (text : String)
  | failed (error : String)
  | replied
  | woken
  | cancel
  | crash
  deriving DecidableEq, Repr

/-- A request confirms what lies before its offset. -/
def State.confirm (s : State) : State := { s with pending := since Update.updateId s.offset s.pending }

/-- The updates a request returns. -/
def State.batch (s : State) : List Update := (since Update.updateId s.offset s.pending).take limit

/-- `max(u.get("update_id", 0) for u in updates) + 1` -/
def nextOffset (updates : List Update) : ℕ :=
  (updates.map Update.updateId).foldl max 0 + 1

/-- `_handle_update` up to where it waits. -/
def State.handle (config : Config) (s : State) (update : Update) (rest : List Update) : State :=
  let s := { s with offset := max s.offset (update.updateId + 1) }
  match request config update with
  | .malformed => { s with phase := .sleeping }
  | .ignored => { s with phase := .handling rest }
  | .unknown chatId command =>
    { s with phase := .replying update chatId (unknownReply config command) rest }
  | .run chatId command args =>
    { s with
      phase := .running update chatId rest
      dispatched := s.dispatched ++ [(update.updateId, command, args)] }

/-- One step; what cannot happen now changes nothing. -/
def step (config : Config) (s : State) : Event → State
  | .post update => { s with lastId := update.updateId, pending := s.pending ++ [update] }
  | .expire updateId => { s with pending := s.pending.filter (·.updateId ≠ updateId) }
  | .start =>
    match s.phase with
    | .stopped => if config.enabled ∧ config.token ≠ "" then { s with phase := .flushing } else s
    | _ => s
  | .answered =>
    match s.phase with
    | .flushing =>
      { s.confirm with
        phase := .polling
        offset := if s.batch = [] then s.offset else nextOffset s.batch }
    | .polling => { s.confirm with phase := .handling s.batch }
    | _ => s
  | .refused seen =>
    match s.phase with
    | .flushing => { (if seen then s.confirm else s) with phase := .polling }
    | .polling => if seen then s.confirm else s
    | _ => s
  | .raised seen =>
    match s.phase with
    | .flushing => { (if seen then s.confirm else s) with phase := .polling }
    | .polling => { (if seen then s.confirm else s) with phase := .sleeping }
    | _ => s
  | .handle =>
    match s.phase with
    | .handling [] => { s with phase := .polling }
    | .handling (update::rest) => s.handle config update rest
    | _ => s
  | .returned text =>
    match s.phase with
    | .running update chatId rest => { s with phase := .replying update chatId text rest }
    | _ => s
  | .failed error =>
    match s.phase with
    | .running update chatId rest =>
      { s with phase := .replying update chatId (failedReply error) rest }
    | _ => s
  | .replied =>
    match s.phase with
    | .replying update chatId text rest =>
      { s with phase := .handling rest, replies := s.replies ++ [(update.updateId, chatId, text)] }
    | _ => s
  | .woken =>
    match s.phase with
    | .sleeping => { s with phase := .polling }
    | _ => s
  | .cancel => { s with phase := .stopped }
  | .crash => { s with phase := .stopped, offset := 0 }

def Event.posted : Event → Option Update
  | .post update => some update
  | _ => none

/-- The request gets no answer that is read. -/
def Event.unanswered : Event → Bool
  | .refused _ => true
  | .raised _ => true
  | _ => false

/-- The process goes on, and the server keeps what is not confirmed. -/
def Event.sameProcess : Event → Bool
  | .expire _ => false
  | .start => false
  | .cancel => false
  | .crash => false
  | _ => true

/-- The server numbers its updates upwards. -/
def Numbered (s : State) (e : Event) : Prop := ∀ update ∈ e.posted, s.lastId < update.updateId

/-- The request that skips the old updates is answered. -/
def FlushAnswered (s : State) (e : Event) : Prop := e.unanswered = true → s.phase ≠ .flushing

instance (s : State) (e : Event) : Decidable (Numbered s e) :=
  inferInstanceAs (Decidable (∀ update ∈ e.posted, _))

instance (s : State) (e : Event) : Decidable (FlushAnswered s e) :=
  inferInstanceAs (Decidable (_ → _))

/-- The updates of the batch that wait to be handled. -/
def Phase.rest : Phase → List Update
  | .handling batch => batch
  | .running _ _ batch => batch
  | .replying _ _ _ batch => batch
  | _ => []

/-- The task asks for updates on its own account, or handles them. -/
def Phase.polls : Phase → Bool
  | .stopped => false
  | .flushing => false
  | _ => true

theorem foldl_max_le {ids : List ℕ} {a n : ℕ} :
    ids.foldl max a ≤ n ↔ a ≤ n ∧ ∀ i ∈ ids, i ≤ n := by
  induction ids generalizing a with
  | nil => simp
  | cons i ids ih =>
    rw [List.foldl_cons, ih, List.forall_mem_cons, Nat.max_le, and_assoc]

theorem nextOffset_le {updates : List Update} {n : ℕ} :
    nextOffset updates ≤ n + 1 ↔ ∀ update ∈ updates, update.updateId ≤ n := by
  have hmax : (updates.map Update.updateId).foldl max 0 ≤ n ↔ 0 ≤ n ∧ ∀ i ∈ updates.map Update.updateId, i ≤ n :=
    foldl_max_le
  simp only [nextOffset]
  rw [Nat.add_le_add_iff_right, hmax]
  simp

/-- Skipping the old updates skips each of the batch. -/
theorem lt_nextOffset {updates : List Update} {update : Update} (h : update ∈ updates) :
    update.updateId < nextOffset updates := by
  have hle : update.updateId ≤ (updates.map Update.updateId).foldl max 0 :=
    nextOffset_le.mp (le_refl (nextOffset updates)) update h
  exact Nat.lt_succ_of_le hle

/-- Only the configured chat is answered. -/
theorem request_own (config : Config) (update : Update) :
    ∀ chatId ∈ (request config update).chat, chatId = config.chatId := by
  intro chatId hchat
  unfold request at hchat
  split at hchat
  next => simp [Request.chat] at hchat
  next message _ =>
    by_cases hown : message.chatId = config.chatId
    · by_cases hslash : (stripChars message.text.toList).head? = some '/'
      · by_cases hknown :
          String.ofList (commandOf (splitText (stripChars message.text.toList)).1) ∈ config.commands
        all_goals
          simp only [hown, hslash, hknown, Request.chat, ne_eq, not_true_eq_false, if_true, if_false,
            Option.mem_some_iff] at hchat
          exact hchat.symm
      · simp [hown, hslash, Request.chat] at hchat
    · simp [hown, Request.chat] at hchat

end KisAutotrader.TelegramBot
