import KisAutotrader.Scanning
import KisAutotrader.TelegramBot

/-!
# The text of a command

A message runs a command exactly where its text is the command behind slashes, with a bot's
name after it or not, and the arguments after white space.
-/
namespace KisAutotrader.TelegramBot.CommandText
open Scanning Text

/-- No white space at either end. -/
structure Trimmed (cs : List Char) : Prop where
  head : ∀ c ∈ cs.head?, isSpace c = false
  last : ∀ c ∈ cs.getLast?, isSpace c = false

def Blank (cs : List Char) : Prop := ∀ c ∈ cs, isSpace c = true

theorem blank_reverse {cs : List Char} (h : Blank cs) : Blank cs.reverse :=
  fun c hc => h c (List.mem_reverse.mp hc)

/-- Stripping finds the text between the white space at its ends. -/
theorem stripChars_iff {text core : List Char} :
    stripChars text = core ↔
      Trimmed core ∧ ∃ front back, text = front ++ core ++ back ∧ Blank front ∧ Blank back := by
  constructor
  · rintro rfl
    obtain ⟨front, rest, -, hrest, hfront, hblank, hhead⟩ := exists_scan isSpace text
    obtain ⟨back, core, -, hcore, hback, hblank', hlast⟩ := exists_scan isSpace rest.reverse
    have hstrip : stripChars text = core.reverse := by rw [stripChars, hrest, hcore]
    have hsplit : rest = core.reverse ++ back.reverse := by
      rw [← List.reverse_append, ← hback, List.reverse_reverse]
    rw [hstrip]
    refine ⟨⟨?_, ?_⟩, front, back.reverse, ?_, hblank, blank_reverse hblank'⟩
    · intro c hc
      apply hhead c
      rw [hsplit]
      exact List.mem_head?_append_of_mem_head? hc
    · intro c hc
      exact hlast c (by simpa using hc)
    · rw [List.append_assoc, ← hsplit]
      exact hfront
  · rintro ⟨htrim, front, back, rfl, hfront, hback⟩
    by_cases hnil : core = []
    · subst hnil
      have hall : Blank (front ++ [] ++ back) := by
        intro c hc
        simp only [List.append_nil, List.mem_append] at hc
        exact hc.elim (hfront c) (hback c)
      rw [stripChars, List.dropWhile_eq_nil_iff.mpr hall]
      rfl
    · have hfirst : (front ++ core ++ back).dropWhile isSpace = core ++ back := by
        refine (scan_iff.mpr ⟨List.append_assoc _ _ _, hfront, ?_⟩).2
        intro c hc
        rw [List.head?_append_of_ne_nil _ hnil] at hc
        exact htrim.head c hc
      have hsecond : (core ++ back).reverse.dropWhile isSpace = core.reverse := by
        refine (scan_iff.mpr ⟨List.reverse_append, blank_reverse hback, ?_⟩).2
        intro c hc
        exact htrim.last c (by simpa using hc)
      rw [stripChars, hfirst, hsecond, List.reverse_reverse]

/-- The pieces of a command's text, between the white space at its ends. -/
structure Pieces (slashes command mention gap args : List Char) : Prop where
  slashes : slashes ≠ [] ∧ ∀ c ∈ slashes, c = '/'
  command : (∀ c ∈ command, isSpace c = false ∧ c ≠ '@') ∧ command.head? ≠ some '/'
  mention : (∀ c ∈ mention, isSpace c = false) ∧ ∀ c ∈ mention.head?, c = '@'
  gap : Blank gap ∧ (gap = [] ↔ args = [])
  args : Trimmed args

/-- The text asks for the command with the arguments. -/
def Asks (command args text : List Char) : Prop :=
  ∃ front slashes mention gap back, Blank front ∧ Blank back ∧ Pieces slashes command mention gap args ∧
    text = front ++ (slashes ++ command ++ mention ++ gap ++ args) ++ back

theorem Pieces.word {slashes command mention gap args : List Char}
    (h : Pieces slashes command mention gap args) :
    ∀ c ∈ slashes ++ command ++ mention, isSpace c = false := by
  intro c hc
  rw [List.mem_append, List.mem_append] at hc
  rcases hc with (hc | hc) | hc
  · obtain rfl := h.slashes.2 c hc
    rfl
  · exact (h.command.1 c hc).1
  · exact h.mention.1 c hc

theorem Pieces.head {slashes command mention gap args : List Char}
    (h : Pieces slashes command mention gap args) :
    (slashes ++ command ++ mention ++ gap ++ args).head? = some '/' := by
  obtain ⟨hne, hall⟩ := h.slashes
  cases slashes with
  | nil => exact absurd rfl hne
  | cons c cs =>
    obtain rfl := hall c List.mem_cons_self
    rfl

theorem Pieces.trimmed {slashes command mention gap args : List Char}
    (h : Pieces slashes command mention gap args) :
    Trimmed (slashes ++ command ++ mention ++ gap ++ args) where
  head c hc := by
    rw [h.head] at hc
    obtain rfl := Option.some.inj hc
    rfl
  last c hc := by
    by_cases hargs : args = []
    · have hgap := h.gap.2.mpr hargs
      subst hargs hgap
      simp only [List.append_nil] at hc
      exact h.word c (List.mem_of_getLast? hc)
    · rw [List.getLast?_append_of_ne_nil _ hargs] at hc
      exact h.args.last c hc

/-- What `split` finds in the text. -/
theorem Pieces.split {slashes command mention gap args : List Char}
    (h : Pieces slashes command mention gap args) :
    splitText (slashes ++ command ++ mention ++ gap ++ args) =
      (slashes ++ command ++ mention, args) := by
  have hword : ∀ c ∈ slashes ++ command ++ mention, (!isSpace c) = true := by
    intro c hc
    simp [h.word c hc]
  have hgap : ∀ c ∈ (gap ++ args).head?, (!isSpace c) = false := by
    intro c hc
    cases hgap : gap with
    | nil => simp [hgap, h.gap.2.mp hgap] at hc
    | cons d ds =>
      obtain rfl : d = c := by simpa [hgap] using hc
      simp [h.gap.1 d (by simp [hgap])]
  obtain ⟨hfirst, hrest⟩ := scan_iff.mpr ⟨List.append_assoc _ gap args, hword, hgap⟩
  obtain ⟨-, hargs⟩ := scan_iff.mpr ⟨rfl, h.gap.1, h.args.head⟩
  rw [splitText, hfirst, hrest, hargs]

/-- What the scans of the first part find. -/
theorem Pieces.commandOf {slashes command mention gap args : List Char}
    (h : Pieces slashes command mention gap args) :
    commandOf (slashes ++ command ++ mention) = command := by
  have hslashes : ∀ c ∈ slashes, (c == '/') = true := by
    intro c hc
    simpa using h.slashes.2 c hc
  have hnext : ∀ c ∈ (command ++ mention).head?, (c == '/') = false := by
    intro c hc
    cases hcommand : command with
    | nil =>
      obtain rfl := h.mention.2 c (by simpa [hcommand] using hc)
      rfl
    | cons d ds =>
      obtain rfl : d = c := by simpa [hcommand] using hc
      have hhead := h.command.2
      simpa [hcommand] using hhead
  have hplain : ∀ c ∈ command, (c != '@') = true := by
    intro c hc
    simpa using (h.command.1 c hc).2
  have hmention : ∀ c ∈ mention.head?, (c != '@') = false := by
    intro c hc
    simpa using h.mention.2 c hc
  obtain ⟨-, hrest⟩ := scan_iff.mpr ⟨List.append_assoc slashes command mention, hslashes, hnext⟩
  obtain ⟨hfirst, -⟩ := scan_iff.mpr ⟨rfl, hplain, hmention⟩
  rw [TelegramBot.commandOf, hrest, hfirst]

/-- A text that starts with a slash falls into the pieces that its scans find. -/
theorem pieces_of_scans {slashes command mention gap args : List Char}
    (htrim : Trimmed (slashes ++ (command ++ mention) ++ (gap ++ args)))
    (hslash : (slashes ++ (command ++ mention) ++ (gap ++ args)).head? = some '/')
    (hword : ∀ c ∈ slashes ++ (command ++ mention), isSpace c = false)
    (hspace : ∀ c ∈ (gap ++ args).head?, isSpace c = true)
    (hslashes : ∀ c ∈ slashes, c = '/') (hnext : (command ++ mention).head? ≠ some '/')
    (hplain : ∀ c ∈ command, c ≠ '@') (hmention : ∀ c ∈ mention.head?, c = '@')
    (hgap : Blank gap) (hargs : ∀ c ∈ args.head?, isSpace c = false) :
    Pieces slashes command mention gap args where
  slashes := by
    refine ⟨?_, hslashes⟩
    rintro rfl
    cases hbehind : command ++ mention with
    | nil =>
      rw [List.nil_append, hbehind, List.nil_append] at hslash
      have hsep := hspace '/' hslash
      cases hsep
    | cons c cs =>
      rw [List.nil_append, hbehind] at hslash
      rw [hbehind] at hnext
      exact hnext hslash
  command := by
    refine ⟨fun c hc => ⟨hword c (by simp [hc]), hplain c hc⟩, ?_⟩
    intro hhead
    cases command with
    | nil => cases hhead
    | cons c cs => exact hnext hhead
  mention := ⟨fun c hc => hword c (by simp [hc]), hmention⟩
  gap := by
    refine ⟨hgap, ?_, ?_⟩
    · rintro rfl
      cases args with
      | nil => rfl
      | cons c cs =>
        have hyes := hspace c rfl
        rw [hargs c rfl] at hyes
        cases hyes
    · rintro rfl
      by_contra hne
      have hlast := htrim.last (gap.getLast hne)
      rw [List.append_nil, List.getLast?_append_of_ne_nil _ hne] at hlast
      have hno := hlast (List.getLast?_eq_some_getLast hne)
      rw [hgap _ (List.getLast_mem hne)] at hno
      cases hno
  args := by
    refine ⟨hargs, fun c hc => ?_⟩
    have hne : args ≠ [] := by
      rintro rfl
      cases hc
    apply htrim.last c
    rw [← List.append_assoc, List.getLast?_append_of_ne_nil _ hne]
    exact hc

/-- What `split` and the scans of its first part find. -/
theorem pieces_iff {core command args : List Char} :
    Trimmed core ∧ core.head? = some '/' ∧ TelegramBot.commandOf (splitText core).1 = command ∧
        (splitText core).2 = args ↔
      ∃ slashes mention gap, Pieces slashes command mention gap args ∧
        core = slashes ++ command ++ mention ++ gap ++ args := by
  constructor
  · rintro ⟨htrim, hslash, hcommand, hsplit⟩
    obtain ⟨word, rest, hw, hr, rfl, hword, hspace⟩ := exists_scan (!isSpace ·) core
    obtain ⟨gap, last, -, hlast, rfl, hgap, hargs⟩ := exists_scan isSpace rest
    obtain ⟨slashes, behind, -, hb, rfl, hslashes, hnext⟩ := exists_scan (· == '/') word
    obtain ⟨name, mention, hname, -, rfl, hplain, hmention⟩ := exists_scan (· != '@') behind
    obtain rfl : last = args := by rw [← hsplit, splitText, hr, hlast]
    obtain rfl : name = command := by rw [← hcommand, splitText, hw, TelegramBot.commandOf, hb, hname]
    refine ⟨slashes, mention, gap, pieces_of_scans htrim hslash ?_ ?_ ?_ ?_ ?_ ?_ hgap hargs, by simp⟩
    · simpa using hword
    · simpa using hspace
    · simpa using hslashes
    · intro hhead
      have hno := hnext '/' hhead
      simp at hno
    · simpa using hplain
    · simpa using hmention
  · rintro ⟨slashes, mention, gap, h, rfl⟩
    exact ⟨h.trimmed, h.head, by rw [h.split, h.commandOf], by rw [h.split]⟩

theorem asks_iff {command args text : List Char} :
    Asks command args text ↔ (stripChars text).head? = some '/' ∧
      commandOf (splitText (stripChars text)).1 = command ∧ (splitText (stripChars text)).2 = args := by
  constructor
  · rintro ⟨front, slashes, mention, gap, back, hfront, hback, h, rfl⟩
    have hcore := stripChars_iff.mpr ⟨h.trimmed, front, back, rfl, hfront, hback⟩
    obtain ⟨-, hscan⟩ := pieces_iff.mpr ⟨slashes, mention, gap, h, rfl⟩
    rwa [hcore]
  · intro hscan
    obtain ⟨htrim, front, back, htext, hfront, hback⟩ := stripChars_iff.mp (rfl : stripChars text = _)
    obtain ⟨slashes, mention, gap, h, hcore⟩ := pieces_iff.mp ⟨htrim, hscan⟩
    exact ⟨front, slashes, mention, gap, back, hfront, hback, h, hcore ▸ htext⟩

theorem request_own_text (config : Config) (updateId : ℕ) (text chatId command args : String) :
    request config ⟨updateId, some ⟨config.chatId, text⟩⟩ = .run chatId command args ↔
      chatId = config.chatId ∧ command ∈ config.commands ∧
        Asks command.toList args.toList text.toList := by
  rw [asks_iff]
  simp only [request, ne_eq, not_true_eq_false, if_false]
  by_cases hslash : (stripChars text.toList).head? = some '/'
  · by_cases hknown : String.ofList (commandOf (splitText (stripChars text.toList)).1) ∈ config.commands
    · simp only [hslash, hknown, not_true_eq_false, if_false, if_true, Request.run.injEq, true_and]
      constructor
      · rintro ⟨rfl, rfl, rfl⟩
        simpa using hknown
      · rintro ⟨rfl, -, hcommand, hargs⟩
        simp [hcommand, hargs]
    · simp only [hslash, hknown, not_true_eq_false, if_false, true_and, reduceCtorEq, false_iff]
      rintro ⟨-, hmem, hcommand, -⟩
      rw [hcommand, String.ofList_toList] at hknown
      exact hknown hmem
  · simp [hslash]

/-- A message runs a command with its arguments exactly where it comes from the chat of the bot,
the command is registered, and the text asks for it so. -/
theorem runs_iff (config : Config) (update : Update) (chatId command args : String) :
    request config update = .run chatId command args ↔
      chatId = config.chatId ∧ command ∈ config.commands ∧
        ∃ text, update.message = some ⟨config.chatId, text⟩ ∧
          Asks command.toList args.toList text.toList := by
  obtain ⟨updateId, message⟩ := update
  cases message with
  | none => simp [request]
  | some message =>
    obtain ⟨sender, text⟩ := message
    by_cases hown : sender = config.chatId
    · subst hown
      rw [request_own_text]
      simp
    · simp [request, hown]

end KisAutotrader.TelegramBot.CommandText
