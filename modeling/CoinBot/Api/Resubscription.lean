import CoinBot.Api.UpbitWebSocketClient
import CoinBot.Lib.Machine

/- Subscriptions survive every reconnection.

   A stream is made in `connectImpl` and nowhere else, and once it is open every frame that
   is kept is given to it before anything else. A write only closes streams. So on an open
   stream every frame was attempted (`Covered`), whatever the network does. The counter of
   failures is what the events say of it (`Sound`), so a loop gives up behind as many
   failed attempts as it is allowed. -/
namespace CoinBot.UpbitWebSocketClient

/-! What was asked for. -/

def Command.subFrame : Command → Option SubFrame
  | .connect _ => none
  | .subCandles ticket type markets isOnlySnapshot isOnlyRealtime format =>
    some (buildCandleSubJsonFrame ticket type markets isOnlySnapshot isOnlyRealtime format)
  | .subMyOrder ticket markets isOnlyRealtime format =>
    some (buildMyOrderSubJsonFrame ticket markets isOnlyRealtime format)

/-- The frame of the last subscription of `key`, `found` if there is none. -/
def latestFrom (settings : Settings) (key : String) (found : Option String)
    (commands : List Command) : Option String :=
  commands.foldl (fun found command =>
    match command.subFrame with
    | some frame => if frame.type = key then some (settings.dump frame) else found
    | none => found) found

def latestFrame (settings : Settings) (key : String) (commands : List Command) : Option String :=
  latestFrom settings key none commands

/-- The failed attempts since the last one that succeeded. -/
def failuresSince (events : List Event) : Nat :=
  events.foldl (fun n e =>
    match e with
    | .reconnectSucceeded => 0
    | .reconnectFailed => n + 1
    | _ => n) 0

theorem failuresSince_concat (events : List Event) (e : Event) :
    failuresSince (events ++ [e]) =
      match e with
      | .reconnectSucceeded => 0
      | .reconnectFailed => failuresSince events + 1
      | _ => failuresSince events := by
  unfold failuresSince
  rw [List.foldl_append]
  rfl

theorem failuresSince_eq_count (events : List Event) :
    ∃ older newer, events = older ++ newer ∧ Event.reconnectSucceeded ∉ newer ∧
      newer.count .reconnectFailed = failuresSince events := by
  induction events using List.reverseRecOn with
  | nil => exact ⟨[], [], rfl, by simp, rfl⟩
  | append_singleton events e ih =>
    obtain ⟨older, newer, rfl, hnone, hcount⟩ := ih
    rw [failuresSince_concat, ← hcount]
    cases e with
    | reconnectSucceeded => exact ⟨older ++ newer ++ [.reconnectSucceeded], [], by simp⟩
    | reconnectFailed =>
      refine ⟨older, newer ++ [.reconnectFailed], by simp, by simp [hnone], by simp⟩
    | fatal => exact ⟨older, newer ++ [.fatal], by simp, by simp [hnone], by simp⟩
    | reconnected => exact ⟨older, newer ++ [.reconnected], by simp, by simp [hnone], by simp⟩
    | received msg => exact ⟨older, newer ++ [.received msg], by simp, by simp [hnone], by simp⟩

namespace Client

variable {settings : Settings} {turn : Turn} {c : Client}

/-! What the operations leave as it is. -/

/-- What is known of the attempts. -/
def tally (c : Client) : Nat × Bool × List Event := (c.reconnectFailures, c.giveUp, c.events)

theorem sendTextFrame_keeps (turn : Turn) (c : Client) (text : String) :
    (c.sendTextFrame turn text).2.lastSubFrames = c.lastSubFrames ∧
    (c.sendTextFrame turn text).2.tally = c.tally := by
  unfold sendTextFrame
  split <;> exact ⟨rfl, rfl⟩

theorem resubscribeAll_keeps (turn : Turn) (c : Client) :
    (c.resubscribeAll turn).lastSubFrames = c.lastSubFrames ∧
    (c.resubscribeAll turn).tally = c.tally := by
  unfold resubscribeAll
  generalize c.lastSubFrames.entries = entries
  induction entries generalizing c with
  | nil => exact ⟨rfl, rfl⟩
  | cons entry entries ih =>
    obtain ⟨hframes, htally⟩ := sendTextFrame_keeps turn c entry.2
    obtain ⟨hframes', htally'⟩ := ih (c.sendTextFrame turn entry.2).2
    exact ⟨hframes'.trans hframes, htally'.trans htally⟩

theorem reconnectOnce_lastSubFrames (turn : Turn) (c : Client) :
    (c.reconnectOnce_ turn).2.lastSubFrames = c.lastSubFrames := by
  unfold reconnectOnce_
  dsimp only
  split <;> rfl

theorem doReconnect_lastSubFrames (settings : Settings) (turn : Turn) (c : Client) :
    (c.doReconnect settings turn).lastSubFrames = c.lastSubFrames := by
  have honce := reconnectOnce_lastSubFrames turn c
  unfold doReconnect
  dsimp only
  split
  · exact ((resubscribeAll_keeps turn (c.reconnectOnce_ turn).2).1).trans honce
  · split <;> exact honce

/-! What a pass does behind its commands. -/

/-- `P` is kept by each thing that a pass does behind its commands. -/
structure Kept (settings : Settings) (turn : Turn) (P : Client → Prop) : Prop where
  reconnect : ∀ c, P c → P (c.doReconnect settings turn)
  timers : ∀ c nextPing nextTextHb, P c →
    P { c with nextPing := nextPing, nextTextHb := nextTextHb }
  write : ∀ c outcome texts, c.isOpen = true → P c → P (c.write outcome texts)
  read : ∀ (c : Client) openAfter, c.isOpen = true → P c →
    P { c with ws := c.ws.map (fun s => { s with isOpen := openAfter }), ops := c.ops + 1 }
  abort : ∀ c, P c → P { c with aborted := true }
  received : ∀ c msg, P c → P (c.emit (.received msg))

section Kept
variable {P : Client → Prop}

theorem Kept.sendTextFrame (h : Kept settings turn P) (text : String) (hc : P c) :
    P (c.sendTextFrame turn text).2 := by
  unfold Client.sendTextFrame
  split
  · next hopen => exact h.write c _ _ hopen hc
  · exact hc

theorem Kept.ping (h : Kept settings turn P) (hopen : c.isOpen = true) (hc : P c) :
    P (c.ping settings turn) := by
  have htimers := h.timers c (turn.now + settings.pingInterval) c.nextTextHb hc
  unfold Client.ping
  dsimp only
  split
  · have hwrite := h.write { c with nextPing := turn.now + settings.pingInterval }
      (turn.writes c.ops) [] hopen htimers
    split
    · exact h.reconnect _ hwrite
    · exact hwrite
  · exact hc

theorem Kept.textHeartbeat (h : Kept settings turn P) (hc : P c) :
    P (c.textHeartbeat settings turn) := by
  have htimers := h.timers c c.nextPing (turn.now + settings.heartbeatInterval) hc
  unfold Client.textHeartbeat
  dsimp only
  split
  · have hsent := h.sendTextFrame "PING" htimers
    split
    · exact hsent
    · exact h.reconnect _ hsent
  · exact hc

theorem Kept.keepalive (h : Kept settings turn P) (hc : P c) : P (c.keepalive settings turn) := by
  unfold Client.keepalive
  split
  · next hopen => exact h.textHeartbeat (h.ping hopen hc)
  · exact hc

theorem Kept.readMessage (h : Kept settings turn P) (hopen : c.isOpen = true) (hc : P c) :
    P (c.readMessage settings turn) := by
  have hread := h.read c (turn.reads c.ops).openAfter hopen hc
  unfold Client.readMessage
  dsimp only
  split
  · exact h.abort _ hread
  · exact hread
  · exact h.reconnect _ hread
  · split
    · exact hread
    · exact h.received _ _ hread

theorem Kept.pass (h : Kept settings turn P) (hbefore : P (c.beforeRead settings turn)) :
    P (c.pass settings turn) := by
  unfold Client.pass
  dsimp only
  split
  · exact hbefore
  · split
    · next hopen => exact h.readMessage hopen hbefore
    · split
      · exact h.reconnect _ hbefore
      · exact hbefore

end Kept

/-! On an open stream every frame was attempted. -/

def Covered (c : Client) : Prop :=
  c.isOpen = true → ∀ key frame, c.lastSubFrames.lookup key = some frame → frame ∈ c.attempted

theorem covered_of_closed (h : c.isOpen = false) : c.Covered := by
  intro hopen
  rw [h] at hopen
  cases hopen

/-- A text that is sent is attempted, and a stream that is open behind it was open before. -/
theorem sendTextFrame_open {text : String} (h : (c.sendTextFrame turn text).2.isOpen = true) :
    c.isOpen = true ∧ (c.sendTextFrame turn text).2.attempted = c.attempted ++ [text] := by
  unfold sendTextFrame at h ⊢
  split
  · next hopen => exact ⟨hopen, rfl⟩
  · next hclosed =>
    rw [if_neg hclosed] at h
    exact absurd h hclosed

/-- A stream that is open behind the frames was asked to write all of them. -/
theorem foldl_sendTextFrame_open (entries : List (Sigma fun _ : String => String)) (c : Client)
    (h : (entries.foldl (fun c entry => (c.sendTextFrame turn entry.2).2) c).isOpen = true) :
    c.isOpen = true ∧
    (∀ text ∈ c.attempted, text ∈
      (entries.foldl (fun c entry => (c.sendTextFrame turn entry.2).2) c).attempted) ∧
    ∀ entry ∈ entries, entry.2 ∈
      (entries.foldl (fun c entry => (c.sendTextFrame turn entry.2).2) c).attempted := by
  induction entries generalizing c with
  | nil => exact ⟨h, fun text htext => htext, by simp⟩
  | cons entry entries ih =>
    obtain ⟨hopen, hkept, hall⟩ := ih (c.sendTextFrame turn entry.2).2 h
    obtain ⟨hopen', hattempted⟩ := sendTextFrame_open hopen
    rw [hattempted] at hkept
    refine ⟨hopen', fun text htext => hkept text (List.mem_append_left _ htext), ?_⟩
    intro other hother
    rcases List.mem_cons.mp hother with rfl | hother
    · exact hkept _ (by simp)
    · exact hall other hother

/-- Whatever the stream was given before, behind `resubscribeAll` it was given every frame. -/
theorem covered_resubscribeAll (turn : Turn) (c : Client) : (c.resubscribeAll turn).Covered := by
  intro hopen key frame hframe
  rw [(resubscribeAll_keeps turn c).1] at hframe
  have hentry : (⟨key, frame⟩ : Sigma fun _ : String => String) ∈ c.lastSubFrames.entries :=
    AList.mem_lookup_iff.mp hframe
  exact (foldl_sendTextFrame_open c.lastSubFrames.entries c hopen).2.2 _ hentry

theorem covered_emit (e : Event) (h : c.Covered) : (c.emit e).Covered := h

theorem covered_doReconnect (settings : Settings) (turn : Turn) (c : Client) :
    (c.doReconnect settings turn).Covered := by
  unfold doReconnect
  dsimp only
  by_cases hok : (c.reconnectOnce_ turn).1 = true
  · rw [if_pos hok]
    exact covered_emit _ (covered_resubscribeAll turn _)
  · have hclosed : (c.reconnectOnce_ turn).2.isOpen = false := by
      unfold reconnectOnce_ at hok ⊢
      dsimp only at hok ⊢
      split
      · next hopen =>
        rw [if_pos hopen] at hok
        exact absurd rfl hok
      · next hclosed => exact Bool.eq_false_iff.mpr hclosed
    rw [if_neg hok]
    split <;> exact covered_of_closed hclosed

theorem covered_subscribe (frame : SubFrame) (h : c.Covered) :
    (c.subscribe settings turn frame).Covered := by
  unfold subscribe
  intro hopen key text htext
  obtain ⟨hopen', hattempted⟩ := sendTextFrame_open hopen
  rw [(sendTextFrame_keeps turn _ _).1] at htext
  rw [hattempted]
  by_cases hkey : key = frame.type
  · subst hkey
    rw [AList.lookup_insert] at htext
    rw [Option.some.inj htext]
    simp
  · rw [AList.lookup_insert_ne hkey] at htext
    exact List.mem_append_left _ (h hopen' key text htext)

theorem covered_handleCommand (command : Command) (h : c.Covered) :
    (c.handleCommand settings turn command).Covered := by
  cases command with
  | connect endpoint =>
    unfold handleCommand
    dsimp only
    split
    · exact covered_resubscribeAll turn _
    · next hclosed => exact covered_of_closed (Bool.eq_false_iff.mpr hclosed)
  | subCandles => exact covered_subscribe _ h
  | subMyOrder => exact covered_subscribe _ h

theorem covered_handleCommands (h : c.Covered) : (c.handleCommands settings turn).Covered := by
  unfold handleCommands
  generalize turn.pushed = commands
  induction commands generalizing c with
  | nil => exact h
  | cons command commands ih => exact ih (covered_handleCommand command h)

theorem kept_covered (settings : Settings) (turn : Turn) : Kept settings turn Covered where
  reconnect := fun c _ => covered_doReconnect settings turn c
  timers := fun _ _ _ h => h
  write := fun c outcome texts hopen h _ key frame hframe =>
    List.mem_append_left texts (h hopen key frame hframe)
  read := by
    intro c openAfter hopen h _ key frame hframe
    have hmem : frame ∈ c.attempted := h hopen key frame hframe
    unfold attempted at hmem ⊢
    cases hws : c.ws with
    | none => simp [hws] at hmem
    | some s => simpa [hws] using hmem
  abort := fun _ h => h
  received := fun _ _ h => h

theorem covered_beforeRead (h : c.Covered) : (c.beforeRead settings turn).Covered :=
  (kept_covered settings turn).keepalive (covered_handleCommands h)

theorem covered_close (c : Client) : c.close.Covered := by
  refine covered_of_closed ?_
  unfold close isOpen
  cases c.ws <;> rfl

theorem covered_iteration (settings : Settings) (c : Client) (turn : Turn) (h : c.Covered) :
    (c.iteration settings turn).Covered := by
  unfold iteration
  split
  · exact h
  · split
    · exact covered_close _
    · exact (kept_covered settings turn).pass (covered_beforeRead h)

/-! The frames that are kept are the latest ones. -/

theorem subscribe_lastSubFrames (settings : Settings) (turn : Turn) (c : Client)
    (frame : SubFrame) : (c.subscribe settings turn frame).lastSubFrames =
      c.lastSubFrames.insert frame.type (settings.dump frame) :=
  (sendTextFrame_keeps turn _ _).1

theorem lookup_handleCommands (settings : Settings) (turn : Turn) (c : Client) (key : String) :
    (c.handleCommands settings turn).lastSubFrames.lookup key =
      latestFrom settings key (c.lastSubFrames.lookup key) turn.pushed := by
  unfold handleCommands latestFrom
  generalize turn.pushed = commands
  have hsubscribe : ∀ (c : Client) (frame : SubFrame),
      (c.subscribe settings turn frame).lastSubFrames.lookup key =
        if frame.type = key then some (settings.dump frame) else c.lastSubFrames.lookup key := by
    intro c frame
    rw [subscribe_lastSubFrames]
    split
    · next hkey => rw [← hkey, AList.lookup_insert]
    · next hkey => rw [AList.lookup_insert_ne (Ne.symm hkey)]
  induction commands generalizing c with
  | nil => rfl
  | cons command commands ih =>
    rw [List.foldl_cons, List.foldl_cons, ih]
    congr 1
    cases command with
    | connect endpoint =>
      unfold handleCommand
      dsimp only [Command.subFrame]
      split
      · rw [(resubscribeAll_keeps turn _).1]
        rfl
      · rfl
    | subCandles => exact hsubscribe c _
    | subMyOrder => exact hsubscribe c _

theorem kept_lastSubFrames (settings : Settings) (turn : Turn) (frames : KeyMap String String) :
    Kept settings turn (fun c => c.lastSubFrames = frames) where
  reconnect := fun c h => (doReconnect_lastSubFrames settings turn c).trans h
  timers := fun _ _ _ h => h
  write := fun _ _ _ _ h => h
  read := fun _ _ _ h => h
  abort := fun _ h => h
  received := fun _ _ h => h

theorem lookup_beforeRead (settings : Settings) (turn : Turn) (c : Client) (key : String) :
    (c.beforeRead settings turn).lastSubFrames.lookup key =
      latestFrom settings key (c.lastSubFrames.lookup key) turn.pushed := by
  have hkept : (c.beforeRead settings turn).lastSubFrames =
      (c.handleCommands settings turn).lastSubFrames :=
    (kept_lastSubFrames settings turn _).keepalive rfl
  rw [hkept, lookup_handleCommands]

theorem pass_lastSubFrames (settings : Settings) (turn : Turn) (c : Client) :
    (c.pass settings turn).lastSubFrames = (c.beforeRead settings turn).lastSubFrames :=
  (kept_lastSubFrames settings turn _).pass rfl

/-- An iteration of a loop that has not ended takes the commands that are waiting. -/
theorem lookup_iteration (settings : Settings) {c : Client} (turn : Turn) (h : c.ended = false)
    (key : String) : (c.iteration settings turn).lastSubFrames.lookup key =
      latestFrom settings key (c.lastSubFrames.lookup key) turn.pushed := by
  rw [← lookup_beforeRead, ← pass_lastSubFrames]
  unfold iteration
  rw [if_neg (by simp [h])]
  split <;> rfl

theorem iteration_of_ended (h : c.ended = true) : c.iteration settings turn = c := if_pos h

theorem run_of_ended (h : c.ended = true) (turns : List Turn) :
    Machine.run (iteration settings) c turns = c := by
  induction turns with
  | nil => rfl
  | cons turn turns ih => rw [Machine.run_cons, iteration_of_ended h, ih]

theorem lookup_run (settings : Settings) (key : String) (turns : List Turn) (c : Client)
    (h : (Machine.run (iteration settings) c turns).ended = false) :
    (Machine.run (iteration settings) c turns).lastSubFrames.lookup key =
      latestFrom settings key (c.lastSubFrames.lookup key) (turns.flatMap Turn.pushed) := by
  induction turns generalizing c with
  | nil => rfl
  | cons turn turns ih =>
    have hc : c.ended = false := by
      by_contra hended
      have htrue : c.ended = true := Bool.eq_true_of_not_eq_false hended
      rw [run_of_ended htrue, htrue] at h
      cases h
    rw [Machine.run_cons] at h ⊢
    rw [ih _ h, lookup_iteration settings turn hc key]
    unfold latestFrom
    rw [List.flatMap_cons, List.foldl_append]

/-! The loop gives up behind failures only. -/

/-- The counter and the flag are what the events say, and a loop that gives up does so behind as
    many failures as it is allowed. -/
structure Sound (limit : Int) (c : Client) : Prop where
  counted : c.reconnectFailures = failuresSince c.events
  fatal_after : ∀ before after, c.events = before ++ .fatal :: after →
    0 < limit ∧ limit ≤ failuresSince before
  giveUp_fatal : c.giveUp = true → Event.fatal ∈ c.events

variable {limit : Int}

theorem Sound.of_tally {c c' : Client} (h : Sound limit c) (htally : c'.tally = c.tally) :
    Sound limit c' := by
  obtain ⟨hfailures, hgiveUp, hevents⟩ : c'.reconnectFailures = c.reconnectFailures ∧
      c'.giveUp = c.giveUp ∧ c'.events = c.events := by
    simpa [tally] using htally
  exact ⟨by rw [hfailures, hevents, h.counted], by rw [hevents]; exact h.fatal_after,
    by rw [hgiveUp, hevents]; exact h.giveUp_fatal⟩

theorem eq_or_of_concat_eq {events before after : List Event} {e : Event}
    (h : events ++ [e] = before ++ .fatal :: after) :
    (∃ after', events = before ++ .fatal :: after') ∨ events = before ∧ e = .fatal := by
  rcases List.eq_nil_or_concat after with rfl | ⟨after', last, rfl⟩
  · obtain ⟨hevents, he⟩ := List.append_inj' h rfl
    exact .inr ⟨hevents, (List.cons.inj he).1⟩
  · rw [List.concat_eq_append, ← List.cons_append, ← List.append_assoc] at h
    exact .inl ⟨after', (List.append_inj' h rfl).1⟩

theorem Sound.snoc {c c' : Client} {e : Event} (h : Sound limit c)
    (hevents : c'.events = c.events ++ [e])
    (hcounted : c'.reconnectFailures = failuresSince (c.events ++ [e]))
    (hfatal : e = .fatal → 0 < limit ∧ limit ≤ failuresSince c.events)
    (hgiveUp : c'.giveUp = true → c.giveUp = true ∨ e = .fatal) : Sound limit c' := by
  refine ⟨by rw [hcounted, hevents], ?_, ?_⟩
  · intro before after heq
    rw [hevents] at heq
    rcases eq_or_of_concat_eq heq with ⟨after', heq⟩ | ⟨rfl, he⟩
    · exact h.fatal_after before after' heq
    · exact hfatal he
  · intro hflag
    rw [hevents]
    rcases hgiveUp hflag with hflag | rfl
    · exact List.mem_append_left _ (h.giveUp_fatal hflag)
    · simp

theorem sound_reconnectOnce (turn : Turn) {c : Client} (h : Sound limit c) :
    Sound limit (c.reconnectOnce_ turn).2 := by
  unfold reconnectOnce_
  dsimp only
  split
  · refine h.snoc (e := .reconnectSucceeded) rfl ?_ (fun he => nomatch he) Or.inl
    rw [failuresSince_concat]
    rfl
  · refine h.snoc (e := .reconnectFailed) rfl ?_ (fun he => nomatch he) Or.inl
    rw [failuresSince_concat, ← h.counted]
    rfl

theorem sound_doReconnect (turn : Turn) {c : Client}
    (h : Sound settings.maxReconnectAttempts c) :
    Sound settings.maxReconnectAttempts (c.doReconnect settings turn) := by
  have honce := sound_reconnectOnce turn h
  unfold doReconnect
  dsimp only
  generalize (c.reconnectOnce_ turn).2 = once at honce
  split
  · have hall := honce.of_tally (resubscribeAll_keeps turn once).2
    refine hall.snoc (e := .reconnected) rfl ?_ (fun he => nomatch he) Or.inl
    rw [failuresSince_concat]
    exact hall.counted
  · split
    · next hlimit =>
      refine honce.snoc (e := .fatal) rfl ?_ (fun _ => ?_) (fun _ => .inr rfl)
      · rw [failuresSince_concat]
        exact honce.counted
      · rw [← honce.counted]
        exact hlimit
    · exact honce

theorem handleCommand_tally (settings : Settings) (turn : Turn) (c : Client) (command : Command) :
    (c.handleCommand settings turn command).tally = c.tally := by
  cases command with
  | connect endpoint =>
    unfold handleCommand
    dsimp only
    split
    · exact (resubscribeAll_keeps turn _).2
    · rfl
  | subCandles => exact (sendTextFrame_keeps turn _ _).2
  | subMyOrder => exact (sendTextFrame_keeps turn _ _).2

theorem handleCommands_tally (settings : Settings) (turn : Turn) (c : Client) :
    (c.handleCommands settings turn).tally = c.tally := by
  unfold handleCommands
  generalize turn.pushed = commands
  induction commands generalizing c with
  | nil => rfl
  | cons command commands ih => rw [List.foldl_cons, ih, handleCommand_tally]

theorem kept_sound (settings : Settings) (turn : Turn) :
    Kept settings turn (Sound settings.maxReconnectAttempts) where
  reconnect := fun _ h => sound_doReconnect turn h
  timers := fun _ _ _ h => h.of_tally rfl
  write := fun _ _ _ _ h => h.of_tally rfl
  read := fun _ _ _ h => h.of_tally rfl
  abort := fun _ h => h.of_tally rfl
  received := by
    intro c msg h
    refine h.snoc (e := .received msg) rfl ?_ (fun he => nomatch he) Or.inl
    rw [failuresSince_concat]
    exact h.counted

theorem sound_iteration (settings : Settings) (c : Client) (turn : Turn)
    (h : Sound settings.maxReconnectAttempts c) :
    Sound settings.maxReconnectAttempts (c.iteration settings turn) := by
  have hkept := kept_sound settings turn
  have hcommands := h.of_tally (handleCommands_tally settings turn c)
  have hpass : Sound settings.maxReconnectAttempts (c.pass settings turn) :=
    hkept.pass (hkept.keepalive hcommands)
  unfold iteration
  split
  · exact h
  · split
    · exact hpass.of_tally rfl
    · exact hpass

/-! Runs of the loop. -/

/-- What every pass of the loop keeps. -/
structure Inv (settings : Settings) (c : Client) : Prop where
  covered : c.Covered
  sound : Sound settings.maxReconnectAttempts c

theorem inv_start (settings : Settings) (loopStart : Int) :
    Inv settings (start settings loopStart) where
  covered := covered_of_closed rfl
  sound := ⟨rfl, fun before after h => by simp [start] at h, fun h => nomatch h⟩

theorem inv_run (settings : Settings) (loopStart : Int) (turns : List Turn) :
    Inv settings (Machine.run (iteration settings) (start settings loopStart) turns) :=
  (Machine.always_of_guarded (g := fun _ _ => True)
    (fun c turn h _ => ⟨covered_iteration settings c turn h.covered,
      sound_iteration settings c turn h.sound⟩)
    (inv_start settings loopStart) (Machine.guarded_of_forall (fun _ _ _ => trivial) _)).last

/-- An iteration comes to the read with an open stream, of a loop that has not ended. -/
theorem atRead_eq_some {c' : Client} (h : c.atRead settings turn = some c') :
    c.ended = false ∧ c'.isOpen = true ∧ c' = c.beforeRead settings turn := by
  unfold atRead at h
  dsimp only at h
  split at h
  · cases h
  · next hreads =>
    cases h
    simp only [Bool.or_eq_true, Bool.not_eq_true', not_or, Bool.not_eq_false,
      Bool.not_eq_true] at hreads
    exact ⟨hreads.1.1, hreads.2, rfl⟩

/-- **Subscriptions survive every reconnection.** For every sequence of commands and outcomes:
    where the loop comes to the read, its stream is open, and for every key that was subscribed to
    the frame of the last subscription was given to that stream; and the loop gives up only with
    the fatal callback, behind as many failed attempts to reconnect as there may be, without one
    that succeeded in between. -/
theorem subscriptions_survive (settings : Settings) (loopStart : Int) (turns : List Turn) :
    let c := Machine.run (iteration settings) (start settings loopStart) turns
    (∀ turn c', c.atRead settings turn = some c' → c'.isOpen = true ∧
      ∀ key frame,
        latestFrame settings key (turns.flatMap Turn.pushed ++ turn.pushed) = some frame →
        c'.lastSubFrames.lookup key = some frame ∧ frame ∈ c'.attempted) ∧
    (∀ before after, c.events = before ++ .fatal :: after →
      0 < settings.maxReconnectAttempts ∧
      ∃ older newer, before = older ++ newer ∧ Event.reconnectSucceeded ∉ newer ∧
        settings.maxReconnectAttempts ≤ newer.count .reconnectFailed) ∧
    (c.giveUp = true → Event.fatal ∈ c.events) := by
  intro c
  have hinv : Inv settings c := inv_run settings loopStart turns
  refine ⟨?_, ?_, hinv.sound.giveUp_fatal⟩
  · intro turn c' hread
    obtain ⟨hended, hopen, rfl⟩ := atRead_eq_some hread
    refine ⟨hopen, fun key frame hframe => ?_⟩
    -- The frames that are kept are those of the commands that were handled so far.
    have hkept : (c.beforeRead settings turn).lastSubFrames.lookup key = some frame := by
      rw [lookup_beforeRead, lookup_run settings key turns _ hended, ← hframe]
      unfold latestFrame latestFrom
      rw [List.foldl_append]
      rfl
    exact ⟨hkept, covered_beforeRead hinv.covered hopen key frame hkept⟩
  · intro before after hevents
    obtain ⟨hpos, hlimit⟩ := hinv.sound.fatal_after before after hevents
    obtain ⟨older, newer, hsplit, hnone, hcount⟩ := failuresSince_eq_count before
    exact ⟨hpos, older, newer, hsplit, hnone, by rw [hcount]; exact hlimit⟩

def sampleSettings : Settings where
  dump := SubFrame.ticket
  parse := fun _ => none
  maxReconnectAttempts := 2
  pingInterval := 25
  heartbeatMode := .none
  heartbeatInterval := 60

/-- A turn where connections are made, writes go through and the read closes the stream. -/
def sampleTurn (pushed : List Command) : Turn where
  pushed := pushed
  now := 0
  connects := fun _ => true
  writes := fun _ => { failed := false, openAfter := true }
  reads := fun _ => { result := .error, openAfter := false }

/-- A subscription that came before there was a connection, on the second stream. -/
example : ((Machine.run (iteration sampleSettings) (start sampleSettings 0)
    [sampleTurn [.subMyOrder "ticket" ["KRW-BTC"] true "DEFAULT",
      .connect { host := "upbit" }]]).atRead sampleSettings (sampleTurn [])).map attempted =
        some ["ticket"] := by decide

end Client
end CoinBot.UpbitWebSocketClient
