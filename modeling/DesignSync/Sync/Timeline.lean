import DesignSync.Sync.Session

/-!
A session on a clock. The task pushes when it starts and polls at once, and then once every poll
period; a poll that comes late moves the ones after it. While an edit waits to be applied the task
does nothing else. Where a change and a poll are there at once, the task may take either first. The
task and whoever looks at the session from outside take turns with the coordinator: one that came
first goes first. So what the task does is cut into errands, each of which needs one turn.

`run` and what is built on it follow one course of these: a change comes before a poll, and nobody
else writes to the buffer while the task makes a step.
-/

namespace DesignSync

/-- What the task has begun and needs a turn with the coordinator for. -/
inductive Errand where
  /-- The push of a change that the task was told of. -/
  | push
  /-- The start of a poll: whether anything was ever synced. -/
  | check
  /-- The push of a poll before which nothing was synced. -/
  | retry
  /-- The look at the source of a poll. -/
  | look
deriving DecidableEq, Repr

/-- What the task waits for between errands. -/
inductive Wakeup where
  /-- That it is told of a change. -/
  | change
  | poll
deriving DecidableEq, Repr

def Wakeup.other : Wakeup → Wakeup
  | .change => .poll
  | .poll => .change

/-- A session at some time, in milliseconds since it began. -/
structure Timeline (β : Type) where
  session : Session β
  now : Nat
  /-- Whether the task has run at all. -/
  started : Bool
  nextTick : Nat
  /-- When the wait of an edit ends, if there is one. -/
  wakeAt : Nat
  /-- What the task stands in line for. -/
  errand : Option Errand

namespace Timeline

variable {β : Type} [Buffer β]

def init (s : Session β) : Timeline β := ⟨s, 0, false, 0, 0, none⟩

def config (t : Timeline β) : SyncConfig := t.session.coordinator.config

/-- How late a poll may be without moving the next one. -/
def tolerance : Nat := 5

/-- When the poll after this one is due. -/
def tickAfter (t : Timeline β) : Nat :=
  if t.nextTick + tolerance < t.now then t.now + t.config.pollPeriod
  else t.nextTick + t.config.pollPeriod

/-- The end of a wait. -/
def wake (t : Timeline β) (amid : β → β) : Timeline β :=
  { t with session := t.session.reread amid, wakeAt := t.now + t.config.debounceMs }

/-- Begins a poll. -/
def beginPoll (t : Timeline β) : Timeline β :=
  { t with nextTick := t.tickAfter, errand := some .check }

/-- Begins the push of a change. -/
def beginPush (t : Timeline β) : Timeline β :=
  { t with session := { t.session with notified := false }, errand := some .push }

def isDue (t : Timeline β) : Wakeup → Bool
  | .change => t.session.notified
  | .poll => t.nextTick ≤ t.now

def takeUp (t : Timeline β) : Wakeup → Timeline β
  | .change => t.beginPush
  | .poll => t.beginPoll

/-- Begins what is due, the one before the other if both are. -/
def begin? (t : Timeline β) (first : Wakeup) : Option (Timeline β) :=
  if t.isDue first then some (t.takeUp first)
  else if t.isDue first.other then some (t.takeUp first.other)
  else none

/-- The turn of an errand, and the errand that it leads to. -/
def perform (t : Timeline β) (amid : β → β) : Errand → Timeline β
  | .push => { t with session := t.session.push amid, errand := none }
  | .check =>
    { t with errand := some (if t.session.coordinator.hasSynced then .look else .retry) }
  | .retry => { t with session := t.session.push amid, errand := some .look }
  | .look =>
    { t with
        session := t.session.look amid
        wakeAt := t.now + t.config.debounceMs
        errand := none }

/-- What the task does first of all. -/
def start (t : Timeline β) (amid : β → β) : Timeline β :=
  { t with session := t.session.push amid, started := true }

/-- The next thing that is due, done; nothing if the task has to wait for the clock. -/
def step? (t : Timeline β) (first : Wakeup) (amid : β → β) : Option (Timeline β) :=
  if !t.started then some (t.start amid)
  else match t.errand with
    | some e => some (t.perform amid e)
    | none =>
      if t.session.waiting.isSome then if t.wakeAt ≤ t.now then some (t.wake amid) else none
      else t.begin? first

/-- All that is due, up to a number of things. -/
def settle (t : Timeline β) : Nat → Timeline β
  | 0 => t
  | n + 1 =>
    match t.step? .change id with
    | some t => t.settle n
    | none => t

/-- The errands of a poll, with its beginning. -/
def pollSteps : Nat := 4

/-- As many things as can be due at one time: the start, a poll that was begun, a push, the polls
    that are late but not too late, and every round of a wait that takes no time. -/
def maxSteps (t : Timeline β) : Nat :=
  t.config.maxDebounceRounds + (tolerance + 1) * pollSteps + pollSteps + 2

/-- The time at which something is due next. -/
def nextTime (t : Timeline β) : Nat := if t.session.waiting.isSome then t.wakeAt else t.nextTick

/-- Everything that is due from `now` on and before `target`. Who looks at the session at `target`
    comes before the task does what is due then. -/
def run (t : Timeline β) (now target : Nat) : Timeline β :=
  let t := settle { t with now := now } t.maxSteps
  if now < t.nextTime ∧ t.nextTime < target then run t t.nextTime target
  else { t with now := target }
termination_by target - now
decreasing_by
  have h := ‹_ ∧ _›
  exact Nat.sub_lt_sub_left (Nat.lt_trans h.1 h.2) h.1

/-- Lets some time pass. The task gets its turn only while time passes, so that nothing happens in
    no time. -/
def sleep (t : Timeline β) (ms : Nat) : Timeline β :=
  if ms = 0 then t else t.run t.now (t.now + ms)

/-- Goes on to the end of a wait, if there is one, and applies what waited. -/
def finishWait (t : Timeline β) : Nat → Timeline β
  | 0 => t
  | n + 1 =>
    if t.session.waiting.isSome then
      let t := { t with now := max t.now t.wakeAt }
      (t.wake id).finishWait n
    else t

/-- The turn of what stands in line, with the wait that it leads to. -/
def takeTurn (t : Timeline β) : Timeline β :=
  (t.errand.elim t (t.perform id)).finishWait t.maxSteps

/-- Waits behind what stands in line and behind an edit that waits to be applied. What the task goes
    on with after that has to stand in line itself. -/
def untilFree (t : Timeline β) : Timeline β :=
  if t.errand.isNone ∧ t.session.waiting.isNone then t
  else
    let t := t.takeTurn
    if t.errand.isSome then t else (t.begin? .change).getD t

/-- Turn after turn until nothing stands in line, up to a number of turns. -/
def finish (t : Timeline β) : Nat → Timeline β
  | 0 => t
  | n + 1 =>
    let t := t.takeTurn
    if t.errand.isSome then t.finish n else t

/-- Ends the session: the task starts if it has not yet, what it has begun is finished, and a poll
    that is due then is made. A change that it was told of and has not begun to push is left. -/
def dispose (t : Timeline β) : Timeline β :=
  let t := if t.started then t.finish pollSteps else t.start id
  if t.nextTick ≤ t.now then t.beginPoll.finish pollSteps else t

/-- Changes the session from outside, without the task. -/
def update (t : Timeline β) (f : Session β → Session β) : Timeline β :=
  { t with session := f t.session }

end Timeline

end DesignSync
