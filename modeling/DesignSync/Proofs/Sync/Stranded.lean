import DesignSync.Proofs.Sync.Reflected

/-!
What goes by in a session while its clock runs, and the change that a session forgets: a push is put
off for the sake of an edit, the edit is undone, and no poll makes up for the push.
-/

namespace DesignSync

open Markup

namespace Timeline

variable {t : Timeline MemoryBuffer}

/-! ### What goes by while time passes -/

theorem now_of_step? {t' : Timeline MemoryBuffer} {first : Wakeup}
    {amid : MemoryBuffer → MemoryBuffer} (h : t.step? first amid = some t') : t'.now = t.now := by
  unfold step? at h
  split at h
  · cases h
    rfl
  · split at h
    · next errand _ =>
      cases h
      cases errand <;> rfl
    · split at h
      · split at h
        · cases h
          rfl
        · cases h
      · obtain rfl | rfl := begin?_cases h <;> rfl

theorem settle_eq_after (t : Timeline MemoryBuffer) (n : Nat) :
    (∃ events, t.settle n = t.after events) ∧ (t.settle n).now = t.now := by
  induction n generalizing t with
  | zero => exact ⟨⟨[], rfl⟩, rfl⟩
  | succ n ih =>
    unfold settle
    split
    · next t' hstep =>
      obtain ⟨⟨events, hevents⟩, hnow⟩ := ih t'
      have hnext : t.next (.task .change none) = t' := congrArg (·.getD t) hstep
      refine ⟨⟨.task .change none :: events, ?_⟩, hnow.trans (now_of_step? hstep)⟩
      rw [after_cons, hnext, hevents]
    · exact ⟨⟨[], rfl⟩, rfl⟩

theorem after_pass {target : Nat} (h : t.now ≤ target) :
    t.after [.pass (target - t.now)] = { t with now := target } := by
  simp [after, next, Nat.add_sub_cancel' h]

theorem settled_eq_after {now : Nat} (h : t.now ≤ now) (n : Nat) :
    ∃ events, settle { t with now := now } n = t.after events ∧
      (settle { t with now := now } n).now = now := by
  obtain ⟨⟨events, hsettled⟩, hnow⟩ := settle_eq_after { t with now := now } n
  refine ⟨.pass (now - t.now) :: events, ?_, hnow⟩
  rw [hsettled, ← List.singleton_append, after_append, after_pass h]

/-- What goes by while the clock runs are events like any others. -/
theorem run_eq_after (t : Timeline MemoryBuffer) (now target : Nat) (hnow : t.now ≤ now)
    (htarget : now ≤ target) : ∃ events, t.run now target = t.after events := by
  induction hleft : target - now using Nat.strongRecOn generalizing t now with
  | ind left ih =>
    obtain ⟨events, hsettled, hsame⟩ := settled_eq_after hnow t.maxSteps
    rw [run]
    generalize settle { t with now := now } t.maxSteps = t' at hsettled hsame
    split
    · next hlater =>
      obtain ⟨rest, hrest⟩ := ih (target - t'.nextTime) (by omega) t' t'.nextTime (by omega)
        (Nat.le_of_lt hlater.2) rfl
      exact ⟨events ++ rest, by rw [hrest, hsettled, after_append]⟩
    · refine ⟨events ++ [.pass (target - t'.now)], ?_⟩
      rw [after_append, ← hsettled, after_pass (by omega)]

/-- A session that sleeps is one of the runs, so what holds after any events holds behind it. -/
theorem sleep_eq_after (t : Timeline MemoryBuffer) (ms : Nat) :
    ∃ events, t.sleep ms = t.after events := by
  unfold sleep
  split
  · exact ⟨[], rfl⟩
  · exact t.run_eq_after _ _ (Nat.le_refl _) (Nat.le_add_right _ _)

/-! ### An edit that is undone -/

/-- At rest with its source seen, a session is told of a change while the buffer has another source,
and that edit is undone before the next poll: after the poll the session is at rest again, with
another document and with the coordinator and the buffer that it had. -/
theorem AtRest.undone_edit (h : t.AtRest) {files edited : Files} {source other : String}
    (hfiles : t.session.coordinator.buffer.files = some files)
    (hobserved : t.session.coordinator.lastObserved = some source)
    (hfile : files.get? t.config.sourcePath = some source)
    (hsynced : t.session.coordinator.hasSynced = true)
    (hother : edited.get? t.config.sourcePath = some other) (hne : other ≠ source)
    (ops : List Store.Operation)
    (hrevision : t.session.coordinator.inboundRevision ≠
      some (ops.foldl Store.perform t.session.store).revision)
    (ms : Nat) (hdue : t.nextTick ≤ t.now + ms) :
    let changed : Timeline MemoryBuffer := { t with
      now := t.now + ms
      session := { t.session with store := ops.foldl Store.perform t.session.store } }
    let events : List SessionEvent := [.edit edited, .change ops, .tell, .task .change none,
      .task .change none, .edit files, .pass ms]
    t.after (events ++ [.task .poll none, .task .poll none]) =
        { changed with nextTick := changed.tickAfter, errand := some .look } ∧
      t.after (events ++ [.task .poll none, .task .poll none, .task .poll none]) =
        { changed with
          nextTick := changed.tickAfter
          wakeAt := changed.now + t.config.debounceMs } := by
  intro changed events
  obtain ⟨⟨c, store, untold, notified, waiting⟩, now, started, nextTick, wakeAt, errand⟩ := t
  obtain ⟨⟨rfl, rfl, rfl⟩, rfl, rfl⟩ := h
  let c' : Coordinator MemoryBuffer := { c with buffer := { c.buffer with files := some edited } }
  let s' : Session MemoryBuffer := ⟨c', ops.foldl Store.perform store, 0, false, none⟩
  have hkept : s'.push id = s' := Session.push_of_unread rfl hobserved hother hne hrevision
  have hbegun : Timeline.after ⟨⟨c, store, 0, false, none⟩, now, true, nextTick, wakeAt, none⟩
      [.edit edited, .change ops, .tell, .task .change none] =
      ⟨s', now, true, nextTick, wakeAt, some .push⟩ := rfl
  have hput : Timeline.next ⟨s', now, true, nextTick, wakeAt, some .push⟩ (.task .change none) =
      ⟨s', now, true, nextTick, wakeAt, none⟩ := by
    change Timeline.mk (s'.push id) now true nextTick wakeAt none = _
    rw [hkept]
  have hundone : Timeline.after ⟨s', now, true, nextTick, wakeAt, none⟩
      [.edit files, .pass ms] = changed := by
    obtain ⟨⟨_, writes⟩, _⟩ := c
    cases hfiles
    rfl
  have hwhole (rest : List SessionEvent) :
      Timeline.after ⟨⟨c, store, 0, false, none⟩, now, true, nextTick, wakeAt, none⟩
        (events ++ rest) = changed.after rest := by
    have hevents : events ++ rest = [.edit edited, .change ops, .tell, .task .change none] ++
        (.task .change none :: ([.edit files, .pass ms] ++ rest)) := rfl
    rw [hevents, after_append, hbegun, after_cons, hput, after_append, hundone]
  have hseen : c.HasSeen := by
    intro found hfound
    have hsame : c.buffer.file? c.config.sourcePath = some source := by
      rw [MemoryBuffer.file?, hfiles]
      exact hfile
    rw [hobserved, ← hsame, hfound]
  have hidle : changed.Idle := ⟨rfl, rfl, rfl⟩
  exact ⟨(hwhole _).trans (hidle.beginPoll hdue hsynced),
    (hwhole _).trans (hidle.poll hdue hsynced hseen)⟩

private theorem collapsed_titled_ne :
    Text.collapsed (writeModule .empty [Coordinator.titled "one"] "hero" "Home").text ≠
      Text.collapsed (writeModule .empty [Coordinator.titled "two"] "hero" "Home").text :=
  fun h => absurd ((Coordinator.collapsed_titled_iff "one" "two").1 h) (by decide)

/-- A heading is pushed. Then somebody edits the source and the title of the heading changes, so
that the push of the change is put off. The edit is undone before the next poll: that poll finds the
source as it was last seen, and the new title stays behind. -/
theorem undone_edit_strands_title :
    let pushed := (titled "one").after
      [.task .change none, .task .poll none, .task .poll none, .task .poll none]
    let files := pushed.session.coordinator.buffer.files.getD Dict.empty
    let events : List SessionEvent := [.edit (files.insert "App.jsx" "<h1"),
      .change [.setAttributes "hero" (Dict.empty.insert "title" "two")], .tell, .task .change none,
      .task .change none, .edit files, .pass 2000]
    let t := pushed.after (events ++ [.task .poll none, .task .poll none, .task .poll none])
    (pushed.after (events ++ [.task .poll none, .task .poll none])).errand = some .look ∧
      t.AtRest ∧
      (∃ source, t.session.coordinator.buffer.file? "App.jsx" = some source ∧
        t.session.coordinator.lastObserved = some source) ∧
      ¬t.session.Reflects := by
  set c := Coordinator.start MemoryBuffer.fresh.opened .default Coordinator.heroCoordinator.target
  set s₁ := (Store.empty.addElement (Coordinator.titled "one")).1
  set s₂ := (s₁.setAttributes "hero" (Dict.empty.insert "title" "two")).1
  obtain ⟨c', hpushed, hfrom, hobserved, hfile⟩ := after_titled "one"
  have hmodule : c.moduleOf s₁ = writeModule .empty [Coordinator.titled "one"] "hero" "Home" := rfl
  have hmodule' : c'.moduleOf s₂ =
      writeModule .empty [Coordinator.titled "two"] "hero" "Home" := by
    rw [Coordinator.moduleOf, hfrom.target]
    rfl
  obtain ⟨files, hfiles, hget⟩ := Option.bind_eq_some_iff.1 hfile
  have hconfig : c'.config = .default := hfrom.config
  have hsaved : files.get? c'.config.sourcePath = some (c.moduleOf s₁).text := by
    rw [hconfig]
    exact hget
  have hsynced : c'.hasSynced = true := by
    rw [Coordinator.hasSynced, hfrom.lastPushed]
    rfl
  have hother : (files.insert "App.jsx" "<h1").get? c'.config.sourcePath = some "<h1" := by
    rw [hconfig]
    exact Dict.get?_insert_self _ _ _
  have hne : "<h1" ≠ (c.moduleOf s₁).text := by
    rw [hmodule, (Coordinator.writeModule_titled "one").1]
    decide +kernel
  have hnone : c'.inboundRevision = none := hfrom.inboundRevision
  have hrevision : c'.inboundRevision ≠ some s₂.revision := by
    rw [hnone]
    exact (Option.some_ne_none _).symm
  have hrest : AtRest (⟨⟨c', s₁, 0, false, none⟩, 0, true, 2000, 300, none⟩) :=
    ⟨⟨rfl, rfl, rfl⟩, rfl, rfl⟩
  obtain ⟨hlook, hpolled⟩ := hrest.undone_edit hfiles hobserved hsaved hsynced hother hne
    [.setAttributes "hero" (Dict.empty.insert "title" "two")] hrevision 2000 (Nat.le_refl _)
  have hsome : c'.buffer.files.getD Dict.empty = files := by rw [hfiles, Option.getD_some]
  dsimp only
  rw [hpushed, hsome]
  refine ⟨by rw [hlook], ?_⟩
  rw [hpolled]
  refine ⟨⟨⟨rfl, rfl, rfl⟩, rfl, rfl⟩, ⟨_, hfile, hobserved⟩, fun hreflects => ?_⟩
  obtain hpulled | hsame := hreflects
  · rw [hnone] at hpulled
    cases hpulled
  · have hwords : Text.collapsed (c.moduleOf s₁).text = Text.collapsed (c'.moduleOf s₂).text :=
      Option.some.inj (hfrom.lastPushed.symm.trans hsame)
    rw [hmodule, hmodule'] at hwords
    exact collapsed_titled_ne hwords

end Timeline

end DesignSync
