import NextApi.Media.Tasks

/-!
# Runs of the media pollers

A row that has a final status keeps it (`final_run`). A poller goes on to log the event of a task
only after its own `UPDATE` has moved the row to success or failure, and an `UPDATE` moves a row out
of the open statuses once; so of all pollers and events there is at most one for a task
(`Settled`). `done_once` puts this together for every run.
-/

set_option autoImplicit false

namespace NextApi.Media

open Json Logging

/-! ### Rows -/

namespace TaskTable

theorem update_snd {rows : TaskTable} {id : Uuid} {f : MediaTaskRow → MediaTaskRow} :
    (rows.update id f).2 = true ↔ ∃ r, rows.lookup id = some r ∧ r.status.isOpen = true := by
  unfold update
  split
  · next r hr =>
    rw [hr]
    split
    · next hopen => exact iff_of_true rfl ⟨r, rfl, hopen⟩
    · next hopen =>
      refine iff_of_false Bool.false_ne_true ?_
      rintro ⟨r', hr', hopen'⟩
      exact hopen (Option.some.inj hr' ▸ hopen')
  · next hr =>
    rw [hr]
    refine iff_of_false Bool.false_ne_true ?_
    rintro ⟨r, hr', -⟩
    exact Option.some_ne_none r hr'.symm

/-- An `UPDATE` changes a row with its id that is open, and nothing else. -/
theorem lookup_update {rows : TaskTable} {id other : Uuid} {f : MediaTaskRow → MediaTaskRow} :
    (rows.update id f).1.lookup other =
      if id = other ∧ (rows.update id f).2 = true then (rows.lookup other).map f
      else rows.lookup other := by
  unfold update
  split
  · next r hr =>
    split
    · next hopen =>
      by_cases hid : id = other
      · rw [if_pos ⟨hid, rfl⟩, ← hid, Table.lookup_insert, if_pos rfl, hr, Option.map_some]
      · rw [if_neg fun h ↦ hid h.1, Table.lookup_insert, if_neg hid]
    · rw [if_neg fun h ↦ Bool.false_ne_true h.2]
  · rw [if_neg fun h ↦ Bool.false_ne_true h.2]

/-- A row that is not open is left alone. -/
theorem lookup_update_of_closed {rows : TaskTable} {id other : Uuid}
    {f : MediaTaskRow → MediaTaskRow} {r : MediaTaskRow} (hr : rows.lookup other = some r)
    (hclosed : r.status.isOpen = false) : (rows.update id f).1.lookup other = some r := by
  rw [lookup_update, if_neg, hr]
  rintro ⟨rfl, hdone⟩
  obtain ⟨r', hr', hopen⟩ := update_snd.1 hdone
  rw [hr] at hr'
  rw [Option.some.inj hr', hopen] at hclosed
  exact Bool.false_ne_true hclosed.symm

/-- The row is there, and has a final status. -/
def Closed (rows : TaskTable) (id : Uuid) : Prop :=
  ∃ r, rows.lookup id = some r ∧ r.status.isOpen = false

end TaskTable

section

variable [FieldText]

/-- What the `UPDATE` of a poller does to the rows: it is one of the four conditional ones, or there
is none. -/
theorem Poller.write_rows (p : Poller) (rows : TaskTable) (now : ℤ) :
    (p.write rows now).1 = rows ∨ ∃ id f, (p.write rows now).1 = (rows.update id f).1 := by
  unfold Poller.write
  split
  · exact Or.inr ⟨_, _, rfl⟩
  · exact Or.inr ⟨_, _, rfl⟩
  · exact Or.inr ⟨_, _, rfl⟩
  · exact Or.inr ⟨_, _, rfl⟩
  · exact Or.inl rfl

/-- The rows after an action. -/
theorem State.rows_step (s : State) (a : Action) :
    (s.step a).rows = s.rows ∨
      (∃ row, s.rows.lookup row.id = none ∧ (s.step a).rows = s.rows.insert row.id row) ∨
      ∃ id f, (s.step a).rows = (s.rows.update id f).1 := by
  cases a with
  | insert row =>
    rw [step]
    split
    · next hrow => exact Or.inr (Or.inl ⟨{ row with status := .pending }, hrow, rfl⟩)
    · exact Or.inl rfl
  | select w maxAgeHours =>
    refine Or.inl ?_
    rw [step, startRound]
    split
    · rfl
    · split <;> rfl
  | next w now upstream | reply w now answer | price w result | refused w =>
    refine Or.inl ?_
    rw [step, onPoller]
    split <;> rfl
  | write w now =>
    rw [step]
    split
    · next p hp =>
      rcases p.write_rows s.rows now with h | h
      · exact Or.inl h
      · exact Or.inr (Or.inr h)
    · exact Or.inl rfl
  | log w =>
    refine Or.inl ?_
    rw [step]
    split
    · split <;> rfl
    · rfl
  | stop w => exact Or.inl rfl

/-- A row with a final status is never changed again. -/
theorem State.closed_step {s : State} {id : Uuid} {r : MediaTaskRow}
    (hr : s.rows.lookup id = some r) (hclosed : r.status.isOpen = false) (a : Action) :
    (s.step a).rows.lookup id = some r := by
  rcases s.rows_step a with h | ⟨row, hrow, h⟩ | ⟨id', f, h⟩
  · rw [h, hr]
  · rw [h, Table.lookup_insert, if_neg, hr]
    rintro rfl
    exact Option.some_ne_none r (hr.symm.trans hrow)
  · rw [h]
    exact TaskTable.lookup_update_of_closed hr hclosed

theorem State.final_run {s : State} {id : Uuid} {r : MediaTaskRow}
    (hr : s.rows.lookup id = some r) (hclosed : r.status.isOpen = false) (actions : List Action) :
    (s.run actions).rows.lookup id = some r :=
  Transition.run_preserves (P := fun s : State ↦ s.rows.lookup id = some r)
    (fun _ a h ↦ closed_step h hclosed a) hr actions

theorem State.closed_preserved {s : State} {id : Uuid} (h : s.rows.Closed id) (a : Action) :
    (s.step a).rows.Closed id := by
  obtain ⟨r, hr, hclosed⟩ := h
  exact ⟨r, closed_step hr hclosed a, hclosed⟩

/-! ### Pollers -/

/-- A poller is about to log the event of a task. -/
def Poller.Logs (p : Poller) (id : Uuid) (ev : LogEvent) : Prop := p.point = .logging id ev

omit [FieldText] in
/-- Only an `UPDATE` leads to the log. -/
theorem Poller.logs_start {p : Poller} {now : ℤ} {upstream : Option Bool} {id : Uuid}
    {ev : LogEvent} (h : (p.start now upstream).Logs id ev) : p.Logs id ev := by
  unfold Poller.start Poller.Logs at h
  split at h
  · next hidle _ =>
    dsimp only at h
    split at h
    · exact absurd h (by simp)
    · split at h
      · exact absurd (hidle.symm.trans h) (by simp)
      · split at h
        · exact absurd h (by simp)
        · exact absurd (hidle.symm.trans h) (by simp)
  · exact h

omit [FieldText] in
theorem Poller.logs_answered {p : Poller} {now : ℤ} {answer : Option Value} {id : Uuid}
    {ev : LogEvent} (h : (p.answered now answer).Logs id ev) : p.Logs id ev := by
  unfold Poller.answered Poller.Logs at h
  split at h
  · split at h
    · exact absurd h (by simp)
    · dsimp only at h
      split at h <;> exact absurd h (by simp)
  · exact h

omit [FieldText] in
theorem Poller.logs_priced {p : Poller} {result : Option Priced} {id : Uuid} {ev : LogEvent}
    (h : (p.priced result).Logs id ev) : p.Logs id ev := by
  unfold Poller.priced Poller.Logs at h
  split at h
  · exact absurd h (by simp)
  · exact h

omit [FieldText] in
theorem Poller.logs_refused {p : Poller} {id : Uuid} {ev : LogEvent}
    (h : p.refused.Logs id ev) : p.Logs id ev := by
  unfold Poller.refused Poller.Logs at h
  split at h
  · exact absurd h (by simp)
  · exact absurd h (by simp)
  · exact absurd h (by simp)
  · exact absurd h (by simp)
  · exact h

/-- The row was open before the statement, and has a final status after it, which the event tells. -/
def Finishes (before after : TaskTable) (id : Uuid) (ev : LogEvent) : Prop :=
  (∃ r, before.lookup id = some r ∧ r.status.isOpen = true) ∧
    ∃ r, after.lookup id = some r ∧
      (r.status = .succeeded ∧ ev.status = 200 ∨ r.status = .failed ∧ ev.status = 502)

omit [FieldText] in
theorem Finishes.closed {before after : TaskTable} {id : Uuid} {ev : LogEvent}
    (h : Finishes before after id ev) : after.Closed id := by
  obtain ⟨-, r, hr, hstatus⟩ := h
  refine ⟨r, hr, ?_⟩
  rcases hstatus with ⟨h, -⟩ | ⟨h, -⟩ <;> rw [h] <;> rfl

omit [FieldText] in
theorem Finishes.not_closed {before after : TaskTable} {id : Uuid} {ev : LogEvent}
    (h : Finishes before after id ev) : ¬ before.Closed id := by
  rintro ⟨r, hr, hclosed⟩
  obtain ⟨⟨r', hr', hopen⟩, -⟩ := h
  rw [hr] at hr'
  rw [Option.some.inj hr', hopen] at hclosed
  exact Bool.false_ne_true hclosed.symm

omit [FieldText] in
theorem finishes_update {rows : TaskTable} {id : Uuid} {f : MediaTaskRow → MediaTaskRow}
    {ev : LogEvent} (hdone : (rows.update id f).2 = true)
    (hf : ∀ r, (f r).status = .succeeded ∧ ev.status = 200 ∨
      (f r).status = .failed ∧ ev.status = 502) : Finishes rows (rows.update id f).1 id ev := by
  obtain ⟨r, hr, hopen⟩ := TaskTable.update_snd.1 hdone
  refine ⟨⟨r, hr, hopen⟩, f r, ?_, hf r⟩
  rw [TaskTable.lookup_update, if_pos ⟨rfl, hdone⟩, hr, Option.map_some]

/-- A poller that goes on to the log was there before, or has just finished the task. -/
theorem Poller.logs_write {p : Poller} {rows : TaskTable} {now : ℤ} {id : Uuid} {ev : LogEvent}
    (h : (p.write rows now).2 = .logging id ev) :
    (p.Logs id ev ∧ (p.write rows now).1 = rows) ∨ Finishes rows (p.write rows now).1 id ev := by
  unfold Poller.write at h ⊢
  split at h
  · exact absurd h (by simp)
  · dsimp only at h ⊢
    split at h
    · next hdone =>
      rw [Point.logging.injEq] at h
      obtain ⟨rfl, rfl⟩ := h
      exact Or.inr (finishes_update hdone fun _ ↦ Or.inl ⟨rfl, rfl⟩)
    · exact absurd h (by simp)
  · dsimp only at h ⊢
    split at h
    · next hdone =>
      rw [Point.logging.injEq] at h
      obtain ⟨rfl, rfl⟩ := h
      exact Or.inr (finishes_update hdone fun _ ↦ Or.inr ⟨rfl, rfl⟩)
    · exact absurd h (by simp)
  · exact absurd h (by simp)
  · exact Or.inl ⟨h, rfl⟩

namespace State

/-- The poller is about to log the event. -/
def Logging (s : State) (w : ℕ) (id : Uuid) (ev : LogEvent) : Prop :=
  ∃ p, s.pollers.lookup w = some p ∧ p.Logs id ev

/-- The event was logged. -/
def Logged (s : State) (id : Uuid) : Prop := id ∈ s.events.map Emitted.taskId

omit [FieldText] in
theorem logging_insert {s : State} {rows : TaskTable} {events : List Emitted} {w w' : ℕ}
    {p : Poller} {id : Uuid} {ev : LogEvent}
    (h : Logging { rows := rows, pollers := s.pollers.insert w p, events := events } w' id ev) :
    (w = w' ∧ p.Logs id ev) ∨ (w ≠ w' ∧ s.Logging w' id ev) := by
  obtain ⟨p', hp', hlogs⟩ := h
  rw [Table.lookup_insert] at hp'
  split at hp'
  · next hw => exact Or.inl ⟨hw, Option.some.inj hp' ▸ hlogs⟩
  · next hw => exact Or.inr ⟨hw, p', hp', hlogs⟩

omit [FieldText] in
theorem logging_onPoller {s : State} {w w' : ℕ} {f : Poller → Poller} {id : Uuid} {ev : LogEvent}
    (hf : ∀ p : Poller, (f p).Logs id ev → p.Logs id ev) (h : (s.onPoller w f).Logging w' id ev) :
    s.Logging w' id ev := by
  unfold onPoller at h
  split at h
  · next p hp =>
    rcases logging_insert h with ⟨rfl, hlogs⟩ | ⟨-, hlogs⟩
    · exact ⟨p, hp, hf p hlogs⟩
    · exact hlogs
  · exact h

omit [FieldText] in
theorem logging_startRound {s : State} {w w' maxAgeHours : ℕ} {id : Uuid} {ev : LogEvent}
    (h : (s.startRound w maxAgeHours).Logging w' id ev) : s.Logging w' id ev := by
  unfold startRound at h
  split at h
  · rcases logging_insert h with ⟨-, hlogs⟩ | ⟨-, hlogs⟩
    · exact absurd hlogs (by simp [Poller.Logs])
    · exact hlogs
  · split at h
    · rcases logging_insert h with ⟨-, hlogs⟩ | ⟨-, hlogs⟩
      · exact absurd hlogs (by simp [Poller.Logs])
      · exact hlogs
    · exact h

/-- The action of a poller that finishes a task. -/
def FinishStep (s : State) (w : ℕ) (id : Uuid) (ev : LogEvent) (a : Action) : Prop :=
  ∃ now, a = .write w now ∧ Finishes s.rows (s.step a).rows id ev

/-- A poller is about to log after an action when it was before and did not log, or when the action
was its own `UPDATE` and finished the task. -/
theorem logging_step {s : State} {a : Action} {w : ℕ} {id : Uuid} {ev : LogEvent}
    (h : (s.step a).Logging w id ev) :
    (s.Logging w id ev ∧ a ≠ .log w) ∨ s.FinishStep w id ev a := by
  cases a with
  | insert row =>
    refine Or.inl ⟨?_, by simp⟩
    rw [step] at h
    split at h <;> exact h
  | select w' maxAgeHours => exact Or.inl ⟨logging_startRound h, by simp⟩
  | next w' now upstream => exact Or.inl ⟨logging_onPoller (fun _ ↦ Poller.logs_start) h, by simp⟩
  | reply w' now answer =>
    exact Or.inl ⟨logging_onPoller (fun _ ↦ Poller.logs_answered) h, by simp⟩
  | price w' result => exact Or.inl ⟨logging_onPoller (fun _ ↦ Poller.logs_priced) h, by simp⟩
  | refused w' => exact Or.inl ⟨logging_onPoller (fun _ ↦ Poller.logs_refused) h, by simp⟩
  | write w' now =>
    rw [step] at h
    split at h
    · next p hp =>
      rcases logging_insert h with ⟨rfl, hlogs⟩ | ⟨-, hlogs⟩
      · rcases Poller.logs_write hlogs with ⟨hlogs, -⟩ | hfinish
        · exact Or.inl ⟨⟨p, hp, hlogs⟩, by simp⟩
        · refine Or.inr ⟨now, rfl, ?_⟩
          rw [step, hp]
          exact hfinish
      · exact Or.inl ⟨hlogs, by simp⟩
    · exact Or.inl ⟨h, by simp⟩
  | log w' =>
    refine Or.inl ?_
    rw [step] at h
    split at h
    · next p hp =>
      split at h
      · rcases logging_insert h with ⟨-, hlogs⟩ | ⟨hw, hlogs⟩
        · exact absurd hlogs (by simp [Poller.Logs])
        · exact ⟨hlogs, fun heq ↦ hw (Action.log.inj heq)⟩
      · next hpoint =>
        refine ⟨h, fun heq ↦ ?_⟩
        obtain ⟨p', hp', hlogs⟩ := h
        rw [Action.log.inj heq, hp'] at hp
        exact hpoint id ev (Option.some.inj hp ▸ hlogs)
    · next hp =>
      refine ⟨h, fun heq ↦ ?_⟩
      obtain ⟨p', hp', -⟩ := h
      rw [Action.log.inj heq, hp'] at hp
      exact Option.some_ne_none p' hp
  | stop w' =>
    refine Or.inl ⟨?_, by simp⟩
    obtain ⟨p, hp, hlogs⟩ := h
    rw [step, Table.lookup_erase] at hp
    split at hp
    · exact absurd hp.symm (Option.some_ne_none p)
    · exact ⟨p, hp, hlogs⟩

/-- The events after an action: one more, of the poller that logs it. -/
theorem events_step (s : State) (a : Action) :
    (s.step a).events = s.events ∨
      ∃ w id ev, a = .log w ∧ s.Logging w id ev ∧ (s.step a).events = s.events ++ [⟨w, id, ev⟩] := by
  cases a with
  | insert row =>
    rw [step]
    split <;> exact Or.inl rfl
  | select w maxAgeHours =>
    refine Or.inl ?_
    rw [step, startRound]
    split
    · rfl
    · split <;> rfl
  | next w now upstream | reply w now answer | price w result | refused w =>
    refine Or.inl ?_
    rw [step, onPoller]
    split <;> rfl
  | write w now =>
    rw [step]
    split <;> exact Or.inl rfl
  | log w =>
    rw [step]
    split
    · next p hp =>
      split
      · next id ev hpoint => exact Or.inr ⟨w, id, ev, rfl, ⟨p, hp, hpoint⟩, rfl⟩
      · exact Or.inl rfl
    · exact Or.inl rfl
  | stop w => exact Or.inl rfl

/-! ### The invariant -/

/-- A task with an event, logged or about to be, is finished, and has no other event. -/
structure Settled (s : State) : Prop where
  nodup : (s.events.map Emitted.taskId).Nodup
  logged : ∀ {id}, s.Logged id → s.rows.Closed id
  logging : ∀ {w id ev}, s.Logging w id ev → s.rows.Closed id
  waiting : ∀ {w id ev}, s.Logging w id ev → ¬ s.Logged id
  unique : ∀ {w w' id ev ev'}, s.Logging w id ev → s.Logging w' id ev' → w = w'

omit [FieldText] in
theorem settled_start (rows : TaskTable) : Settled { rows := rows } where
  nodup := List.nodup_nil
  logged h := absurd h List.not_mem_nil
  logging h := absurd h.choose_spec.1 (by simp)
  waiting h := absurd h.choose_spec.1 (by simp)
  unique h := absurd h.choose_spec.1 (by simp)

/-- A task that an action finishes has no event yet. -/
theorem Settled.fresh {s : State} (h : s.Settled) {w : ℕ} {id : Uuid} {ev : LogEvent}
    {a : Action} (hfinish : s.FinishStep w id ev a) :
    ¬ s.Logged id ∧ ∀ w' ev', ¬ s.Logging w' id ev' := by
  obtain ⟨now, -, hfinish⟩ := hfinish
  exact ⟨fun hlogged ↦ hfinish.not_closed (h.logged hlogged),
    fun w' ev' hlogging ↦ hfinish.not_closed (h.logging hlogging)⟩

theorem Settled.step {s : State} (h : s.Settled) (a : Action) : (s.step a).Settled where
  nodup := by
    rcases s.events_step a with hevents | ⟨w, id, ev, -, hlogging, hevents⟩
    · rw [hevents]
      exact h.nodup
    · rw [hevents, List.map_append, List.nodup_append]
      refine ⟨h.nodup, List.nodup_singleton _, ?_⟩
      intro x hx y hy hxy
      rw [List.map_singleton, List.mem_singleton] at hy
      rw [hxy, hy] at hx
      exact h.waiting hlogging hx
  logged := by
    intro id hlogged
    rw [Logged] at hlogged
    refine closed_preserved ?_ a
    rcases s.events_step a with hevents | ⟨w, id', ev, -, hlogging, hevents⟩
    · rw [hevents] at hlogged
      exact h.logged hlogged
    · rw [hevents, List.map_append, List.mem_append, List.map_singleton,
        List.mem_singleton] at hlogged
      rcases hlogged with hlogged | rfl
      · exact h.logged hlogged
      · exact h.logging hlogging
  logging := by
    intro w id ev hlogging
    rcases logging_step hlogging with ⟨hlogging, -⟩ | ⟨now, -, hfinish⟩
    · exact closed_preserved (h.logging hlogging) a
    · exact hfinish.closed
  waiting := by
    intro w id ev hlogging hlogged
    rw [Logged] at hlogged
    rcases s.events_step a with hevents | ⟨w', id', ev', hlog, hlogging', hevents⟩
    · rw [hevents] at hlogged
      rcases logging_step hlogging with ⟨hlogging, -⟩ | hfinish
      · exact h.waiting hlogging hlogged
      · exact (h.fresh hfinish).1 hlogged
    · rcases logging_step hlogging with ⟨hlogging, hne⟩ | ⟨now, hwrite, -⟩
      · rw [hevents, List.map_append, List.mem_append, List.map_singleton,
          List.mem_singleton] at hlogged
        rcases hlogged with hlogged | rfl
        · exact h.waiting hlogging hlogged
        · exact hne (h.unique hlogging hlogging' ▸ hlog)
      · exact absurd (hlog.symm.trans hwrite) (by simp)
  unique := by
    intro w w' id ev ev' hlogging hlogging'
    rcases logging_step hlogging with ⟨hlogging, -⟩ | hfinish
    · rcases logging_step hlogging' with ⟨hlogging', -⟩ | hfinish'
      · exact h.unique hlogging hlogging'
      · exact absurd hlogging ((h.fresh hfinish').2 w ev)
    · rcases logging_step hlogging' with ⟨hlogging', -⟩ | hfinish'
      · exact absurd hlogging' ((h.fresh hfinish).2 w' ev')
      · obtain ⟨now, hwrite, -⟩ := hfinish
        obtain ⟨now', hwrite', -⟩ := hfinish'
        exact (Action.write.inj (hwrite.symm.trans hwrite')).1

/-! ### Every run -/

/-- The poller's own `UPDATE`, at some point of the run, finished the task. -/
def FinishedBy (s : State) (actions : List Action) (w : ℕ) (id : Uuid) (ev : LogEvent) : Prop :=
  ∃ before a after, actions = before ++ a :: after ∧ (s.run before).FinishStep w id ev a

theorem FinishedBy.snoc {s : State} {actions : List Action} {w : ℕ} {id : Uuid} {ev : LogEvent}
    (h : s.FinishedBy actions w id ev) (a : Action) : s.FinishedBy (actions ++ [a]) w id ev := by
  obtain ⟨before, b, after, rfl, hfinish⟩ := h
  refine ⟨before, b, after ++ [a], ?_, hfinish⟩
  rw [List.append_assoc, List.cons_append]

/-- Whoever logs an event, or is about to, has finished the task. -/
theorem finishedBy_run (rows : TaskTable) (actions : List Action) :
    (∀ {w id ev}, (run { rows := rows } actions).Logging w id ev →
      FinishedBy { rows := rows } actions w id ev) ∧
    ∀ e ∈ (run { rows := rows } actions).events,
      FinishedBy { rows := rows } actions e.poller e.taskId e.event := by
  refine Transition.run_history
    (P := fun actions (s : State) ↦ (∀ {w id ev}, s.Logging w id ev →
      FinishedBy { rows := rows } actions w id ev) ∧
      ∀ e ∈ s.events, FinishedBy { rows := rows } actions e.poller e.taskId e.event) ?_ ?_ actions
  · exact ⟨fun h ↦ absurd h.choose_spec.1 (by simp), fun e he ↦ absurd he List.not_mem_nil⟩
  · rintro before a ⟨hlogging, hlogged⟩
    refine ⟨?_, ?_⟩
    · intro w id ev h
      rcases logging_step h with ⟨h, -⟩ | hfinish
      · exact (hlogging h).snoc a
      · exact ⟨before, a, [], rfl, hfinish⟩
    · intro e he
      rcases events_step (Transition.run step { rows := rows } before) a with
        hevents | ⟨w, id, ev, -, h, hevents⟩
      · rw [hevents] at he
        exact (hlogged e he).snoc a
      · rw [hevents, List.mem_append, List.mem_singleton] at he
        rcases he with he | rfl
        · exact (hlogged e he).snoc a
        · exact (hlogging h).snoc a

end State

/-- Every run of any number of pollers over any tasks: a final status is never left, a task has at
most one event, and it comes from the poller whose own `UPDATE` moved the task to success or
failure. -/
theorem done_once (rows : TaskTable) (actions : List Action) :
    (∀ before after, actions = before ++ after → ∀ id r,
      (State.run { rows := rows } before).rows.lookup id = some r → r.status.isOpen = false →
        ∃ r', (State.run { rows := rows } actions).rows.lookup id = some r' ∧
          r'.status = r.status) ∧
    (∀ id, ((State.run { rows := rows } actions).events.filter
      fun e ↦ decide (e.taskId = id)).length ≤ 1) ∧
    ∀ e ∈ (State.run { rows := rows } actions).events,
      State.FinishedBy { rows := rows } actions e.poller e.taskId e.event := by
  refine ⟨?_, ?_, (State.finishedBy_run rows actions).2⟩
  · rintro before after rfl id r hr hclosed
    refine ⟨r, ?_, rfl⟩
    rw [State.run, Transition.run_append]
    exact State.final_run hr hclosed after
  · intro id
    have hsettled : (State.run { rows := rows } actions).Settled :=
      Transition.run_preserves (fun _ a h ↦ h.step a) (State.settled_start rows) actions
    have hcount := List.nodup_iff_count_le_one.1 hsettled.nodup id
    rw [List.count_eq_countP, List.countP_map, List.countP_eq_length_filter] at hcount
    refine le_of_eq_of_le (congrArg List.length (List.filter_congr fun e _ ↦ ?_)) hcount
    rfl

end

end NextApi.Media
