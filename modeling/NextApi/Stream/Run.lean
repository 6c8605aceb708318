import Mathlib.Data.List.Basic
import Mathlib.Data.List.Induction

/-!
# Runs of transition systems and of transducers

A system goes from state to state, one action after another. What every action preserves holds
after a run (`Transition.run_preserves`), and a property of a state together with the actions that
led to it is proved action by action (`run_history`), also where every action of the run meets a
condition (`history_of_eachStep`). What every action either writes anew or keeps is what was written
last (`latest_eq`).

A transducer is a step function that takes a state and an input to a state and a list of outputs;
`Stream.run` feeds it a list of inputs and joins the outputs. A reader of the outputs is a left
fold. `run_follows` relates the state of the transducer, the inputs consumed so far and the state of
a reader that has seen the outputs: a relation kept by every step holds of the whole run.
`run_follows_along` asks for the step only at inputs that are admissible after the inputs before
them, and so proves facts about the runs all of whose steps are admissible.
-/

set_option autoImplicit false

namespace NextApi.Transition

variable {σ α : Type} (step : σ → α → σ)

/-- The state after the actions. -/
def run (s : σ) (actions : List α) : σ := actions.foldl step s

@[simp] theorem run_nil (s : σ) : run step s [] = s := rfl

@[simp] theorem run_cons (s : σ) (a : α) (actions : List α) :
    run step s (a :: actions) = run step (step s a) actions := rfl

theorem run_append (s : σ) (before after : List α) :
    run step s (before ++ after) = run step (run step s before) after :=
  List.foldl_append

theorem run_snoc (s : σ) (before : List α) (a : α) :
    run step s (before ++ [a]) = step (run step s before) a :=
  run_append step s before [a]

variable {step}

theorem run_preserves {P : σ → Prop} (hstep : ∀ s a, P s → P (step s a)) {s : σ} (h : P s)
    (actions : List α) : P (run step s actions) := by
  induction actions generalizing s with
  | nil => exact h
  | cons a rest ih => exact ih (hstep s a h)

/-- What holds of a state and the actions that led to it. -/
theorem run_history {P : List α → σ → Prop} {s : σ} (h : P [] s)
    (hstep : ∀ before a, P before (run step s before) →
      P (before ++ [a]) (step (run step s before) a)) (actions : List α) :
    P actions (run step s actions) := by
  induction actions using List.reverseRecOn with
  | nil => exact h
  | append_singleton before a ih =>
    rw [run_snoc]
    exact hstep before a ih

/-- Every action of a run meets a condition on the state before it. -/
def EachStep (step : σ → α → σ) (ok : σ → α → Prop) (s : σ) (actions : List α) : Prop :=
  ∀ before a after, actions = before ++ a :: after → ok (run step s before) a

theorem eachStep_nil {ok : σ → α → Prop} {s : σ} : EachStep step ok s [] := by
  intro before a after h
  exact absurd h (by simp)

theorem eachStep_cons {ok : σ → α → Prop} {s : σ} {a : α} {actions : List α} :
    EachStep step ok s (a :: actions) ↔ ok s a ∧ EachStep step ok (step s a) actions := by
  constructor
  · intro h
    refine ⟨h [] a actions rfl, fun before b after hactions ↦ ?_⟩
    exact h (a :: before) b after (by rw [hactions, List.cons_append])
  · intro ⟨hfirst, hrest⟩ before b after hactions
    cases before with
    | nil =>
      obtain ⟨rfl, -⟩ := List.cons.inj hactions
      exact hfirst
    | cons c before =>
      obtain ⟨rfl, hrest'⟩ := List.cons.inj hactions
      exact hrest before b after hrest'

theorem eachStep_append {ok : σ → α → Prop} {s : σ} {first second : List α} :
    EachStep step ok s (first ++ second) ↔
      EachStep step ok s first ∧ EachStep step ok (run step s first) second := by
  induction first generalizing s with
  | nil => rw [List.nil_append, run_nil, and_iff_right eachStep_nil]
  | cons a rest ih =>
    rw [List.cons_append, eachStep_cons, eachStep_cons, ih, run_cons, and_assoc]

theorem eachStep_snoc {ok : σ → α → Prop} {s : σ} {actions : List α} {a : α} :
    EachStep step ok s (actions ++ [a]) ↔
      EachStep step ok s actions ∧ ok (run step s actions) a := by
  rw [eachStep_append, eachStep_cons, and_iff_left eachStep_nil]

/-- What the actions that meet a condition preserve holds after a run of them. -/
theorem run_of_eachStep {ok : σ → α → Prop} {P : σ → Prop}
    (hstep : ∀ s a, ok s a → P s → P (step s a)) {s : σ} {actions : List α}
    (hok : EachStep step ok s actions) (h : P s) : P (run step s actions) := by
  induction actions generalizing s with
  | nil => exact h
  | cons a rest ih =>
    obtain ⟨ha, hrest⟩ := eachStep_cons.1 hok
    exact ih hrest (hstep s a ha h)

/-- What holds in every state of a run whose actions meet a condition. -/
theorem history_of_eachStep {ok : σ → α → Prop} {P : List α → σ → Prop} {s : σ}
    {actions : List α} (hok : EachStep step ok s actions) (h : P [] s)
    (hstep : ∀ before a, ok (run step s before) a → P before (run step s before) →
      P (before ++ [a]) (step (run step s before) a)) :
    ∀ before, before <+: actions → P before (run step s before) := by
  intro before
  induction before using List.reverseRecOn with
  | nil => exact fun _ ↦ h
  | append_singleton before a ih =>
    rintro ⟨after, rfl⟩
    rw [run_snoc]
    have hactions : before ++ [a] ++ after = before ++ a :: after := by simp
    rw [hactions] at hok ih
    exact hstep before a (hok before a after rfl) (ih (List.prefix_append before (a :: after)))

/-- A property that an action keeps just when it meets a condition holds in all states of the runs
whose actions meet it, and of no others. -/
theorem forall_run_iff_eachStep {ok : σ → α → Prop} {P : σ → Prop} {s : σ} (h : P s)
    (hstep : ∀ before a, P (run step s before) →
      (P (step (run step s before) a) ↔ ok (run step s before) a)) (actions : List α) :
    (∀ before after, actions = before ++ after → P (run step s before)) ↔
      EachStep step ok s actions := by
  constructor
  · intro hall before a after hactions
    have hbefore := hall before (a :: after) hactions
    have hafter := hall (before ++ [a]) after (by rw [hactions, List.append_assoc]; rfl)
    rw [run_snoc] at hafter
    exact (hstep before a hbefore).1 hafter
  · intro hok before after hactions
    exact @history_of_eachStep _ _ step ok (fun _ s ↦ P s) s actions hok h
      (fun before a ha hbefore ↦ (hstep before a hbefore).2 ha) before ⟨after, hactions.symm⟩

/-- The last thing that the actions give, or what was there before. -/
def latest {β : Type} (step : σ → α → σ) (emit : σ → α → Option β) :
    Option β → σ → List α → Option β
  | last, _, [] => last
  | last, s, a :: rest => latest step emit ((emit s a).or last) (step s a) rest

theorem latest_eq {β : Type} {emit : σ → α → Option β} {f : σ → Option β}
    (h : ∀ s a, f (step s a) = (emit s a).or (f s)) (s : σ) (actions : List α) :
    latest step emit (f s) s actions = f (run step s actions) := by
  induction actions generalizing s with
  | nil => rfl
  | cons a rest ih => rw [latest, ← h, ih, run_cons]

end NextApi.Transition

namespace NextApi.Stream

variable {σ τ ι ω : Type*}

/-- The state after a list of inputs, and all outputs in order. -/
def run (step : σ → ι → σ × List ω) : σ → List ι → σ × List ω
  | s, [] => (s, [])
  | s, i :: rest =>
    let next := step s i
    let tail := run step next.1 rest
    (tail.1, next.2 ++ tail.2)

variable (step : σ → ι → σ × List ω)

@[simp] theorem run_nil (s : σ) : run step s [] = (s, []) := rfl

@[simp] theorem run_cons (s : σ) (i : ι) (rest : List ι) :
    run step s (i :: rest) =
      ((run step (step s i).1 rest).1, (step s i).2 ++ (run step (step s i).1 rest).2) := rfl

theorem run_append (s : σ) (first second : List ι) :
    run step s (first ++ second) =
      ((run step (run step s first).1 second).1,
        (run step s first).2 ++ (run step (run step s first).1 second).2) := by
  induction first generalizing s with
  | nil => simp
  | cons i rest ih => simp [ih]

/-- Reading the outputs of a run is one left fold over its inputs. -/
theorem foldl_run (read : τ → ω → τ) (s : σ) (t : τ) (inputs : List ι) :
    ((run step s inputs).1, (run step s inputs).2.foldl read t) =
      inputs.foldl (fun p i ↦ ((step p.1 i).1, (step p.1 i).2.foldl read p.2)) (s, t) := by
  induction inputs generalizing s t with
  | nil => rfl
  | cons i rest ih =>
    rw [List.foldl_cons, ← ih, run_cons, List.foldl_append]

/-- A relation between the consumed inputs, the state and a reader of the outputs, kept by every
step at an admissible input, holds after every run of admissible inputs. -/
theorem run_follows_along (read : τ → ω → τ) {Admissible : List ι → ι → Prop}
    {R : List ι → σ → τ → Prop}
    (hstep : ∀ past i s t, Admissible past i → R past s t →
      R (past ++ [i]) (step s i).1 ((step s i).2.foldl read t))
    {past : List ι} {s : σ} {t : τ} (h : R past s t) (inputs : List ι)
    (hall : ∀ before i after, inputs = before ++ i :: after → Admissible (past ++ before) i) :
    R (past ++ inputs) (run step s inputs).1 ((run step s inputs).2.foldl read t) := by
  induction inputs generalizing past s t with
  | nil => simpa using h
  | cons i rest ih =>
    have hi : Admissible past i := by simpa using hall [] i rest rfl
    have hrest := ih (hstep past i s t hi h) fun before j after hsplit ↦ by
      have := hall (i :: before) j after (by rw [hsplit]; rfl)
      simpa using this
    simpa [List.foldl_append] using hrest

/-- A relation between the consumed inputs, the state and a reader of the outputs, kept by every
step, holds after every run. -/
theorem run_follows (read : τ → ω → τ) {R : List ι → σ → τ → Prop}
    (hstep : ∀ past i s t, R past s t →
      R (past ++ [i]) (step s i).1 ((step s i).2.foldl read t))
    {past : List ι} {s : σ} {t : τ} (h : R past s t) (inputs : List ι) :
    R (past ++ inputs) (run step s inputs).1 ((run step s inputs).2.foldl read t) :=
  run_follows_along step read (fun past i s t (_ : True) hR ↦ hstep past i s t hR) h inputs
    fun _ _ _ _ ↦ trivial

end NextApi.Stream
