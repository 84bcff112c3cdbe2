import Mathlib

/-!
# Runs of a system that takes steps

A system is a function from a state and an action to the next state, if the action can be taken
there. What is open in a step (which of several things happens) is part of the action.
-/

namespace DeepProve

variable {σ α : Type}

/-- The state after some actions, if each of them can be taken. -/
def runActions (step : σ → α → Option σ) (s : σ) (actions : List α) : Option σ :=
  actions.foldlM step s

/-- Every action is taken in a state that meets the condition. -/
def AllSteps (step : σ → α → Option σ) (condition : σ → α → Prop) : σ → List α → Prop
  | _, [] => True
  | s, a :: actions => condition s a ∧ ∀ s', step s a = some s' → AllSteps step condition s' actions

variable {step : σ → α → Option σ} {condition : σ → α → Prop} {s s' : σ}

instance AllSteps.decidable [∀ s a, Decidable (condition s a)] :
    ∀ (s : σ) (actions : List α), Decidable (AllSteps step condition s actions)
  | _, [] => .isTrue trivial
  | s, a :: actions =>
    match h : step s a with
    | none => decidable_of_iff (condition s a) (by simp [AllSteps, h])
    | some s₁ =>
      have := AllSteps.decidable s₁ actions
      decidable_of_iff (condition s a ∧ AllSteps step condition s₁ actions) (by simp [AllSteps, h])

variable {actions : List α}

theorem allSteps_of_forall_mem (h : ∀ a ∈ actions, ∀ s, condition s a) :
    AllSteps step condition s actions := by
  induction actions generalizing s with
  | nil => exact trivial
  | cons a actions ih =>
    obtain ⟨ha, hactions⟩ := List.forall_mem_cons.mp h
    exact ⟨ha s, fun _ _ => ih hactions⟩

@[simp] theorem runActions_nil : runActions step s [] = some s := rfl

theorem runActions_cons {a : α} :
    runActions step s (a :: actions) = (step s a).bind fun s₁ => runActions step s₁ actions := rfl

theorem runActions_cons_eq_some {a : α} : runActions step s (a :: actions) = some s' ↔
    ∃ s₁, step s a = some s₁ ∧ runActions step s₁ actions = some s' := by
  rw [runActions_cons, Option.bind_eq_some_iff]

/-- What every step that meets the condition preserves holds at the end of the run. -/
theorem runActions_induction_of_allSteps {inv : σ → Prop}
    (hstep : ∀ s a s', inv s → condition s a → step s a = some s' → inv s')
    (hall : AllSteps step condition s actions) (hrun : runActions step s actions = some s')
    (hinit : inv s) : inv s' := by
  induction actions generalizing s with
  | nil =>
    obtain rfl := Option.some.inj hrun
    exact hinit
  | cons a actions ih =>
    obtain ⟨s₁, hfirst, hrest⟩ := runActions_cons_eq_some.mp hrun
    exact ih (hall.2 s₁ hfirst) hrest (hstep s a s₁ hinit hall.1 hfirst)

/-! ## Steps that are a relation -/

/-- Every action of a run is taken in a state that meets the condition, whatever the steps before it
    lead to. -/
def EveryStep (leads : σ → α → σ → Prop) (condition : σ → α → Prop) : σ → List α → Prop
  | _, [] => True
  | s, a :: actions =>
    condition s a ∧ ∀ s', leads s a s' → EveryStep leads condition s' actions

/-- Two conditions that agree where an invariant holds agree along every run, if the invariant is
    kept by the steps that meet them. -/
theorem everyStep_congr (inv : σ → Prop) {leads : σ → α → σ → Prop} {condition' : σ → α → Prop}
    (hstep : ∀ s a s', inv s → condition s a → leads s a s' → inv s')
    (hiff : ∀ s a, inv s → (condition s a ↔ condition' s a)) (hinit : inv s) :
    EveryStep leads condition s actions ↔ EveryStep leads condition' s actions := by
  induction actions generalizing s with
  | nil => exact Iff.rfl
  | cons a actions ih =>
    constructor
    · rintro ⟨hfirst, hrest⟩
      exact ⟨(hiff s a hinit).mp hfirst, fun s' hlead =>
        (ih (hstep s a s' hinit hfirst hlead)).mp (hrest s' hlead)⟩
    · rintro ⟨hfirst, hrest⟩
      have hfirst := (hiff s a hinit).mpr hfirst
      exact ⟨hfirst, fun s' hlead =>
        (ih (hstep s a s' hinit hfirst hlead)).mpr (hrest s' hlead)⟩

/-- A condition that follows from an invariant of the steps holds along every run. -/
theorem everyStep_of_inv (inv : σ → Prop) {leads : σ → α → σ → Prop}
    (hstep : ∀ s a, inv s → condition s a ∧ ∀ s', leads s a s' → inv s') (hinit : inv s) :
    EveryStep leads condition s actions := by
  induction actions generalizing s with
  | nil => trivial
  | cons a actions ih =>
    obtain ⟨hfirst, hrest⟩ := hstep s a hinit
    exact ⟨hfirst, fun s' hleads => ih (hrest s' hleads)⟩

end DeepProve

/-!
## Machines that answer calls

A machine is a function from a state and a call to an answer and the next state. Two machines give
the same answers if a relation between their states survives every call.

### Key results

- `simulation`: the rule, for the calls that meet a condition in the second machine
-/

namespace DeepProve

variable {σ τ α β : Type}

/-- The answers to some calls, one after the other. -/
def answers (step : σ → α → β × σ) (s : σ) : List α → List β
  | [] => []
  | a :: calls => (step s a).1 :: answers step (step s a).2 calls

/-- The state after some calls. -/
def after (step : σ → α → β × σ) (s : σ) (calls : List α) : σ :=
  calls.foldl (fun s a => (step s a).2) s

/-- Every call is made in a state that meets the condition. -/
def MeetsAll (step : σ → α → β × σ) (condition : σ → α → Prop) : σ → List α → Prop
  | _, [] => True
  | s, a :: calls => condition s a ∧ MeetsAll step condition (step s a).2 calls

variable {step : σ → α → β × σ} {step' : τ → α → β × τ} {condition : τ → α → Prop} {s : σ} {t : τ}

theorem answers_append (calls later : List α) : answers step s (calls ++ later) =
    answers step s calls ++ answers step (after step s calls) later := by
  induction calls generalizing s with
  | nil => rfl
  | cons a calls ih => exact congrArg _ ih

variable {calls : List α}

theorem meetsAll_append {later : List α} : MeetsAll step' condition t (calls ++ later) ↔
    MeetsAll step' condition t calls ∧ MeetsAll step' condition (after step' t calls) later := by
  induction calls generalizing t with
  | nil => exact (and_iff_right trivial).symm
  | cons a calls ih =>
    simp only [List.cons_append, MeetsAll, ih, and_assoc]
    rfl

theorem meetsAll_of_forall (h : ∀ a ∈ calls, ∀ t, condition t a) :
    MeetsAll step' condition t calls := by
  induction calls generalizing t with
  | nil => trivial
  | cons a calls ih =>
    exact ⟨h a List.mem_cons_self t, ih fun a' hmem => h a' (List.mem_cons_of_mem _ hmem)⟩

/-- The first call that does not meet the condition. -/
theorem exists_first_of_not_meetsAll (h : ¬ MeetsAll step' condition t calls) :
    ∃ before call later, calls = before ++ call :: later ∧ MeetsAll step' condition t before ∧
      ¬ condition (after step' t before) call := by
  induction calls generalizing t with
  | nil => exact absurd trivial h
  | cons a calls ih =>
    by_cases ha : condition t a
    · have hrest : ¬ MeetsAll step' condition (step' t a).2 calls := fun hrest => h ⟨ha, hrest⟩
      obtain ⟨before, call, later, rfl, hbefore, hcall⟩ := ih hrest
      exact ⟨a :: before, call, later, rfl, ⟨ha, hbefore⟩, hcall⟩
    · exact ⟨[], a, calls, rfl, trivial, ha⟩

/-- Two machines give the same answers to the calls that meet the condition, and their states are
    related afterwards. -/
theorem simulation {R : σ → τ → Prop} (hstep : ∀ s t a, R s t → condition t a →
      (step s a).1 = (step' t a).1 ∧ R (step s a).2 (step' t a).2)
    (hmeets : MeetsAll step' condition t calls) (hR : R s t) :
    answers step s calls = answers step' t calls ∧
      R (after step s calls) (after step' t calls) := by
  induction calls generalizing s t with
  | nil => exact ⟨rfl, hR⟩
  | cons a calls ih =>
    obtain ⟨hanswer, hR'⟩ := hstep s t a hR hmeets.1
    obtain ⟨hanswers, hafter⟩ := ih hmeets.2 hR'
    refine ⟨?_, hafter⟩
    rw [answers, answers, hanswer, hanswers]

end DeepProve
