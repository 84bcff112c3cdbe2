import DeepProve.ForStd.ExtTreeMap
import DeepProve.ForStd.Lists
import DeepProve.Numerals

/-!
# How a modelled call ends

Rust code returns a value, returns an `anyhow` error, or panics. `Outcome` is
the result of a function that changes nothing; `Call` is the result of a
`&mut self` method, which hands back the state it leaves behind on an error as
well as on success.

`BTreeMap` and `HashMap` are both the ordered extensional map of the standard
library. Where the code iterates over a `HashMap`, whose order is unspecified,
the model takes the order as a parameter.
-/

namespace DeepProve

/-- A call that returns no value. -/
inductive Fault where
  /-- `bail!`, `ensure!`, `anyhow!`: the call returns `Err`. -/
  | err (msg : String)
  /-- An `unwrap` of nothing, an index out of range, an `assert!`, an arithmetic overflow. -/
  | panic (msg : String)
  /-- A loop that is still running when its fuel is used up. -/
  | outOfFuel
  deriving DecidableEq, Repr

/-- The result of a function without side effects. -/
abbrev Outcome (α : Type) := Except Fault α

/-- The result of a `&mut self` method on a state `σ`. -/
abbrev Call (σ α : Type) := EStateM Fault σ α

abbrev BTreeMap (K V : Type) [Ord K] := Std.ExtTreeMap K V compare
abbrev HashMap (K V : Type) [Ord K] := Std.ExtTreeMap K V compare

/-- `anyhow::ensure!`. -/
def ensure (c : Bool) (msg : String) : Outcome Unit :=
  if c then .ok () else .error (.err msg)

@[simp] theorem ensure_true (msg : String) : ensure true msg = .ok () := rfl

@[simp] theorem ensure_false (msg : String) : ensure false msg = .error (.err msg) := rfl

theorem ensure_eq_ok {c : Bool} {msg : String} {u : Unit} :
    ensure c msg = .ok u ↔ c = true := by
  cases c <;> simp

/-- `assert!`. -/
def assertThat (c : Bool) (msg : String) : Outcome Unit :=
  if c then .ok () else .error (.panic msg)

theorem assertThat_eq_ok {c : Bool} {msg : String} {u : Unit} :
    assertThat c msg = .ok u ↔ c = true := by
  cases c <;> simp [assertThat]

/-- `Option::unwrap` and indexing: a missing value panics. -/
def unwrap {α : Type} (o : Option α) (msg : String) : Outcome α :=
  match o with
  | some a => .ok a
  | none => .error (.panic msg)

variable {α : Type}

@[simp] theorem unwrap_some (a : α) (msg : String) :
    unwrap (some a) msg = .ok a := rfl

@[simp] theorem unwrap_none (msg : String) :
    unwrap (none : Option α) msg = .error (.panic msg) := rfl

theorem unwrap_eq_ok {o : Option α} {msg : String} {a : α} :
    unwrap o msg = .ok a ↔ o = some a := by
  cases o <;> simp

/-- `Option::ok_or(anyhow!(..))`: a missing value is an error. -/
def okOr {α : Type} (o : Option α) (msg : String) : Outcome α :=
  match o with
  | some a => .ok a
  | none => .error (.err msg)

@[simp] theorem okOr_some (a : α) (msg : String) : okOr (some a) msg = .ok a := rfl

@[simp] theorem okOr_none (msg : String) :
    okOr (none : Option α) msg = .error (.err msg) := rfl

theorem okOr_eq_ok {o : Option α} {msg : String} {a : α} :
    okOr o msg = .ok a ↔ o = some a := by
  cases o <;> simp

namespace Outcome

variable {α β : Type} {l : List α} {f : α → Outcome β} {r : List β}

/-- A sequence of two steps returns a value exactly if both do. -/
theorem bind_eq_ok {x : Outcome α} {b : β} :
    (x >>= f) = .ok b ↔ ∃ a, x = .ok a ∧ f a = .ok b := by
  cases x <;> simp [bind, Except.bind]

@[simp] theorem ok_bind (a : α) (f : α → Outcome β) :
    ((.ok a : Outcome α) >>= f) = f a := rfl

theorem mapM_eq_ok_map {g : α → β} (h : ∀ a ∈ l, f a = .ok (g a)) : l.mapM f = .ok (l.map g) := by
  induction l with
  | nil => rfl
  | cons a l ih =>
    obtain ⟨ha, hl⟩ := List.forall_mem_cons.mp h
    rw [List.mapM_cons, ha, ok_bind, ih hl]
    rfl

/-- The results of a `mapM`, given what each step returns. -/
theorem eq_map_of_mapM_eq_ok {g : α → β} (hf : ∀ a b, f a = .ok b → b = g a)
    (h : l.mapM f = .ok r) : r = l.map g := by
  induction l generalizing r with
  | nil => exact (Except.ok.inj h).symm
  | cons a l ih =>
    simp only [List.mapM_cons, bind_eq_ok] at h
    obtain ⟨b, hb, bs, hbs, hr⟩ := h
    rw [← Except.ok.inj hr, List.map_cons, ← hf a b hb, ← ih hbs]

/-- A `mapM` that returned has returned from each step. -/
theorem forall₂_of_mapM_eq_ok (h : l.mapM f = .ok r) :
    List.Forall₂ (fun a b => f a = .ok b) l r := by
  induction l generalizing r with
  | nil =>
    rw [← Except.ok.inj h]
    exact List.Forall₂.nil
  | cons a l ih =>
    simp only [List.mapM_cons, bind_eq_ok] at h
    obtain ⟨b, hb, bs, hbs, hr⟩ := h
    rw [← Except.ok.inj hr]
    exact List.Forall₂.cons hb (ih hbs)

theorem mapM_eq_ok_of_forall₂ (h : List.Forall₂ (fun a b => f a = .ok b) l r) :
    l.mapM f = .ok r := by
  induction h with
  | nil => rfl
  | cons ha _ ih =>
    rw [List.mapM_cons, ha, ok_bind, ih]
    rfl

/-- A `mapM` whose steps return has a result. -/
theorem exists_mapM_eq_ok (h : ∀ a ∈ l, ∃ b, f a = .ok b) : ∃ r, l.mapM f = .ok r := by
  induction l with
  | nil => exact ⟨[], rfl⟩
  | cons a l ih =>
    obtain ⟨⟨b, hb⟩, hl⟩ := List.forall_mem_cons.mp h
    obtain ⟨r, hr⟩ := ih hl
    refine ⟨b :: r, ?_⟩
    rw [List.mapM_cons, hb, ok_bind, hr]
    rfl

theorem exists_of_mem_mapM_eq_ok (h : l.mapM f = .ok r) {b : β} (hb : b ∈ r) :
    ∃ a ∈ l, f a = .ok b :=
  List.exists_of_forall₂_left (forall₂_of_mapM_eq_ok h).flip hb

theorem exists_eq_ok_of_mapM (h : l.mapM f = .ok r) {a : α} (ha : a ∈ l) :
    ∃ b ∈ r, f a = .ok b :=
  List.exists_of_forall₂_left (forall₂_of_mapM_eq_ok h) ha

/-- A loop that only checks. -/
theorem forM_eq_ok {f : α → Outcome Unit} :
    forM l f = .ok () ↔ ∀ a ∈ l, f a = .ok () := by
  induction l with
  | nil => simp [pure, Except.pure]
  | cons a l ih =>
    rw [List.forM_cons, bind_eq_ok, List.forall_mem_cons, ← ih]
    exact ⟨fun ⟨_, ha, hl⟩ => ⟨ha, hl⟩, fun ⟨ha, hl⟩ => ⟨(), ha, hl⟩⟩

/-- What holds after every prefix of a loop holds after the whole loop. -/
theorem foldlM_induction {σ : Type} {f : σ → α → Outcome σ} {motive : List α → σ → Prop} {s r : σ}
    (h : l.foldlM f s = .ok r) (hinit : motive [] s)
    (hstep : ∀ pre a post s₁ s₂, l = pre ++ a :: post → motive pre s₁ → f s₁ a = .ok s₂ →
      motive (pre ++ [a]) s₂) : motive l r := by
  have hgen : ∀ (post pre : List α) (s₁ : σ), l = pre ++ post → motive pre s₁ →
      post.foldlM f s₁ = .ok r → motive l r := by
    intro post
    induction post with
    | nil =>
      intro pre s₁ hl hpre hfold
      rw [hl, List.append_nil, ← Except.ok.inj hfold]
      exact hpre
    | cons a post ih =>
      intro pre s₁ hl hpre hfold
      rw [List.foldlM_cons, bind_eq_ok] at hfold
      obtain ⟨s₂, hs₂, hrest⟩ := hfold
      apply ih (pre ++ [a]) s₂ _ (hstep pre a post s₁ s₂ hl hpre hs₂) hrest
      rw [hl, List.append_assoc, List.singleton_append]
  exact hgen l [] s rfl hinit h

/-- What a fold has computed after each prefix of the list. -/
theorem foldlM_eq_ok_of_prefix {σ : Type} {f : σ → α → Outcome σ} {s : σ} (state : List α → σ)
    (hinit : state [] = s)
    (h : ∀ pre a post, l = pre ++ a :: post → f (state pre) a = .ok (state (pre ++ [a]))) :
    l.foldlM f s = .ok (state l) := by
  have hsuffix : ∀ pre post, l = pre ++ post → post.foldlM f (state pre) = .ok (state l) := by
    intro pre post hl
    induction post generalizing pre with
    | nil => rw [hl, List.append_nil]; rfl
    | cons a post ih =>
      rw [List.foldlM_cons, h pre a post hl]
      exact ih (pre ++ [a]) (by rw [hl, List.append_assoc, List.singleton_append])
  exact hinit ▸ hsuffix [] l rfl

/-- What every round hands back to the state before it is handed back by the loop. -/
theorem foldlM_back {σ : Type} {f : σ → α → Outcome σ} {P : σ → Prop} {s s' : σ}
    (h : l.foldlM f s = .ok s') (hgood : P s')
    (hback : ∀ a ∈ l, ∀ s₁ s₂, f s₁ a = .ok s₂ → P s₂ → P s₁) : P s := by
  induction l generalizing s with
  | nil =>
    rw [Except.ok.inj h]
    exact hgood
  | cons a l ih =>
    rw [List.foldlM_cons, bind_eq_ok] at h
    obtain ⟨s₁, hs₁, h⟩ := h
    obtain ⟨ha, hl⟩ := List.forall_mem_cons.mp hback
    exact ha s s₁ hs₁ (ih h hl)

/-- Two loops over corresponding lists: what each pair of rounds preserves holds of the results.
    What is known of the results (`P`, `Q`) has to be known of the states before them. -/
theorem foldlM_rel {σ τ : Type} {f : σ → α → Outcome σ} {g : τ → β → Outcome τ} {R : α → β → Prop}
    {m : List β} {P : σ → Prop} {Q : τ → Prop} {motive : σ → τ → Prop} {s s' : σ} {t t' : τ}
    (hlists : List.Forall₂ R l m) (hl : l.foldlM f s = .ok s') (hr : m.foldlM g t = .ok t')
    (hinit : motive s t) (hgoodP : P s') (hQ : Q t')
    (hbackL : ∀ a ∈ l, ∀ s₁ s₂, f s₁ a = .ok s₂ → P s₂ → P s₁)
    (hbackR : ∀ b ∈ m, ∀ t₁ t₂, g t₁ b = .ok t₂ → Q t₂ → Q t₁)
    (hstep : ∀ pre a post b s₁ t₁ s₂ t₂, l = pre ++ a :: post → pre.foldlM f s = .ok s₁ → R a b →
      motive s₁ t₁ → f s₁ a = .ok s₂ → g t₁ b = .ok t₂ → P s₂ → Q t₂ → motive s₂ t₂) :
    motive s' t' := by
  have hgen : ∀ (pre post : List α) (m' : List β) (s₁ : σ) (t₁ : τ), l = pre ++ post →
      (∀ b ∈ m', b ∈ m) → List.Forall₂ R post m' → pre.foldlM f s = .ok s₁ → motive s₁ t₁ →
      post.foldlM f s₁ = .ok s' → m'.foldlM g t₁ = .ok t' → motive s' t' := by
    intro pre post m' s₁ t₁ hpre hmem hrel
    induction hrel generalizing pre s₁ t₁ with
    | nil =>
      intro _ hmotive hs ht
      rw [← Except.ok.inj hs, ← Except.ok.inj ht]
      exact hmotive
    | @cons a b post m' hab _ ih =>
      intro hrun hmotive hs ht
      rw [List.foldlM_cons, bind_eq_ok] at hs ht
      obtain ⟨s₂, hs₂, hs⟩ := hs
      obtain ⟨t₂, ht₂, ht⟩ := ht
      have hpost : ∀ a' ∈ post, a' ∈ l := fun a' ha' => by
        rw [hpre]
        exact List.mem_append_right _ (List.mem_cons_of_mem _ ha')
      have hmem' : ∀ b' ∈ m', b' ∈ m := fun b' hb' => hmem b' (List.mem_cons_of_mem _ hb')
      have hgood₂ : P s₂ := foldlM_back hs hgoodP fun a' ha' => hbackL a' (hpost a' ha')
      have hgood₂' : Q t₂ := foldlM_back ht hQ fun b' hb' => hbackR b' (hmem' b' hb')
      have hrun₂ : (pre ++ [a]).foldlM f s = .ok s₂ := by
        rw [List.foldlM_append, hrun, ok_bind, List.foldlM_cons, hs₂]
        rfl
      exact ih (pre ++ [a]) s₂ t₂ (by rw [hpre, List.append_assoc, List.singleton_append]) hmem' hrun₂
        (hstep pre a post b s₁ t₁ s₂ t₂ hpre hrun hab hmotive hs₂ ht₂ hgood₂ hgood₂') hs ht
  exact hgen [] l m s t rfl (fun _ hb => hb) hlists rfl hinit hl hr

@[simp] theorem error_bind (e : Fault) (f : α → Outcome β) :
    ((.error e : Outcome α) >>= f) = .error e := rfl

/-- `Result::unwrap`: an error becomes a panic. -/
def unwrapped {α : Type} (x : Outcome α) : Outcome α :=
  match x with
  | .error (.err msg) => .error (.panic msg)
  | r => r

/-- `Result::map_err`. -/
def mapErr {α : Type} (x : Outcome α) (f : String → String) : Outcome α :=
  match x with
  | .error (.err msg) => .error (.err (f msg))
  | r => r

theorem mapErr_eq_ok {x : Outcome α} {f : String → String} {a : α} :
    mapErr x f = .ok a ↔ x = .ok a := by
  unfold mapErr
  split <;> simp

@[simp] theorem unwrapped_ok (a : α) : unwrapped (.ok a) = .ok a := rfl

/-! ## Calls that panic -/

/-- The call does not return. -/
def Panics {α : Type} (x : Outcome α) : Prop := ∃ msg, x = .error (.panic msg)

@[simp] theorem not_panics_ok (a : α) : ¬ Panics (.ok a : Outcome α) :=
  fun ⟨_, h⟩ => nomatch h

@[simp] theorem panics_panic (msg : String) :
    Panics (.error (.panic msg) : Outcome α) := ⟨msg, rfl⟩

@[simp] theorem not_panics_err (msg : String) :
    ¬ Panics (.error (.err msg) : Outcome α) := by
  intro ⟨_, h⟩
  cases h

/-- A sequence of two steps panics in the first or in the second. -/
theorem panics_bind {x : Outcome α} :
    Panics (x >>= f) ↔ Panics x ∨ ∃ a, x = .ok a ∧ Panics (f a) := by
  cases x with
  | ok a => simp
  | error e =>
    have hnone : ¬ ∃ a, (.error e : Outcome α) = .ok a ∧ Panics (f a) := fun ⟨_, h, _⟩ => nomatch h
    rw [or_iff_left hnone, error_bind]
    exact ⟨fun ⟨msg, h⟩ => ⟨msg, by rw [Except.error.inj h]⟩,
      fun ⟨msg, h⟩ => ⟨msg, by rw [Except.error.inj h]⟩⟩

@[simp] theorem not_panics_ensure (c : Bool) (msg : String) : ¬ Panics (ensure c msg) := by
  intro ⟨msg', h⟩
  cases c
  · cases h
  · cases h

theorem panics_unwrap {o : Option α} {msg : String} :
    Panics (unwrap o msg) ↔ o = none := by
  cases o with
  | none => exact ⟨fun _ => rfl, fun _ => ⟨msg, rfl⟩⟩
  | some a => simp

/-! ## Calls that return -/

/-- The call returns `Ok` or `Err`: it neither panics nor runs forever. -/
def Settles {α : Type} (x : Outcome α) : Prop :=
  (∃ a, x = .ok a) ∨ ∃ msg, x = .error (.err msg)

@[simp] theorem settles_ok (a : α) : Settles (.ok a : Outcome α) := .inl ⟨a, rfl⟩

@[simp] theorem settles_err (msg : String) :
    Settles (.error (.err msg) : Outcome α) := .inr ⟨msg, rfl⟩

@[simp] theorem not_settles_panic (msg : String) :
    ¬ Settles (.error (.panic msg) : Outcome α) := by
  rintro (⟨_, h⟩ | ⟨_, h⟩)
  · cases h
  · cases h

@[simp] theorem not_settles_outOfFuel :
    ¬ Settles (.error .outOfFuel : Outcome α) := by
  rintro (⟨_, h⟩ | ⟨_, h⟩)
  · cases h
  · cases h

@[simp] theorem settles_ensure (c : Bool) (msg : String) : Settles (ensure c msg) := by
  cases c
  · exact settles_err msg
  · exact settles_ok ()

@[simp] theorem settles_okOr (o : Option α) (msg : String) : Settles (okOr o msg) := by
  cases o with
  | none => exact settles_err msg
  | some a => exact settles_ok a

theorem settles_unwrap {o : Option α} {msg : String} :
    Settles (unwrap o msg) ↔ ∃ a, o = some a := by
  cases o with
  | none => simp
  | some a => simp

/-- A sequence of two steps returns if the first does, and the second wherever it is reached. -/
theorem settles_bind {x : Outcome α} :
    Settles (x >>= f) ↔ Settles x ∧ ∀ a, x = .ok a → Settles (f a) := by
  rcases x with (msg | msg | _) | a
  · simp
  · simp
  · simp
  · simp

/-- A loop returns if every round does that is reached. -/
theorem settles_foldlM {σ : Type} {f : σ → α → Outcome σ} {s : σ} :
    Settles (l.foldlM f s) ↔ ∀ pre a post s', l = pre ++ a :: post → pre.foldlM f s = .ok s' →
      Settles (f s' a) := by
  induction l generalizing s with
  | nil => simp [pure, Except.pure]
  | cons a l ih =>
    rw [List.foldlM_cons, settles_bind]
    constructor
    · intro ⟨hfirst, hrest⟩ pre b post s' hl hpre
      cases pre with
      | nil =>
        obtain ⟨rfl, rfl⟩ := List.cons.inj hl
        rw [← Except.ok.inj hpre]
        exact hfirst
      | cons c pre =>
        obtain ⟨rfl, htail⟩ := List.cons.inj hl
        obtain ⟨s₁, hs₁, hpre⟩ := bind_eq_ok.mp ((List.foldlM_cons ..).symm.trans hpre)
        exact ih.mp (hrest s₁ hs₁) pre b post s' htail hpre
    · intro hall
      refine ⟨hall [] a l s rfl rfl, fun s₁ hs₁ => ih.mpr fun pre b post s' hl hpre => ?_⟩
      refine hall (a :: pre) b post s' (by rw [hl, List.cons_append]) ?_
      rw [List.foldlM_cons, hs₁, ok_bind, hpre]

theorem settles_mapM :
    Settles (l.mapM f) ↔ ∀ pre a post r, l = pre ++ a :: post → pre.mapM f = .ok r →
      Settles (f a) := by
  induction l with
  | nil => simp [pure, Except.pure]
  | cons a l ih =>
    have hrest : ∀ b, Settles (l.mapM f >>= fun bs => (pure (b :: bs) : Outcome (List β))) ↔
        Settles (l.mapM f) := by
      intro b
      rw [settles_bind]
      exact and_iff_left fun bs _ => settles_ok (b :: bs)
    rw [List.mapM_cons, settles_bind]
    simp only [hrest]
    constructor
    · intro ⟨hfirst, hrest⟩ pre b post r hl hpre
      cases pre with
      | nil =>
        obtain ⟨rfl, rfl⟩ := List.cons.inj hl
        exact hfirst
      | cons c pre =>
        obtain ⟨rfl, htail⟩ := List.cons.inj hl
        rw [List.mapM_cons] at hpre
        obtain ⟨b', hb', hpre⟩ := bind_eq_ok.mp hpre
        obtain ⟨bs, hbs, -⟩ := bind_eq_ok.mp hpre
        exact ih.mp (hrest b' hb') pre b post bs htail hbs
    · intro hall
      refine ⟨hall [] a l [] rfl rfl, fun b hb => ih.mpr fun pre c post r hl hpre => ?_⟩
      refine hall (a :: pre) c post (b :: r) (by rw [hl, List.cons_append]) ?_
      rw [List.mapM_cons, hb, ok_bind, hpre]
      rfl

/-- A loop whose steps report no errors returns if all of its steps do. -/
theorem settles_mapM_of_ne_err (hf : ∀ a msg, f a ≠ .error (.err msg)) :
    Settles (l.mapM f) ↔ ∀ a ∈ l, Settles (f a) := by
  have hok : ∀ a, Settles (f a) → ∃ b, f a = .ok b := by
    rintro a (hok | ⟨msg, herr⟩)
    · exact hok
    · exact absurd herr (hf a msg)
  constructor
  · intro hsettles
    induction l with
    | nil => exact fun _ h => nomatch h
    | cons a l ih =>
      rw [List.mapM_cons, settles_bind] at hsettles
      obtain ⟨ha, hrest⟩ := hsettles
      obtain ⟨b, hb⟩ := hok a ha
      exact List.forall_mem_cons.mpr ⟨ha, ih (settles_bind.mp (hrest b hb)).1⟩
  · intro hall
    exact .inl (exists_mapM_eq_ok fun a ha => hok a (hall a ha))

/-- A loop of checks returns if every check does that is reached. -/
theorem settles_forM {f : α → Outcome Unit} :
    Settles (forM l f) ↔ ∀ pre a post, l = pre ++ a :: post → (∀ b ∈ pre, f b = .ok ()) →
      Settles (f a) := by
  have hloop : ∀ l : List α, forM l f = l.foldlM (fun _ a => f a) () := fun l => by
    induction l with
    | nil => rfl
    | cons a l ih => rw [List.forM_cons, List.foldlM_cons, ih]
  rw [hloop, settles_foldlM]
  simp only [← hloop]
  exact ⟨fun h pre a post hl hpre => h pre a post () hl (forM_eq_ok.mpr hpre),
    fun h pre a post _ hl hpre => h pre a post hl (forM_eq_ok.mp hpre)⟩

end Outcome

namespace Call

variable {σ α β : Type}

/-- Run a function without side effects on the current state. -/
def lift (x : Outcome α) : Call σ α :=
  match x with
  | .ok a => pure a
  | .error e => throw e

@[simp] theorem lift_ok (a : α) : (lift (.ok a) : Call σ α) = pure a := rfl

@[simp] theorem lift_error (e : Fault) : (lift (.error e : Outcome α) : Call σ α) = throw e := rfl

theorem lift_bind (x : Outcome α) (f : α → Outcome β) :
    (lift (x >>= f) : Call σ β) = lift x >>= fun a => lift (f a) := by
  cases x <;> rfl

theorem lift_run_eq_ok {x : Outcome α} {s s' : σ} {a : α} :
    (lift x : Call σ α).run s = .ok a s' ↔ x = .ok a ∧ s' = s := by
  cases x with
  | error e =>
    simp only [lift_error, reduceCtorEq, false_and, iff_false]
    exact fun h => nomatch h
  | ok b =>
    simp only [lift_ok, EStateM.run_pure, EStateM.Result.ok.injEq, Except.ok.injEq]
    exact ⟨fun ⟨h, h'⟩ => ⟨h, h'.symm⟩, fun ⟨h, h'⟩ => ⟨h, h'.symm⟩⟩

@[simp] theorem get_bind_run (f : σ → Call σ β) (s : σ) :
    ((get : Call σ σ) >>= f).run s = (f s).run s := rfl

@[simp] theorem modify_bind_run (g : σ → σ) (f : PUnit → Call σ β) (s : σ) :
    ((modify g : Call σ PUnit) >>= f).run s = (f ⟨⟩).run (g s) := rfl

/-- A step without side effects is passed exactly if it returns a value. -/
theorem lift_bind_run_eq_ok {x : Outcome α} {f : α → Call σ β} {s s' : σ} {b : β} :
    (lift x >>= f).run s = .ok b s' ↔ ∃ a, x = .ok a ∧ (f a).run s = .ok b s' := by
  cases x with
  | ok a => simp only [lift_ok, pure_bind, Except.ok.injEq, exists_eq_left']
  | error e => exact ⟨fun h => (nomatch h), fun ⟨_, h, _⟩ => (nomatch h)⟩

/-- Peel the first step off a call that returned. -/
theorem bind_run_eq_ok {x : Call σ α} {f : α → Call σ β} {s s' : σ} {b : β} :
    (x >>= f).run s = .ok b s' ↔ ∃ a s₁, x.run s = .ok a s₁ ∧ (f a).run s₁ = .ok b s' := by
  rw [EStateM.run_bind]
  cases x.run s with
  | ok a s₁ => simp
  | error e s₁ => simp

/-- `Result::unwrap` of a method call: its error becomes a panic. -/
def unwrap (x : Call σ α) : Call σ α := fun s =>
  match x s with
  | .error (.err msg) s => .error (.panic msg) s
  | r => r

/-- `anyhow::Context::context`: an error is reported under the given message. -/
def context (x : Call σ α) (msg : String) : Call σ α := fun s =>
  match x s with
  | .error (.err _) s => .error (.err msg) s
  | r => r

theorem unwrap_run_of_eq_ok {x : Call σ α} {s s' : σ} {a : α} (h : x.run s = .ok a s') :
    (unwrap x).run s = .ok a s' := by
  have h : x s = .ok a s' := h
  simp only [EStateM.run, unwrap, h]

theorem context_run_of_eq_ok {x : Call σ α} {s s' : σ} {a : α} {msg : String}
    (h : x.run s = .ok a s') : (context x msg).run s = .ok a s' := by
  have h : x s = .ok a s' := h
  simp only [EStateM.run, context, h]

/-- What a call made on `s` returns; the state it leaves is dropped. -/
def value (x : Call σ α) (s : σ) : Outcome α :=
  match x.run s with
  | .ok a _ => .ok a
  | .error e _ => .error e

theorem value_of_eq_ok {x : Call σ α} {s s' : σ} {a : α} (h : x.run s = .ok a s') :
    x.value s = .ok a := by
  simp only [value, h]

end Call

end DeepProve
