import DeepProve.ForStd.Files
import DeepProve.ForStd.Runs

/-!
# The lock of a download

`DownloadLock` of `store.rs`: `try_acquire` opens the lock file and asks for its `flock`, and `drop`
removes the file and closes it. Any number of downloads do this, and any of them may take the next
step, or crash.
-/

namespace DeepProve

/-- Where a download is. -/
inductive LockPhase (Path : Type) where
  | idle
  /-- `File::create` has returned. -/
  | opened (path : Path) (inode : Nat)
  /-- `lock held by another process`. -/
  | refused (path : Path) (inode : Nat)
  /-- Has a `DownloadLock`. -/
  | holds (path : Path) (inode : Nat)
  /-- `drop` has removed the file; it is still open. -/
  | dropped (inode : Nat)

/-- The file that a download has open. -/
def LockPhase.inode {Path : Type} : LockPhase Path → Option Nat
  | .idle => none
  | .opened _ inode | .refused _ inode | .holds _ inode | .dropped inode => some inode

/-- What a download does next. -/
inductive LockAction (Path : Type) where
  | create (path : Path)
  | flock
  | drop
  | close
  | crash

/-- The lock files and the downloads. -/
structure LockSystem (Path Proc : Type) where
  files : LockedFiles Path Proc
  phase : Proc → LockPhase Path

namespace LockSystem

variable {Path Proc : Type} [DecidableEq Path] [DecidableEq Proc]

/-- A download goes on. -/
def goTo (s : LockSystem Path Proc) (p : Proc) (files : LockedFiles Path Proc)
    (phase : LockPhase Path) : LockSystem Path Proc :=
  ⟨files, Function.update s.phase p phase⟩

/-- One step of one download. -/
def step (s : LockSystem Path Proc) : Proc × LockAction Path → Option (LockSystem Path Proc)
  | (p, .create path) =>
    match s.phase p with
    | .idle =>
      let (files, inode) := s.files.create path
      some (s.goTo p files (.opened path inode))
    | _ => none
  | (p, .flock) =>
    match s.phase p with
    | .opened path inode =>
      match s.files.flock inode p with
      | some files => some (s.goTo p files (.holds path inode))
      | none => some (s.goTo p s.files (.refused path inode))
    | _ => none
  | (p, .drop) =>
    match s.phase p with
    | .holds path inode => some (s.goTo p (s.files.removeFile path) (.dropped inode))
    | _ => none
  | (p, .close) =>
    match s.phase p with
    | .refused _ inode | .dropped inode => some (s.goTo p (s.files.close inode p) .idle)
    | _ => none
  | (p, .crash) =>
    -- the kernel closes the file
    match (s.phase p).inode with
    | some inode => some (s.goTo p (s.files.close inode p) .idle)
    | none => none

/-- Lock files may have been left behind; nobody has one open. -/
structure Initial (s : LockSystem Path Proc) : Prop where
  phase : ∀ p, s.phase p = .idle
  locks : ∀ inode, s.files.locks inode = none

/-- No two downloads hold the lock of a path. -/
def Excludes (s : LockSystem Path Proc) : Prop :=
  ∀ p q path inode inode', s.phase p = .holds path inode → s.phase q = .holds path inode' → p = q

/-- A download that drops its lock does not remove the file that another one holds. -/
def RemovesOwn (s : LockSystem Path Proc) : Prop :=
  ∀ p q path path' inode inode', s.phase p = .holds path inode →
    s.files.entries path = some inode' → s.phase q = .holds path' inode' → p = q

/-- A lock is only taken if the path still leads to the file that was opened. -/
def LocksEntry (s : LockSystem Path Proc) (action : Proc × LockAction Path) : Prop :=
  match action.2, s.phase action.1 with
  | .flock, .opened path inode => s.files.locks inode = none → s.files.entries path = some inode
  | _, _ => True

instance (s : LockSystem Path Proc) (action : Proc × LockAction Path) :
    Decidable (s.LocksEntry action) := by
  unfold LocksEntry
  split <;> infer_instance

variable {s s' : LockSystem Path Proc} {p : Proc} {action : LockAction Path}

/-- What a step can do. -/
theorem step_eq_some (h : s.step (p, action) = some s') :
    (∃ path, s.phase p = .idle ∧
      s' = s.goTo p (s.files.create path).1 (.opened path (s.files.create path).2)) ∨
    (∃ path inode, action = .flock ∧ s.phase p = .opened path inode ∧ s.files.locks inode = none ∧
      s' = s.goTo p { s.files with locks := Function.update s.files.locks inode (some p) }
        (.holds path inode)) ∨
    (∃ path inode, s.phase p = .opened path inode ∧ s' = s.goTo p s.files (.refused path inode)) ∨
    (∃ path inode, s.phase p = .holds path inode ∧
      s' = s.goTo p (s.files.removeFile path) (.dropped inode)) ∨
    ∃ inode, (s.phase p).inode = some inode ∧ s' = s.goTo p (s.files.close inode p) .idle := by
  cases action with
  | create path =>
    simp only [step] at h
    split at h
    · next hphase => exact .inl ⟨path, hphase, (Option.some.inj h).symm⟩
    · exact nomatch h
  | flock =>
    simp only [step] at h
    split at h
    · next path inode hphase =>
      split at h
      · next files hflock =>
        obtain ⟨hfree, rfl⟩ := LockedFiles.flock_eq_some.mp hflock
        exact .inr (.inl ⟨path, inode, rfl, hphase, hfree, (Option.some.inj h).symm⟩)
      · exact .inr (.inr (.inl ⟨path, inode, hphase, (Option.some.inj h).symm⟩))
    · exact nomatch h
  | drop =>
    simp only [step] at h
    split at h
    · next path inode hphase =>
      exact .inr (.inr (.inr (.inl ⟨path, inode, hphase, (Option.some.inj h).symm⟩)))
    · exact nomatch h
  | close =>
    simp only [step] at h
    split at h
    · next path inode hphase =>
      exact .inr (.inr (.inr (.inr ⟨inode, by rw [hphase]; rfl, (Option.some.inj h).symm⟩)))
    · next inode hphase =>
      exact .inr (.inr (.inr (.inr ⟨inode, by rw [hphase]; rfl, (Option.some.inj h).symm⟩)))
    · exact nomatch h
  | crash =>
    simp only [step] at h
    split at h
    · next inode hphase =>
      exact .inr (.inr (.inr (.inr ⟨inode, hphase, (Option.some.inj h).symm⟩)))
    · exact nomatch h

/-! ## Locks on the file that the path leads to -/

/-- Every lock that is held is that of the file that the path leads to. -/
def HoldsEntry (s : LockSystem Path Proc) : Prop :=
  ∀ p path inode, s.phase p = .holds path inode →
    s.files.locks inode = some p ∧ s.files.entries path = some inode

omit [DecidableEq Path] [DecidableEq Proc] in
theorem HoldsEntry.excludes (h : s.HoldsEntry) : s.Excludes := by
  intro p q path inode inode' hp hq
  obtain ⟨hlock, hentry⟩ := h p path inode hp
  obtain ⟨hlock', hentry'⟩ := h q path inode' hq
  obtain rfl : inode = inode' := Option.some.inj (hentry.symm.trans hentry')
  exact Option.some.inj (hlock.symm.trans hlock')

omit [DecidableEq Path] [DecidableEq Proc] in
theorem HoldsEntry.removesOwn (h : s.HoldsEntry) : s.RemovesOwn := by
  intro p q path path' inode inode' hp hentry hq
  obtain ⟨hlock, hown⟩ := h p path inode hp
  obtain ⟨hlock', -⟩ := h q path' inode' hq
  obtain rfl : inode = inode' := Option.some.inj (hown.symm.trans hentry)
  exact Option.some.inj (hlock.symm.trans hlock')

omit [DecidableEq Path] in
/-- The phases of the others do not change. -/
theorem phase_goTo {q : Proc} {files : LockedFiles Path Proc} {phase : LockPhase Path} :
    (s.goTo p files phase).phase q = if q = p then phase else s.phase q :=
  Function.update_apply ..

theorem HoldsEntry.step (hholds : s.HoldsEntry) (hcond : s.LocksEntry (p, action))
    (h : s.step (p, action) = some s') : s'.HoldsEntry := by
  intro q path' inode' hq
  rcases step_eq_some h with ⟨path, -, rfl⟩ | ⟨path, inode, rfl, hphase, hfree, rfl⟩ |
    ⟨path, inode, -, rfl⟩ | ⟨path, inode, hphase, rfl⟩ | ⟨inode, -, rfl⟩
  all_goals
    rw [phase_goTo] at hq
    split at hq
  -- of the steps of `q` itself, only the one that takes the lock ends with it
  · exact nomatch hq
  · obtain ⟨hlock, hentry⟩ := hholds q path' inode' hq
    exact ⟨(congrFun LockedFiles.locks_create inode').trans hlock,
      LockedFiles.entries_create_of_eq_some hentry⟩
  · next hself =>
    injection hq with hpath hinode
    subst hself hpath hinode
    have hentry : s.files.entries path = some inode := by
      simp only [LocksEntry, hphase] at hcond
      exact hcond hfree
    exact ⟨Function.update_self .., hentry⟩
  · obtain ⟨hlock, hentry⟩ := hholds q path' inode' hq
    have hne : inode' ≠ inode := by
      intro heq
      rw [← heq, hlock] at hfree
      exact nomatch hfree
    exact ⟨(Function.update_of_ne hne ..).trans hlock, hentry⟩
  · exact nomatch hq
  · exact hholds q path' inode' hq
  · exact nomatch hq
  · next hother =>
    obtain ⟨hlock, hentry⟩ := hholds q path' inode' hq
    have hne : path' ≠ path := by
      intro heq
      exact hother (hholds.excludes q p path inode' inode (heq ▸ hq) hphase)
    exact ⟨hlock, (Function.update_of_ne hne ..).trans hentry⟩
  · exact nomatch hq
  · next hother =>
    obtain ⟨hlock, hentry⟩ := hholds q path' inode' hq
    exact ⟨LockedFiles.locks_close_eq_some.mpr ⟨hlock, fun hself => hother hself.2⟩,
      (congrFun LockedFiles.entries_close path').trans hentry⟩

omit [DecidableEq Path] [DecidableEq Proc] in
theorem Initial.holdsEntry (h : s.Initial) : s.HoldsEntry := by
  intro p path inode hp
  rw [h.phase p] at hp
  exact nomatch hp

/-- The lock excludes, in a run in which every lock that is taken is the lock of the file that the
    path leads to. -/
theorem locksExclude (hinit : s.Initial) {actions : List (Proc × LockAction Path)}
    (hall : AllSteps LockSystem.step LocksEntry s actions)
    (hrun : runActions LockSystem.step s actions = some s') : s'.Excludes ∧ s'.RemovesOwn := by
  have hholds : s'.HoldsEntry := runActions_induction_of_allSteps
    (fun _ _ _ hinv hcond hstep => hinv.step hcond hstep) hall hrun hinit.holdsEntry
  exact ⟨hholds.excludes, hholds.removesOwn⟩

/-! ## No lock is left behind -/

/-- A lock belongs to a download that has taken it and has not closed the file. -/
def LocksHeld (s : LockSystem Path Proc) : Prop :=
  ∀ p inode, s.files.locks inode = some p →
    (∃ path, s.phase p = .holds path inode) ∨ s.phase p = .dropped inode

theorem LocksHeld.step (hheld : s.LocksHeld) (h : s.step (p, action) = some s') : s'.LocksHeld := by
  intro q inode' hlock
  have hq := hheld q inode'
  rcases step_eq_some h with ⟨path, hphase, rfl⟩ | ⟨path, inode, -, hphase, -, rfl⟩ |
    ⟨path, inode, hphase, rfl⟩ | ⟨path, inode, hphase, rfl⟩ | ⟨inode, hphase, rfl⟩
  -- only the owner of a lock changes its phase, and it gives the lock back when it closes the file
  all_goals
    rw [phase_goTo]
    simp only [goTo, LockedFiles.locks_create, LockedFiles.removeFile,
      LockedFiles.locks_close_eq_some] at hlock
    grind [LockPhase.inode, Function.update_apply]

/-- However the downloads before have ended, one that is alone with the file gets the lock. -/
theorem flock_acquires (hinit : s.Initial) {actions : List (Proc × LockAction Path)}
    (hrun : runActions LockSystem.step s actions = some s') {path : Path} {inode : Nat}
    (hopened : s'.phase p = .opened path inode)
    (halone : ∀ q, q ≠ p → (s'.phase q).inode ≠ some inode) :
    ∃ s'', s'.step (p, .flock) = some s'' ∧ s''.phase p = .holds path inode := by
  have hheld : s'.LocksHeld := runActions_induction_of_allSteps
    (fun _ _ _ hinv _ hstep => hinv.step hstep) (allSteps_of_forall_mem fun _ _ _ => trivial) hrun
    fun q inode hlock => by rw [hinit.locks] at hlock; exact nomatch hlock
  have hfree : s'.files.locks inode = none := by
    rw [Option.eq_none_iff_forall_ne_some]
    intro q hlock
    grind [hheld q inode hlock, LockPhase.inode]
  rw [LockSystem.step, hopened]
  dsimp only
  rw [LockedFiles.flock_eq_some.mpr ⟨hfree, rfl⟩]
  exact ⟨_, rfl, Function.update_self ..⟩

/-! ## A lock on a file that has been removed -/

/-- No download has begun. -/
def start : LockSystem String Nat where
  files := ⟨fun _ => none, fun _ => none, 0⟩
  phase _ := .idle

theorem initial_start : start.Initial where
  phase _ := rfl
  locks _ := rfl

/-- One download after the other takes the lock. -/
def oneAfterTheOther : List (Nat × LockAction String) :=
  [(0, .create "model.lock"), (0, .flock), (1, .create "model.lock"), (1, .flock), (1, .close),
    (0, .drop), (0, .close), (1, .create "model.lock"), (1, .flock)]

theorem locksExclude_oneAfterTheOther :
    ∃ s, runActions step start oneAfterTheOther = some s ∧ s.Excludes ∧ s.RemovesOwn := by
  obtain ⟨s, hrun⟩ : ∃ s, runActions step start oneAfterTheOther = some s := ⟨_, rfl⟩
  exact ⟨s, hrun, locksExclude initial_start (by decide) hrun⟩

/-- Download 0 crashes with the lock, and download 1 opens the file. -/
def afterCrash : List (Nat × LockAction String) :=
  [(0, .create "model.lock"), (0, .flock), (0, .crash), (1, .create "model.lock")]

theorem flock_acquires_afterCrash : ∃ s s', runActions step start afterCrash = some s ∧
    s.step (1, .flock) = some s' ∧ s'.phase 1 = .holds "model.lock" 0 := by
  have hrun : runActions step start afterCrash = some _ := rfl
  obtain ⟨s', hstep⟩ := flock_acquires initial_start hrun (p := 1) rfl fun q hq => by
    by_cases h : q = 0 <;> simp [goTo, start, hq, h, LockPhase.inode]
  exact ⟨_, s', hrun, hstep⟩

/-- Download 1 opens the file before download 0 removes it, and takes its lock afterwards; download 2
    makes another file. -/
def threeDownloads : List (Nat × LockAction String) :=
  [(0, .create "model.lock"), (0, .flock), (1, .create "model.lock"), (0, .drop), (0, .close),
    (1, .flock), (2, .create "model.lock"), (2, .flock)]

/-- Downloads 1 and 2 hold the lock at the same time, and the file that download 1 is going to remove
    is that of download 2. -/
theorem not_locksExclude_three : ∃ s, runActions step start threeDownloads = some s ∧
    ¬ s.Excludes ∧ ¬ s.RemovesOwn := by
  refine ⟨_, rfl, fun hexcludes => ?_, fun hremoves => ?_⟩
  · exact absurd (hexcludes 1 2 "model.lock" 0 1 rfl rfl) (by decide)
  · exact absurd (hremoves 1 2 "model.lock" "model.lock" 0 1 rfl rfl rfl) (by decide)

end LockSystem

end DeepProve
