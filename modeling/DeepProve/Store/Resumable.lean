import DeepProve.Store.Download

/-!
# Is the download the object?

A checksum is compared with all bytes that come to the cache. Without one three things are taken on
trust: that a cache file without an entity tag is the object, that the partial file is the beginning
of the object, and that a stream that ends has delivered everything.
-/

namespace DeepProve

namespace DownloadState

variable {Version Tag : Type} [DecidableEq Tag] {history : ObjectHistory Version Tag}

/-- Nothing has been downloaded. -/
def start (current : Version) : DownloadState Version Tag :=
  ⟨current, ⟨none, none, none, none⟩, .idle⟩

/-- What is taken on trust for want of a checksum is true. -/
def TrustsRightly (history : ObjectHistory Version Tag) (s : DownloadState Version Tag)
    (action : DownloadAction Version) : Prop :=
  match action, s.phase with
  | .next, .checking v => history.sha256 v = none → s.files.etag = none →
      s.files.cache = none ∨ s.files.cache = some (history.bytes v)
  | .next, .requesting v base => history.sha256 v = none → base <+: history.bytes v
  | .finish n, .requesting v base => history.sha256 v = none →
      base <+: history.bytes v ∧ (history.bytes v).length ≤ base.length + n
  | _, _ => True

/-! ## What the files say -/

/-- The sidecars are those of the cache file. -/
structure Consistent (history : ObjectHistory Version Tag) (files : DownloadFiles Tag) : Prop where
  sha256 : ∀ cache digest, files.cache = some cache → files.sha256 = some (some digest) →
    digest = history.digest cache
  etag : ∀ cache etag, files.cache = some cache → files.etag = some (some etag) →
    ∃ v, history.etag v = etag ∧ history.bytes v = cache

/-- There is neither a cache file nor a sidecar. -/
structure Cleared (files : DownloadFiles Tag) : Prop where
  cache : files.cache = none
  etag : files.etag = none
  sha256 : files.sha256 = none

/-- The partial file holds what has been hashed. -/
def Hashed (files : DownloadFiles Tag) (hashed : ObjectBytes) : Prop :=
  files.partialFile = some hashed ∨ hashed = [] ∧ files.partialFile = none

/-- What a download has come to. -/
def PhaseInv (history : ObjectHistory Version Tag) (files : DownloadFiles Tag) :
    DownloadPhase Version Tag → Prop
  | .idle | .checking _ | .removingCache _ => True
  | .removingEtag _ => files.cache = none
  | .removingSha _ => files.cache = none ∧ files.etag = none
  | .rechecking _ | .attempt _ => Cleared files
  | .requesting _ base => Cleared files ∧ Hashed files base
  | .verifying v hashed =>
    Cleared files ∧ Hashed files hashed ∧ (history.sha256 v = none → hashed = history.bytes v)
  | .writingSha v digest => files.cache = some (history.bytes v) ∧
      digest = history.digest (history.bytes v) ∧ files.etag = none
  | .writingEtag v | .returned v => files.cache = some (history.bytes v)

structure DownloadInv (history : ObjectHistory Version Tag) (s : DownloadState Version Tag) : Prop
    where
  consistent : Consistent history s.files
  phase : PhaseInv history s.files s.phase

variable {files : DownloadFiles Tag}

omit [DecidableEq Tag] in
/-- Sidecars of no file are those of the file. -/
theorem consistent_of_cache_eq_none (h : files.cache = none) :
    Consistent history files where
  sha256 _ _ hcache := nomatch h.symm.trans hcache
  etag _ _ hcache := nomatch h.symm.trans hcache

variable {s s' : DownloadState Version Tag} {v : Version}

omit [DecidableEq Tag] in
/-- A sidecar that is written when the cache file is the object. -/
theorem Consistent.writeSidecar (h : Consistent history files)
    (hcache : files.cache = some (history.bytes v)) {sidecar : Sidecar} {tag : Tag}
    (htag : tag = match sidecar with
      | .etag => history.etag v
      | .sha256 => history.digest (history.bytes v)) :
    Consistent history (files.writeSidecar sidecar (some tag)) := by
  subst htag
  cases sidecar with
  | etag =>
    refine ⟨h.sha256, fun cache etag hcache' hetag => ⟨v, ?_, ?_⟩⟩
    · exact Option.some.inj (Option.some.inj hetag)
    · exact Option.some.inj (hcache.symm.trans hcache')
  | sha256 =>
    refine ⟨fun cache digest hcache' hdigest => ?_, h.etag⟩
    rw [← Option.some.inj (Option.some.inj hdigest), Option.some.inj (hcache.symm.trans hcache')]

omit [DecidableEq Tag] in
/-- A torn sidecar says nothing. -/
theorem Consistent.tear (h : Consistent history files) (sidecar : Sidecar) :
    Consistent history (files.writeSidecar sidecar none) := by
  cases sidecar with
  | etag => exact ⟨h.sha256, fun _ _ _ hetag => nomatch hetag⟩
  | sha256 => exact ⟨fun _ _ _ hsha => (nomatch hsha), h.etag⟩

omit [DecidableEq Tag] in
@[simp] theorem cache_writeSidecar {sidecar : Sidecar} {value : Option Tag} :
    (files.writeSidecar sidecar value).cache = files.cache := by
  cases sidecar <;> rfl

/-- A cache file that is found valid is the object, and the sidecar that is written is its own. -/
theorem cache_eq_of_cacheValid (h : Consistent history files)
    (htrust : history.sha256 v = none → files.etag = none →
      files.cache = none ∨ files.cache = some (history.bytes v)) {write : Option (Sidecar × Tag)}
    (hvalid : files.cacheValid history.digest (history.metadata v) = (true, write)) :
    files.cache = some (history.bytes v) ∧ ∀ sidecar tag, write = some (sidecar, tag) →
      tag = match sidecar with
        | .etag => history.etag v
        | .sha256 => history.digest (history.bytes v) := by
  unfold DownloadFiles.cacheValid ObjectHistory.metadata at hvalid
  cases hcache : files.cache with
  | none =>
    rw [hcache] at hvalid
    exact nomatch (Prod.mk.inj hvalid).1
  | some cache =>
    rw [hcache] at hvalid
    dsimp only at hvalid
    cases hsha : history.sha256 v with
    | some expected =>
      -- the checksum is compared with that of the file, now or when the sidecar was written
      have hexpected := history.sha256_eq v expected hsha
      rw [hsha] at hvalid
      dsimp only at hvalid
      split at hvalid
      · next hsidecar =>
        have hdigest := h.sha256 cache expected hcache hsidecar
        have heq := history.digest_inj _ _ (hdigest.symm.trans hexpected)
        refine ⟨congrArg some heq, fun sidecar tag hwrite => ?_⟩
        exact nomatch (Prod.mk.inj hvalid).2.trans hwrite
      · split at hvalid
        · next hdigest =>
          have heq := history.digest_inj _ _ (hdigest.trans hexpected)
          refine ⟨congrArg some heq, fun sidecar tag hwrite => ?_⟩
          have hpair := Option.some.inj ((Prod.mk.inj hvalid).2.trans hwrite)
          obtain ⟨rfl, rfl⟩ := Prod.mk.inj hpair
          rw [heq]
        · exact nomatch (Prod.mk.inj hvalid).1
    | none =>
      rw [hsha] at hvalid
      dsimp only at hvalid
      split at hvalid
      · next stored hetag =>
        obtain ⟨hstored, hwrite⟩ := Prod.mk.inj hvalid
        obtain rfl := of_decide_eq_true hstored
        obtain ⟨w, hw, hbytes⟩ := h.etag cache _ hcache hetag
        have heq := hbytes.symm.trans (history.bytes_eq_of_etag_eq w v hw)
        exact ⟨congrArg some heq, fun sidecar tag hwrite' => nomatch hwrite.trans hwrite'⟩
      · next hetag =>
        rcases htrust hsha hetag with hnone | hsome
        · exact nomatch hcache.symm.trans hnone
        · refine ⟨hcache.symm.trans hsome, fun sidecar tag hwrite => ?_⟩
          have hpair := Option.some.inj ((Prod.mk.inj hvalid).2.trans hwrite)
          obtain ⟨rfl, rfl⟩ := Prod.mk.inj hpair
          rfl

/-! ## One step -/

theorem DownloadInv.check (h : Consistent history s.files)
    (htrust : history.sha256 v = none → s.files.etag = none →
      s.files.cache = none ∨ s.files.cache = some (history.bytes v))
    {invalid : DownloadPhase Version Tag} (hinvalid : PhaseInv history s.files invalid) :
    DownloadInv history (s.check history v invalid) := by
  unfold DownloadState.check
  split
  · next sidecar tag hvalid =>
    obtain ⟨hcache, htag⟩ := cache_eq_of_cacheValid h htrust hvalid
    exact ⟨h.writeSidecar hcache (htag sidecar tag rfl), cache_writeSidecar.trans hcache⟩
  · next hvalid => exact ⟨h, (cache_eq_of_cacheValid h htrust hvalid).1⟩
  · exact ⟨h, hinvalid⟩

omit [DecidableEq Tag] in
theorem DownloadInv.resume (h : DownloadInv history s) (hphase : s.phase = .attempt v) :
    DownloadInv history (s.resume history v) := by
  have hcleared : Cleared s.files := by
    have hinv := h.phase
    rw [hphase] at hinv
    exact hinv
  unfold DownloadState.resume
  split
  · next hnone => exact ⟨h.consistent, hcleared, .inr ⟨rfl, hnone⟩⟩
  · next base hbase =>
    split
    · exact ⟨consistent_of_cache_eq_none hcleared.cache,
        ⟨hcleared.cache, hcleared.etag, hcleared.sha256⟩, .inr ⟨rfl, rfl⟩⟩
    · exact ⟨h.consistent, hcleared, .inl hbase⟩

/-- A checksum that matches is that of the object. -/
theorem DownloadInv.verify {hashed : ObjectBytes} (h : DownloadInv history s)
    (hphase : s.phase = .verifying v hashed) : DownloadInv history (s.verify history v hashed) := by
  have hinv := h.phase
  rw [hphase] at hinv
  obtain ⟨hcleared, hhashed, htrust⟩ := hinv
  have hinstall : hashed = history.bytes v →
      DownloadInv history (verify.install s v (history.digest hashed)) := by
    intro heq
    unfold verify.install
    rw [hcleared.cache]
    dsimp only
    split
    · next content hcontent =>
      have hsome : content = hashed := by
        rcases hhashed with hsome | ⟨-, hnone⟩
        · exact Option.some.inj (hcontent.symm.trans hsome)
        · exact nomatch hcontent.symm.trans hnone
      refine ⟨⟨fun _ _ _ hsha => ?_, fun _ _ _ hetag => ?_⟩, ?_, ?_, hcleared.etag⟩
      · exact nomatch hcleared.sha256.symm.trans hsha
      · exact nomatch hcleared.etag.symm.trans hetag
      · exact congrArg some (hsome.trans heq)
      · rw [heq]
    · exact ⟨h.consistent, hcleared⟩
  unfold DownloadState.verify ObjectHistory.metadata
  dsimp only
  cases hsha : history.sha256 v with
  | none => exact hinstall (htrust hsha)
  | some expected =>
    dsimp only
    split
    · exact ⟨consistent_of_cache_eq_none hcleared.cache, hcleared.cache, hcleared.etag, hcleared.sha256⟩
    · next hdigest =>
      have heq := (not_not.mp hdigest).trans (history.sha256_eq v expected hsha)
      exact hinstall (history.digest_inj _ _ heq)

/-- What comes to the file is what is hashed. -/
theorem receive_eq_some {base : ObjectBytes} {n : Nat}
    {phase : ObjectBytes → DownloadPhase Version Tag} (h : s.receive history v base n phase = some s') :
    base.length < (history.bytes v).length ∧ history.bytes s.current = history.bytes v ∧
      ∃ content, content = base ++ (s.requested history v base).take n ∧
        s' = { s with files := { s.files with partialFile := some content }, phase := phase content } := by
  unfold DownloadState.receive at h
  split at h
  · next hrequest =>
    have hetag : history.etag v = history.etag s.current := of_decide_eq_true hrequest.2
    exact ⟨hrequest.1, (history.bytes_eq_of_etag_eq _ _ hetag).symm, _, rfl, (Option.some.inj h).symm⟩
  · exact nomatch h

omit [DecidableEq Tag] in
theorem requested_eq {base : ObjectBytes} (h : history.bytes s.current = history.bytes v) :
    s.requested history v base = (history.bytes v).drop base.length := by
  unfold requested ObjectHistory.metadata
  rw [h]
  split
  · next hbase =>
    rw [hbase]
    rfl
  · rw [List.take_length]

/-- The object is complete if it went on from its beginning and the stream delivered the rest. -/
theorem append_take_eq_iff {base bytes : ObjectBytes} {n : Nat} :
    base ++ (bytes.drop base.length).take n = bytes ↔
      base <+: bytes ∧ bytes.length ≤ base.length + n := by
  constructor
  · intro h
    refine ⟨⟨_, h⟩, ?_⟩
    have hlength := congrArg List.length h
    rw [List.length_append, List.length_take, List.length_drop] at hlength
    omega
  · intro ⟨hbegins, hlength⟩
    rw [List.take_of_length_le (by rw [List.length_drop]; omega)]
    exact (List.prefix_iff_eq_append.mp hbegins)

theorem Consistent.tearCheck (h : Consistent history s.files)
    (hcheck : s.tearCheck history v = some s') : DownloadInv history s' := by
  unfold DownloadState.tearCheck at hcheck
  split at hcheck
  · next sidecar _ _ =>
    obtain rfl := Option.some.inj hcheck
    exact ⟨h.tear sidecar, trivial⟩
  · exact nomatch hcheck

theorem DownloadInv.next (h : DownloadInv history s) (htrust : s.TrustsRightly history .next)
    (hstep : s.step history .next = some s') : DownloadInv history s' := by
  obtain ⟨hconsistent, hinv⟩ := h
  simp only [DownloadState.step] at hstep
  cases hphase : s.phase with
  | idle => simp only [hphase] at hstep; exact nomatch hstep
  | returned v => simp only [hphase] at hstep; exact nomatch hstep
  | checking v =>
    simp only [TrustsRightly, hphase] at hstep htrust
    obtain rfl := Option.some.inj hstep
    exact DownloadInv.check hconsistent htrust trivial
  | removingCache v =>
    simp only [hphase] at hstep
    obtain rfl := Option.some.inj hstep
    exact ⟨consistent_of_cache_eq_none rfl, rfl⟩
  | removingEtag v =>
    simp only [hphase] at hstep
    rw [hphase] at hinv
    obtain rfl := Option.some.inj hstep
    exact ⟨consistent_of_cache_eq_none hinv, hinv, rfl⟩
  | removingSha v =>
    simp only [hphase] at hstep
    rw [hphase] at hinv
    obtain rfl := Option.some.inj hstep
    exact ⟨consistent_of_cache_eq_none hinv.1, hinv.1, hinv.2, rfl⟩
  | rechecking v =>
    simp only [hphase] at hstep
    rw [hphase] at hinv
    obtain rfl := Option.some.inj hstep
    exact DownloadInv.check hconsistent (fun _ _ => .inl hinv.cache) hinv
  | attempt v =>
    simp only [hphase] at hstep
    obtain rfl := Option.some.inj hstep
    exact DownloadInv.resume ⟨hconsistent, hinv⟩ hphase
  | requesting v base =>
    simp only [TrustsRightly, hphase] at hstep htrust
    rw [hphase] at hinv
    split at hstep
    · exact nomatch hstep
    · next hsize =>
      obtain rfl := Option.some.inj hstep
      refine ⟨hconsistent, hinv.1, hinv.2, fun hsha => ?_⟩
      -- a beginning that is as long as the object is all of it
      exact (htrust hsha).eq_of_length_le (Nat.le_of_not_lt hsize)
  | verifying v hashed =>
    simp only [hphase] at hstep
    obtain rfl := Option.some.inj hstep
    exact DownloadInv.verify ⟨hconsistent, hinv⟩ hphase
  | writingSha v digest =>
    simp only [hphase] at hstep
    rw [hphase] at hinv
    obtain ⟨hcache, hdigest, -⟩ := hinv
    obtain rfl := Option.some.inj hstep
    have hfiles : Consistent history (s.files.writeSidecar .sha256 (some digest)) :=
      hconsistent.writeSidecar hcache hdigest
    exact ⟨hfiles, cache_writeSidecar.trans hcache⟩
  | writingEtag v =>
    simp only [hphase, ObjectHistory.metadata] at hstep
    rw [hphase] at hinv
    obtain rfl := Option.some.inj hstep
    have hfiles : Consistent history (s.files.writeSidecar .etag (some (history.etag v))) :=
      hconsistent.writeSidecar hinv rfl
    exact ⟨hfiles, cache_writeSidecar.trans hinv⟩

/-- What every step preserves that takes nothing on trust that is wrong. -/
theorem DownloadInv.step {action : DownloadAction Version} (h : DownloadInv history s)
    (htrust : s.TrustsRightly history action) (hstep : s.step history action = some s') :
    DownloadInv history s' := by
  obtain ⟨hconsistent, hinv⟩ := h
  cases action with
  | replace w =>
    obtain rfl := Option.some.inj hstep
    exact ⟨hconsistent, hinv⟩
  | crash =>
    obtain rfl := Option.some.inj hstep
    exact ⟨hconsistent, trivial⟩
  | head =>
    simp only [DownloadState.step] at hstep
    split at hstep
    · obtain rfl := Option.some.inj hstep
      exact ⟨hconsistent, trivial⟩
    · obtain rfl := Option.some.inj hstep
      exact ⟨hconsistent, trivial⟩
    · exact nomatch hstep
  | next => exact DownloadInv.next ⟨hconsistent, hinv⟩ htrust hstep
  | tear =>
    simp only [DownloadState.step] at hstep
    split at hstep
    · exact hconsistent.tearCheck hstep
    · exact hconsistent.tearCheck hstep
    · obtain rfl := Option.some.inj hstep
      exact ⟨hconsistent.tear .sha256, trivial⟩
    · obtain rfl := Option.some.inj hstep
      exact ⟨hconsistent.tear .etag, trivial⟩
    · exact nomatch hstep
  | finish n =>
    simp only [DownloadState.step] at hstep
    split at hstep
    · next v base hphase =>
      obtain ⟨-, hbytes, content, rfl, rfl⟩ := receive_eq_some hstep
      rw [hphase] at hinv
      obtain ⟨hcleared, -⟩ := hinv
      simp only [TrustsRightly, hphase] at htrust
      refine ⟨consistent_of_cache_eq_none hcleared.cache,
        ⟨hcleared.cache, hcleared.etag, hcleared.sha256⟩, .inl rfl, fun hsha => ?_⟩
      rw [requested_eq hbytes]
      exact append_take_eq_iff.mpr (htrust hsha)
    · exact nomatch hstep
  | breakOff n =>
    simp only [DownloadState.step] at hstep
    split at hstep
    · next v base hphase =>
      obtain ⟨-, -, content, -, rfl⟩ := receive_eq_some hstep
      rw [hphase] at hinv
      obtain ⟨hcleared, -⟩ := hinv
      exact ⟨consistent_of_cache_eq_none hcleared.cache,
        hcleared.cache, hcleared.etag, hcleared.sha256⟩
    · exact nomatch hstep
  | crashOff n =>
    simp only [DownloadState.step] at hstep
    split at hstep
    · next v base hphase =>
      obtain ⟨-, -, content, -, rfl⟩ := receive_eq_some hstep
      rw [hphase] at hinv
      exact ⟨consistent_of_cache_eq_none hinv.1.cache, trivial⟩
    · exact nomatch hstep
  | rangeNotSupported =>
    simp only [DownloadState.step] at hstep
    split at hstep
    · next v base hphase =>
      rw [hphase] at hinv
      obtain ⟨hcleared, -⟩ := hinv
      split at hstep
      · obtain rfl := Option.some.inj hstep
        exact ⟨consistent_of_cache_eq_none hcleared.cache,
          ⟨hcleared.cache, hcleared.etag, hcleared.sha256⟩, .inr ⟨rfl, rfl⟩⟩
      · exact nomatch hstep
    · exact nomatch hstep
  | requestFails =>
    simp only [DownloadState.step] at hstep
    split at hstep
    · next v base hphase =>
      rw [hphase] at hinv
      split at hstep
      · obtain rfl := Option.some.inj hstep
        exact ⟨hconsistent, hinv.1⟩
      · exact nomatch hstep
    · exact nomatch hstep
  | giveUp =>
    simp only [DownloadState.step] at hstep
    split at hstep
    · obtain rfl := Option.some.inj hstep
      exact ⟨hconsistent, trivial⟩
    · exact nomatch hstep

/-! ## All steps -/

omit [DecidableEq Tag] in
theorem downloadInv_start (history : ObjectHistory Version Tag) (current : Version) :
    DownloadInv history (start current) :=
  ⟨consistent_of_cache_eq_none rfl, trivial⟩

/-- Without a checksum the partial file becomes the cache as it is. -/
theorem exists_returned_of_verifying {hashed : ObjectBytes} (hphase : s.phase = .verifying v hashed)
    (hcleared : Cleared s.files) (hfile : s.files.partialFile = some hashed)
    (hsha : history.sha256 v = none) : ∃ s', runActions (step history) s [.next, .next, .next] =
      some s' ∧ s'.phase = .returned v ∧ s'.files.cache = some hashed := by
  obtain ⟨current, ⟨cache, partialFile, etag, sha256⟩, phase⟩ := s
  obtain rfl : phase = _ := hphase
  obtain rfl : cache = none := hcleared.cache
  obtain rfl : partialFile = some hashed := hfile
  refine ⟨⟨current, ⟨some hashed, none, some (some (history.etag v)),
    some (some (history.digest hashed))⟩, .returned v⟩, ?_, rfl, rfl⟩
  simp only [runActions_cons, runActions_nil, DownloadState.step, DownloadState.verify,
    ObjectHistory.metadata, hsha, verify.install, Option.bind_some]
  rfl

/-- What is taken on trust wrongly is returned. -/
theorem exists_wrong_return (h : DownloadInv history s) {action : DownloadAction Version}
    (htrust : ¬ s.TrustsRightly history action) (hstep : s.step history action = some s') :
    ∃ later s'' v, runActions (step history) s' later = some s'' ∧ s''.phase = .returned v ∧
      s''.files.cache ≠ some (history.bytes v) := by
  obtain ⟨hconsistent, hinv⟩ := h
  unfold TrustsRightly at htrust
  split at htrust
  · next v hphase =>
    obtain ⟨hsha, htrust⟩ := Classical.not_imp.mp htrust
    obtain ⟨hetag, htrust⟩ := Classical.not_imp.mp htrust
    obtain ⟨hsome, hwrong⟩ := not_or.mp htrust
    obtain ⟨cache, hcache⟩ := Option.ne_none_iff_exists'.mp hsome
    simp only [DownloadState.step, hphase, DownloadState.check, DownloadFiles.cacheValid,
      ObjectHistory.metadata, hcache, hsha, hetag] at hstep
    obtain rfl := Option.some.inj hstep
    exact ⟨[], _, v, rfl, rfl, fun heq => hwrong (cache_writeSidecar.symm.trans heq)⟩
  · next v base hphase =>
    obtain ⟨hsha, hbegins⟩ := Classical.not_imp.mp htrust
    rw [hphase] at hinv
    obtain ⟨hcleared, hhashed⟩ := hinv
    simp only [DownloadState.step, hphase] at hstep
    split at hstep
    · exact nomatch hstep
    · obtain rfl := Option.some.inj hstep
      have hfile : s.files.partialFile = some base := by
        rcases hhashed with hsome | ⟨rfl, -⟩
        · exact hsome
        · exact absurd List.nil_prefix hbegins
      obtain ⟨s'', hrun, hreturned, hcache⟩ := exists_returned_of_verifying
        (s := { s with phase := .verifying v base }) rfl hcleared hfile hsha
      refine ⟨_, s'', v, hrun, hreturned, fun heq => hbegins ?_⟩
      rw [Option.some.inj (hcache.symm.trans heq)]
  · next n v base hphase =>
    obtain ⟨hsha, hwrong⟩ := Classical.not_imp.mp htrust
    rw [hphase] at hinv
    obtain ⟨hcleared, -⟩ := hinv
    simp only [DownloadState.step, hphase] at hstep
    obtain ⟨-, hbytes, content, hcontent, rfl⟩ := receive_eq_some hstep
    obtain ⟨s'', hrun, hreturned, hcache⟩ := exists_returned_of_verifying
      (s := { s with files := { s.files with partialFile := some content }
                     phase := .verifying v content })
      rfl ⟨hcleared.cache, hcleared.etag, hcleared.sha256⟩ rfl hsha
    refine ⟨_, s'', v, hrun, hreturned, fun heq => hwrong (append_take_eq_iff.mp ?_)⟩
    rw [← requested_eq hbytes, ← hcontent]
    exact Option.some.inj (hcache.symm.trans heq)
  · exact absurd trivial htrust

/-- A download that returns has the bytes of the version of which it has the metadata, in a run in
    which nothing is taken on trust that is wrong; and a step that takes something on trust wrongly
    leads to a download that returns with other bytes. -/
theorem downloads_right (history : ObjectHistory Version Tag) (current : Version)
    (actions : List (DownloadAction Version)) :
    (AllSteps (step history) (TrustsRightly history) (start current) actions →
      ∀ s v, runActions (step history) (start current) actions = some s → s.phase = .returned v →
        s.files.cache = some (history.bytes v)) ∧
    (AllSteps (step history) (TrustsRightly history) (start current) actions →
      ∀ s action s₁, runActions (step history) (start current) actions = some s →
        ¬ s.TrustsRightly history action → s.step history action = some s₁ →
        ∃ later s' v, runActions (step history) s₁ later = some s' ∧ s'.phase = .returned v ∧
          s'.files.cache ≠ some (history.bytes v)) := by
  have hinv : ∀ s, AllSteps (step history) (TrustsRightly history) (start current) actions →
      runActions (step history) (start current) actions = some s → DownloadInv history s :=
    fun s hall hrun => runActions_induction_of_allSteps
      (fun _ _ _ hinv htrust hstep => hinv.step htrust hstep) hall hrun
        (downloadInv_start history current)
  constructor
  · intro hall s v hrun hreturned
    have hphase := (hinv s hall hrun).phase
    rw [hreturned] at hphase
    exact hphase
  · intro hall s action s₁ hrun htrust hstep
    exact exists_wrong_return (hinv s hall hrun) htrust hstep

/-! ## An old file with a new entity tag -/

/-- Two versions without a checksum. -/
def twoVersions : ObjectHistory Bool (ObjectBytes ⊕ Bool) where
  bytes v := if v then [2] else [1]
  etag := .inr
  sha256 _ := none
  digest := .inl
  digest_inj _ _ h := Sum.inl.inj h
  bytes_eq_of_etag_eq v w h := by rw [Sum.inr.inj h]
  sha256_eq _ _ h := nomatch h

/-- The first version is downloaded, and the download crashes before the entity tag is written; then
    the object is replaced. -/
def crashedDownload : List (DownloadAction Bool) :=
  [.head, .next, .next, .next, .next, .next, .next, .finish 1, .next, .next, .crash, .replace true,
    .head, .next]

/-- The download of the second version returns the first. -/
theorem not_downloads_right_blessed : ∃ s, runActions (step twoVersions) (start false)
    crashedDownload = some s ∧ s.phase = .returned true ∧ s.files.cache = some [1] ∧
      twoVersions.bytes true = [2] :=
  ⟨_, rfl, rfl, rfl, rfl⟩

end DownloadState

end DeepProve
