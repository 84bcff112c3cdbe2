import DeepProve.Store.DiskStore

/-!
# Is the disk store a map?

The name of a file does not depend on the run, so two runs that store under the same identifier and
type write to one file. As long as no two runs have such an entry at the same time, the store
answers as a map does, whatever the cache drops.
-/

namespace DeepProve

variable {Path : Type} {env : StoreEnv Path}

/-! ## What the store holds -/

/-- The store holds the map. -/
structure Holds (env : StoreEnv Path) (s : DiskStore Path) (m : StoreMap) : Prop where
  entries : ∀ (runId : Nat) (ks : HashMap InternalKey Path) (key : InternalKey) (file : Path),
    s.storage[runId]? = some ks → ks[key]? = some file → key.runId = runId
  backing : ∀ key, s.backing key = (m key).map fun _ => key.rootedAt env
  files : ∀ key data, m key = some data → s.files (key.rootedAt env) = some data
  cache : ∀ key data data', m key = some data → s.cache key = some data' → data' = data
  nonempty : ∀ key data, m key = some data → data ≠ []
  alone : ∀ key runId, (m key).isSome → (m (key.inRun runId)).isSome → runId = key.runId

/-- Nothing has been stored; files may have been left behind. -/
def DiskStore.new (files : Path → Option Bytes) : DiskStore Path := ⟨∅, fun _ => none, files⟩

theorem holds_new (env : StoreEnv Path) (files : Path → Option Bytes) : Holds env (DiskStore.new files) fun _ => none where
  entries runId ks key file h := by
    have hnone : (∅ : HashMap Nat (HashMap InternalKey Path))[runId]? = none :=
      Std.ExtTreeMap.getElem?_empty
    exact nomatch hnone.symm.trans h
  backing key := by
    show (∅ : HashMap Nat (HashMap InternalKey Path))[key.runId]?.bind _ = none
    rw [Std.ExtTreeMap.getElem?_empty]
    rfl
  files _ _ h := nomatch h
  cache _ _ _ h := nomatch h
  nonempty _ _ h := nomatch h
  alone _ _ h := nomatch h

/-- Two entries have the same file only if they differ in the run. -/
theorem InternalKey.eq_inRun_of_rootedAt_eq {key key' : InternalKey}
    (h : key'.rootedAt env = key.rootedAt env) : key' = key.inRun key'.runId := by
  obtain ⟨hkind, hid⟩ := env.fileName_inj _ _ _ _ h
  cases key
  cases key'
  simp_all [inRun]

/-- The only entry that is written to a file. -/
theorem Holds.eq_of_rootedAt_eq {s : DiskStore Path} {m : StoreMap} (h : Holds env s m)
    {key key' : InternalKey} (hkey : (m key).isSome) (hkey' : (m key').isSome)
    (hfile : key'.rootedAt env = key.rootedAt env) : key' = key := by
  have heq := InternalKey.eq_inRun_of_rootedAt_eq hfile
  have hrun := h.alone key key'.runId hkey (heq ▸ hkey')
  rw [heq, hrun]
  rfl

/-! ## The methods -/

section Methods

variable {s : DiskStore Path} {m : StoreMap} {key key' : InternalKey} {data : Bytes}

theorem backing_withEntry : (s.withEntry env key).backing key' =
    if key' = key then some ((s.backing key).getD (key.rootedAt env)) else s.backing key' := by
  unfold DiskStore.backing DiskStore.withEntry
  simp only [Std.ExtTreeMap.getElem?_insert, Std.LawfulEqCmp.compare_eq_iff_eq]
  by_cases hrun : key.runId = key'.runId
  · rw [if_pos hrun, ← hrun, Option.bind_some, Std.ExtTreeMap.getElem?_insert]
    simp only [Std.LawfulEqCmp.compare_eq_iff_eq]
    by_cases hkey : key = key'
    · subst hkey
      cases s.storage[key.runId]? with
      | none => simp
      | some ks => simp
    · rw [if_neg hkey, if_neg (Ne.symm hkey)]
      cases s.storage[key.runId]? with
      | none => simp
      | some ks => rfl
  · have hkey : key' ≠ key := fun heq => hrun (heq ▸ rfl)
    rw [if_neg hrun, if_neg hkey]

/-- The file of the entry that is made or was there. -/
theorem backing_withEntry_self (key : InternalKey) (h : Holds env s m) :
    (s.withEntry env key).backing key = some (key.rootedAt env) := by
  rw [backing_withEntry, if_pos rfl, h.backing]
  cases m key <;> rfl

variable {ks : HashMap InternalKey Path}
variable {runId : Nat} {file : Path}

/-- An entry is kept under its own run. -/
theorem entries_withEntry (h : Holds env s m)
    (hks : (s.withEntry env key).storage[runId]? = some ks) (hfile : ks[key']? = some file) :
    key'.runId = runId := by
  unfold DiskStore.withEntry at hks
  rw [Std.ExtTreeMap.getElem?_insert] at hks
  simp only [Std.LawfulEqCmp.compare_eq_iff_eq] at hks
  split at hks
  · next hrun =>
    obtain rfl := Option.some.inj hks
    rw [Std.ExtTreeMap.getElem?_insert] at hfile
    simp only [Std.LawfulEqCmp.compare_eq_iff_eq] at hfile
    split at hfile
    · next hkey => rw [← hkey, hrun]
    · cases hold : s.storage[key.runId]? with
      | none =>
        rw [hold] at hfile
        simp at hfile
      | some ks =>
        rw [hold] at hfile
        exact hrun ▸ h.entries _ _ _ _ hold hfile
  · exact h.entries _ _ _ _ hks hfile

theorem contains_eq (key : InternalKey) (h : Holds env s m) : s.contains key = (.ok (m key).isSome, s) := by
  unfold DiskStore.contains
  rw [h.backing]
  cases hkey : m key with
  | none => rfl
  | some data =>
    simp only [Option.map_some, h.files key data hkey, Option.isSome_some, Bool.or_true]

/-- What is read from the file again is what the cache would have had. -/
theorem fetch_simulation (key : InternalKey) (h : Holds env s m) : (s.fetch key).1 = (StoreMap.fetch key m).1 ∧
    Holds env (s.fetch key).2 (StoreMap.fetch key m).2 := by
  unfold DiskStore.fetch StoreMap.fetch
  rw [h.backing]
  cases hkey : m key with
  | none => exact ⟨rfl, h⟩
  | some data =>
    dsimp only [Option.map_some]
    cases hcache : s.cache key with
    | some data' => exact ⟨congrArg Except.ok (h.cache key data data' hkey hcache), h⟩
    | none =>
      dsimp only
      rw [h.files key data hkey]
      cases data with
      | nil => exact absurd rfl (h.nonempty key [] hkey)
      | cons byte bytes =>
        refine ⟨rfl, { h with cache := fun key' data data' hkey' hcache' => ?_ }⟩
        dsimp only at hcache'
        rw [Function.update_apply] at hcache'
        split at hcache'
        · next heq =>
          rw [heq, hkey] at hkey'
          rw [← Option.some.inj hkey', Option.some.inj hcache']
        · exact h.cache key' data data' hkey' hcache'

/-- A store under a key can be told from one in a map only by another run that has the same entry,
    or by an entry that is made for an empty page. -/
def StoresAlone (m : StoreMap) (key : InternalKey) (data : Bytes) : Prop :=
  if data = [] then (m key).isSome = true else ∀ runId, (m (key.inRun runId)).isSome → runId = key.runId

theorem holds_withEntry (h : Holds env s m) (hkey : (m key).isSome) :
    Holds env (s.withEntry env key) m where
  entries _ _ _ _ hks hfile := entries_withEntry h hks hfile
  backing key' := by
    rw [backing_withEntry]
    split
    · next heq =>
      obtain ⟨data, hdata⟩ := Option.isSome_iff_exists.mp hkey
      rw [heq, h.backing, hdata]
      rfl
    · exact h.backing key'
  files := h.files
  cache := h.cache
  nonempty := h.nonempty
  alone := h.alone

variable [DecidableEq Path]

theorem store_simulation (h : Holds env s m) (halone : StoresAlone m key data) :
    (s.store env key data).1 = (StoreMap.store key data m).1 ∧
      Holds env (s.store env key data).2 (StoreMap.store key data m).2 := by
  unfold DiskStore.store StoreMap.store
  unfold StoresAlone at halone
  by_cases hdata : data = []
  · rw [if_pos hdata] at halone
    simp only [if_pos hdata]
    exact ⟨trivial, holds_withEntry h halone⟩
  rw [if_neg hdata] at halone
  simp only [if_neg hdata, backing_withEntry_self key h, Option.getD_some]
  -- no other entry is written to the file
  have hother : ∀ key', key' ≠ key → (m key').isSome → key'.rootedAt env ≠ key.rootedAt env := by
    intro key' hne hsome heq
    have hin := InternalKey.eq_inRun_of_rootedAt_eq heq
    have hrun := halone key'.runId (hin ▸ hsome)
    exact hne (hin.trans (hrun ▸ rfl))
  refine ⟨trivial, fun _ _ _ _ hks hfile => entries_withEntry h hks hfile, fun key' => ?_,
    fun key' data' hkey' => ?_, fun key' data₁ data₂ hkey' hcache => ?_, fun key' data' hkey' => ?_,
    fun key' runId hkey' hkey'' => ?_⟩
  · show (s.withEntry env key).backing key' = _
    rw [backing_withEntry]
    by_cases heq : key' = key
    · subst heq
      rw [if_pos rfl, Function.update_self, h.backing]
      cases m key' <;> rfl
    · rw [if_neg heq, Function.update_of_ne heq, h.backing]
  · by_cases heq : key' = key
    · subst heq
      rw [Function.update_self] at hkey'
      exact (Function.update_self ..).trans hkey'
    · rw [Function.update_of_ne heq] at hkey'
      exact (Function.update_of_ne (hother key' heq (hkey' ▸ rfl)) ..).trans
        (h.files key' data' hkey')
  · dsimp only at hcache
    by_cases heq : key' = key
    · subst heq
      rw [Function.update_self] at hkey' hcache
      exact Option.some.inj (hcache.symm.trans hkey')
    · rw [Function.update_of_ne heq] at hkey' hcache
      exact h.cache key' data₁ data₂ hkey' hcache
  · by_cases heq : key' = key
    · subst heq
      rw [Function.update_self] at hkey'
      exact Option.some.inj hkey' ▸ hdata
    · rw [Function.update_of_ne heq] at hkey'
      exact h.nonempty key' data' hkey'
  · by_cases heq : key'.inRun runId = key
    · by_cases hself : key' = key
      · exact hself ▸ congrArg InternalKey.runId heq
      · rw [Function.update_of_ne hself] at hkey'
        have hrun : key'.runId = key.runId := halone key'.runId (heq ▸ hkey')
        exact (congrArg InternalKey.runId heq).trans hrun.symm
    · rw [Function.update_of_ne heq] at hkey''
      by_cases hself : key' = key
      · subst hself
        exact halone runId hkey''
      · rw [Function.update_of_ne hself] at hkey'
        exact h.alone key' runId hkey' hkey''

omit [DecidableEq Path] in
theorem evict_simulation (keeps : InternalKey → Bool) (h : Holds env s m) :
    Holds env (s.evict keeps).2 m := by
  refine { h with cache := fun key data data' hkey hcache => ?_ }
  dsimp only [DiskStore.evict] at hcache
  split at hcache
  · exact h.cache key data data' hkey hcache
  · exact nomatch hcache

/-! ## Clean-up -/

/-- Files that are there, each of them once, are all removed. -/
theorem removeFiles_eq {files : Path → Option Bytes} {list : List Path} (hnodup : list.Nodup)
    (hfiles : ∀ file ∈ list, (files file).isSome) : DiskStore.removeFiles files list =
      (.ok (), fun file => if file ∈ list then none else files file) := by
  induction list generalizing files with
  | nil => simp [DiskStore.removeFiles]
  | cons file rest ih =>
    obtain ⟨hnotin, hnodup⟩ := List.nodup_cons.mp hnodup
    obtain ⟨data, hdata⟩ := Option.isSome_iff_exists.mp (hfiles file List.mem_cons_self)
    have hrest : ∀ file' ∈ rest, (Function.update files file none file').isSome := by
      intro file' hmem
      have hne : file' ≠ file := fun heq => hnotin (heq ▸ hmem)
      rw [Function.update_of_ne hne]
      exact hfiles file' (List.mem_cons_of_mem _ hmem)
    rw [DiskStore.removeFiles, hdata]
    dsimp only
    rw [ih hnodup hrest]
    congr 1
    funext file'
    by_cases heq : file' = file
    · simp [heq, hnotin]
    · simp [heq]

omit [DecidableEq Path] in
/-- The entries of a run are those of the map. -/
theorem entry_of_run (h : Holds env s m) (hks : s.storage[runId]? = some ks)
    (hfile : ks[key]? = some file) :
    key.runId = runId ∧ (m key).isSome ∧ file = key.rootedAt env := by
  have hrun := h.entries runId ks key file hks hfile
  have hbacking := h.backing key
  rw [DiskStore.backing, hrun, hks, Option.bind_some, hfile] at hbacking
  cases hkey : m key with
  | none =>
    rw [hkey] at hbacking
    exact nomatch hbacking
  | some data =>
    rw [hkey] at hbacking
    exact ⟨hrun, rfl, Option.some.inj hbacking⟩

omit [DecidableEq Path] in
theorem nodup_files_of_run (h : Holds env s m) (hks : s.storage[runId]? = some ks) :
    ks.values.Nodup := by
  rw [Std.ExtTreeMap.values_eq_map_snd_toList]
  refine List.Nodup.map_on ?_ ks.nodup_toList
  intro ⟨key, file⟩ hmem ⟨key', file'⟩ hmem' heq
  obtain rfl : file = file' := heq
  rw [Std.ExtTreeMap.mem_toList_iff_getElem?_eq_some] at hmem hmem'
  obtain ⟨-, hsome, hfile⟩ := entry_of_run h hks hmem
  obtain ⟨-, hsome', hfile'⟩ := entry_of_run h hks hmem'
  rw [h.eq_of_rootedAt_eq hsome' hsome (hfile.symm.trans hfile')]

/-- All files of the run are removed, and none of another run. -/
theorem cleanUp_simulation (runId : Nat) (h : Holds env s m) :
    (s.cleanUp env runId).1 = (StoreMap.cleanUp runId m).1 ∧
      Holds env (s.cleanUp env runId).2 (StoreMap.cleanUp runId m).2 := by
  unfold DiskStore.cleanUp StoreMap.cleanUp
  cases hks : s.storage[runId]? with
  | none =>
    have hsame : (fun key => if key.runId = runId then none else m key) = m := by
      funext key
      split
      · next hrun =>
        have hbacking := h.backing key
        rw [DiskStore.backing, hrun, hks, Option.bind_none] at hbacking
        exact (Option.map_eq_none_iff.mp hbacking.symm).symm
      · rfl
    rw [hsame]
    exact ⟨rfl, h⟩
  | some ks =>
    have hvalues : ∀ file, file ∈ env.values ks.values ↔ file ∈ ks.values := fun _ =>
      (env.values_perm _).mem_iff
    have hthere : ∀ file ∈ env.values ks.values, (s.files file).isSome := by
      intro file hfile
      obtain ⟨key, hkey⟩ := (Std.ExtTreeMap.mem_values ks).mp ((hvalues file).mp hfile)
      obtain ⟨-, hsome, rfl⟩ := entry_of_run h hks hkey
      obtain ⟨data, hdata⟩ := Option.isSome_iff_exists.mp hsome
      rw [h.files key data hdata]
      rfl
    dsimp only
    rw [removeFiles_eq ((env.values_perm _).nodup_iff.mpr (nodup_files_of_run h hks)) hthere]
    have hmap : ∀ {key data}, (if key.runId = runId then none else m key) = some data →
        key.runId ≠ runId ∧ m key = some data := by
      intro key data hkey
      split at hkey
      · exact nomatch hkey
      · next hrun => exact ⟨hrun, hkey⟩
    have hsome : ∀ {key}, (if key.runId = runId then none else m key).isSome → (m key).isSome := by
      intro key hkey
      obtain ⟨data, hdata⟩ := Option.isSome_iff_exists.mp hkey
      rw [(hmap hdata).2]
      rfl
    have hstorage : ∀ runId', (s.storage.erase runId)[runId']? =
        if runId = runId' then none else s.storage[runId']? := by
      intro runId'
      rw [Std.ExtTreeMap.getElem?_erase]
      simp only [Std.LawfulEqCmp.compare_eq_iff_eq]
    refine ⟨rfl, fun runId' ks' key file hks' hfile => ?_, fun key => ?_, fun key data hkey => ?_,
      fun key data data' hkey hcache => ?_, fun key data hkey => ?_, fun key runId' hkey hkey' => ?_⟩
    · rw [hstorage] at hks'
      split at hks'
      · exact nomatch hks'
      · exact h.entries _ _ _ _ hks' hfile
    · show (s.storage.erase runId)[key.runId]?.bind _ = _
      rw [hstorage]
      by_cases hrun : runId = key.runId
      · rw [if_pos hrun, if_pos hrun.symm]
        rfl
      · rw [if_neg hrun, if_neg (Ne.symm hrun)]
        exact h.backing key
    · obtain ⟨hrun, hkey⟩ := hmap hkey
      have hnotin : key.rootedAt env ∉ env.values ks.values := by
        intro hmem
        obtain ⟨key', hkey'⟩ := (Std.ExtTreeMap.mem_values ks).mp ((hvalues _).mp hmem)
        obtain ⟨hrun', hsome', hfile⟩ := entry_of_run h hks hkey'
        have heq := h.eq_of_rootedAt_eq hsome' (hkey ▸ rfl) hfile
        exact hrun (heq ▸ hrun')
      dsimp only
      rw [if_neg hnotin]
      exact h.files key data hkey
    · exact h.cache key data data' (hmap hkey).2 hcache
    · exact h.nonempty key data (hmap hkey).2
    · exact h.alone key runId' (hsome hkey) (hsome hkey')

/-! ## Casts and calls -/

/-- The store that a cast comes to, if the entry is new. -/
def CastsAlone (m : StoreMap) (key : InternalKey) (cast : Cast) : Prop :=
  m { key with kind := cast.kind } = none → ∀ oldPage newPage, m key = some oldPage →
    cast.convert oldPage = .ok newPage → StoresAlone m { key with kind := cast.kind } newPage

omit [DecidableEq Path] in
theorem fetch_of_eq_some (h : Holds env s m) (hkey : m key = some data) :
    ∃ s', s.fetch key = (.ok data, s') ∧ Holds env s' m := by
  obtain ⟨hanswer, hholds⟩ := fetch_simulation key h
  unfold StoreMap.fetch at hanswer hholds
  rw [hkey] at hanswer hholds
  exact ⟨_, Prod.ext hanswer rfl, hholds⟩

omit [DecidableEq Path] in
theorem fetch_of_eq_none (h : Holds env s m) (hkey : m key = none) :
    s.fetch key = (.error (.error .keyUnknown), s) := by
  unfold DiskStore.fetch
  rw [h.backing, hkey]
  rfl

/-- A cast to a type that is not there yet ends with a store. -/
theorem castAndFetch_of_eq_none {cast : Cast} {oldPage newPage : Bytes} (h : Holds env s m)
    (hnew : m { key with kind := cast.kind } = none) (hold : m key = some oldPage)
    (hconvert : cast.convert oldPage = .ok newPage) :
    (∃ s', Holds env s' m ∧ castAndFetch DiskStore.fetch (DiskStore.store env) key cast s =
      mapResult (fun _ => newPage) (s'.store env { key with kind := cast.kind } newPage)) ∧
    castAndFetch StoreMap.fetch StoreMap.store key cast m =
      mapResult (fun _ => newPage) (StoreMap.store { key with kind := cast.kind } newPage m) := by
  obtain ⟨s', hfetch, hholds⟩ := fetch_of_eq_some h hold
  constructor
  · refine ⟨s', hholds, ?_⟩
    rw [castAndFetch, fetch_of_eq_none h hnew]
    dsimp only
    rw [hfetch]
    dsimp only
    rw [hconvert]
  · rw [castAndFetch, StoreMap.fetch, hnew]
    dsimp only
    rw [StoreMap.fetch, hold]
    dsimp only
    rw [hconvert]

theorem castAndFetch_simulation {cast : Cast} (h : Holds env s m) (halone : CastsAlone m key cast) :
    (castAndFetch DiskStore.fetch (DiskStore.store env) key cast s).1 =
        (castAndFetch StoreMap.fetch StoreMap.store key cast m).1 ∧
      Holds env (castAndFetch DiskStore.fetch (DiskStore.store env) key cast s).2
        (castAndFetch StoreMap.fetch StoreMap.store key cast m).2 := by
  cases hnew : m { key with kind := cast.kind } with
  | some data =>
    obtain ⟨s', hfetch, hholds⟩ := fetch_of_eq_some h hnew
    rw [castAndFetch, castAndFetch, hfetch, StoreMap.fetch, hnew]
    dsimp only
    split
    · exact ⟨rfl, hholds⟩
    · exact ⟨rfl, hholds⟩
  | none =>
    cases hold : m key with
    | none =>
      rw [castAndFetch, castAndFetch, fetch_of_eq_none h hnew, StoreMap.fetch, hnew]
      dsimp only
      rw [fetch_of_eq_none h hold, StoreMap.fetch, hold]
      exact ⟨rfl, h⟩
    | some oldPage =>
      cases hconvert : cast.convert oldPage with
      | error e =>
        obtain ⟨s', hfetch, hholds⟩ := fetch_of_eq_some h hold
        rw [castAndFetch, castAndFetch, fetch_of_eq_none h hnew, StoreMap.fetch, hnew]
        dsimp only
        rw [hfetch, StoreMap.fetch, hold]
        dsimp only
        rw [hconvert]
        exact ⟨rfl, hholds⟩
      | ok newPage =>
        obtain ⟨⟨s', hholds, hstore⟩, hmap⟩ := castAndFetch_of_eq_none h hnew hold hconvert
        obtain ⟨hanswer, hholds'⟩ := store_simulation hholds
          (halone hnew oldPage newPage hold hconvert)
        rw [hstore, hmap]
        exact ⟨congrArg (Except.map fun _ => newPage) hanswer, hholds'⟩

/-- No two runs have an entry of one identifier and type, and no entry is made for an empty page. -/
def CallAlone (m : StoreMap) : StoreCall → Prop
  | .store key data => StoresAlone m key data
  | .castAndFetch key cast => CastsAlone m key cast
  | _ => True

/-- One call of the store and of the map. -/
theorem step_simulation (call : StoreCall) (h : Holds env s m) (halone : CallAlone m call) :
    (s.step env call).1 = (stepMap m call).1 ∧ Holds env (s.step env call).2 (stepMap m call).2 := by
  cases call with
  | store key data =>
    obtain ⟨hanswer, hholds⟩ := store_simulation h halone
    exact ⟨congrArg (Except.map fun _ => StoreReply.unit) hanswer, hholds⟩
  | fetch key =>
    obtain ⟨hanswer, hholds⟩ := fetch_simulation key h
    exact ⟨congrArg (Except.map StoreReply.bytes) hanswer, hholds⟩
  | contains key =>
    have hcontains := contains_eq key h
    constructor
    · show (s.contains key).1.map StoreReply.bool = .ok (.bool (m key).isSome)
      rw [hcontains]
      rfl
    · show Holds env (s.contains key).2 m
      rw [hcontains]
      exact h
  | castAndFetch key cast =>
    obtain ⟨hanswer, hholds⟩ := castAndFetch_simulation h halone
    exact ⟨congrArg (Except.map StoreReply.bytes) hanswer, hholds⟩
  | cleanUp runId =>
    obtain ⟨hanswer, hholds⟩ := cleanUp_simulation runId h
    exact ⟨congrArg (Except.map fun _ => StoreReply.unit) hanswer, hholds⟩
  | evict keeps => exact ⟨rfl, evict_simulation keeps h⟩

/-! ## Two runs with one file -/

omit [DecidableEq Path] in
/-- An entry is never unknown. -/
theorem fetch_ne_keyUnknown (h : s.backing key = some file) :
    (s.fetch key).1 ≠ .error (.error .keyUnknown) := by
  unfold DiskStore.fetch
  rw [h]
  dsimp only
  split
  · exact nofun
  · split <;> exact nofun

/-- A clean-up that succeeds leaves none of the files. -/
theorem removeFiles_eq_none {files files' : Path → Option Bytes} {list : List Path}
    (h : DiskStore.removeFiles files list = (.ok (), files')) :
    (∀ file ∈ list, files' file = none) ∧ ∀ file, files file = none → files' file = none := by
  induction list generalizing files with
  | nil =>
    obtain rfl := (Prod.mk.inj h).2
    exact ⟨List.forall_mem_nil _, fun _ hnone => hnone⟩
  | cons file rest ih =>
    rw [DiskStore.removeFiles] at h
    split at h
    · exact nomatch (Prod.mk.inj h).1
    · obtain ⟨hrest, hkeep⟩ := ih h
      constructor
      · intro file' hmem
        rcases List.mem_cons.mp hmem with rfl | hmem
        · exact hkeep file' (Function.update_self ..)
        · exact hrest file' hmem
      · intro file' hnone
        apply hkeep
        by_cases heq : file' = file
        · rw [heq, Function.update_self]
        · rw [Function.update_of_ne heq, hnone]

/-- The entry of another run is lost with the file. -/
theorem contains_after_cleanUp (hks : s.storage[runId]? = some ks) (hfile : ks[key]? = some file)
    (hother : s.backing key' = some file) (hrun : key'.runId ≠ runId)
    (hclean : (s.cleanUp env runId).1 = .ok ()) :
    (((s.cleanUp env runId).2.evict fun _ => false).2.contains key').1 = .ok false := by
  unfold DiskStore.cleanUp at hclean ⊢
  rw [hks] at hclean ⊢
  dsimp only at hclean ⊢
  obtain ⟨hnone, -⟩ := removeFiles_eq_none (Prod.ext hclean rfl)
  have hmem : file ∈ env.values ks.values :=
    (env.values_perm _).mem_iff.mpr ((Std.ExtTreeMap.mem_values ks).mpr ⟨key, hfile⟩)
  unfold DiskStore.contains
  have hbacking : ∀ files cache, (DiskStore.mk (s.storage.erase runId) cache files).backing key' =
      some file := by
    intro files cache
    show (s.storage.erase runId)[key'.runId]?.bind _ = _
    rw [Std.ExtTreeMap.getElem?_erase, if_neg]
    · exact hother
    · rw [Std.LawfulEqCmp.compare_eq_iff_eq]
      exact Ne.symm hrun
  simp only [DiskStore.evict, hbacking, hnone file hmem]
  rfl

/-- Nothing is stored. -/
def OnlyReads : StoreCall → Prop
  | .store _ _ | .castAndFetch _ _ => False
  | _ => True

/-- After such a store another call gets a wrong answer. -/
theorem exists_wrong_of_store (h : Holds env s m) (halone : ¬ StoresAlone m key data) :
    ∃ later : List StoreCall, (∀ call ∈ later, OnlyReads call) ∧
      answers (DiskStore.step env) (s.store env key data).2 later ≠
        answers stepMap (StoreMap.store key data m).2 later := by
  unfold StoresAlone at halone
  by_cases hdata : data = []
  · rw [if_pos hdata] at halone
    have hnone : m key = none := Option.not_isSome_iff_eq_none.mp halone
    refine ⟨[.fetch key], by simp [OnlyReads], fun heq => ?_⟩
    have hstore : (s.store env key data).2 = s.withEntry env key := by
      simp only [DiskStore.store, if_pos hdata]
    have hmap : (StoreMap.store key data m).2 = m := by
      simp only [StoreMap.store, if_pos hdata]
    rw [hstore, hmap] at heq
    have hanswer : ((s.withEntry env key).fetch key).1.map StoreReply.bytes =
        (StoreMap.fetch key m).1.map StoreReply.bytes := (List.cons.inj heq).1
    rw [StoreMap.fetch, hnone] at hanswer
    apply fetch_ne_keyUnknown (backing_withEntry_self key h)
    cases hfetch : ((s.withEntry env key).fetch key).1 with
    | ok bytes =>
      rw [hfetch] at hanswer
      exact nomatch hanswer
    | error e =>
      rw [hfetch] at hanswer
      exact congrArg Except.error (Except.error.inj hanswer)
  · -- the clean-up of this run removes the file of the other one
    rw [if_neg hdata] at halone
    obtain ⟨runId, halone⟩ := not_forall.mp halone
    obtain ⟨hother, hne⟩ := Classical.not_imp.mp halone
    refine ⟨[.cleanUp key.runId, .evict fun _ => false, .contains (key.inRun runId)],
      by simp [OnlyReads], fun heq => ?_⟩
    have hself := backing_withEntry_self key h
    obtain ⟨ks, hks, hentry⟩ := Option.bind_eq_some_iff.mp hself
    have hstore : (s.store env key data).2 = { s.withEntry env key with
        files := Function.update s.files (key.rootedAt env) (some data)
        cache := Function.update s.cache key (some data) } := by
      simp only [DiskStore.store, if_neg hdata, hself, Option.getD_some]
      rfl
    have hmap : (StoreMap.store key data m).2 = Function.update m key (some data) := by
      simp only [StoreMap.store, if_neg hdata]
    rw [hstore, hmap] at heq
    have hkey : key.inRun runId ≠ key := fun hself => hne (congrArg InternalKey.runId hself)
    have hbacking : (s.withEntry env key).backing (key.inRun runId) = some (key.rootedAt env) := by
      obtain ⟨data', hdata'⟩ := Option.isSome_iff_exists.mp hother
      rw [backing_withEntry, if_neg hkey, h.backing, hdata']
      rfl
    obtain ⟨hclean, hrest⟩ := List.cons.inj heq
    obtain ⟨-, hrest⟩ := List.cons.inj hrest
    obtain ⟨hcontains, -⟩ := List.cons.inj hrest
    generalize hs' : ({ s.withEntry env key with
        files := Function.update s.files (key.rootedAt env) (some data)
        cache := Function.update s.cache key (some data) } : DiskStore Path) = s' at *
    have hresult : (s'.cleanUp env key.runId).1 = .ok () := by
      cases hresult : (s'.cleanUp env key.runId).1 with
      | ok => rfl
      | error e =>
        have herror : (s'.cleanUp env key.runId).1.map (fun _ => StoreReply.unit) = .ok .unit := hclean
        rw [hresult] at herror
        exact nomatch herror
    have hfalse : (((s'.cleanUp env key.runId).2.evict fun _ => false).2.contains
        (key.inRun runId)).1 = .ok false := by
      subst hs'
      exact contains_after_cleanUp hks hentry hbacking hne hresult
    have htrue : (((s'.cleanUp env key.runId).2.evict fun _ => false).2.contains
        (key.inRun runId)).1.map StoreReply.bool = .ok (.bool (if (key.inRun runId).runId = key.runId
          then none else Function.update m key (some data) (key.inRun runId)).isSome) := hcontains
    rw [hfalse, if_neg (show (key.inRun runId).runId ≠ key.runId from hne), Function.update_of_ne hkey, hother] at htrue
    exact nomatch htrue

theorem exists_wrong_of_call {call : StoreCall} (h : Holds env s m) (halone : ¬ CallAlone m call) :
    ∃ later : List StoreCall, (∀ call ∈ later, OnlyReads call) ∧
      answers (DiskStore.step env) s (call :: later) ≠ answers stepMap m (call :: later) := by
  cases call with
  | store key data =>
    obtain ⟨later, hreads, hwrong⟩ := exists_wrong_of_store h halone
    exact ⟨later, hreads, fun heq => hwrong (List.cons.inj heq).2⟩
  | castAndFetch key cast =>
    obtain ⟨hnew, halone⟩ := Classical.not_imp.mp halone
    obtain ⟨oldPage, halone⟩ := not_forall.mp halone
    obtain ⟨newPage, halone⟩ := not_forall.mp halone
    obtain ⟨hold, halone⟩ := Classical.not_imp.mp halone
    obtain ⟨hconvert, halone⟩ := Classical.not_imp.mp halone
    obtain ⟨⟨s', hholds, hstore⟩, hmap⟩ := castAndFetch_of_eq_none h hnew hold hconvert
    obtain ⟨later, hreads, hwrong⟩ := exists_wrong_of_store hholds halone
    refine ⟨later, hreads, fun heq => hwrong ?_⟩
    have htail : answers (DiskStore.step env)
        (castAndFetch DiskStore.fetch (DiskStore.store env) key cast s).2 later =
          answers stepMap (castAndFetch StoreMap.fetch StoreMap.store key cast m).2 later :=
      (List.cons.inj heq).2
    rw [hstore, hmap] at htail
    exact htail
  | fetch key => exact absurd trivial halone
  | contains key => exact absurd trivial halone
  | cleanUp runId => exact absurd trivial halone
  | evict keeps => exact absurd trivial halone

/-- The store answers some calls, and any that only read after the first of them, as a map does,
    exactly if no two runs have an entry of one identifier and type at the same time, and no entry
    is made for an empty page. -/
theorem answersAsMap_iff {files : Path → Option Bytes} {calls : List StoreCall} :
    (∀ before after later, calls = before ++ after → (∀ call ∈ later, OnlyReads call) →
      answers (DiskStore.step env) (DiskStore.new files) (before ++ later) =
        answers stepMap (fun _ => none) (before ++ later)) ↔
    MeetsAll stepMap CallAlone (fun _ => none) calls := by
  constructor
  · intro hall
    by_contra hnot
    obtain ⟨before, call, after', rfl, hbefore, halone⟩ := exists_first_of_not_meetsAll hnot
    obtain ⟨hanswers, hholds⟩ := simulation (fun _ _ call => step_simulation call) hbefore
      (holds_new env files)
    obtain ⟨later, hreads, hwrong⟩ := exists_wrong_of_call hholds halone
    have heq := hall (before ++ [call]) after' later (by simp) hreads
    rw [List.append_assoc, List.singleton_append, answers_append before, answers_append before,
      hanswers] at heq
    exact hwrong (List.append_cancel_left heq)
  · intro hmeets before after' later hcalls hreads
    obtain ⟨hbefore, -⟩ := meetsAll_append.mp (hcalls ▸ hmeets)
    have hlater : ∀ call ∈ later, ∀ m, CallAlone m call := by
      intro call hmem m
      have hread := hreads call hmem
      cases call with
      | store key data => exact hread.elim
      | castAndFetch key cast => exact hread.elim
      | fetch key => trivial
      | contains key => trivial
      | cleanUp runId => trivial
      | evict keeps => trivial
    exact (simulation (fun _ _ call => step_simulation call)
      (meetsAll_append.mpr ⟨hbefore, meetsAll_of_forall hlater⟩) (holds_new env files)).1

end Methods

/-! ## A run that fetches the page of another -/

/-- A file for each kind and identifier. -/
def pairEnv : StoreEnv (String × String) where
  fileName kind id := (kind, id)
  fileName_inj _ _ _ _ h := Prod.mk.inj h
  values files := files
  values_perm _ := .refl _

def pageOf (runId : Nat) : InternalKey := ⟨runId, "page", "u8"⟩

/-- Two runs store a page of one name, and the cache drops both. -/
def twoRuns : List StoreCall :=
  [.store (pageOf 0) [1], .store (pageOf 1) [2], .evict fun _ => false, .fetch (pageOf 0)]

/-- Run 0 fetches what run 1 has stored. -/
theorem not_answersAsMap_twoRuns :
    answers (DiskStore.step pairEnv) (DiskStore.new fun _ => none) twoRuns =
      [.ok .unit, .ok .unit, .ok .unit, .ok (.bytes [2])] ∧
    answers stepMap (fun _ => none) twoRuns =
      [.ok .unit, .ok .unit, .ok .unit, .ok (.bytes [1])] := by
  decide +kernel

end DeepProve
