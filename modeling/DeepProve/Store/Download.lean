import DeepProve.ForStd.Runs

/-!
# Resumable downloads

`download_object` of `store.rs`, step by step: the metadata is asked for, the cache is checked, a
stale cache is removed, and the object is downloaded to a partial file, from where an earlier
download came to. The object may be replaced between any two steps, the download may crash after
any of them, and a stream may end or break off anywhere. There is one download at a time, so the
lock is free.
-/

namespace DeepProve

abbrev ObjectBytes := List UInt8

/-- The versions of an object. The hash and the entity tag say which bytes they are about. -/
structure ObjectHistory (Version Tag : Type) where
  bytes : Version → ObjectBytes
  etag : Version → Tag
  sha256 : Version → Option Tag
  /-- `Sha256::digest`. -/
  digest : ObjectBytes → Tag
  digest_inj : ∀ b b', digest b = digest b' → b = b'
  bytes_eq_of_etag_eq : ∀ v w, etag v = etag w → bytes v = bytes w
  sha256_eq : ∀ v s, sha256 v = some s → s = digest (bytes v)

structure RemoteObjectMetadata (Tag : Type) where
  size : Nat
  etag : Option Tag
  sha256 : Option Tag

/-- What the request for the metadata of a version is answered with. -/
def ObjectHistory.metadata {Version Tag : Type} (history : ObjectHistory Version Tag) (v : Version) :
    RemoteObjectMetadata Tag :=
  ⟨(history.bytes v).length, some (history.etag v), history.sha256 v⟩

/-- A sidecar file: there, or torn, or not there. -/
abbrev SidecarFile (Tag : Type) := Option (Option Tag)

inductive Sidecar where
  | etag
  | sha256

/-- The files of one cache path. -/
structure DownloadFiles (Tag : Type) where
  cache : Option ObjectBytes
  partialFile : Option ObjectBytes
  etag : SidecarFile Tag
  sha256 : SidecarFile Tag

namespace DownloadFiles

variable {Tag : Type} (files : DownloadFiles Tag)

/-- `write_sidecar`; the content is missing when the write does not come to its end. -/
def writeSidecar (sidecar : Sidecar) (value : Option Tag) : DownloadFiles Tag :=
  match sidecar with
  | .etag => { files with etag := some value }
  | .sha256 => { files with sha256 := some value }

/-- `cache_valid`, with the sidecar that it writes. -/
def cacheValid [DecidableEq Tag] (digest : ObjectBytes → Tag) (remote : RemoteObjectMetadata Tag) :
    Bool × Option (Sidecar × Tag) :=
  match files.cache with
  | none => (false, none)
  | some cache =>
    match remote.sha256 with
    | some expectedSha =>
      if files.sha256 = some (some expectedSha) then (true, none)
      -- the digest is computed again when the checksum is missing or stale
      else if digest cache = expectedSha then (true, some (.sha256, digest cache))
      else (false, none)
    | none =>
      match remote.etag with
      | some expectedEtag =>
        match files.etag with
        | some stored => (stored = some expectedEtag, none)
        | none => (true, some (.etag, expectedEtag))
      | none => (false, none)

end DownloadFiles

/-- Where a download is. The version is that of which it has the metadata. -/
inductive DownloadPhase (Version Tag : Type) where
  | idle
  /-- At the first `cache_valid`. -/
  | checking (v : Version)
  | removingCache (v : Version)
  | removingEtag (v : Version)
  | removingSha (v : Version)
  /-- At `cache_valid` with the lock. -/
  | rechecking (v : Version)
  /-- At the start of `download_object_once`. -/
  | attempt (v : Version)
  /-- The bytes of the partial file have been hashed. -/
  | requesting (v : Version) (base : ObjectBytes)
  /-- The stream has ended. -/
  | verifying (v : Version) (hashed : ObjectBytes)
  | writingSha (v : Version) (digest : Tag)
  | writingEtag (v : Version)
  /-- `Ok(())`. -/
  | returned (v : Version)

structure DownloadState (Version Tag : Type) where
  current : Version
  files : DownloadFiles Tag
  phase : DownloadPhase Version Tag

inductive DownloadAction (Version : Type) where
  /-- The object is replaced. -/
  | replace (v : Version)
  /-- A download begins, and gets the metadata. -/
  | head
  /-- The next step that does not wait for the network. -/
  | next
  /-- The write of a sidecar is interrupted by a crash. -/
  | tear
  /-- `n` bytes are received, and the stream ends. -/
  | finish (n : Nat)
  /-- `n` bytes come to the file before the stream breaks off. -/
  | breakOff (n : Nat)
  /-- `n` bytes come to the file before the download crashes. -/
  | crashOff (n : Nat)
  /-- `NotSupported`. -/
  | rangeNotSupported
  /-- The request fails, for example because the entity tag does not match. -/
  | requestFails
  /-- The attempts are used up. -/
  | giveUp
  | crash

namespace DownloadState

variable {Version Tag : Type} [DecidableEq Tag] (history : ObjectHistory Version Tag)
  (s : DownloadState Version Tag)

/-- A check of the cache, which may write a sidecar. -/
def check (v : Version) (invalid : DownloadPhase Version Tag) : DownloadState Version Tag :=
  match s.files.cacheValid history.digest (history.metadata v) with
  | (true, some (sidecar, value)) =>
    { s with files := s.files.writeSidecar sidecar (some value), phase := .returned v }
  | (true, none) => { s with phase := .returned v }
  | (false, _) => { s with phase := invalid }

/-- A check of the cache that crashes when it writes a sidecar. -/
def tearCheck (v : Version) : Option (DownloadState Version Tag) :=
  match s.files.cacheValid history.digest (history.metadata v) with
  | (true, some (sidecar, _)) =>
    some { s with files := s.files.writeSidecar sidecar none, phase := .idle }
  | _ => none

/-- The bytes of the partial file are those that the download goes on from. -/
def resume (v : Version) : DownloadState Version Tag :=
  match s.files.partialFile with
  | none => { s with phase := .requesting v [] }
  | some base =>
    if base.length > (history.metadata v).size then
      { s with files := { s.files with partialFile := none }, phase := .requesting v [] }
    else { s with phase := .requesting v base }

/-- The bytes that are asked for: a range, if there is something to go on from. -/
def requested (v : Version) (base : ObjectBytes) : ObjectBytes :=
  if base = [] then history.bytes s.current
  else ((history.bytes s.current).take (history.metadata v).size).drop base.length

/-- The request is answered if the entity tag matches, and `n` bytes come to the file. -/
def receive (v : Version) (base : ObjectBytes) (n : Nat)
    (phase : ObjectBytes → DownloadPhase Version Tag) : Option (DownloadState Version Tag) :=
  if base.length < (history.metadata v).size ∧
      (history.metadata v).etag.all (fun etag => etag = history.etag s.current) then
    let content := base ++ (s.requested history v base).take n
    some { s with files := { s.files with partialFile := some content }, phase := phase content }
  else none

/-- The checksum is compared, and the partial file becomes the cache. -/
def verify (v : Version) (hashed : ObjectBytes) : DownloadState Version Tag :=
  let digest := history.digest hashed
  match (history.metadata v).sha256 with
  | some expected =>
    if digest ≠ expected then
      { s with files := { s.files with partialFile := none }, phase := .attempt v }
    else install v digest
  | none => install v digest
where
  /-- `fs::rename`, unless there is a cache file. -/
  install (v : Version) (digest : Tag) : DownloadState Version Tag :=
    match s.files.cache with
    | some _ => { s with files := { s.files with partialFile := none }, phase := .writingSha v digest }
    | none =>
      match s.files.partialFile with
      | some content =>
        { s with
          files := { s.files with cache := some content, partialFile := none }
          phase := .writingSha v digest }
      | none => { s with phase := .attempt v }

/-- One step. -/
def step : DownloadAction Version → Option (DownloadState Version Tag)
  | .replace v => some { s with current := v }
  | .crash => some { s with phase := .idle }
  | .head =>
    match s.phase with
    | .idle | .returned _ => some { s with phase := .checking s.current }
    | _ => none
  | .next =>
    match s.phase with
    | .checking v => some (s.check history v (.removingCache v))
    | .removingCache v =>
      some { s with files := { s.files with cache := none }, phase := .removingEtag v }
    | .removingEtag v => some { s with files := { s.files with etag := none }, phase := .removingSha v }
    | .removingSha v => some { s with files := { s.files with sha256 := none }, phase := .rechecking v }
    | .rechecking v => some (s.check history v (.attempt v))
    | .attempt v => some (s.resume history v)
    | .requesting v base =>
      -- the partial file has all bytes
      if base.length < (history.metadata v).size then none
      else some { s with phase := .verifying v base }
    | .verifying v hashed => some (s.verify history v hashed)
    | .writingSha v digest =>
      some { s with files := s.files.writeSidecar .sha256 (some digest), phase := .writingEtag v }
    | .writingEtag v =>
      match (history.metadata v).etag with
      | some etag =>
        some { s with files := s.files.writeSidecar .etag (some etag), phase := .returned v }
      | none => some { s with phase := .returned v }
    | .idle | .returned _ => none
  | .tear =>
    match s.phase with
    | .checking v | .rechecking v => s.tearCheck history v
    | .writingSha _ _ => some { s with files := s.files.writeSidecar .sha256 none, phase := .idle }
    | .writingEtag _ => some { s with files := s.files.writeSidecar .etag none, phase := .idle }
    | _ => none
  | .finish n =>
    match s.phase with
    | .requesting v base => s.receive history v base n fun content => .verifying v content
    | _ => none
  | .breakOff n =>
    match s.phase with
    | .requesting v base => s.receive history v base n fun _ => .attempt v
    | _ => none
  | .crashOff n =>
    match s.phase with
    | .requesting v base => s.receive history v base n fun _ => .idle
    | _ => none
  | .rangeNotSupported =>
    match s.phase with
    | .requesting v base =>
      if 0 < base.length ∧ base.length < (history.metadata v).size then
        some { s with files := { s.files with partialFile := none }, phase := .requesting v [] }
      else none
    | _ => none
  | .requestFails =>
    match s.phase with
    | .requesting v base =>
      if base.length < (history.metadata v).size then some { s with phase := .attempt v } else none
    | _ => none
  | .giveUp =>
    match s.phase with
    | .attempt _ => some { s with phase := .idle }
    | _ => none

end DownloadState

end DeepProve
