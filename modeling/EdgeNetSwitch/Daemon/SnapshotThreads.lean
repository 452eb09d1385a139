import EdgeNetSwitch.Daemon.RuntimeStatusBuilder
import EdgeNetSwitch.Runs.Observations
import EdgeNetSwitch.Threads.Program

/-!
# Publishing under concurrency

`SnapshotPublisher` of `src/runtime/SnapshotPublisher.cpp` one atomic step at a time: one thread calls
`publish` for one status after another, and any number of readers call `load` and `version`. What the calls
return is recorded, with what had been published for certain when they began.
-/

namespace EdgeNetSwitch

open Threads Observations

namespace SnapshotPublisher

/-- A call of `load` that has returned; `returned` calls of `publish` had returned when it began. -/
structure Load where
  reader : ℕ
  returned : ℕ
  snapshot : Option RuntimeStatus

/-- A call of `version` that has returned; `returned` calls of `publish` had returned when it began. -/
structure VersionReading where
  reader : ℕ
  returned : ℕ
  version : UInt64

structure PublisherState where
  publisher : SnapshotPublisher := {}
  /-- What the calls of `publish` have returned. -/
  returned : List UInt64 := []
  loads : List Load := []
  versions : List VersionReading := []

inductive PublisherAction where
  /-- `publish(status)` is called. -/
  | publish (status : RuntimeStatus)
  /-- `version_.fetch_add(1) + 1`. -/
  | fetchAdd (status : RuntimeStatus)
  /-- `status.snapshot_version = v`, in the status of the caller. -/
  | edit (status : RuntimeStatus) (v : UInt64)
  /-- `std::make_shared<const RuntimeStatus>(status)`. -/
  | makeShared (status : RuntimeStatus) (v : UInt64)
  /-- `atomic_store` of the pointer. -/
  | store (snap : RuntimeStatus) (v : UInt64)
  | ret (v : UInt64)
  /-- `load` is called. -/
  | load (reader : ℕ)
  | atomicLoad (reader returned : ℕ)
  /-- `version` is called. -/
  | version (reader : ℕ)
  | atomicVersion (reader returned : ℕ)

def exec : PublisherAction → Unit → PublisherState → Option (PublisherState × List PublisherAction)
  | .publish status, _, s => some (s, [.fetchAdd status])
  | .fetchAdd status, _, s =>
    let v := s.publisher.version + 1
    some ({ s with publisher := { s.publisher with version := v } }, [.edit status v])
  | .edit status v, _, s => some (s, [.makeShared { status with snapshot_version := v } v])
  | .makeShared status v, _, s => some (s, [.store status v])
  | .store snap v, _, s => some ({ s with publisher := { s.publisher with snapshot := some snap } }, [.ret v])
  | .ret v, _, s => some ({ s with returned := s.returned ++ [v] }, [])
  | .load reader, _, s => some (s, [.atomicLoad reader s.returned.length])
  | .atomicLoad reader returned, _, s =>
    some ({ s with loads := s.loads ++ [⟨reader, returned, s.publisher.load⟩] }, [])
  | .version reader, _, s => some (s, [.atomicVersion reader s.returned.length])
  | .atomicVersion reader returned, _, s =>
    some ({ s with versions := s.versions ++ [⟨reader, returned, s.publisher.version⟩] }, [])

/-- A call of `publish` without others in between. -/
def PublisherState.published (status : RuntimeStatus) (s : PublisherState) : PublisherState :=
  { s with
    publisher := s.publisher.publish status
    returned := s.returned ++ [s.publisher.version + 1] }

/-- A call of `load` without others in between. -/
def PublisherState.loaded (reader : ℕ) (s : PublisherState) : PublisherState :=
  { s with loads := s.loads ++ [⟨reader, s.returned.length, s.publisher.load⟩] }

def program : Program PublisherState PublisherAction Unit where
  exec := exec

/-- What a reader calls. -/
inductive ReaderCall where
  | load
  | version

def ReaderCall.action (reader : ℕ) : ReaderCall → PublisherAction
  | load => .load reader
  | version => .version reader

/-- A new publisher, one thread that will publish these statuses, and readers that will make these calls. -/
def init (statuses : List RuntimeStatus) (readers : List (List ReaderCall)) :
    Config PublisherState PublisherAction :=
  ⟨{}, statuses.map .publish :: readers.mapIdx fun reader calls => calls.map (ReaderCall.action reader)⟩

/-! ## What readers may rely on -/

section

variable (statuses : List RuntimeStatus) (s : PublisherState)

/-- What is there to load after `k` publications: the `k`-th status, with its number as the version. -/
def publication : ℕ → Option RuntimeStatus
  | 0 => none
  | k + 1 => statuses[k]?.map fun status => { status with snapshot_version := UInt64.ofNat (k + 1) }

/-- The call has loaded publication `k`, and no publication after it had returned when the call began. -/
def LoadShows (k : ℕ) (l : Load) : Prop := l.snapshot = publication statuses k ∧ l.returned ≤ k

def VersionShows (k : ℕ) (l : VersionReading) : Prop := l.version = UInt64.ofNat k ∧ l.returned ≤ k

/-- The calls have seen the publications in the order in which they were made. -/
structure FollowsPublications : Prop where
  loads : Follows (LoadShows statuses) statuses.length s.loads
  versions : Follows VersionShows statuses.length s.versions
  returned : s.returned = (List.range s.returned.length).map fun k => UInt64.ofNat (k + 1)

/-- The calls of `load` that a reader has made. -/
def PublisherState.loadsOf (reader : ℕ) : List Load := s.loads.filter fun l => l.reader = reader

/-- The calls of `version` that a reader has made. -/
def PublisherState.versionsOf (reader : ℕ) : List VersionReading :=
  s.versions.filter fun l => l.reader = reader

/-- The versions tell the readers the same. -/
structure VersionsInOrder : Prop where
  /-- After a snapshot a reader gets no null, and no older version. -/
  ascending : ∀ reader, (s.loadsOf reader).Pairwise fun l l' => ∀ snap, l.snapshot = some snap →
    ∃ snap', l'.snapshot = some snap' ∧ snap.snapshot_version ≤ snap'.snapshot_version
  /-- Version `v` is what was passed to the `v`-th call of `publish`. -/
  exact : ∀ l ∈ s.loads, ∀ snap, l.snapshot = some snap → snap.snapshot_version ≠ 0 ∧
    ∃ status, statuses[snap.snapshot_version.toNat - 1]? = some status ∧
      snap = { status with snapshot_version := snap.snapshot_version }
  /-- Once the `v`-th call of `publish` has returned, a load gives version `v` or a later one. -/
  fresh : ∀ l ∈ s.loads, ∀ v, v ≠ 0 → v ≤ l.returned →
    ∃ snap, l.snapshot = some snap ∧ v ≤ snap.snapshot_version.toNat
  versionsAscending : ∀ reader, (s.versionsOf reader).Pairwise fun l l' => l.version ≤ l'.version
  versionsFresh : ∀ l ∈ s.versions, l.returned ≤ l.version.toNat

end

end SnapshotPublisher

end EdgeNetSwitch
