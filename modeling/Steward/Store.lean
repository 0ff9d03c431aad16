import Steward.Change
import Steward.Counter
import Steward.Fault
import Steward.Feed
import Steward.Record

/-!
# The store

The records of one kind, filed under their keys.  A write must name the version of the record that
it is based on, so of two writers that read the same version only the first succeeds.  A record
whose deletion was asked for disappears as soon as a write leaves it without finalizers.  Every
write that goes through announces one change.  For rehearsals the store can be told to fail a number
of its next accesses; a failed access has no effect but to use up one of these.
-/

namespace Steward

structure Store (σ : Type) where
  records : KeyMap (Record σ) := ∅
  /-- How many of the next accesses fail. -/
  faults : Nat := 0
  /-- The changes announced so far. -/
  announced : Array Change := #[]

namespace Store

variable {σ : Type} {α : Type}

/-- Uses up one pending failure, if there is one, in place of the access. -/
def guarded (s : Store σ) (operation : String) (access : Except Fault α × Store σ) :
    Except Fault α × Store σ :=
  match s.faults with
  | 0 => access
  | n + 1 => (.error (.store operation "injected store fault"), { s with faults := n })

/-- Files a record under its key and announces the change. -/
def put (s : Store σ) (kind : ChangeKind) (r : Record σ) : Store σ :=
  { s with
    records := s.records.insert r.key r
    announced := s.announced.push ⟨kind, r.key⟩ }

/-- Drops the record under a key and announces its removal. -/
def drop (s : Store σ) (key : Key) : Store σ :=
  { s with
    records := s.records.erase key
    announced := s.announced.push ⟨.deleted, key⟩ }

/-- Does something with the record under a key, or fails when there is none. -/
def withRecord (s : Store σ) (key : Key) (act : Record σ → Except Fault α × Store σ) :
    Except Fault α × Store σ :=
  match s.records[key]? with
  | none => (.error (.notFound key), s)
  | some stored => act stored

/-! ## Accesses -/

def get (s : Store σ) (key : Key) : Except Fault (Option (Record σ)) × Store σ :=
  s.guarded "get" (.ok s.records[key]?, s)

def readStatus (s : Store σ) (key : Key) : Except Fault (Option Status) × Store σ :=
  s.guarded "read_status" (.ok (s.records[key]?.map Record.status), s)

/-- Files a new record; its versions start at one, and it is not being deleted. -/
def create (s : Store σ) (r : Record σ) : Except Fault (Record σ) × Store σ :=
  s.guarded "create" <|
    if r.key ∈ s.records then (.error (.alreadyExists r.key), s)
    else
      let stored : Record σ :=
        { r with
          metadata :=
            { r.metadata with resourceVersion := 1, generation := 1, deletionRequestedAt := none } }
      (.ok stored, s.put .added stored)

/-- A record whose version has moved on by one. -/
def bumped (r : Record σ) : Record σ :=
  { r with
    metadata :=
      { r.metadata with resourceVersion := Counter.next r.metadata.resourceVersion } }

def applySpec (s : Store σ) (key : Key) (spec : σ) : Except Fault (Record σ) × Store σ :=
  s.guarded "apply_spec" <| s.withRecord key fun stored =>
    let updated := bumped
      { stored with
        spec
        metadata :=
          { stored.metadata with generation := Counter.next stored.metadata.generation } }
    (.ok updated, s.put .modified updated)

def annotate (s : Store σ) (key : Key) (name value : String) :
    Except Fault (Record σ) × Store σ :=
  s.guarded "set_annotation" <| s.withRecord key fun stored =>
    let updated := bumped
      { stored with
        metadata :=
          { stored.metadata with annotations := stored.metadata.annotations.insert name value } }
    (.ok updated, s.put .modified updated)

/-- Asks for the deletion of a record at the instant `now`.  Without finalizers the record goes at
once; otherwise the first request is noted in it. -/
def requestDeletion (s : Store σ) (now : Instant) (key : Key) : Except Fault Unit × Store σ :=
  s.guarded "request_deletion" <| s.withRecord key fun stored =>
    if stored.metadata.finalizers.isEmpty then (.ok (), s.drop key)
    else if stored.metadata.isDeletionRequested then (.ok (), s.put .modified stored)
    else
      let updated := bumped
        { stored with metadata := { stored.metadata with deletionRequestedAt := some now } }
      (.ok (), s.put .modified updated)

/-- A write based on the version that `incoming` names: `change` says what becomes of the stored
record. -/
def writeWith (s : Store σ) (operation : String) (incoming : Record σ)
    (change : Record σ → Record σ) : Except Fault (Record σ) × Store σ :=
  s.guarded operation <| s.withRecord incoming.key fun stored =>
    let expected := incoming.metadata.resourceVersion
    let actual := stored.metadata.resourceVersion
    if expected ≠ actual then (.error (.conflict incoming.key expected actual), s)
    else
      let updated := bumped (change stored)
      if updated.metadata.isDeletionRequested && updated.metadata.finalizers.isEmpty then
        (.ok updated, s.drop incoming.key)
      else (.ok updated, s.put .modified updated)

variable [DecidableEq σ]

/-- Writes specification, annotations and finalizers; the stored status is kept. -/
def update (s : Store σ) (incoming : Record σ) : Except Fault (Record σ) × Store σ :=
  s.writeWith "update" incoming fun stored =>
    { stored with
      spec := incoming.spec
      metadata :=
        { stored.metadata with
          annotations := incoming.metadata.annotations
          finalizers := incoming.metadata.finalizers
          generation :=
            if stored.spec = incoming.spec then stored.metadata.generation
            else Counter.next stored.metadata.generation } }

omit [DecidableEq σ] in
/-- Writes the status; everything else is kept. -/
def updateStatus (s : Store σ) (incoming : Record σ) : Except Fault (Record σ) × Store σ :=
  s.writeWith "update_status" incoming fun stored => { stored with status := incoming.status }

/-! ## Looking without access -/

omit [DecidableEq σ] in
def contains (s : Store σ) (key : Key) : Bool := s.records.contains key

omit [DecidableEq σ] in
/-- Every record, in the order of the keys. -/
def list (s : Store σ) : List (Record σ) := s.records.values

omit [DecidableEq σ] in
def size (s : Store σ) : Nat := s.records.size

omit [DecidableEq σ] in
/-- Makes the next `count` accesses fail, in place of any number set before. -/
def failNext (s : Store σ) (count : Nat) : Store σ := { s with faults := count }

omit [DecidableEq σ] in
/-- The record as if it were based on the stored version, if there is one. -/
def rebased (s : Store σ) (r : Record σ) : Record σ :=
  match s.records[r.key]? with
  | none => r
  | some stored =>
      { r with
        metadata := { r.metadata with resourceVersion := stored.metadata.resourceVersion } }

/-- How many changes the readers of a store may fall behind. -/
def lookBack : Nat := 1024

omit [DecidableEq σ] in
/-- The announced changes, for readers. -/
def feed (s : Store σ) : Feed Change := { capacity := lookBack, announced := s.announced }

end Store

/-! ## Operations as data -/

/-- One operation on a store. -/
inductive StoreOp (σ : Type) where
  | create (record : Record σ)
  /-- With `latest` the stored version takes the place of the record's own. -/
  | update (record : Record σ) (latest : Bool)
  | updateStatus (record : Record σ) (latest : Bool)
  | applySpec (key : Key) (spec : σ)
  | annotate (key : Key) (name value : String)
  | requestDeletion (key : Key)
  | get (key : Key)
  | readStatus (key : Key)
  | contains (key : Key)
  | list
  | size
  | failNext (count : Nat)

/-- What an operation on a store answers. -/
inductive StoreReply (σ : Type) where
  | done
  | record (record : Record σ)
  | absent
  | status (status : Status)
  | flag (value : Bool)
  | records (records : List (Record σ))
  | count (n : Nat)
  | fault (fault : Fault)

namespace Store

variable {σ : Type} {α : Type}

def reply (ok : α → StoreReply σ) : Except Fault α × Store σ → StoreReply σ × Store σ
  | (.ok a, s) => (ok a, s)
  | (.error fault, s) => (.fault fault, s)

/-- Carries out an operation; the wall clock shows `now`. -/
def perform [DecidableEq σ] (now : Instant) (s : Store σ) :
    StoreOp σ → StoreReply σ × Store σ
  | .create r => reply .record (s.create r)
  | .update r latest => reply .record (s.update (if latest then s.rebased r else r))
  | .updateStatus r latest => reply .record (s.updateStatus (if latest then s.rebased r else r))
  | .applySpec key spec => reply .record (s.applySpec key spec)
  | .annotate key name value => reply .record (s.annotate key name value)
  | .requestDeletion key => reply (fun _ => .done) (s.requestDeletion now key)
  | .get key => reply (fun found => found.elim .absent .record) (s.get key)
  | .readStatus key => reply (fun found => found.elim .absent .status) (s.readStatus key)
  | .contains key => (.flag (s.contains key), s)
  | .list => (.records s.list, s)
  | .size => (.count s.size, s)
  | .failNext count => (.done, s.failNext count)

end Store

end Steward
