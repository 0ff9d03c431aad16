import Steward.Loop.Shift
import Steward.Timeline
import Steward.Watch

/-!
# Rehearsals

A loop whose reconciles follow a script, next to a watch whose changes are made up.  For the written
form of a key there is a list of prepared looks, each of which may take its time; when they are used
up, a reconcile succeeds at once and asks for nothing.
-/

namespace Steward

/-- A prepared end of a reconcile. -/
structure PreparedLook where
  look : Look
  /-- How long the reconcile takes. -/
  takes : Nat := 0

/-- Prepared looks under the written forms of keys. -/
abbrev PreparedLooks : Type := Std.ExtTreeMap String (List PreparedLook) compare

/-- A reconcile that was begun: when, of which key, and how many there have been of keys with its
written form. -/
structure Beginning where
  instant : Nat
  key : Key
  count : Nat
  deriving DecidableEq, Repr

/-- The stage on which scripted reconciles happen. -/
structure Stage where
  clock : Nat := 0
  script : PreparedLooks := ∅
  counts : Std.ExtTreeMap String Nat compare := ∅
  beginnings : Array Beginning := #[]

namespace Stage

/-- Begins a reconcile of a key. -/
def begin (key : Key) (s : Stage) : Progress Look × Stage :=
  let count := s.counts[key.text]?.getD 0 + 1
  let s :=
    { s with
      counts := s.counts.insert key.text count
      beginnings := s.beginnings.push ⟨s.clock, key, count⟩ }
  match s.script[key.text]?.getD [] with
  | [] => (.finished (.ok none), s)
  | prepared :: rest =>
      let s := { s with script := s.script.insert key.text rest }
      if prepared.takes = 0 then (.finished prepared.look, s)
      else (.waiting (s.clock + prepared.takes) prepared.look, s)

def work : Work Look Stage where
  begin := begin
  resume look s := (.finished look, s)

end Stage

structure Rehearsal where
  shift : Shift Look
  stage : Stage := {}
  changes : Feed Change
  changesClosed : Bool := false
  watch : Watch := {}

namespace Rehearsal

/-- The watch reads, or else the shift moves on. -/
def step? (r : Rehearsal) : Option Rehearsal :=
  match r.watch.step? r.changes r.changesClosed r.shift.loop.floor with
  | some (watch, floor) =>
      some { r with watch, shift := { r.shift with loop := { r.shift.loop with floor } } }
  | none =>
      (r.shift.step? Stage.work r.stage.clock r.stage).map fun (shift, stage) =>
        { r with shift, stage }

def timeline : Timeline Rehearsal where
  clock r := r.stage.clock
  setClock r clock := { r with stage := { r.stage with clock } }
  step? := step?
  due? r := r.shift.due?

/-! ## What can be done in a rehearsal -/

def settle (r : Rehearsal) : Rehearsal := timeline.settle r

/-- A rehearsal in which every worker has asked for its first key. -/
def begin (settings : LoopSettings) (script : PreparedLooks) (capacity : Nat) : Rehearsal :=
  { shift := .start settings, stage := { script }, changes := .ofCapacity capacity : Rehearsal }
    |>.settle

def onFloor (r : Rehearsal) (act : Floor Nat → Floor Nat) : Rehearsal :=
  let loop := r.shift.loop
  { r with shift := { r.shift with loop := { loop with floor := act loop.floor } } }.settle

def add (r : Rehearsal) (key : Key) : Rehearsal := r.onFloor fun f => f.add key

def addAfter (r : Rehearsal) (delay : Nat) (key : Key) : Rehearsal :=
  r.onFloor fun f => f.addAfter r.stage.clock delay key

def stop (r : Rehearsal) : Rehearsal := r.onFloor Floor.close

/-- Announces changes of some keys; none once the changes are closed. -/
def announce (r : Rehearsal) (kind : ChangeKind) (keys : List Key) : Rehearsal :=
  if r.changesClosed then r.settle
  else
    { r with
      changes := keys.foldl (fun changes key => changes.announce ⟨kind, key⟩) r.changes }.settle

def closeChanges (r : Rehearsal) : Rehearsal := { r with changesClosed := true }.settle

def advance (r : Rehearsal) (ms : Nat) : Rehearsal := timeline.advance ms r

end Rehearsal

end Steward
