import Steward.Proofs.Finalizer

/-!
# The record in hand and the record in the store

A reconcile works with the record that the store showed it last, while others go on writing to the
store.  A view is both records together, and `Turns` lists all that one step of a scene can make of
it.  What is said elsewhere about these two records follows from this list, by induction on the run.
-/

namespace Steward

open Deed

variable {σ : Type}

/-- The record under a key, and the record that the reconcile has in hand. -/
structure View (σ : Type) where
  stored : Option (Record σ)
  held : Option (Record σ)

namespace Happening

theorem bears_create {r : Record σ} (answer : Record σ) (key : Key) :
    (Happening.outside (.create r) (.record answer)).bears key = (r.key == key) := rfl

/-- The store shows a record to the reconcile. -/
def shows : Happening σ → Bool
  | .did deed => deed.record?.isSome
  | _ => false

end Happening

namespace View

variable [DecidableEq σ]

/-- What a step may make of the two records. -/
inductive Turns (key : Key) : Happening σ → View σ → View σ → Prop where
  | outside {op : StoreOp σ} {reply : StoreReply σ} {before after held : Option (Record σ)}
      (becomes : Store.Becomes key op before after)
      (files : before = none → after ≠ none → (Happening.outside op reply).bears key = true) :
      Turns key (.outside op reply) ⟨before, held⟩ ⟨after, held⟩
  | began {stored held : Option (Record σ)} : Turns key .began ⟨stored, held⟩ ⟨stored, none⟩
  | returned {stored held : Option (Record σ)} {result : Except Fault Outcome} :
      Turns key (.returned result) ⟨stored, held⟩ ⟨stored, none⟩
  | found {stored : Option (Record σ)} :
      Turns key (.did (.asked (.read key) (.ok stored))) ⟨stored, none⟩ ⟨stored, stored⟩
  | unseen {deed : Deed σ} {stored held : Option (Record σ)} (unseen : deed.record? = none) :
      Turns key (.did deed) ⟨stored, held⟩ ⟨stored, held⟩
  /-- A write of metadata drops the record or leaves the one that it answers with. -/
  | rewritten {incoming stored : Record σ} {after held : Option (Record σ)}
      (based : stored.metadata.resourceVersion = incoming.metadata.resourceVersion)
      (lands : after = none ∨ after = some (Store.bumped (Store.rewritten incoming stored))) :
      Turns key
        (.did (.asked (.writeMetadata incoming)
          (.ok (Store.bumped (Store.rewritten incoming stored)))))
        ⟨some stored, held⟩ ⟨after, some (Store.bumped (Store.rewritten incoming stored))⟩
  /-- A write of the status likewise. -/
  | restated {incoming stored : Record σ} {after held : Option (Record σ)}
      (based : stored.metadata.resourceVersion = incoming.metadata.resourceVersion)
      (lands : after = none ∨ after = some (Store.bumped (Store.restated incoming stored))) :
      Turns key
        (.did (.asked (.writeStatus incoming)
          (.ok (Store.bumped (Store.restated incoming stored)))))
        ⟨some stored, held⟩ ⟨after, some (Store.bumped (Store.restated incoming stored))⟩

omit [DecidableEq σ] in
/-- What a write leaves is what it answers with. -/
theorem eq_of_lands {after : Option (Record σ)} {w r : Record σ}
    (lands : after = none ∨ after = some w) (found : after = some r) : w = r := by
  obtain gone | left := lands
  · cases gone.symm.trans found
  · exact Option.some.inj (left.symm.trans found)

end View

namespace Scene

variable {key : Key}

def view (key : Key) (past : List (Happening σ)) (s : Store σ) : View σ :=
  ⟨s.records[key]?, inHand (sitting past)⟩

theorem view_did (deed : Deed σ) (past : List (Happening σ)) (s : Store σ) :
    view key (.did deed :: past) s =
      ⟨s.records[key]?, deed.record?.or (inHand (sitting past))⟩ := by
  rw [view, sitting, inHand_cons]

end Scene

namespace Store

variable [DecidableEq σ] {s t : Store σ} {key : Key}

omit [DecidableEq σ] in
theorem reply_fst_of_ok {α : Type} (ok : α → StoreReply σ) {result : Except Fault α × Store σ}
    {a : α} (granted : result.1 = .ok a) : (reply ok result).1 = ok a := by
  obtain ⟨_, _⟩ := result
  cases granted
  rfl

/-- Where there was no record, only a create that is answered with a record leaves one. -/
theorem perform_bears (filed : s.Filed) (now : Instant) {op : StoreOp σ}
    (free : s.records[key]? = none) (taken : (s.perform now op).2.records[key]? ≠ none) :
    (Happening.outside op (s.perform now op).1).bears key = true := by
  have becomes := (perform_lawful filed now op).becomes key
  rw [free] at becomes
  generalize after : (s.perform now op).2.records[key]? = found at becomes taken
  cases becomes with
  | unchanged => exact absurd rfl taken
  | @created r own =>
      obtain ⟨fault, _, same⟩ | ⟨_, answer, _⟩ := create_cases s r
      · have kept : (s.perform now (.create r)).2 = (s.create r).2 := reply_snd .record (s.create r)
        rw [kept, same, free] at after
        cases after
      · have shown : (s.perform now (.create r)).1 = .record (fresh r) := by
          exact reply_fst_of_ok .record answer
        rw [shown, Happening.bears_create]
        exact beq_iff_eq.mpr own

omit [DecidableEq σ] in
/-- A write is refused and changes no record, or it is based on the record that it finds, and drops
it or leaves the one that it answers with. -/
theorem writeWith_lands (filed : s.Filed) (operation : String) (incoming : Record σ)
    (change : Record σ → Record σ) (keeps : ∀ r, (change r).key = r.key) :
    (∃ fault, (s.writeWith operation incoming change).1 = .error fault ∧
      (s.writeWith operation incoming change).2.records = s.records) ∨
    ∃ stored, s.records[incoming.key]? = some stored ∧
      stored.metadata.resourceVersion = incoming.metadata.resourceVersion ∧
      (s.writeWith operation incoming change).1 = .ok (bumped (change stored)) ∧
      ((s.writeWith operation incoming change).2.records[incoming.key]? = none ∨
        (s.writeWith operation incoming change).2.records[incoming.key]? =
          some (bumped (change stored))) := by
  obtain refused | ⟨stored, found, based, granted, records⟩ :=
    writeWith_cases s operation incoming change
  · exact .inl refused
  have own : (change stored).key = incoming.key := (keeps stored).trans (filed _ _ found)
  refine .inr ⟨stored, found, based, granted, ?_⟩
  rw [records, own]
  split
  · exact .inl Std.ExtTreeMap.getElem?_erase_self
  · exact .inr Std.ExtTreeMap.getElem?_insert_self

/-- What an access of the reconcile makes of the two records. -/
theorem Answers.turns {c : Controller σ} {past : List (Happening σ)} {query : Query σ}
    {answer : query.Answer} (answers : s.Answers query answer t) (filed : s.Filed)
    (asks : (c.conduct key).asks (Scene.sitting past) query) :
    View.Turns key (.did (.asked query answer)) (Scene.view key past s)
      (Scene.view key (.did (.asked query answer) :: past) t) := by
  rw [Scene.view_did]
  cases answers with
  | readStatus => exact .unseen rfl
  | read k =>
      obtain ⟨first, rfl⟩ := asks
      rw [Scene.view, get_records, first]
      generalize reply : (s.get k).1 = answer
      cases answer with
      | error fault => exact .unseen rfl
      | ok found =>
          obtain rfl := get_ok reply
          rw [show (Deed.asked (.read k) (.ok s.records[k]?)).record? = s.records[k]? from rfl,
            inHand, List.findSome?_nil, Option.or_none]
          exact .found
  | writeMetadata incoming =>
      obtain ⟨_, _, _, rfl, _⟩ := c.of_written asks rfl
      rw [Scene.view, update_eq]
      obtain ⟨fault, refused, same⟩ | ⟨stored, found, based, granted, lands⟩ :=
        writeWith_lands filed "update" incoming (rewritten incoming) fun _ => rfl
      · rw [refused, same]
        exact .unseen rfl
      · rw [granted, found]
        exact .rewritten based lands
  | writeStatus incoming =>
      obtain ⟨_, _, _, rfl, _⟩ := c.of_written asks rfl
      rw [Scene.view, updateStatus_eq]
      obtain ⟨fault, refused, same⟩ | ⟨stored, found, based, granted, lands⟩ :=
        writeWith_lands filed "update_status" incoming (restated incoming) fun _ => rfl
      · rw [refused, same]
        exact .unseen rfl
      · rw [granted, found]
        exact .restated based lands

end Store

namespace Scene

variable [DecidableEq σ] {c : Controller σ} {key : Key} {may : Custom σ}
variable {past : List (Happening σ)} {s t : Scene σ} {happening : Happening σ}

theorem Run.turns (run : Run c key may past s) (step : Step c key may s happening t) :
    View.Turns key happening (view key past s.store) (view key (happening :: past) t.store) := by
  have upholds := run.upholds
  cases step with
  | outside now op _ =>
      exact .outside ((Store.perform_lawful run.filed now op).becomes key)
        (Store.perform_bears run.filed now)
  | begin => exact .began
  | stop => exact .returned
  | issue | finish | report => exact .unseen rfl
  | ask answers => exact answers.turns run.filed upholds.1

end Scene

end Steward
