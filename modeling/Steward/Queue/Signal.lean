/-!
# Signals

Workers that find nothing to do sleep on a signal.  To notify one of them wakes the one that sleeps
longest; when nobody sleeps, a single permit is kept, which spares the next worker its first sleep.
To notify all wakes everyone and keeps no permit.  A worker that was woken has yet to look again for
work, and it may find that someone else took it.
-/

namespace Steward

structure Signal (ω : Type) where
  /-- The sleeping workers, the one that sleeps longest first. -/
  sleeping : List ω := []
  /-- The workers that were woken and have not looked again yet. -/
  woken : List ω := []
  permit : Bool := false
  deriving DecidableEq, Repr

namespace Signal

variable {ω : Type}

def notifyOne (s : Signal ω) : Signal ω :=
  match s.sleeping with
  | [] => { s with permit := true }
  | w :: rest => { s with sleeping := rest, woken := s.woken ++ [w] }

def notifyAll (s : Signal ω) : Signal ω :=
  { s with sleeping := [], woken := s.woken ++ s.sleeping }

/-- A worker that found nothing uses up the permit, if there is one, to look once more, and then
goes to sleep. -/
def sleep (s : Signal ω) (w : ω) : Signal ω :=
  { s with sleeping := s.sleeping ++ [w], permit := false }

/-- A worker that found nothing, but was notified before it could go to sleep, is to look once more.
-/
def callBack (s : Signal ω) (w : ω) : Signal ω :=
  { s with woken := s.woken ++ [w], permit := false }

/-- The worker that was woken first and has not looked again. -/
def popWoken? (s : Signal ω) : Option (ω × Signal ω) :=
  match s.woken with
  | [] => none
  | w :: rest => some (w, { s with woken := rest })

end Signal

end Steward
