import Std.Data.ExtTreeMap

/-!
# Keys of records

A record is known by a namespace and a name.  Keys are ordered by namespace first and by name
within a namespace, both in the order of their code points; the written form joins the two with a
slash and is for reading only, since a part may hold a slash itself.
-/

namespace Steward

structure Key where
  ns : String
  name : String
  deriving DecidableEq, Repr, Inhabited

namespace Key

def text (key : Key) : String := key.ns ++ "/" ++ key.name

instance : Ord Key := ⟨compareLex (compareOn Key.ns) (compareOn Key.name)⟩

instance : Std.TransOrd Key :=
  inferInstanceAs (Std.TransCmp (compareLex (compareOn Key.ns) (compareOn Key.name)))

instance : Std.LawfulEqOrd Key where
  compare_self :=
    @Std.ReflCmp.compare_self _ (compareLex (compareOn Key.ns) (compareOn Key.name)) _
  eq_of_compare := by
    intro a b h
    have h' : (compare a.ns b.ns).then (compare a.name b.name) = .eq := h
    rw [Ordering.then_eq_eq, Std.LawfulEqCmp.compare_eq_iff_eq,
      Std.LawfulEqCmp.compare_eq_iff_eq] at h'
    cases a
    cases b
    simp_all

/-- The keys in increasing order. -/
def sorted (keys : List Key) : List Key :=
  keys.mergeSort fun a b => (compare a b).isLE

end Key

/-- Values filed under keys, visited in the order of the keys. -/
abbrev KeyMap (α : Type) : Type := Std.ExtTreeMap Key α compare

end Steward
