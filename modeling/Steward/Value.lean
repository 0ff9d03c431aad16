/-!
# Structured values

A value as a document format delivers it: null, a flag, a whole number, a decimal fraction, text, a
list, or a map from names to values.  Whole numbers are exact and unbounded; the bounds of a field
belong to the reader of that field.  Two values are equal exactly when they are built alike, and
equality is decided by `Value.same`.
-/

namespace Steward

inductive Value where
  | null
  | bool (flag : Bool)
  | int (n : Int)
  /-- The fraction `mantissa / 10 ^ places`. -/
  | decimal (mantissa : Int) (places : Nat)
  | text (s : String)
  | list (items : List Value)
  | map (entries : List (String × Value))
  deriving Repr, Inhabited

namespace Value

mutual

def same : Value → Value → Bool
  | .null, .null => true
  | .bool a, .bool b => a == b
  | .int a, .int b => a == b
  | .decimal a m, .decimal b n => a == b && m == n
  | .text a, .text b => a == b
  | .list as, .list bs => sameItems as bs
  | .map as, .map bs => sameEntries as bs
  | _, _ => false

def sameItems : List Value → List Value → Bool
  | [], [] => true
  | a :: as, b :: bs => same a b && sameItems as bs
  | _, _ => false

def sameEntries : List (String × Value) → List (String × Value) → Bool
  | [], [] => true
  | (k, a) :: as, (l, b) :: bs => k == l && same a b && sameEntries as bs
  | _, _ => false

end

mutual

theorem eq_of_same : ∀ {a b : Value}, same a b = true → a = b
  | .null, b, h => by cases b <;> simp_all [same]
  | .bool _, b, h => by cases b <;> simp_all [same]
  | .int _, b, h => by cases b <;> simp_all [same]
  | .decimal _ _, b, h => by cases b <;> simp_all [same]
  | .text _, b, h => by cases b <;> simp_all [same]
  | .list as, b, h => by
      cases b <;> simp only [same, Bool.false_eq_true] at h
      exact congrArg _ (eq_of_sameItems h)
  | .map as, b, h => by
      cases b <;> simp only [same, Bool.false_eq_true] at h
      exact congrArg _ (eq_of_sameEntries h)

theorem eq_of_sameItems : ∀ {as bs : List Value}, sameItems as bs = true → as = bs
  | [], bs, h => by cases bs <;> simp_all [sameItems]
  | a :: as, bs, h => by
      cases bs with
      | nil => simp [sameItems] at h
      | cons b bs =>
          simp only [sameItems, Bool.and_eq_true] at h
          rw [eq_of_same h.1, eq_of_sameItems h.2]

theorem eq_of_sameEntries : ∀ {as bs : List (String × Value)},
    sameEntries as bs = true → as = bs
  | [], bs, h => by cases bs <;> simp_all [sameEntries]
  | (k, a) :: as, bs, h => by
      cases bs with
      | nil => simp [sameEntries] at h
      | cons b bs =>
          obtain ⟨l, b⟩ := b
          simp only [sameEntries, Bool.and_eq_true, beq_iff_eq] at h
          rw [h.1.1, eq_of_same h.1.2, eq_of_sameEntries h.2]

end

mutual

theorem same_self : ∀ a : Value, same a a = true
  | .null => rfl
  | .bool _ => by simp [same]
  | .int _ => by simp [same]
  | .decimal _ _ => by simp [same]
  | .text _ => by simp [same]
  | .list as => by simp [same, sameItems_self as]
  | .map as => by simp [same, sameEntries_self as]

theorem sameItems_self : ∀ as : List Value, sameItems as as = true
  | [] => rfl
  | a :: as => by simp [sameItems, same_self a, sameItems_self as]

theorem sameEntries_self : ∀ as : List (String × Value), sameEntries as as = true
  | [] => rfl
  | (_, a) :: as => by simp [sameEntries, same_self a, sameEntries_self as]

end

theorem same_iff {a b : Value} : same a b = true ↔ a = b :=
  ⟨eq_of_same, fun h => h ▸ same_self a⟩

instance : DecidableEq Value := fun _ _ => decidable_of_iff _ same_iff

end Value

end Steward
