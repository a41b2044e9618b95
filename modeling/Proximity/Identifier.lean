import Std.Data.TreeMap
import Std.Data.TreeSet

set_option autoImplicit false
set_option relaxedAutoImplicit false

/-!
# Identifiers

Registered vectors and page runs are named by 64-bit numbers, and both kinds of name are ordered
numerically. A caller may register a vector only under a positive number below `2 ^ 63`; a number
that is merely read back from a record is not held to that range.

## Main definitions

* `Proximity.VectorId` — the name of a registered vector.
* `Proximity.VectorId.accepted` — the names that a caller may use.
* `Proximity.PageId` — the number of the first page of a run.
* `Proximity.IdSet` — finite sets of vector names.
-/

namespace Proximity

/-- The name under which a vector is registered. -/
structure VectorId where
  /-- The number that the caller chose. -/
  raw : UInt64
deriving DecidableEq

/-- The number of the first page of a page run. -/
structure PageId where
  /-- The page number. -/
  number : UInt64
deriving DecidableEq

namespace VectorId

/-- The greatest number under which a vector can be registered. -/
def greatest : UInt64 := 9223372036854775807

/-- Whether a caller may register a vector under this number. -/
def accepted (raw : UInt64) : Bool :=
  0 < raw && raw ≤ greatest

/-- Names are in the order of their numbers. -/
instance : Ord VectorId := ⟨fun a b => compare a.raw b.raw⟩

/-- Two names are compared by their numbers. -/
theorem compare_def (a b : VectorId) : compare a b = compare a.raw b.raw := rfl

/-- The order of the names is transitive. -/
instance : Std.TransOrd VectorId where
  eq_swap {a b} := @Std.OrientedCmp.eq_swap UInt64 compare _ a.raw b.raw
  isLE_trans {a b c} := @Std.TransCmp.isLE_trans UInt64 compare _ a.raw b.raw c.raw

/-- Names that are equal in the order are the same. -/
instance : Std.LawfulEqOrd VectorId where
  eq_of_compare {a b} h := by
    cases a; cases b
    exact congrArg VectorId.mk (@Std.LawfulEqCmp.eq_of_compare UInt64 compare _ _ _ h)

end VectorId

namespace PageId

/-- Pages are in the order of their numbers. -/
instance : Ord PageId := ⟨fun a b => compare a.number b.number⟩

/-- Two pages are compared by their numbers. -/
theorem compare_def (a b : PageId) : compare a b = compare a.number b.number := rfl

/-- The order of the pages is transitive. -/
instance : Std.TransOrd PageId where
  eq_swap {a b} := @Std.OrientedCmp.eq_swap UInt64 compare _ a.number b.number
  isLE_trans {a b c} := @Std.TransCmp.isLE_trans UInt64 compare _ a.number b.number c.number

/-- Pages that are equal in the order are the same. -/
instance : Std.LawfulEqOrd PageId where
  eq_of_compare {a b} h := by
    cases a; cases b
    exact congrArg PageId.mk (@Std.LawfulEqCmp.eq_of_compare UInt64 compare _ _ _ h)

end PageId

/-- A finite set of vector names. -/
abbrev IdSet := Std.TreeSet VectorId compare

end Proximity
