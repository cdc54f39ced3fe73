import LLDBGhidra.Library.SortedList

/-
  The interval map of `rangemap.hh`.

  Records with a first and a last offset are kept in a sorted
  sequence of sub-ranges, the common refinement of all record
  ranges.  A sub-range is repeated for each record over it.

  Main declarations:
    * `AddrRange`
    * `RangeMap.insert`
    * `RangeMap.erase`
    * `RangeMap.find`
-/

------------------------------------------------------------
-- Records and Sub-Ranges
------------------------------------------------------------

namespace LLDBGhidra

/-
  A `subsorttype`: ordered, with an earliest value
  `subsort false` and a late one `subsort true`.
-/
class SubsortType (S : Type) extends LinearOrder S where
  subsort : Bool → S
  subsort_false_le : ∀ value : S, subsort false ≤ value

/- A `recordtype`: what a range map asks of its records. -/
class RecordType (V : Type) (S : outParam Type) where
  getFirst : V → Nat
  getLast : V → Nat
  getSubsort : V → S

/-
  One sub-range `[first, last]` of the record `value`, whose
  whole range is `[a, b]`.  Offsets are 64-bit; none of the
  additions below wraps, so they are plain numbers here.
-/
structure AddrRange (V S : Type) where
  first : Nat
  last : Nat
  a : Nat
  b : Nat
  subsort : S
  value : V
deriving DecidableEq, Repr

namespace AddrRange

variable {V S : Type}

/- Sub-ranges are ordered by their end, then by subsort. -/
def key
    (range : AddrRange V S) : Nat ×ₗ S :=
  toLex (range.last, range.subsort)

/- The sub-range contains the offset. -/
def Covers
    (range : AddrRange V S)
    (offset : Nat) : Prop :=
  range.first ≤ offset ∧ offset ≤ range.last

instance
    (range : AddrRange V S)
    (offset : Nat) :
    Decidable (range.Covers offset) := by
  unfold Covers
  infer_instance

end AddrRange

/- The multiset of sub-ranges, in order. -/
structure RangeMap (V S : Type) where
  tree : List (AddrRange V S)
deriving DecidableEq, Repr

end LLDBGhidra

------------------------------------------------------------
-- Refinement
------------------------------------------------------------

namespace LLDBGhidra

namespace RangeMap

open SortedList

variable {V S : Type}

/-
  Insert the boundary `i` into the sub-ranges from the first
  one that contains it.  Returned are the left halves, which
  go in front of that position, and the remaining sequence.
-/
def unzip
    (i : Nat)
    (suffix : List (AddrRange V S)) :
    List (AddrRange V S) × List (AddrRange V S) :=
  match suffix with
  | [] => ([], [])
  | low :: _ =>
      if low.last = i then
        ([], suffix)
      else
        let group :=
          suffix.takeWhile (fun range => range.first ≤ i)
        (group.map (fun range => { range with last := i }),
          group.map (fun range => { range with first := i + 1 }) ++
            suffix.dropWhile (fun range => range.first ≤ i))

/- All sub-ranges ending at `i` are joined to the next ones. -/
def zip
    (i : Nat)
    (suffix : List (AddrRange V S)) : List (AddrRange V S) :=
  match suffix with
  | [] => []
  | low :: _ =>
      let rest := suffix.dropWhile (fun range => range.last = i)
      (rest.takeWhile (fun range => range.first = i + 1)).map
          (fun range => { range with first := low.first }) ++
        rest.dropWhile (fun range => range.first = i + 1)

variable [SubsortType S]

/- The part of the new range in front of the sub-range `low`. -/
def gapBefore
    (piece : AddrRange V S)
    (f : Nat)
    (low : AddrRange V S) : List (AddrRange V S) :=
  if f < low.first then
    [{ piece with first := f, last := low.first - 1 }]
  else
    []

/-
  The loop of `insert` from the iterator `low` on, with `f` the
  first offset of the new range that is not placed yet.  The
  new pieces share their end with a sub-range that is already
  there and go in front of their equals; an iterator that has
  passed `low` walks over them, since they end below `f`.
  Returned with the sequence is the final `f`.
-/
def insertLoop
    (piece : AddrRange V S) :
    Nat → List (AddrRange V S) → List (AddrRange V S) × Nat
  | f, [] => ([], f)
  | f, low :: rest =>
      if low.first ≤ piece.b then
        if f ≤ low.last then
          let gap := gapBefore piece f low
          let f' := max f low.first
          let inside :=
            { piece with first := f', last := low.last }
          if low.last < piece.b then
            let result := insertLoop piece (low.last + 1) rest
            (gap ++ insertLower AddrRange.key inside
              (low :: result.1), result.2)
          else if low.last = piece.b then
            (gap ++ insertLower AddrRange.key inside
              (low :: rest), f')
          else
            let halves := unzip piece.b (low :: rest)
            (gap ++ (halves.1 ++ halves.2), f')
        else
          let result := insertLoop piece f rest
          (low :: result.1, result.2)
      else
        (low :: rest, f)

end RangeMap

end LLDBGhidra

------------------------------------------------------------
-- Operations
------------------------------------------------------------

namespace LLDBGhidra

namespace RangeMap

open SortedList

variable {V S : Type}
variable [SubsortType S]

/- The sub-ranges that end before `offset`, and the others. -/
def lowerBound
    (offset : Nat)
    (tree : List (AddrRange V S)) :
    List (AddrRange V S) × List (AddrRange V S) :=
  let bound : Nat ×ₗ S :=
    toLex (offset, SubsortType.subsort false)
  (tree.takeWhile (fun range => range.key < bound),
    tree.dropWhile (fun range => range.key < bound))

/- Zip at the first sub-range that ends at `i` or later. -/
def zipAt
    (i : Nat)
    (tree : List (AddrRange V S)) : List (AddrRange V S) :=
  (lowerBound i tree).1 ++ zip i (lowerBound i tree).2

/- The left boundary of a new range refines what is there. -/
def refineLeft
    (a : Nat)
    (suffix : List (AddrRange V S)) :
    List (AddrRange V S) × List (AddrRange V S) :=
  match suffix with
  | [] => ([], [])
  | low :: _ =>
      if low.first < a then
        unzip (a - 1) suffix
      else
        ([], suffix)

variable [RecordType V S]

/- Insert the record `value` over the offsets `a` to `b`. -/
def insert
    (value : V)
    (a b : Nat)
    (map : RangeMap V S) : RangeMap V S :=
  let split := lowerBound a map.tree
  let halves := refineLeft a split.2
  let piece : AddrRange V S :=
    { first := a, last := b, a := a, b := b,
      subsort := RecordType.getSubsort value, value := value }
  let result := insertLoop piece a halves.2
  let tree := split.1 ++ (halves.1 ++ result.1)
  if result.2 ≤ b then
    ⟨insertUpper AddrRange.key
      { piece with first := result.2 } tree⟩
  else
    ⟨tree⟩

/- What the scan of `erase` learns about the other records. -/
structure Seams where
  leftsew : Bool
  rightsew : Bool
  leftoverlap : Bool
  rightoverlap : Bool

/- One other record met while erasing `[a, b]`. -/
def Seams.meet
    (a b : Nat)
    (seams : Seams)
    (range : AddrRange V S) : Seams :=
  { leftsew :=
      if range.a = a then false else seams.leftsew
    leftoverlap :=
      if range.a < a then true else seams.leftoverlap
    rightoverlap :=
      if b < range.b then true else seams.rightoverlap
    rightsew :=
      if range.b = b then false else seams.rightsew }

variable [DecidableEq V]

/-
  The `do` loop of `erase`: drop the sub-ranges of `value` up
  to the first sub-range beyond `b`.
-/
def eraseLoop
    (value : V)
    (a b : Nat) :
    Seams → List (AddrRange V S) →
      List (AddrRange V S) × List (AddrRange V S) × Seams
  | seams, [] => ([], [], seams)
  | seams, low :: rest =>
      let seams' :=
        if low.value = value then seams
        else seams.meet a b low
      let kept := if low.value = value then [] else [low]
      if (rest.head?.any fun next => next.first ≤ b) then
        let result := eraseLoop value a b seams' rest
        (kept ++ result.1, result.2)
      else
        (kept, rest, seams')

/- Erase a record whose scan starts with the sub-range `low`. -/
def eraseFrom
    (value : V)
    (front : List (AddrRange V S))
    (low : AddrRange V S)
    (rest : List (AddrRange V S)) : List (AddrRange V S) :=
  let a := RecordType.getFirst value
  let b := RecordType.getLast value
  let stillSplit :=
    (front.reverse.takeWhile
      (fun range => range.last + 1 = a)).any
        (fun range => range.b + 1 = a)
  let scan := eraseLoop value a b
    ⟨!stillSplit, true, false, false⟩ (low :: rest)
  let rightsew :=
    match scan.2.1 with
    | [] => scan.2.2.rightsew
    | low :: _ =>
        if low.a = b + 1 then false else scan.2.2.rightsew
  let erased := front ++ (scan.1 ++ scan.2.1)
  let sewn :=
    if scan.2.2.leftsew && scan.2.2.leftoverlap then
      zipAt (a - 1) erased
    else
      erased
  if rightsew && scan.2.2.rightoverlap then
    zipAt b sewn
  else
    sewn

/-
  Erase a record.  The source reads the iterator at the lower
  bound before it tests for the end.  A record over a wrapped
  range has no sub-range and may have none behind its start,
  and then the result is undefined.
-/
def erase
    (value : V)
    (map : RangeMap V S) : Option (RangeMap V S) :=
  let split := lowerBound (RecordType.getFirst value) map.tree
  match split.2 with
  | [] => none
  | low :: rest => some ⟨eraseFrom value split.1 low rest⟩

/-
  The sub-ranges over `point` with a subsort between the two
  given, in order.
-/
def findBetween
    (map : RangeMap V S)
    (point : Nat)
    (sub1 sub2 : S) : List (AddrRange V S) :=
  let start : Nat ×ₗ S := toLex (point, sub1)
  match map.tree.dropWhile (fun range => range.key < start) with
  | [] => []
  | low :: rest =>
      if point < low.first then
        []
      else
        let stop : Nat ×ₗ S := toLex (low.last, sub2)
        (low :: rest).takeWhile (fun range => range.key ≤ stop)

/- The sub-ranges over `point`. -/
def find
    (map : RangeMap V S)
    (point : Nat) : List (AddrRange V S) :=
  findBetween map point
    (SubsortType.subsort false) (SubsortType.subsort true)

end RangeMap

end LLDBGhidra
