/-!
# Temporaries

Names for values that a program did not name. A scope hands them out in a fixed order, passing over
the names that the file uses itself; a name that is given back is handed out again before a new one.
-/

namespace PatternLowering

/-- The names `_a` to `_z`, then `_0`, `_1` and so on. -/
def tempName (index : Nat) : String :=
  if index < 26 then String.ofList ['_', Char.ofNat ('a'.toNat + index)]
  else "_" ++ toString (index - 26)

/-- A temporary that a scope declares, and whether it is in use. -/
structure TempSlot where
  name : String
  held : Bool
deriving DecidableEq, Repr

/-- `next` is the index of the first name that was never tried. -/
structure TempRegistry where
  next : Nat
  slots : List TempSlot
deriving DecidableEq, Repr

namespace TempRegistry

def empty : TempRegistry := ⟨0, []⟩

def mintWithin (reserved : List String) : Nat → Nat → String × Nat
  | 0, index => (tempName index, index + 1)
  | bound + 1, index =>
    if tempName index ∈ reserved then mintWithin reserved bound (index + 1)
    else (tempName index, index + 1)

/-- The first name from `index` on that is not reserved, and the index after it. Names differ, so at
most as many are passed over as are reserved. Indices stand for numbers of 32 bits, as
`TempRegistry.Search` counts them. -/
def mint (reserved : List String) (index : Nat) : String × Nat :=
  mintWithin reserved reserved.length index

/-- Takes the first slot that is not in use. -/
def takeFree? : List TempSlot → Option (String × List TempSlot)
  | [] => none
  | slot :: later =>
    if slot.held then (takeFree? later).map fun (name, later) => (name, slot :: later)
    else some (slot.name, { slot with held := true } :: later)

/-- Hands out a temporary. -/
def acquire (reserved : List String) (r : TempRegistry) : String × TempRegistry :=
  match takeFree? r.slots with
  | some (name, slots) => (name, { r with slots := slots })
  | none =>
    let (name, next) := mint reserved r.next
    (name, ⟨next, r.slots ++ [⟨name, true⟩]⟩)

/-- Hands out a name that is neither declared nor handed out again. -/
def claim (reserved : List String) (r : TempRegistry) : String × TempRegistry :=
  let (name, next) := mint reserved r.next
  (name, { r with next := next })

def freeSlot? (name : String) : List TempSlot → Option (List TempSlot)
  | [] => none
  | slot :: later =>
    if slot.name = name then
      if slot.held then some ({ slot with held := false } :: later) else none
    else (freeSlot? name later).map (slot :: ·)

/-- Takes a temporary back. Nothing happens to a name that is not in use. -/
def release (name : String) (r : TempRegistry) : Bool × TempRegistry :=
  match freeSlot? name r.slots with
  | some slots => (true, { r with slots := slots })
  | none => (false, r)

/-- The temporaries handed out so far, oldest first. -/
def declared (r : TempRegistry) : List String := r.slots.map (·.name)

/-- The temporaries in use. -/
def held (r : TempRegistry) : List String := (r.slots.filter (·.held)).map (·.name)

end TempRegistry

end PatternLowering
