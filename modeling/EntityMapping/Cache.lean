/-!
A cache of bounded size with pins.

Entries are kept in the order of their last use.  When there are too many, the one that was used
least recently is dropped; pinned entries are never dropped and do not count.  An entry may be
empty: it takes up room, but a look-up finds nothing in it and does not count as a use.
-/

namespace EntityMapping

/-- Entries from the least to the most recently used, and the keys that are pinned. -/
structure Cache (κ ν : Type) where
  maxSize : Nat
  entries : List (κ × Option ν)
  pinned : List κ
  deriving DecidableEq, Repr

namespace Cache

variable {κ ν : Type} [DecidableEq κ]

/-- How many unpinned entries a cache keeps unless told otherwise. -/
def defaultSize : Nat := 1024

/-- A cache without entries. -/
def ofSize (maxSize : Nat) : Cache κ ν :=
  ⟨maxSize, [], []⟩

/-- The keys from the least to the most recently used. -/
def keys (c : Cache κ ν) : List κ :=
  c.entries.map Prod.fst

/-- The number of entries. -/
def size (c : Cache κ ν) : Nat :=
  c.entries.length

/-- Whether a key is present. -/
def contains (c : Cache κ ν) (key : κ) : Bool :=
  c.keys.contains key

/-- Whether a key is pinned. -/
def isPinned (c : Cache κ ν) (key : κ) : Bool :=
  c.pinned.contains key

/-- The value of a key, without counting as a use. -/
def peek (c : Cache κ ν) (key : κ) : Option ν :=
  (c.entries.lookup key).join

/-- The entries of other keys. -/
def others (c : Cache κ ν) (key : κ) : List (κ × Option ν) :=
  c.entries.filter fun entry => entry.1 ≠ key

/-- The value of a key; finding one counts as a use. -/
def get (c : Cache κ ν) (key : κ) : Option ν × Cache κ ν :=
  match c.peek key with
  | some value => (some value, { c with entries := c.others key ++ [(key, some value)] })
  | none => (none, c)

/-- How many entries are not pinned. -/
def unpinnedSize (c : Cache κ ν) : Nat :=
  c.entries.length - c.pinned.length

/-- The entries without the first unpinned ones, as many as are too many. -/
def dropOldest (pinned : List κ) : (excess : Nat) → List (κ × Option ν) → List (κ × Option ν)
  | 0, entries => entries
  | _ + 1, [] => []
  | excess + 1, entry :: rest =>
    if pinned.contains entry.1 then entry :: dropOldest pinned (excess + 1) rest
    else dropOldest pinned excess rest

/-- Drops unpinned entries down to the bound, the least recently used first. -/
def evict (c : Cache κ ν) : Cache κ ν :=
  { c with entries := dropOldest c.pinned (c.unpinnedSize - c.maxSize) c.entries }

/-- The pinned keys with one more. -/
def withPin (pinned : List κ) (key : κ) : List κ :=
  if pinned.contains key then pinned else pinned ++ [key]

/-- Puts an entry, perhaps with a pin, as the most recently used one.  A pin that the key has
already stays. -/
def put (c : Cache κ ν) (key : κ) (value : Option ν) (pin : Bool) : Cache κ ν :=
  evict { c with
    entries := c.others key ++ [(key, value)]
    pinned := if pin then withPin c.pinned key else c.pinned }

/-- Drops an entry with its pin. -/
def discard (c : Cache κ ν) (key : κ) : Cache κ ν :=
  { c with entries := c.others key, pinned := c.pinned.filter (· ≠ key) }

/-- Pins a key that is present. -/
def pin? (c : Cache κ ν) (key : κ) : Option (Cache κ ν) :=
  if c.contains key then some { c with pinned := withPin c.pinned key } else none

/-- Takes the pin from a key; it may be dropped at once. -/
def unpin (c : Cache κ ν) (key : κ) : Cache κ ν :=
  evict { c with pinned := c.pinned.filter (· ≠ key) }

/-- Drops everything. -/
def clear (c : Cache κ ν) : Cache κ ν :=
  { c with entries := [], pinned := [] }

end Cache

end EntityMapping
