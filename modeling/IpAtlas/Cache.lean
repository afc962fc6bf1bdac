/-!
# Caches

A cache keeps the values of a number of keys, those used last.  Looking a key up and putting a value
both count as using it.

## What is here

* `Cache`, `Cache.empty?` — a cache with room for some values.
* `Cache.get`, `Cache.put` — using it.
-/

set_option autoImplicit false

namespace IpAtlas

/-- The values of the keys used last, the last of all in front. -/
structure Cache (α : Type) where
  capacity : Nat
  entries : List (Nat × α) := []

namespace Cache

variable {α : Type}

/-- A cache with nothing in it; none if there is to be no room. -/
def empty? (capacity : Nat) : Option (Cache α) :=
  if capacity = 0 then none else some { capacity }

/-- What a cache holds for a key. -/
def find? (cache : Cache α) (key : Nat) : Option α := cache.entries.lookup key

/-- The entries of all keys but one. -/
def others (cache : Cache α) (key : Nat) : List (Nat × α) :=
  cache.entries.filter fun e => e.1 ≠ key

/-- What a cache holds for a key, and the cache with that key used last. -/
def get (cache : Cache α) (key : Nat) : Option (α × Cache α) :=
  (cache.find? key).map fun x => (x, { cache with entries := (key, x) :: cache.others key })

/-- The cache with a value for a key.  The key used longest ago makes room if need be. -/
def put (cache : Cache α) (key : Nat) (x : α) : Cache α :=
  { cache with entries := ((key, x) :: cache.others key).take cache.capacity }

end Cache

end IpAtlas
