import MarketMaker.Cache.Fields

/-!
# Stores

A store keeps fields under keys until they expire. What a run asks of a store is to say whether it can
be reached, to keep fields, and to give them back; each may change the store, and keeping and giving
back may fail. A store that is never there is the simplest one.
-/

namespace MarketMaker.Cache

/-- What a run asks of a store with states `σ`. -/
class Store (σ : Type) where
  /-- Whether the store can be reached. -/
  ping : σ → Bool × σ
  /-- Keeps fields under a key, for some time. -/
  set : σ → String → Fields → Duration → Except CacheFault Unit × σ
  /-- The fields under a key, unless they have expired. -/
  get : σ → String → Except CacheFault (Option Fields) × σ

/-- A store that is never there. -/
structure Absent where

instance : Store Absent where
  ping s := (false, s)
  set s _ _ _ := (.ok (), s)
  get s _ := (.ok none, s)

end MarketMaker.Cache
