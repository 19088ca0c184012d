import ScopedConfig.Cache
import ScopedConfig.Schema.Document

/-!
# Settings

The settings of a program that uses the store: whether snapshots are cached, how many of them, and
where they are stored.
-/

namespace ScopedConfig

open Document

structure CacheSettings where
  enabled : Bool := true
  capacity : Nat := Cache.defaultCapacity
deriving DecidableEq

namespace CacheSettings

def shape : Shape := ⟨"CacheSettings", ["enabled", "capacity"], true⟩

def read (s : CacheSettings) (field : String) (item : Item) : Except Fault CacheSettings := do
  match field with
  | "enabled" => return { s with enabled := ← item.asBool }
  | "capacity" => return { s with capacity := ← item.asSize }
  | _ => return s

end CacheSettings

structure StoreSettings where
  /-- The directory of the store, unless it is the usual one. -/
  root : Option String := none
deriving DecidableEq

namespace StoreSettings

def shape : Shape := ⟨"StoreSettings", ["root"], true⟩

def read (s : StoreSettings) (field : String) (item : Item) : Except Fault StoreSettings := do
  match field with
  | "root" => return { s with root := ← Item.asOptional (Item.asTextOf "path string") item }
  | _ => return s

end StoreSettings

structure Settings where
  cache : CacheSettings := {}
  store : StoreSettings := {}
deriving DecidableEq

inductive SettingsFault where
  | document (report : Report)
  | zeroCapacity
deriving DecidableEq

def SettingsFault.message : SettingsFault → String
  | .document report => report.message
  | .zeroCapacity => "cache.capacity must be at least 1"

namespace Settings

def standard : Settings := ⟨⟨true, Cache.defaultCapacity⟩, ⟨none⟩⟩

def shape : Shape := ⟨"Settings", ["cache", "store"], true⟩

def read (s : Settings) (field : String) (item : Item) : Except Fault Settings := do
  match field with
  | "cache" => return { s with cache := ← CacheSettings.shape.read CacheSettings.read {} item }
  | "store" => return { s with store := ← StoreSettings.shape.read StoreSettings.read {} item }
  | _ => return s

/-- What a text does not set has its standard value. -/
def parse (source : String) : Except SettingsFault Settings := do
  let s ← (Document.ofToml (shape.read read .standard) source).mapError .document
  if s.cache.capacity = 0 then throw .zeroCapacity
  return s

end Settings

end ScopedConfig
