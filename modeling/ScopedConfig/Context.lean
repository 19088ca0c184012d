import ScopedConfig.Reference
import ScopedConfig.Service
import ScopedConfig.Settings

/-!
# Contexts

Settings, schema, strategies and scopes, from which services are made.
-/

namespace ScopedConfig

structure Context where
  settings : Settings
  schema : Schema
  strategies : Strategies
  scopes : Scope.Registry

/-- Why a context could not be read from its files. -/
inductive ContextFault where
  | settingsUnreadable (file : String) (reason : FileFault)
  | settings (file : String) (fault : SettingsFault)
  | schema (file : String) (error : Error)
deriving DecidableEq

namespace ContextFault

/-- What could not be done. -/
def headline : ContextFault → String
  | settingsUnreadable file _ => "Failed to read settings file: " ++ file
  | settings file _ => "Failed to parse settings file: " ++ file
  | schema file _ => "Failed to load schema: " ++ file

/-- Why, the nearest cause first. -/
def causes : ContextFault → List String
  | settingsUnreadable _ reason => [reason.message]
  | settings _ fault => [fault.message]
  | schema _ error => error.message :: error.causes

end ContextFault

/-- The settings of a file; where no path leads to one, the standard ones. -/
def Settings.load (file : Document.Source) : Except ContextFault Settings :=
  match file.content with
  | .ok source => (Settings.parse source).mapError (.settings file.name)
  | .error .isDirectory => .error (.settingsUnreadable file.name .isDirectory)
  | .error _ => .ok .standard

namespace Context

/-- Settings and schema from files, with the standard strategies and scopes. -/
def load (settings schema : Document.Source) : Except ContextFault Context := do
  let s ← Settings.load settings
  let strategies := Strategies.standard
  let read ← (Schema.parseFile schema strategies).mapError (.schema schema.name)
  return ⟨s, read, strategies, .standard⟩

def rules (c : Context) : Rules :=
  { schema := c.schema, strategies := c.strategies, scopes := some c.scopes }

/-- A service on a store, with the cache that the settings ask for. -/
def service (c : Context) (store : Store) : Service :=
  (Service.start store c.settings.cache.capacity).setCacheEnabled c.settings.cache.enabled

end Context

end ScopedConfig
