import SnapshotStore.Isolation
import SnapshotStore.Text.Quoted

/-!
# Configuration

What an engine is set up with. The default is what a store kept in memory uses.
-/

namespace SnapshotStore

/-- The settings of an engine. -/
structure Config where
  /-- The level at which new sessions run their transactions. -/
  isolation : Isolation := .snapshot
  /-- The space a session sets aside for building keys, in bytes. -/
  keyBufferCapacity : Nat := 1024
  /-- The longest key that an index accepts, in bytes. -/
  maxKeyLength : Nat := 4096
  /-- Reclamation leaves alone every chain that is no longer than this. -/
  maxVersionHistory : Nat := 0
deriving DecidableEq, Inhabited

namespace Config

/-- The settings of a store whose transactions run at the read-committed level. -/
def readCommitted : Config := { isolation := .readCommitted }

/-- The description that logs use. -/
def describe (config : Config) : String :=
  Text.described "Config" [
    ("isolation_level", config.isolation.describe),
    ("key_buffer_capacity", toString config.keyBufferCapacity),
    ("max_key_length", toString config.maxKeyLength),
    ("max_version_history", toString config.maxVersionHistory)]

end Config

end SnapshotStore
