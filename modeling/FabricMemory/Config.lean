import FabricMemory.Log
import FabricMemory.Path

/-!
# Configuration

Where the controllers, the control device and the descriptors are. Each path has a default, which a
variable of the environment replaces; a value that is not UTF-8 counts as not set, an empty one as
set.
-/

namespace FabricMemory

structure Config where
  sysfsRoot : Path
  device : Path
  descriptors : Path
deriving DecidableEq

/-- Variables of the environment, first come first. -/
abbrev Environment := List (String × Bytes)

namespace Config

def standard : Config :=
  ⟨.ofString "/sys/devices", .ofString "/dev/obmm", .ofString "/tmp/memlink"⟩

instance : Inhabited Config := ⟨standard⟩

def value? (environment : Environment) (name : String) : Option Path :=
  ((environment.lookup name).bind Utf8.decode?).map Path.ofString

def ofEnvironment (environment : Environment) : Logged Config := do
  let config : Config :=
    { sysfsRoot := (value? environment "OBMM_SYSFS_ROOT").getD standard.sysfsRoot
      device := (value? environment "OBMM_DEV_PATH").getD standard.device
      descriptors := (value? environment "OBMM_DESC_DIR").getD standard.descriptors }
  Logged.log .debug
    ("OBMM config: sysfs_root=" ++ config.sysfsRoot.display ++ ", device=" ++ config.device.display
      ++ ", desc_dir=" ++ config.descriptors.display)
  return config

end Config

end FabricMemory
