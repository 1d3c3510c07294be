import WriteBack.Config
import WriteBack.Json.Printer

/-!
# WriteBack.Config.Printer

A configuration as JSON, every field of it in the order of its declaration.
-/

namespace WriteBack

/-- The name of a controller. -/
def Controller.name : Controller → String
  | .simple => "Simple"
  | .dram => "Dram"

namespace Config

/-- The limits of a run. -/
def General.toJson (g : General) : Json :=
  .ofMembers [
    ("trace", .bool g.trace),
    ("timeout_cycles", .ofNat g.timeoutCycles.toNat),
    ("max_cycles", .ofNat g.maxCycles.toNat)]

/-- The requested cache. -/
def Cache.toJson (c : Cache) : Json :=
  .ofMembers [
    ("size_bytes", .ofNat c.sizeBytes.toNat),
    ("data_width", .ofNat c.dataWidth.toNat),
    ("granularity", .ofNat c.granularity.toNat),
    ("dirty_init", .bool c.dirtyInit)]

/-- The requested store. -/
def Backing.toJson (b : Backing) : Json :=
  .ofMembers [
    ("addr_width", .ofNat b.addrWidth.toNat),
    ("data_width", .ofNat b.dataWidth.toNat),
    ("controller", .ofString b.controller.name),
    ("latency", .ofNat b.latency.toNat),
    ("t_cas", .ofNat b.tCas.toNat),
    ("t_ras", .ofNat b.tRas.toNat),
    ("t_pre", .ofNat b.tPre.toNat),
    ("row_bits", .ofNat b.rowBits.toNat)]

/-- A whole configuration. -/
def toJson (c : Config) : Json :=
  .ofMembers [
    ("general", c.general.toJson), ("cache", c.cache.toJson), ("backing", c.backing.toJson)]

/-- A configuration as JSON text on one line. -/
def write (c : Config) : String := String.ofList c.toJson.compact

end Config

end WriteBack
