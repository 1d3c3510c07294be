import WriteBack.Bits
import WriteBack.Config
import WriteBack.Json.Reader

/-!
# WriteBack.Config.Reader

Reads a configuration from JSON. A section is an object of its fields in any order, or an array of its fields
in the order of their declaration. A section that is not given is the default one, and a field that is not
given has a default of its own. Keys that are not known are ignored, with whatever value they have, but a known
key may stand only once.
-/

namespace WriteBack

/-! ## Records -/

/-- The members of an object under their texts; there are none if a key has no text. -/
def Json.namedMembers? (members : List (Json.Text × Json)) : Option (List (String × Json)) :=
  members.mapM fun (k, v) => do return (← k.toString?, v)

/-- The given fields of a record whose fields have these names: the members of an object, each known key at
most once, or the elements of an array from the first field on. -/
def Json.record? (names : List String) : Json → Option (List (String × Json))
  | .object members => do
    let known := (← namedMembers? members).filter fun (k, _) => names.contains k
    if (known.map Prod.fst).Nodup then return known else none
  | .array items => if items.length ≤ names.length then some (names.zip items) else none
  | _ => none

/-- A field of a record, or its default. -/
def Json.field? {α : Type} (fields : List (String × Json)) (name : String) (default : α)
    (decode : Json → Option α) : Option α :=
  match fields.lookup name with
  | none => some default
  | some v => decode v

/-! ## Values -/

/-- A truth value. -/
def Json.bool? : Json → Option Bool
  | .bool b => some b
  | _ => none

/-- A natural number of at most 64 bits. -/
def Json.word64? (v : Json) : Option UInt64 := do
  let n ← v.natural?
  if n < 2 ^ 64 then return UInt64.ofNat n else none

/-- A natural number of at most 32 bits. -/
def Json.word32? (v : Json) : Option UInt32 := do
  let n ← v.natural?
  if n < 2 ^ 32 then return UInt32.ofNat n else none

/-- The controller of a name. -/
def Controller.ofName? : String → Option Controller
  | "Simple" => some .simple
  | "Dram" => some .dram
  | "DRAM" => some .dram
  | _ => none

/-- A controller: its name, or an object with the name as its one key and `null` under it. -/
def Json.controller? : Json → Option Controller
  | .string t => t.toString?.bind Controller.ofName?
  | .object [(k, .null)] => k.toString?.bind Controller.ofName?
  | _ => none

/-! ## Sections -/

namespace Config

open Json (record? field?)

/-- The limits of a run. -/
def General.ofJson? (v : Json) : Option General := do
  let r ← record? ["trace", "timeout_cycles", "max_cycles"] v
  return {
    trace := ← field? r "trace" false Json.bool?
    timeoutCycles := ← field? r "timeout_cycles" Baseline.timeoutCycles Json.word64?
    maxCycles := ← field? r "max_cycles" Baseline.maxCycles Json.word64? }

/-- The requested cache. -/
def Cache.ofJson? (v : Json) : Option Cache := do
  let r ← record? ["size_bytes", "data_width", "granularity", "dirty_init"] v
  return {
    sizeBytes := ← field? r "size_bytes" Baseline.cacheSize Json.word64?
    dataWidth := ← field? r "data_width" Baseline.dataWidth Json.word32?
    granularity := ← field? r "granularity" Baseline.granularity Json.word32?
    dirtyInit := ← field? r "dirty_init" false Json.bool? }

/-- The requested store. -/
def Backing.ofJson? (v : Json) : Option Backing := do
  let r ← record?
    ["addr_width", "data_width", "controller", "latency", "t_cas", "t_ras", "t_pre", "row_bits"] v
  return {
    addrWidth := ← field? r "addr_width" Baseline.backingAddrWidth Json.word32?
    dataWidth := ← field? r "data_width" Baseline.backingDataWidth Json.word32?
    controller := ← field? r "controller" .simple Json.controller?
    latency := ← field? r "latency" Baseline.latency Json.word64?
    tCas := ← field? r "t_cas" Baseline.tCas Json.word64?
    tRas := ← field? r "t_ras" Baseline.tRas Json.word64?
    tPre := ← field? r "t_pre" Baseline.tPre Json.word64?
    rowBits := ← field? r "row_bits" Baseline.rowBits Json.word32? }

/-- A whole configuration. -/
def ofJson? (v : Json) : Option Config := do
  let r ← record? ["general", "cache", "backing"] v
  return {
    general := ← field? r "general" {} General.ofJson?
    cache := ← field? r "cache" {} Cache.ofJson?
    backing := ← field? r "backing" {} Backing.ofJson? }

/-- The configuration that a JSON text writes. -/
def parse? (text : String) : Option Config := (Json.parse? text.toList).bind ofJson?

end Config

end WriteBack
