import WriteBack.Config.Printer
import WriteBack.Config.Reader
import WriteBack.Proofs.JsonPrinter

/-!
# WriteBack.Proofs.ConfigDocument

A configuration is the default one with the written fields replaced. `IsWrittenBy` says which JSON values write
which fields: objects in any order and among other members, or arrays of the first fields. It does not say what
becomes of a field that is not written. The reader has a default for each field and one for each section, and they
agree (`documents_override_defaults`); so nothing depends on whether a section is empty or absent.
-/

namespace WriteBack

/-! ## Records -/

namespace Json

/-- The values that an object has under a name. -/
def under (name : String) (members : List (Text × Json)) : List Json :=
  members.filterMap fun (key, v) => if key.toString? = some name then some v else none

/-- The values under a name, member by member. -/
theorem under_cons (name : String) (m : Text × Json) (members : List (Text × Json)) :
    under name (m :: members) =
      if m.1.toString? = some name then m.2 :: under name members else under name members := by
  rw [under, List.filterMap_cons]
  split <;> simp_all [under]

/-- A value writes a record with these fields. An object has each of them at most once, among any other members
whose keys have a text, and an array has the first of them in order. Of every field, what is given of it, if
anything, is as the predicate of the field says. -/
inductive Record (fields : List (String × (Option Json → Prop))) : Json → Prop
  | object {members : List (Text × Json)} : (∀ m ∈ members, m.1.toString?.isSome = true) →
      (∀ f ∈ fields, ∃ given : Option Json, under f.1 members = given.toList ∧ f.2 given) →
      Record fields (.object members)
  | array {items : List Json} : items.length ≤ fields.length →
      (∀ (i : Nat) (f : String × (Option Json → Prop)), fields[i]? = some f → f.2 items[i]?) →
      Record fields (.array items)

variable {fields : List (String × (Option Json → Prop))} {v : Json}

/-- An object whose keys have texts is a list of named values. -/
theorem exists_namedMembers {members : List (Text × Json)} (h : ∀ m ∈ members, m.1.toString?.isSome = true) :
    ∃ named, namedMembers? members = some named ∧ ∀ name,
      under name members = (named.filter (·.1 == name)).map Prod.snd := by
  induction members with
  | nil => exact ⟨[], rfl, fun _ => rfl⟩
  | cons m members ih =>
      obtain ⟨hm, hrest⟩ := List.forall_mem_cons.mp h
      obtain ⟨named, hnamed, hunder⟩ := ih hrest
      obtain ⟨key, hkey⟩ := Option.isSome_iff_exists.mp hm
      refine ⟨(key, m.2) :: named, ?_, fun name => ?_⟩
      · rw [namedMembers?] at hnamed ⊢
        rw [List.mapM_cons, hnamed]
        simp [hkey]
      · rw [under_cons, hunder, hkey, List.filter_cons]
        by_cases hname : key = name <;> simp [hname]

/-- Known names that each stand at most once stand once altogether. -/
theorem nodup_known {names : List String} {named : List (String × Json)}
    (h : ∀ name ∈ names, (named.filter (·.1 == name)).length ≤ 1) :
    ((named.filter fun m => names.contains m.1).map Prod.fst).Nodup := by
  rw [List.nodup_iff_count]
  intro name
  rw [List.count_eq_countP, List.countP_map, List.countP_filter]
  by_cases hname : name ∈ names
  · refine Nat.le_trans ?_ (h name hname)
    rw [← List.countP_eq_length_filter]
    exact List.countP_mono_left fun m _ hm => (Bool.and_eq_true_iff.mp hm).1
  · refine Nat.le_trans (Nat.le_of_eq ?_) (Nat.zero_le 1)
    rw [List.countP_eq_zero]
    intro m _ hm
    simp only [Function.comp_apply, Bool.and_eq_true, beq_iff_eq, List.contains_iff_mem] at hm
    exact hname (hm.1 ▸ hm.2)

/-- A lookup among the known names finds what stands under the name. -/
theorem lookup_known {names : List String} {name : String} (hname : name ∈ names) (named : List (String × Json)) :
    (named.filter fun m => names.contains m.1).lookup name = ((named.filter (·.1 == name)).map Prod.snd).head? := by
  induction named with
  | nil => rfl
  | cons m named ih =>
      obtain ⟨key, v⟩ := m
      by_cases hkey : key = name
      · subst hkey
        simp [hname]
      · have hother : ((key, v) :: named).filter (·.1 == name) = named.filter (·.1 == name) :=
          List.filter_cons_of_neg (by simpa using hkey)
        rw [hother, ← ih, List.filter_cons]
        split
        · rw [List.lookup_cons, beq_false_of_ne (Ne.symm hkey)]
        · rfl

/-- The elements of an array stand under the first names. -/
theorem lookup_zip {names : List String} (hnodup : names.Nodup) {i : Nat} {name : String}
    (h : names[i]? = some name) (items : List Json) : (names.zip items).lookup name = items[i]? := by
  induction names generalizing i items with
  | nil => cases h
  | cons first names ih =>
      obtain ⟨hfirst, hnodup⟩ := List.nodup_cons.mp hnodup
      cases items with
      | nil => rfl
      | cons v items =>
          rw [List.zip_cons_cons, List.lookup_cons]
          cases i with
          | zero =>
              cases h
              simp
          | succ i =>
              have hne : name ≠ first := fun heq => hfirst (heq ▸ List.mem_of_getElem? h)
              rw [beq_false_of_ne hne]
              exact ih hnodup h items

/-- **A record** is read field by field. -/
theorem Record.read (h : Record fields v) (hnodup : (fields.map Prod.fst).Nodup) :
    ∃ r, record? (fields.map Prod.fst) v = some r ∧ ∀ f ∈ fields, f.2 (r.lookup f.1) := by
  cases h with
  | @object members hkeys hfields =>
      obtain ⟨named, hnamed, hunder⟩ := exists_namedMembers hkeys
      have honce : ∀ name ∈ fields.map Prod.fst, (named.filter (·.1 == name)).length ≤ 1 := by
        intro name hname
        obtain ⟨f, hf, rfl⟩ := List.mem_map.mp hname
        obtain ⟨given, hgiven, _⟩ := hfields f hf
        have hlength := congrArg List.length ((hunder f.1).symm.trans hgiven)
        rw [List.length_map] at hlength
        rw [hlength]
        cases given <;> simp
      refine ⟨named.filter fun m => (fields.map Prod.fst).contains m.1, ?_, fun f hf => ?_⟩
      · rw [record?, hnamed]
        exact if_pos (nodup_known honce)
      · obtain ⟨given, hgiven, hf'⟩ := hfields f hf
        rw [lookup_known (List.mem_map_of_mem hf), ← hunder, hgiven]
        cases given <;> exact hf'
  | @array items hlength hfields =>
      refine ⟨(fields.map Prod.fst).zip items, ?_, fun f hf => ?_⟩
      · rw [record?, List.length_map]
        exact if_pos hlength
      · obtain ⟨i, hi⟩ := List.mem_iff_getElem?.mp hf
        rw [lookup_zip hnodup (i := i) (by rw [List.getElem?_map, hi]; rfl)]
        exact hfields i f hi

/-- A field that is written is read, and one that is not has its default. -/
theorem field?_of_rel {α : Type} {r : List (String × Json)} {name : String} {R : α → Json → Prop} {x : Option α}
    {decode : Json → Option α} (h : Option.Rel R x (r.lookup name)) (hdecode : ∀ a v, R a v → decode v = some a)
    (default : α) : field? r name default decode = some (x.getD default) := by
  rw [field?]
  generalize r.lookup name = given at h
  cases h with
  | none => rfl
  | some ha => exact hdecode _ _ ha

/-! ## Values -/

/-- A truth value. -/
inductive WritesBool : Bool → Json → Prop
  | mk (b : Bool) : WritesBool b (.bool b)

/-- A whole number. -/
inductive WritesNat : Nat → Json → Prop
  | mk {ds : List Char} : WholePart ds → WritesNat (Nat.ofDigitChars 10 ds 0) (.number ds)

/-- A written truth value is read. -/
theorem bool?_of_writes {b : Bool} (h : WritesBool b v) : v.bool? = some b := by
  cases h
  rfl

/-- The whole part of a number consists of digits. -/
theorem WholePart.forall_isDigit {ds : List Char} (h : WholePart ds) : Digits ds := by
  cases h with
  | zero => exact List.forall_mem_singleton.mpr rfl
  | digits hd _ hds => exact List.forall_mem_cons.mpr ⟨hd, hds⟩

/-- A written number is read. -/
theorem natural?_of_writes {n : Nat} (h : WritesNat n v) : v.natural? = some n := by
  cases h with
  | mk hds =>
      rw [natural?, if_pos (List.all_eq_true.mpr hds.forall_isDigit)]
      rfl

/-- A written number is read as a word of 64 bits if it is one. -/
theorem word64?_of_writes {n : UInt64} (h : WritesNat n.toNat v) : v.word64? = some n := by
  rw [word64?, natural?_of_writes h]
  simp [n.toNat_lt]

/-- A written number is read as a word of 32 bits if it is one. -/
theorem word32?_of_writes {n : UInt32} (h : WritesNat n.toNat v) : v.word32? = some n := by
  rw [word32?, natural?_of_writes h]
  simp [n.toNat_lt]

end Json

/-- The names of a controller. -/
def Controller.names : Controller → List String
  | .simple => ["Simple"]
  | .dram => ["Dram", "DRAM"]

/-- A controller is written by name, or as the one member of an object, with nothing under it. -/
inductive Controller.Writes (c : Controller) : Json → Prop
  | string {t : Json.Text} {name : String} : t.toString? = some name → name ∈ c.names → Writes c (.string t)
  | object {key : Json.Text} {name : String} : key.toString? = some name → name ∈ c.names →
      Writes c (.object [(key, .null)])

/-- Every name of a controller is known. -/
theorem Controller.ofName?_of_mem {c : Controller} {name : String} (h : name ∈ c.names) :
    ofName? name = some c := by
  cases c with
  | simple =>
      rw [List.mem_singleton.mp h]
      rfl
  | dram =>
      simp only [names, List.mem_cons, List.not_mem_nil, or_false] at h
      rcases h with rfl | rfl <;> rfl

/-- A written controller is read. -/
theorem Controller.controller?_of_writes {c : Controller} {v : Json} (h : c.Writes v) :
    v.controller? = some c := by
  cases h with
  | string htext hname => rw [Json.controller?, htext, Option.bind_some, ofName?_of_mem hname]
  | object htext hname => rw [Json.controller?, htext, Option.bind_some, ofName?_of_mem hname]

/-! ## Sections -/

namespace Config

open Json (Record WritesBool WritesNat)

/-- The limits of a run that are written. -/
structure General.Written where
  trace : Option Bool := none
  timeoutCycles : Option UInt64 := none
  maxCycles : Option UInt64 := none

/-- What is written of the requested cache. -/
structure Cache.Written where
  sizeBytes : Option UInt64 := none
  dataWidth : Option UInt32 := none
  granularity : Option UInt32 := none
  dirtyInit : Option Bool := none

/-- What is written of the requested store. -/
structure Backing.Written where
  addrWidth : Option UInt32 := none
  dataWidth : Option UInt32 := none
  controller : Option Controller := none
  latency : Option UInt64 := none
  tCas : Option UInt64 := none
  tRas : Option UInt64 := none
  tPre : Option UInt64 := none
  rowBits : Option UInt32 := none

/-- What is written of a configuration. -/
structure Written where
  general : General.Written := {}
  cache : Cache.Written := {}
  backing : Backing.Written := {}

/-! ### Replacing fields -/

/-- The limits of a run with the written fields replaced. -/
def General.Written.override (w : General.Written) (g : General) : General where
  trace := w.trace.getD g.trace
  timeoutCycles := w.timeoutCycles.getD g.timeoutCycles
  maxCycles := w.maxCycles.getD g.maxCycles

/-- A requested cache with the written fields replaced. -/
def Cache.Written.override (w : Cache.Written) (c : Cache) : Cache where
  sizeBytes := w.sizeBytes.getD c.sizeBytes
  dataWidth := w.dataWidth.getD c.dataWidth
  granularity := w.granularity.getD c.granularity
  dirtyInit := w.dirtyInit.getD c.dirtyInit

/-- A requested store with the written fields replaced. -/
def Backing.Written.override (w : Backing.Written) (b : Backing) : Backing where
  addrWidth := w.addrWidth.getD b.addrWidth
  dataWidth := w.dataWidth.getD b.dataWidth
  controller := w.controller.getD b.controller
  latency := w.latency.getD b.latency
  tCas := w.tCas.getD b.tCas
  tRas := w.tRas.getD b.tRas
  tPre := w.tPre.getD b.tPre
  rowBits := w.rowBits.getD b.rowBits

/-- A configuration with the written fields replaced. -/
def Written.override (w : Written) (c : Config) : Config where
  general := w.general.override c.general
  cache := w.cache.override c.cache
  backing := w.backing.override c.backing

/-! ### How they are written -/

/-- A word of any width. -/
def WritesWord64 (n : UInt64) : Json → Prop := WritesNat n.toNat

def WritesWord32 (n : UInt32) : Json → Prop := WritesNat n.toNat

def General.Written.IsWrittenBy (w : General.Written) : Json → Prop :=
  Record [
    ("trace", Option.Rel WritesBool w.trace),
    ("timeout_cycles", Option.Rel WritesWord64 w.timeoutCycles),
    ("max_cycles", Option.Rel WritesWord64 w.maxCycles)]

def Cache.Written.IsWrittenBy (w : Cache.Written) : Json → Prop :=
  Record [
    ("size_bytes", Option.Rel WritesWord64 w.sizeBytes),
    ("data_width", Option.Rel WritesWord32 w.dataWidth),
    ("granularity", Option.Rel WritesWord32 w.granularity),
    ("dirty_init", Option.Rel WritesBool w.dirtyInit)]

def Backing.Written.IsWrittenBy (w : Backing.Written) : Json → Prop :=
  Record [
    ("addr_width", Option.Rel WritesWord32 w.addrWidth),
    ("data_width", Option.Rel WritesWord32 w.dataWidth),
    ("controller", Option.Rel Controller.Writes w.controller),
    ("latency", Option.Rel WritesWord64 w.latency),
    ("t_cas", Option.Rel WritesWord64 w.tCas),
    ("t_ras", Option.Rel WritesWord64 w.tRas),
    ("t_pre", Option.Rel WritesWord64 w.tPre),
    ("row_bits", Option.Rel WritesWord32 w.rowBits)]

/-- A section is written, or it is not there and nothing is written of it. -/
def SectionWritten {α : Type} (writes : α → Json → Prop) (nothing w : α) : Option Json → Prop
  | none => w = nothing
  | some v => writes w v

def Written.IsWrittenBy (w : Written) : Json → Prop :=
  Record [
    ("general", SectionWritten General.Written.IsWrittenBy {} w.general),
    ("cache", SectionWritten Cache.Written.IsWrittenBy {} w.cache),
    ("backing", SectionWritten Backing.Written.IsWrittenBy {} w.backing)]

/-! ### Reading them -/

section Read

open Json (field?_of_rel bool?_of_writes word64?_of_writes word32?_of_writes)

variable {v : Json}

/-- A section that is not there is read as one in which nothing is written. -/
theorem field?_of_section {α β : Type} {r : List (String × Json)} {name : String} {writes : β → Json → Prop}
    {nothing w : β} {decode : Json → Option α} (read : β → α)
    (h : SectionWritten writes nothing w (r.lookup name))
    (hdecode : ∀ {v}, writes w v → decode v = some (read w)) :
    Json.field? r name (read nothing) decode = some (read w) := by
  rw [Json.field?]
  generalize r.lookup name = given at h
  cases given with
  | none =>
      rw [show w = nothing from h]
  | some v => exact hdecode h

/-- The limits of a run that are written replace the default ones. -/
theorem General.ofJson?_of_written {w : General.Written} (h : w.IsWrittenBy v) :
    General.ofJson? v = some (w.override {}) := by
  obtain ⟨r, hr, hfields⟩ := h.read (by simp)
  simp only [List.map_cons, List.map_nil, List.forall_mem_cons] at hr hfields
  obtain ⟨htrace, htimeout, hmax, _⟩ := hfields
  rw [General.ofJson?, hr]
  simp only [Option.bind_eq_bind, Option.bind_some, field?_of_rel htrace fun _ _ => bool?_of_writes,
    field?_of_rel htimeout fun _ _ => word64?_of_writes, field?_of_rel hmax fun _ _ => word64?_of_writes]
  rfl

/-- What is written of the cache replaces the defaults. -/
theorem Cache.ofJson?_of_written {w : Cache.Written} (h : w.IsWrittenBy v) :
    Cache.ofJson? v = some (w.override {}) := by
  obtain ⟨r, hr, hfields⟩ := h.read (by simp)
  simp only [List.map_cons, List.map_nil, List.forall_mem_cons] at hr hfields
  obtain ⟨hsize, hwidth, hgranularity, hdirty, _⟩ := hfields
  rw [Cache.ofJson?, hr]
  simp only [Option.bind_eq_bind, Option.bind_some, field?_of_rel hsize fun _ _ => word64?_of_writes,
    field?_of_rel hwidth fun _ _ => word32?_of_writes, field?_of_rel hgranularity fun _ _ => word32?_of_writes,
    field?_of_rel hdirty fun _ _ => bool?_of_writes]
  rfl

/-- What is written of the store replaces the defaults. -/
theorem Backing.ofJson?_of_written {w : Backing.Written} (h : w.IsWrittenBy v) :
    Backing.ofJson? v = some (w.override {}) := by
  obtain ⟨r, hr, hfields⟩ := h.read (by simp)
  simp only [List.map_cons, List.map_nil, List.forall_mem_cons] at hr hfields
  obtain ⟨haddr, hdata, hcontroller, hlatency, hcas, hras, hpre, hrow, _⟩ := hfields
  rw [Backing.ofJson?, hr]
  simp only [Option.bind_eq_bind, Option.bind_some, field?_of_rel haddr fun _ _ => word32?_of_writes,
    field?_of_rel hdata fun _ _ => word32?_of_writes,
    field?_of_rel hcontroller fun _ _ => Controller.controller?_of_writes,
    field?_of_rel hlatency fun _ _ => word64?_of_writes, field?_of_rel hcas fun _ _ => word64?_of_writes,
    field?_of_rel hras fun _ _ => word64?_of_writes, field?_of_rel hpre fun _ _ => word64?_of_writes,
    field?_of_rel hrow fun _ _ => word32?_of_writes]
  rfl

/-- **A configuration** that is written as JSON is read as the default one with the written fields replaced. -/
theorem ofJson?_of_written {w : Written} (h : w.IsWrittenBy v) : ofJson? v = some (w.override {}) := by
  obtain ⟨r, hr, hfields⟩ := h.read (by simp)
  simp only [List.map_cons, List.map_nil, List.forall_mem_cons] at hr hfields
  obtain ⟨hgeneral, hcache, hbacking, _⟩ := hfields
  -- the default of a section is what its fields default to
  have hnoGeneral : ({} : General) = General.Written.override {} {} := rfl
  have hnoCache : ({} : Cache) = Cache.Written.override {} {} := rfl
  have hnoBacking : ({} : Backing) = Backing.Written.override {} {} := rfl
  rw [ofJson?, hr, hnoGeneral, hnoCache, hnoBacking]
  simp only [Option.bind_eq_bind, Option.bind_some,
    field?_of_section (General.Written.override · {}) hgeneral General.ofJson?_of_written,
    field?_of_section (Cache.Written.override · {}) hcache Cache.ofJson?_of_written,
    field?_of_section (Backing.Written.override · {}) hbacking Backing.ofJson?_of_written]
  rfl

end Read

end Config

/-! ## Printed configurations -/

namespace Json

/-- Nothing stands under a name that no member has. -/
theorem under_eq_nil {members : List (String × Json)} {name : String} (h : name ∉ members.map Prod.fst) :
    under name (members.map fun m => (Text.ofString m.1, m.2)) = [] := by
  induction members with
  | nil => rfl
  | cons m members ih =>
      have hne : some m.1 ≠ some name := fun heq => h (Option.some.inj heq ▸ List.mem_cons_self)
      have hrest : name ∉ members.map Prod.fst := fun hmem => h (List.mem_cons_of_mem _ hmem)
      rw [List.map_cons, under_cons, Text.toString?_ofString, if_neg hne, ih hrest]

/-- A name that stands once has one value. -/
theorem under_ofString {members : List (String × Json)} {name : String} {v : Json}
    (hnodup : (members.map Prod.fst).Nodup) (h : (name, v) ∈ members) :
    under name (members.map fun m => (Text.ofString m.1, m.2)) = [v] := by
  induction members with
  | nil => cases h
  | cons m members ih =>
      obtain ⟨hfirst, hnodup⟩ := List.nodup_cons.mp hnodup
      rw [List.map_cons, under_cons, Text.toString?_ofString]
      rcases List.mem_cons.mp h with rfl | hrest
      · rw [if_pos rfl, under_eq_nil hfirst]
      · have hne : m.1 ≠ name := fun heq => hfirst (List.mem_map.mpr ⟨(name, v), hrest, heq.symm⟩)
        rw [if_neg (by simpa using hne), ih hnodup hrest]

/-- An object with all the fields under their names is a record of them. -/
theorem record_ofMembers {fields : List (String × (Option Json → Prop))} {members : List (String × Json)}
    (hnodup : (members.map Prod.fst).Nodup) (h : ∀ f ∈ fields, ∃ v, (f.1, v) ∈ members ∧ f.2 (some v)) :
    Record fields (ofMembers members) := by
  refine .object (fun m hm => ?_) fun f hf => ?_
  · obtain ⟨m, _, rfl⟩ := List.mem_map.mp hm
    rw [Text.toString?_ofString]
    rfl
  · obtain ⟨v, hv, hf⟩ := h f hf
    exact ⟨some v, under_ofString hnodup hv, hf⟩

/-- A number is written in decimal. -/
theorem writesNat_ofNat (n : Nat) : WritesNat n (ofNat n) := by
  have hwrites := WritesNat.mk (wholePart_toDigits n)
  rw [Nat.ofDigitChars_toDigits (by decide) (by decide)] at hwrites
  rwa [ofNat_eq]

end Json

/-- A controller is written by its name. -/
theorem Controller.writes_name (c : Controller) : c.Writes (.ofString c.name) := by
  refine .string (Json.Text.toString?_ofString _) ?_
  cases c <;> decide

namespace Config

open Json (WritesBool writesNat_ofNat record_ofMembers)

/-- Everything about the limits of a run. -/
def General.written (g : General) : General.Written where
  trace := some g.trace
  timeoutCycles := some g.timeoutCycles
  maxCycles := some g.maxCycles

/-- Everything about the requested cache. -/
def Cache.written (c : Cache) : Cache.Written where
  sizeBytes := some c.sizeBytes
  dataWidth := some c.dataWidth
  granularity := some c.granularity
  dirtyInit := some c.dirtyInit

/-- Everything about the requested store. -/
def Backing.written (b : Backing) : Backing.Written where
  addrWidth := some b.addrWidth
  dataWidth := some b.dataWidth
  controller := some b.controller
  latency := some b.latency
  tCas := some b.tCas
  tRas := some b.tRas
  tPre := some b.tPre
  rowBits := some b.rowBits

/-- Everything about a configuration. -/
def written (c : Config) : Written where
  general := c.general.written
  cache := c.cache.written
  backing := c.backing.written

/-- All limits of a run are written. -/
theorem General.isWrittenBy_toJson (g : General) : g.written.IsWrittenBy g.toJson := by
  refine record_ofMembers (by simp) ?_
  simp only [List.forall_mem_cons]
  exact ⟨⟨_, by simp, .some (.mk _)⟩, ⟨_, by simp, .some (writesNat_ofNat _)⟩,
    ⟨_, by simp, .some (writesNat_ofNat _)⟩, List.forall_mem_nil _⟩

/-- Everything about the cache is written. -/
theorem Cache.isWrittenBy_toJson (c : Cache) : c.written.IsWrittenBy c.toJson := by
  refine record_ofMembers (by simp) ?_
  simp only [List.forall_mem_cons]
  exact ⟨⟨_, by simp, .some (writesNat_ofNat _)⟩, ⟨_, by simp, .some (writesNat_ofNat _)⟩,
    ⟨_, by simp, .some (writesNat_ofNat _)⟩, ⟨_, by simp, .some (.mk _)⟩, List.forall_mem_nil _⟩

/-- Everything about the store is written. -/
theorem Backing.isWrittenBy_toJson (b : Backing) : b.written.IsWrittenBy b.toJson := by
  refine record_ofMembers (by simp) ?_
  simp only [List.forall_mem_cons]
  exact ⟨⟨_, by simp, .some (writesNat_ofNat _)⟩, ⟨_, by simp, .some (writesNat_ofNat _)⟩,
    ⟨_, by simp, .some b.controller.writes_name⟩, ⟨_, by simp, .some (writesNat_ofNat _)⟩,
    ⟨_, by simp, .some (writesNat_ofNat _)⟩, ⟨_, by simp, .some (writesNat_ofNat _)⟩,
    ⟨_, by simp, .some (writesNat_ofNat _)⟩, ⟨_, by simp, .some (writesNat_ofNat _)⟩, List.forall_mem_nil _⟩

/-- All of a configuration is written. -/
theorem isWrittenBy_toJson (c : Config) : c.written.IsWrittenBy c.toJson := by
  refine record_ofMembers (by simp) ?_
  simp only [List.forall_mem_cons]
  exact ⟨⟨_, by simp, c.general.isWrittenBy_toJson⟩, ⟨_, by simp, c.cache.isWrittenBy_toJson⟩,
    ⟨_, by simp, c.backing.isWrittenBy_toJson⟩, List.forall_mem_nil _⟩

/-! ### Their text -/

open Json (Printable printable_ofMembers printable_ofNat)

theorem General.printable_toJson (g : General) : Printable g.toJson := by
  refine printable_ofMembers (by simp) ?_
  simp only [List.forall_mem_cons]
  exact ⟨.bool _, printable_ofNat _, printable_ofNat _, List.forall_mem_nil _⟩

theorem Cache.printable_toJson (c : Cache) : Printable c.toJson := by
  refine printable_ofMembers (by simp) ?_
  simp only [List.forall_mem_cons]
  exact ⟨printable_ofNat _, printable_ofNat _, printable_ofNat _, .bool _, List.forall_mem_nil _⟩

theorem Backing.printable_toJson (b : Backing) : Printable b.toJson := by
  have hname : Printable (.ofString b.controller.name) := by
    refine .string (Json.printable_text_ofString ?_)
    cases b.controller <;> simp [Controller.name]
  refine printable_ofMembers (by simp) ?_
  simp only [List.forall_mem_cons]
  exact ⟨printable_ofNat _, printable_ofNat _, hname, printable_ofNat _, printable_ofNat _, printable_ofNat _,
    printable_ofNat _, printable_ofNat _, List.forall_mem_nil _⟩

/-- A configuration has a text. -/
theorem printable_toJson (c : Config) : Printable c.toJson := by
  refine printable_ofMembers (by simp) ?_
  simp only [List.forall_mem_cons]
  exact ⟨c.general.printable_toJson, c.cache.printable_toJson, c.backing.printable_toJson,
    List.forall_mem_nil _⟩

/-- **Documents override the defaults**, for every configuration, every JSON value that writes some of its fields
and every text of that value: it is read as the default configuration with exactly the written fields replaced. In
particular, a configuration that is written as text is read back. -/
theorem documents_override_defaults :
    (∀ (w : Written) (v : Json) (text : String), w.IsWrittenBy v → Json.IsDocument v text.toList →
      parse? text = some (w.override {})) ∧
    ∀ c : Config, parse? c.write = some c := by
  have hread (w : Written) (v : Json) (text : String) (hw : w.IsWrittenBy v)
      (htext : Json.IsDocument v text.toList) : parse? text = some (w.override {}) := by
    rw [parse?, Json.parse?_of_isDocument htext]
    exact ofJson?_of_written hw
  refine ⟨hread, fun c => ?_⟩
  have hdocument : Json.IsDocument c.toJson c.write.toList := by
    rw [write, String.toList_ofList]
    exact c.printable_toJson.spells_compact.element_of_value
  exact hread c.written c.toJson c.write c.isWrittenBy_toJson hdocument

/-- An unknown key, a section with one of its fields and one that is an array of its first field. -/
theorem documents_override_defaults_partial :
    let v : Json := .ofMembers [
      ("comment", .null), ("backing", .ofMembers [("controller", .ofString "DRAM")]),
      ("general", .array [.bool true])]
    parse? (String.ofList (' ' :: v.compact)) =
      some { general := { trace := true }, backing := { controller := .dram } } := by
  intro v
  have hgeneral : ({ trace := some true } : General.Written).IsWrittenBy (.array [.bool true]) := by
    refine .array (by decide) fun i f hf => ?_
    match i with
    | 0 =>
        cases hf
        exact .some (.mk true)
    | 1 | 2 =>
        cases hf
        exact .none
  have hbacking : ({ controller := some .dram } : Backing.Written).IsWrittenBy
      (.ofMembers [("controller", .ofString "DRAM")]) := by
    have hdram : Controller.dram.Writes (.ofString "DRAM") := .string (Json.Text.toString?_ofString _) (by decide)
    refine .object (by simp) ?_
    simp only [List.forall_mem_cons]
    refine ⟨⟨none, ?_, .none⟩, ⟨none, ?_, .none⟩, ⟨some _, ?_, .some hdram⟩, ⟨none, ?_, .none⟩,
      ⟨none, ?_, .none⟩, ⟨none, ?_, .none⟩, ⟨none, ?_, .none⟩, ⟨none, ?_, .none⟩, List.forall_mem_nil _⟩ <;>
      simp [Json.under]
  have hw : ({ general := { trace := some true }, backing := { controller := some .dram } } : Written).IsWrittenBy
      v := by
    refine .object (by simp) ?_
    simp only [List.forall_mem_cons]
    refine ⟨⟨some _, ?_, hgeneral⟩, ⟨none, ?_, rfl⟩, ⟨some _, ?_, hbacking⟩, List.forall_mem_nil _⟩ <;>
      simp [Json.under]
  have hprintable : Printable v := by
    have hdram : Printable (.ofString "DRAM") := .string (Json.printable_text_ofString (by simp))
    refine printable_ofMembers (by simp) ?_
    simp only [List.forall_mem_cons]
    exact ⟨.null, printable_ofMembers (by simp) (List.forall_mem_singleton.mpr hdram),
      .array (List.forall_mem_singleton.mpr (.bool true)), List.forall_mem_nil _⟩
  have htext : Json.IsDocument v (String.ofList (' ' :: v.compact)).toList := by
    have hblank : Json.Blanks [' '] := List.forall_mem_singleton.mpr rfl
    have hspells := Json.Spells.element hblank hprintable.spells_compact (List.forall_mem_nil _)
    rw [List.append_nil] at hspells
    rw [String.toList_ofList]
    exact hspells
  exact documents_override_defaults.1 _ v _ hw htext

end Config

end WriteBack
