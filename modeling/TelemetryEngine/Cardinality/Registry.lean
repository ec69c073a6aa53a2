import Mathlib.Data.Finset.Sort
import Mathlib.Data.String.Basic

/-! The dimension registry: what is allowed to become a rollup key. The scalars
of the registry file are taken as the texts and integers they read as; every
check made on them while the file is loaded is kept as a field. -/
namespace TelemetryEngine.Cardinality

/-- An exception, with the values its message quotes. -/
inductive Failure where
  | keyError (key : String)
  | valueError (message : String) (quoted : List String)
  | database
  deriving DecidableEq, Repr

inductive DimensionSource where
  | static
  | topK
  deriving DecidableEq, Repr

def DimensionSource.parse : String → Except Failure DimensionSource
  | "static" => .ok .static
  | "top_k" => .ok .topK
  | other => .error (.valueError "is not a valid DimensionSource" [other])

def DimensionSource.text : DimensionSource → String
  | .static => "static"
  | .topK => "top_k"

/-- One dimension that may appear in a rollup key. -/
structure Dimension where
  name : String
  column : String
  attribute_ : String
  source : DimensionSource
  budget : Int
  values : List String
  topKWindowHours : Int
  budget_pos : 1 ≤ budget
  values_within : values.length ≤ budget
  values_static : values ≠ [] ↔ source = .static

namespace Dimension

/-- `__post_init__`. -/
def postInit (name column attribute_ : String) (source : DimensionSource) (budget : Int)
    (values : List String) (topKWindowHours : Int) : Except Failure Dimension :=
  if low : budget < 1 then
    .error (.valueError s!"{name}: budget must be >= 1, got {budget}" [])
  else match source with
    | .static =>
      if none : values = [] then
        .error (.valueError s!"{name}: static dimensions must enumerate values" [])
      else if above : budget < values.length then
        .error (.valueError (s!"{name}: {values.length} declared values exceed budget {budget} " ++
          "-- raise the budget deliberately or trim the list") [])
      else .ok {
        name, column, attribute_, source := .static, budget, values, topKWindowHours
        budget_pos := by omega
        values_within := by omega
        values_static := by simp [none] }
    | .topK =>
      if none : values = [] then .ok {
        name, column, attribute_, source := .topK, budget, values, topKWindowHours
        budget_pos := by omega
        values_within := by simp only [none, List.length_nil]; omega
        values_static := by simp [none] }
      else .error (.valueError (s!"{name}: top_k dimensions must not enumerate values; " ++
        "the allowlist is computed from traffic") [])

/-- Budget plus both sentinel buckets. -/
def maxDistinct (dimension : Dimension) : Int := dimension.budget + 2

theorem budget_nonneg (dimension : Dimension) : 0 ≤ dimension.budget := by
  have positive := dimension.budget_pos
  omega

theorem postInit_self (dimension : Dimension) :
    postInit dimension.name dimension.column dimension.attribute_ dimension.source dimension.budget
      dimension.values dimension.topKWindowHours = .ok dimension := by
  obtain ⟨name, column, attribute_, source, budget, values, hours, positive, within, enumerated⟩ :=
    dimension
  unfold postInit
  rw [dif_neg positive.not_gt]
  cases source with
  | static =>
    have some : values ≠ [] := enumerated.mpr rfl
    simp only [dif_neg some, dif_neg within.not_gt]
  | topK =>
    have none : values = [] := by simpa using enumerated
    simp only [dif_pos none]

end Dimension

structure Entry where
  name : Option String
  column : Option String
  attribute_ : Option String
  source : Option String := none
  budget : Option Int
  values : List String := []
  topKWindowHours : Option Int := none

/-- `e[key]`. -/
def required (key : String) (value : Option α) : Except Failure α :=
  match value with
  | some a => .ok a
  | none => .error (.keyError key)

def Entry.dimension (e : Entry) : Except Failure Dimension := do
  let name ← required "name" e.name
  let column ← required "column" e.column
  let attribute_ ← required "attribute" e.attribute_
  let source ← DimensionSource.parse (e.source.getD "static")
  let budget ← required "budget" e.budget
  Dimension.postInit name column attribute_ source budget e.values (e.topKWindowHours.getD 24)

structure RegistryFile where
  version : Option Int := none
  otherBucket : Option String := none
  noneBucket : Option String := none
  dimensions : List Entry
  forbiddenAsDimensions : List String := []

/-- The parsed dimension registry. -/
structure Registry where
  version : Int
  otherBucket : String
  noneBucket : String
  dimensions : List Dimension
  forbidden : Finset String
  declared : dimensions ≠ []
  names_nodup : (dimensions.map Dimension.name).Nodup
  permitted : ∀ d ∈ dimensions, d.attribute_ ∉ forbidden

theorem mapM_ne_nil {f : α → Except ε β} {xs : List α} {ys : List β} (mapped : xs.mapM f = .ok ys)
    (some : xs ≠ []) : ys ≠ [] := by
  rintro rfl
  cases xs with
  | nil => exact some rfl
  | cons x xs =>
    rw [List.mapM_cons] at mapped
    cases first : f x with
    | error e => simp [first, bind, Except.bind] at mapped
    | ok y =>
      cases rest : xs.mapM f with
      | error e => simp [first, rest, bind, Except.bind] at mapped
      | ok zs => simp [first, rest, bind, Except.bind, pure, Except.pure] at mapped

/-- Parse the registry file. -/
def loadRegistry (src : String) (raw : RegistryFile) : Except Failure Registry :=
  if empty : raw.dimensions = [] then
    .error (.valueError s!"no dimensions declared in {src}" [])
  else match parsed : raw.dimensions.mapM Entry.dimension with
    | .error failure => .error failure
    | .ok dimensions =>
      let forbidden := raw.forbiddenAsDimensions.toFinset
      let conflicts := (dimensions.map Dimension.attribute_).toFinset ∩ forbidden
      if unique : (dimensions.map Dimension.name).Nodup then
        if disjoint : conflicts = ∅ then .ok {
          version := raw.version.getD 1
          otherBucket := raw.otherBucket.getD "__other__"
          noneBucket := raw.noneBucket.getD "__none__"
          dimensions, forbidden
          declared := mapM_ne_nil parsed empty
          names_nodup := unique
          permitted := fun d member banned => Finset.notMem_empty d.attribute_ (by
            rw [← disjoint]
            exact Finset.mem_inter.mpr
              ⟨List.mem_toFinset.mpr (List.mem_map_of_mem member), banned⟩) }
        else .error (.valueError "attributes are both registered dimensions and forbidden"
          (conflicts.sort (· ≤ ·)))
      else .error (.valueError s!"duplicate dimension names in {src}" [])

namespace Registry

def staticDimensions (registry : Registry) : List Dimension :=
  registry.dimensions.filter (·.source = .static)

def topKDimensions (registry : Registry) : List Dimension :=
  registry.dimensions.filter (·.source = .topK)

/-- Upper bound on rollup rows per time bucket. -/
def maxRowsPerBucket (registry : Registry) : Int :=
  registry.dimensions.foldl (fun total dimension => total * dimension.maxDistinct) 1

/-- Check every registered dimension maps to a real column. -/
def validateColumns (registry : Registry) (available : List String) : Except Failure Unit :=
  let missing := (registry.dimensions.map Dimension.column).toFinset.filter (· ∉ available)
  if missing = ∅ then .ok ()
  else .error (.valueError "registry names columns that do not exist" (missing.sort (· ≤ ·)))

theorem eq_of_name (registry : Registry) {d e : Dimension} (hd : d ∈ registry.dimensions)
    (he : e ∈ registry.dimensions) (same : d.name = e.name) : d = e :=
  List.inj_on_of_nodup_map registry.names_nodup hd he same

end Registry

/-! ### Every registry is one that loads -/

def Dimension.entry (d : Dimension) : Entry where
  name := some d.name
  column := some d.column
  attribute_ := some d.attribute_
  source := some d.source.text
  budget := some d.budget
  values := d.values
  topKWindowHours := some d.topKWindowHours

theorem Dimension.entry_dimension (d : Dimension) : d.entry.dimension = .ok d := by
  have source : DimensionSource.parse d.source.text = .ok d.source := by
    cases d.source <;> rfl
  simp only [Entry.dimension, Dimension.entry, required, Option.getD_some, source, bind, Except.bind]
  exact d.postInit_self

def Registry.file (registry : Registry) : RegistryFile where
  version := some registry.version
  otherBucket := some registry.otherBucket
  noneBucket := some registry.noneBucket
  dimensions := registry.dimensions.map Dimension.entry
  forbiddenAsDimensions := registry.forbidden.sort (· ≤ ·)

theorem entries_dimensions (ds : List Dimension) :
    (ds.map Dimension.entry).mapM Entry.dimension = .ok ds := by
  induction ds with
  | nil => rfl
  | cons d ds ih =>
    rw [List.map_cons, List.mapM_cons, d.entry_dimension, ih]
    rfl

/-- Whatever holds of every registry holds of exactly those the loader accepts. -/
theorem loadRegistry_file (src : String) (registry : Registry) :
    loadRegistry src registry.file = .ok registry := by
  have some : registry.file.dimensions ≠ [] := by
    simpa [Registry.file] using registry.declared
  have parsed := entries_dimensions registry.dimensions
  have disjoint : (registry.dimensions.map Dimension.attribute_).toFinset ∩ registry.forbidden = ∅ := by
    refine Finset.eq_empty_of_forall_notMem ?_
    intro attribute_ both
    obtain ⟨registered, banned⟩ := Finset.mem_inter.mp both
    obtain ⟨d, member, rfl⟩ := List.mem_map.mp (List.mem_toFinset.mp registered)
    exact registry.permitted d member banned
  unfold loadRegistry
  rw [dif_neg some]
  split
  case h_1 failure failed =>
    rw [Registry.file, parsed] at failed
    contradiction
  case h_2 dimensions loaded =>
    rw [Registry.file, parsed] at loaded
    obtain rfl := Except.ok.inj loaded
    simp only [Registry.file, Finset.sort_toFinset, disjoint, registry.names_nodup,
      Option.getD_some, dite_true]

end TelemetryEngine.Cardinality
