import Mathlib.Data.Fintype.EquivFin
import TelemetryEngine.Rollup.Budget

/-! The three-way classification of a dimension's values. The view writes fixed
sentinels; which values are sentinels, and under which name a column is allowed,
is the registry's to say. -/
namespace TelemetryEngine.Rollup
open Cardinality

inductive Presence where
  | absent
  | unregistered
  | registered
  deriving DecidableEq, Repr

/-- How a raw value stands to a dimension's allowlist. -/
def presence (allowed : Finset String) (value : String) : Presence :=
  if value = "" then .absent else if value ∈ allowed then .registered else .unregistered

/-- The rolled-up value of a dimension says how its raw value stands to the
allowlist, and which it is if it is allowed. -/
structure Faithful (registry : Registry) (allowlist : Allowlist) (d : Dimension)
    (column : KeyColumn) : Prop where
  none_iff : ∀ row : SpanRow, (rollupKey allowlist row).dimension column = registry.noneBucket ↔
    presence (allowlist.values d.name) (row.dimension column) = .absent
  other_iff : ∀ row : SpanRow, (rollupKey allowlist row).dimension column = registry.otherBucket ↔
    presence (allowlist.values d.name) (row.dimension column) = .unregistered
  kept : ∀ row : SpanRow, presence (allowlist.values d.name) (row.dimension column) = .registered →
    (rollupKey allowlist row).dimension column = row.dimension column
  apart : ∀ first second : SpanRow,
    (rollupKey allowlist first).dimension column = (rollupKey allowlist second).dimension column →
      presence (allowlist.values d.name) (first.dimension column) =
        presence (allowlist.values d.name) (second.dimension column)

/-- The registry names the sentinels the view writes, neither of them is an
allowed value, and the view finds the other allowed values where the sync puts
them. -/
structure Sound (registry : Registry) (allowlist : Allowlist) (d : Dimension) : Prop where
  none_bucket : registry.noneBucket = "__none__"
  other_bucket : registry.otherBucket = "__other__"
  none_free : "__none__" ∉ allowlist.values d.name
  other_free : "__other__" ∉ allowlist.values d.name
  column : ∀ value, value ≠ "" → value ≠ "__other__" →
    (value ∈ allowlist.values d.column ↔ value ∈ allowlist.values d.name)

variable {allowed : Finset String} {value : String}

theorem presence_absent : presence allowed value = .absent ↔ value = "" := by
  unfold presence
  split_ifs <;> simp [*]

theorem presence_registered : presence allowed value = .registered ↔ value ≠ "" ∧ value ∈ allowed := by
  unfold presence
  split_ifs <;> simp [*]

theorem presence_unregistered :
    presence allowed value = .unregistered ↔ value ≠ "" ∧ value ∉ allowed := by
  unfold presence
  split_ifs <;> simp [*]

theorem guarded_empty (dictionary : Allowlist) (name : String) :
    guarded dictionary name "" = "__none__" := if_pos rfl

theorem guarded_allowed {dictionary : Allowlist} {name : String} (present : value ≠ "")
    (member : value ∈ dictionary.values name) : guarded dictionary name value = value := by
  rw [guarded, if_neg present, if_pos (Allowlist.mem_values.mp member)]

theorem guarded_other {dictionary : Allowlist} {name : String} (present : value ≠ "")
    (missing : value ∉ dictionary.values name) : guarded dictionary name value = "__other__" := by
  rw [guarded, if_neg present, if_neg fun member => missing (Allowlist.mem_values.mpr member)]

theorem sentinels_ne : "__other__" ≠ "__none__" := by decide

def carrying (column : KeyColumn) (value : String) : SpanRow :=
  match column with
  | .tenantId => { ts := 0, tenantId := value }
  | .tenantTier => { ts := 0, tenantTier := value }
  | .model => { ts := 0, model := value }
  | .operation => { ts := 0, operation := value }
  | .route => { ts := 0, route := value }
  | .region => { ts := 0, region := value }
  | .statusClass => { ts := 0, statusClass := value }

@[simp] theorem carrying_dimension (column : KeyColumn) (value : String) :
    (carrying column value).dimension column = value := by
  cases column <;> rfl

section
variable {registry : Registry} {allowlist : Allowlist} {d : Dimension} {column : KeyColumn}

theorem Sound.none_iff (sound : Sound registry allowlist d) (named : column.name = d.column)
    (value : String) : guarded allowlist column.name value = registry.noneBucket ↔
      presence (allowlist.values d.name) value = .absent := by
  rw [presence_absent, sound.none_bucket, named]
  constructor
  · intro none
    by_contra present
    by_cases found : value ∈ allowlist.values d.column
    · rw [guarded_allowed present found] at none
      subst none
      exact sound.none_free ((sound.column _ present sentinels_ne.symm).mp found)
    · rw [guarded_other present found] at none
      exact absurd none sentinels_ne
  · rintro rfl
    exact guarded_empty _ _

theorem Sound.other_iff (sound : Sound registry allowlist d) (named : column.name = d.column)
    (value : String) : guarded allowlist column.name value = registry.otherBucket ↔
      presence (allowlist.values d.name) value = .unregistered := by
  rw [presence_unregistered, sound.other_bucket, named]
  constructor
  · intro other
    have present : value ≠ "" := by
      rintro rfl
      rw [guarded_empty] at other
      exact absurd other sentinels_ne.symm
    refine ⟨present, fun allowed => ?_⟩
    have sentinel : value ≠ "__other__" := by
      rintro rfl
      exact sound.other_free allowed
    rw [guarded_allowed present ((sound.column _ present sentinel).mpr allowed)] at other
    exact sentinel other
  · rintro ⟨present, missing⟩
    by_cases sentinel : value = "__other__"
    · by_cases found : value ∈ allowlist.values d.column
      · rw [guarded_allowed present found, sentinel]
      · exact guarded_other present found
    · exact guarded_other present fun found => missing ((sound.column _ present sentinel).mp found)

theorem Sound.kept (sound : Sound registry allowlist d) (named : column.name = d.column)
    (value : String) (registered : presence (allowlist.values d.name) value = .registered) :
    guarded allowlist column.name value = value := by
  obtain ⟨present, allowed⟩ := presence_registered.mp registered
  have sentinel : value ≠ "__other__" := by
    rintro rfl
    exact sound.other_free allowed
  rw [named]
  exact guarded_allowed present ((sound.column _ present sentinel).mpr allowed)

theorem Sound.faithful (sound : Sound registry allowlist d) (named : column.name = d.column) :
    Faithful registry allowlist d column where
  none_iff row := by rw [rollupKey_dimension]; exact sound.none_iff named _
  other_iff row := by rw [rollupKey_dimension]; exact sound.other_iff named _
  kept row registered := by rw [rollupKey_dimension]; exact sound.kept named _ registered
  apart first second same := by
    rw [rollupKey_dimension, rollupKey_dimension] at same
    have none := sound.none_iff named (first.dimension column)
    have other := sound.other_iff named (first.dimension column)
    rw [same, sound.none_iff named] at none
    rw [same, sound.other_iff named] at other
    cases stands : presence (allowlist.values d.name) (second.dimension column) with
    | absent => exact none.mp stands
    | unregistered => exact other.mp stands
    | registered =>
      cases begins : presence (allowlist.values d.name) (first.dimension column) with
      | absent => exact absurd (none.mpr begins) (by simp [stands])
      | unregistered => exact absurd (other.mpr begins) (by simp [stands])
      | registered => rfl

theorem Faithful.sound (faithful : Faithful registry allowlist d column)
    (named : column.name = d.column) : Sound registry allowlist d := by
  have none (value : String) := faithful.none_iff (carrying column value)
  have other (value : String) := faithful.other_iff (carrying column value)
  have kept (value : String) := faithful.kept (carrying column value)
  simp only [rollupKey_dimension, carrying_dimension, named, presence_absent,
    presence_unregistered, presence_registered] at none other kept
  have noneBucket : registry.noneBucket = "__none__" := by
    rw [← (none "").mpr rfl, guarded_empty]
  obtain ⟨fresh, unknown⟩ := Infinite.exists_notMem_finset
    ({""} ∪ allowlist.values d.name ∪ allowlist.values d.column)
  simp only [Finset.mem_union, Finset.mem_singleton, not_or] at unknown
  obtain ⟨⟨present, unnamed⟩, missing⟩ := unknown
  have otherBucket : registry.otherBucket = "__other__" := by
    rw [← (other fresh).mpr ⟨present, unnamed⟩, guarded_other present missing]
  refine ⟨noneBucket, otherBucket, fun allowed => ?_, fun allowed => ?_, ?_⟩
  · have same := kept "__none__" ⟨by decide, allowed⟩
    exact absurd ((none "__none__").mp (same.trans noneBucket.symm)) (by decide)
  · have same := kept "__other__" ⟨by decide, allowed⟩
    exact ((other "__other__").mp (same.trans otherBucket.symm)).2 allowed
  · intro value present sentinel
    constructor
    · intro found
      by_contra missing
      have bucket := (other value).mpr ⟨present, missing⟩
      rw [guarded_allowed present found, otherBucket] at bucket
      exact sentinel bucket
    · intro allowed
      by_contra missing
      have same := kept value ⟨present, allowed⟩
      rw [guarded_other present missing] at same
      exact sentinel same.symm

end

/-- Whatever the allowlist, a dimension's values are classified faithfully exactly
when no sentinel can be taken for a value of it. -/
theorem classification_faithful_iff (registry : Registry) (allowlist : Allowlist) (d : Dimension)
    {column : KeyColumn} (named : column.name = d.column) :
    Faithful registry allowlist d column ↔ Sound registry allowlist d :=
  ⟨fun faithful => faithful.sound named, fun sound => sound.faithful named⟩

theorem classification_faithful_steady :
    Faithful tenantRegistry (Guard.initial.run tenantRegistry steadyTraffic).dictionary
      tenantDimension .tenantId :=
  (classification_faithful_iff tenantRegistry _ tenantDimension rfl).mpr
    ⟨rfl, rfl, by decide +kernel, by decide +kernel, fun _ _ _ => Iff.rfl⟩

/-- A client that calls its tenant as the sentinel gets it allowlisted by a sync. -/
def sentinelTraffic : List GuardEvent :=
  [.ingest [{ ts := 0, tenantId := "__other__" }], .sync (plainSync 0)]

theorem sentinel_misclassified :
    loadRegistry "dimensions.yaml" tenantRegistry.file = .ok tenantRegistry ∧
      ¬ Faithful tenantRegistry (Guard.initial.run tenantRegistry sentinelTraffic).dictionary
        tenantDimension .tenantId := by
  refine ⟨loadRegistry_file _ _, fun faithful => ?_⟩
  have unregistered := (faithful.other_iff { ts := 0, tenantId := "__other__" }).mp
    (by decide +kernel)
  revert unregistered
  decide +kernel

end TelemetryEngine.Rollup
