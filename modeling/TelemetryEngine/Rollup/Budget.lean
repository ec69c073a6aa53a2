import TelemetryEngine.Rollup.MinuteView

/-! The cardinality bound over the life of the system. One sync offers a dimension
no more values than its budget, but the allowlist keeps what earlier syncs
offered. -/
namespace TelemetryEngine.Rollup
open Cardinality Foundation Foundation.MergingTable

/-- The values of a dimension among the rollup rows of one minute. -/
def distinctValues (column : KeyColumn) (minute : Int) (table : Spans1m) : Finset String :=
  ((table.filter (·.1.tsMinute = minute)).map (·.1.dimension column)).toFinset

/-- The allowlist is within every budget, and so is every minute that is written
under it, but for the sentinels. -/
structure Bounded (registry : Registry) (guard : Guard) : Prop where
  allowlist : ∀ d ∈ registry.dimensions, (guard.allowlist.values d.name).card ≤ d.budget
  minutes : ∀ d ∈ registry.dimensions, ∀ column : KeyColumn, column.name = d.column →
    ∀ blocks table, Holds (mvSpans1m guard.dictionary) blocks table →
      ∀ minute, (distinctValues column minute table).card ≤ d.maxDistinct

/-- A sync that keeps to the budgets: what a top-K dimension has been allowed so
far and what the sync adds to it fit together. The view looks a column up under
its own name, so a dimension of another name is held to its budget there. -/
def Fits (registry : Registry) (guard : Guard) : GuardEvent → Prop
  | .sync call =>
    (∀ d ∈ registry.topKDimensions, (guard.allowlist.values d.name ∪
      (call.offered guard.spansRaw d).toFinset).card ≤ d.budget) ∧
    ∀ d ∈ registry.dimensions, ∀ column ∈ KeyColumn.all, column.name = d.column →
      column.name ≠ d.name → (guard.allowlist.values column.name ∪
        call.brings registry guard.spansRaw column.name).card ≤ d.budget
  | _ => True

instance (registry : Registry) (guard : Guard) : ∀ event, Decidable (Fits registry guard event)
  | .sync _ => inferInstanceAs (Decidable (_ ∧ _))
  | .ingest _ | .expire _ | .refresh => inferInstanceAs (Decidable True)

/-- What every run that fits maintains. -/
structure Kept (registry : Registry) (guard : Guard) : Prop where
  static : ∀ d ∈ registry.staticDimensions, guard.allowlist.values d.name ⊆ d.values.toFinset
  topK : ∀ d ∈ registry.topKDimensions, (guard.allowlist.values d.name).card ≤ d.budget
  column : ∀ d ∈ registry.dimensions, ∀ column ∈ KeyColumn.all, column.name = d.column →
    column.name ≠ d.name → (guard.allowlist.values column.name).card ≤ d.budget
  loaded : guard.dictionary ⊆ guard.allowlist

variable {registry : Registry} {guard : Guard}

theorem initial_kept (registry : Registry) : Kept registry .initial where
  static _ _ := Finset.empty_subset _
  topK d _ := d.budget_nonneg
  column d _ _ _ _ _ := d.budget_nonneg
  loaded := Finset.empty_subset _

theorem executed_allows (registry : Registry) (guard : Guard) (call : SyncCall)
    (loaded : guard.dictionary ⊆ guard.allowlist) :
    let later := guard.step registry (.sync call)
    (∀ key, later.allowlist.values key ⊆
      guard.allowlist.values key ∪ call.brings registry guard.spansRaw key) ∧
      later.dictionary ⊆ later.allowlist := by
  refine foldl_invariant (P := fun later : Guard => (∀ key, later.allowlist.values key ⊆
    guard.allowlist.values key ∪ call.brings registry guard.spansRaw key) ∧
      later.dictionary ⊆ later.allowlist) ?_ ⟨fun key => Finset.subset_union_left, loaded⟩
  rintro later effect member ⟨allowed, loaded⟩
  have offers := call.executed_offers registry guard.spansRaw effect member
  cases effect with
  | insert rows =>
    refine ⟨?_, loaded.trans Finset.subset_union_left⟩
    intro key value inside
    cases Finset.mem_union.mp (Allowlist.mem_values.mp inside) with
    | inl before => exact allowed key (Allowlist.mem_values.mpr before)
    | inr added =>
      have brought : value ∈ call.brings registry guard.spansRaw key :=
        offers (key, value) (List.mem_toFinset.mp added)
      exact Finset.mem_union_right _ brought
  | reload => exact ⟨allowed, Finset.Subset.refl _⟩

theorem Kept.step (kept : Kept registry guard) {event : GuardEvent}
    (fits : Fits registry guard event) : Kept registry (guard.step registry event) := by
  cases event with
  | ingest | expire => exact ⟨kept.static, kept.topK, kept.column, kept.loaded⟩
  | refresh => exact ⟨kept.static, kept.topK, kept.column, Finset.Subset.refl _⟩
  | sync call =>
    obtain ⟨traffic, columns⟩ := fits
    obtain ⟨allowed, loaded⟩ := executed_allows registry guard call kept.loaded
    refine ⟨fun d member => ?_, fun d member => ?_, fun d member column key named other => ?_, loaded⟩
    · obtain ⟨registered, source⟩ := List.mem_filter.mp member
      refine (allowed d.name).trans (Finset.union_subset (kept.static d member) ?_)
      rw [call.brings_name _ registered, SyncCall.offered, of_decide_eq_true source]
    · have within := Finset.card_le_card (allowed d.name)
      rw [call.brings_name _ (List.mem_of_mem_filter member)] at within
      have fit := traffic d member
      omega
    · have within := Finset.card_le_card (allowed column.name)
      have fit := columns d member column key named other
      omega

theorem Kept.run (kept : Kept registry guard) {events : List GuardEvent}
    (fits : Meets (Guard.step registry) (Fits registry) guard events) :
    Kept registry (guard.run registry events) := by
  induction events generalizing guard with
  | nil => exact kept
  | cons event rest ih =>
    obtain ⟨here, later⟩ := fits
    exact ih (kept.step here) later

theorem Kept.allowed (kept : Kept registry guard) {d : Dimension} (member : d ∈ registry.dimensions) :
    (guard.allowlist.values d.name).card ≤ d.budget := by
  cases source : d.source with
  | static =>
    have within := Finset.card_le_card
      (kept.static d (List.mem_filter.mpr ⟨member, decide_eq_true source⟩))
    have declared := List.toFinset_card_le d.values
    have budget := d.values_within
    omega
  | topK => exact kept.topK d (List.mem_filter.mpr ⟨member, decide_eq_true source⟩)

/-- A minute holds the sentinels and what the dictionary holds. -/
theorem distinctValues_subset {dictionary : Allowlist}
    (held : Holds (mvSpans1m dictionary) blocks table) (column : KeyColumn) (minute : Int) :
    distinctValues column minute table ⊆
      {"__none__", "__other__"} ∪ dictionary.values column.name := by
  intro value seen
  obtain ⟨entry, written, rfl⟩ := List.mem_map.mp (List.mem_toFinset.mp seen)
  have inside : entry.1 ∈ table.map Prod.fst := List.mem_map_of_mem (List.mem_of_mem_filter written)
  obtain ⟨block, _, key⟩ := (holds_keys held entry.1).mp inside
  obtain ⟨row, _, same⟩ := List.mem_map.mp ((keys_group _ _ block entry.1).mp key)
  rw [← same, rollupKey_dimension]
  rcases guarded_cases dictionary column.name (row.dimension column) with none | other | allowed
  · simp [none]
  · simp [other]
  · exact Finset.mem_union_right _ allowed

theorem distinctValues_card {dictionary : Allowlist}
    (held : Holds (mvSpans1m dictionary) blocks table) (column : KeyColumn) (minute : Int) :
    (distinctValues column minute table).card ≤ (dictionary.values column.name).card + 2 := by
  have within := Finset.card_le_card (distinctValues_subset held column minute)
  have union := Finset.card_union_le {"__none__", "__other__"} (dictionary.values column.name)
  have sentinels : ({"__none__", "__other__"} : Finset String).card = 2 := rfl
  omega

theorem Kept.bounded (kept : Kept registry guard) : Bounded registry guard where
  allowlist _ member := kept.allowed member
  minutes d member column named blocks table held minute := by
    have distinct := distinctValues_card held column minute
    have loaded := Finset.card_le_card (Allowlist.values_mono kept.loaded column.name)
    have allowed : (guard.allowlist.values column.name).card ≤ d.budget := by
      by_cases same : column.name = d.name
      · rw [same]
        exact kept.allowed member
      · exact kept.column d member column column.mem_all named same
    rw [Dimension.maxDistinct]
    omega

/-- At every point of a history whose syncs all fit, a sync that is under way
included, every dimension is within its budget. -/
theorem cardinality_bounded (registry : Registry) {events reached : List GuardEvent}
    (fits : Meets (Guard.step registry) (Fits registry) .initial events)
    (point : reached <+: events) : Bounded registry (Guard.initial.run registry reached) := by
  obtain ⟨later, rfl⟩ := point
  exact ((initial_kept registry).run (meets_append.mp fits).1).bounded

/-- A first sync always fits, if every dimension is named after its column. -/
theorem fits_first_sync (fresh : guard.allowlist = ∅)
    (aligned : ∀ d ∈ registry.dimensions, d.column = d.name) (call : SyncCall) :
    Fits registry guard (.sync call) := by
  constructor
  · intro d _
    have none : guard.allowlist.values d.name = ∅ := by
      rw [fresh]
      rfl
    have offered := call.offered_length guard.spansRaw d
    have distinct := List.toFinset_card_le (call.offered guard.spansRaw d)
    rw [none, Finset.empty_union]
    omega
  · intro d member column _ named other
    exact absurd (named.trans (aligned d member)) other

/-- A dimension computed from traffic, with room for one value. -/
def tenantDimension : Dimension where
  name := "tenant_id"
  column := "tenant_id"
  attribute_ := "tenant.id"
  source := .topK
  budget := 1
  values := []
  topKWindowHours := 24
  budget_pos := by decide
  values_within := by decide
  values_static := by decide

def tenantRegistry : Registry where
  version := 1
  otherBucket := "__other__"
  noneBucket := "__none__"
  dimensions := [tenantDimension]
  forbidden := ∅
  declared := by decide
  names_nodup := by decide
  permitted := by simp

def plainSync (now : Int) : SyncCall where
  now := now
  groups := List.dedup
  groups_perm _ := List.Perm.refl _

/-- The same tenant is the loudest at two syncs. -/
def steadyTraffic : List GuardEvent :=
  [.ingest [{ ts := 0, tenantId := "a" }], .sync (plainSync 0), .sync (plainSync 0)]

/-- The loudest tenant changes between two syncs. -/
def shiftingTraffic : List GuardEvent :=
  [.ingest [{ ts := 0, tenantId := "a" }], .sync (plainSync 0),
    .ingest [{ ts := 0, tenantId := "b" }, { ts := 1, tenantId := "b" }], .sync (plainSync 0)]

theorem cardinality_bounded_steady :
    Bounded tenantRegistry (Guard.initial.run tenantRegistry steadyTraffic) :=
  cardinality_bounded tenantRegistry (by decide +kernel) (List.prefix_refl steadyTraffic)

theorem allowlist_outgrows_budget :
    loadRegistry "dimensions.yaml" tenantRegistry.file = .ok tenantRegistry ∧
      ¬ Bounded tenantRegistry (Guard.initial.run tenantRegistry shiftingTraffic) := by
  refine ⟨loadRegistry_file _ _, fun bounded => ?_⟩
  have within := bounded.allowlist tenantDimension (List.mem_singleton.mpr rfl)
  revert within
  decide +kernel

end TelemetryEngine.Rollup
