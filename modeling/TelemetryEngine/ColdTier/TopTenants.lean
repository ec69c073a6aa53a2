import TelemetryEngine.ColdTier.DailyVolume

/-! The query `TOP_TENANTS_BY_TOKENS` of `coldtier/query.py`. -/
namespace TelemetryEngine.ColdTier
open Foundation.Grouping

structure TenantLine where
  tenantId : String
  spans : ℕ
  outputTokens : ℕ
  avgTtftMs : ℚ
  deriving DecidableEq

def ofTenant (tenantId : String) (rows : List SpanRow) : List SpanRow :=
  rows.filter (·.tenantId = tenantId)

def outputTokensOf (rows : List SpanRow) : ℕ := (rows.map (·.outputTokens.toNat)).sum

section
variable (tenths : ℚ → ℚ)

/-- `tenths` stands for `round(value, 1)` in doubles. -/
def tenantLine (tenantId : String) (rows : List SpanRow) : TenantLine :=
  ⟨tenantId, rows.length, outputTokensOf rows, tenths ((rows.map (·.ttftMs)).sum / rows.length)⟩

/-- Tenants with equally many tokens come in any order. -/
def tenantLines (rows : List SpanRow) : List TenantLine :=
  ((grouped (·.tenantId) id rows).map fun entry => tenantLine tenths entry.1 entry.2).insertionSort
    fun first second => second.outputTokens ≤ first.outputTokens

/-- `TOP_TENANTS_BY_TOKENS` -/
def topTenantsByTokens (files : AList fun _ : Path => LakeFile) :
    Except QueryError (List TenantLine) :=
  overHive (fun hive => (tenantLines tenths (hive.map Prod.snd)).take 10) files

end

/-- The tenants with the most tokens, each with what its rows hold. -/
structure Leaders (rows : List SpanRow) (top : List TenantLine) : Prop where
  few : top.length ≤ 10
  distinct : (top.map TenantLine.tenantId).Nodup
  order : top.Pairwise fun first second => second.outputTokens ≤ first.outputTokens
  counted : ∀ line ∈ top, line.spans = (ofTenant line.tenantId rows).length ∧
    line.outputTokens = outputTokensOf (ofTenant line.tenantId rows)
  others : ∀ tenantId, ofTenant tenantId rows ≠ [] → tenantId ∈ top.map TenantLine.tenantId ∨
    top.length = 10 ∧ ∀ line ∈ top, outputTokensOf (ofTenant tenantId rows) ≤ line.outputTokens

variable {tenths : ℚ → ℚ} {rows : List SpanRow}

theorem mem_tenantLines {line : TenantLine} : line ∈ tenantLines tenths rows ↔
    ofTenant line.tenantId rows ≠ [] ∧
      line = tenantLine tenths line.tenantId (ofTenant line.tenantId rows) := by
  have occurs (tenantId : String) : tenantId ∈ rows.map (·.tenantId) ↔
      ofTenant tenantId rows ≠ [] := by
    simp [ofTenant, List.filter_eq_nil_iff]
  rw [tenantLines, List.mem_insertionSort, List.mem_map]
  constructor
  · rintro ⟨⟨tenantId, group⟩, member, rfl⟩
    obtain ⟨found, rfl⟩ := mem_grouped.mp member
    exact ⟨(occurs tenantId).mp found, rfl⟩
  · rintro ⟨some, same⟩
    refine ⟨(line.tenantId, ofTenant line.tenantId rows), ?_, same.symm⟩
    exact mem_grouped.mpr ⟨(occurs _).mpr some, rfl⟩

theorem leaders_tenantLines (tenths : ℚ → ℚ) (rows : List SpanRow) :
    Leaders rows ((tenantLines tenths rows).take 10) := by
  have sorted : (tenantLines tenths rows).Pairwise fun first second =>
      second.outputTokens ≤ first.outputTokens := sorted_desc TenantLine.outputTokens _
  have names : ((tenantLines tenths rows).map TenantLine.tenantId).Nodup := by
    rw [tenantLines, ((List.perm_insertionSort _ _).map _).nodup_iff, List.map_map]
    exact (@grouped_keys _ _ _ _ (fun row : SpanRow => row.tenantId) id rows).1.imp ne_of_lt
  refine ⟨List.length_take_le _ _, ?_, sorted.take, fun line member => ?_, fun tenantId some => ?_⟩
  · rw [List.map_take]
    exact names.take
  · have line_eq := (mem_tenantLines.mp (List.mem_of_mem_take member)).2
    exact ⟨congrArg TenantLine.spans line_eq, congrArg TenantLine.outputTokens line_eq⟩
  · have listed : tenantLine tenths tenantId (ofTenant tenantId rows) ∈ tenantLines tenths rows :=
      mem_tenantLines.mpr ⟨some, rfl⟩
    exact (mem_take_or sorted listed 10).imp_left List.mem_map_of_mem

theorem Accounted.topTenants {tier : Tier} (accounted : Accounted tier.view)
    (full : ∀ path file, tier.view.lake path = some file → file.rows ≠ [])
    (dated : DatedRows tier.view.lake) (tenths : ℚ → ℚ) :
    ∃ top, Leaders tier.lakeRows top ∧ topTenantsByTokens tenths tier.files =
      if tier.lakeRows = [] then .error .binder else .ok top := by
  refine ⟨_, leaders_tenantLines tenths tier.lakeRows, ?_⟩
  rw [topTenantsByTokens, accounted.overHive full dated, List.map_map]
  simp only [Function.comp_def, List.map_id']

end TelemetryEngine.ColdTier
