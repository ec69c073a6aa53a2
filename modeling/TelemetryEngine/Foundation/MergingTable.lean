import Mathlib.Algebra.Group.Submonoid.BigOperators
import Mathlib.Data.List.Dedup
import Mathlib.Logic.Relation

/-! Tables of mergeable states. A row carries a key and a state; inserted blocks
are grouped by key, and in the background rows of one key are merged, in any
order. Sums over whole keys do not depend on blocks or merges. -/
namespace Foundation.MergingTable
variable {R K L S : Type} [AddCommMonoid S]

abbrev Table (K S : Type) := List (K × S)

def total (selected : K → Bool) (table : Table K S) : S :=
  ((table.filter fun entry => selected entry.1).map Prod.snd).sum

/-- `GROUP BY`: one row for every key of the block. -/
def group [DecidableEq K] (key : R → K) (state : R → S) (block : List R) : Table K S :=
  (block.map key).dedup.map fun k => (k, ((block.filter fun r => key r = k).map state).sum)

/-- Rows of states, grouped again under coarser keys. -/
def regroup [DecidableEq L] (coarsen : K → L) (block : Table K S) : Table L S :=
  group (fun entry => coarsen entry.1) Prod.snd block

/-- One background merge: two rows of a key become one, wherever they lie. -/
inductive Merge : Table K S → Table K S → Prop where
  | rows {before after rest : Table K S} {k : K} {s t : S}
      (found : before.Perm ((k, s) :: (k, t) :: rest))
      (merged : after.Perm ((k, s + t) :: rest)) : Merge before after

/-- The tables that blocks written by `write` may leave, merges included. -/
inductive Holds (write : R → Table K S) : List R → Table K S → Prop where
  | empty : Holds write [] []
  | insert {blocks : List R} {block : R} {table : Table K S}
      (held : Holds write blocks table) : Holds write (blocks ++ [block]) (table ++ write block)
  | merge {blocks : List R} {before after : Table K S}
      (held : Holds write blocks before) (step : Merge before after) : Holds write blocks after

/-- What the merges of the background may make of a table. -/
abbrev Merging (K S : Type) [AddCommMonoid S] :=
  ∀ table : Table K S, { merged : Table K S // Relation.ReflTransGen Merge table merged }

variable {selected : K → Bool} {table : Table K S}

theorem total_cons {k : K} {s : S} :
    total selected ((k, s) :: table) = (if selected k then s else 0) + total selected table := by
  by_cases here : selected k <;> simp [total, here]

theorem total_append {first second : Table K S} :
    total selected (first ++ second) = total selected first + total selected second := by
  simp [total]

theorem total_perm {first second : Table K S} (same : first.Perm second) :
    total selected first = total selected second :=
  ((same.filter _).map _).sum_eq

theorem total_merge {before after : Table K S} (step : Merge before after) :
    total selected after = total selected before := by
  obtain ⟨found, merged⟩ := step
  rw [total_perm merged, total_perm found, total_cons, total_cons, total_cons]
  split
  · rw [add_assoc]
  · simp

theorem keys_merge {before after : Table K S} (step : Merge before after) (k : K) :
    k ∈ after.map Prod.fst ↔ k ∈ before.map Prod.fst := by
  obtain ⟨found, merged⟩ := step
  rw [(merged.map _).mem_iff, (found.map _).mem_iff]
  simp

theorem filter_or_perm {p q : R → Bool} (apart : ∀ r, p r = true → q r = false) (xs : List R) :
    (xs.filter p ++ xs.filter q).Perm (xs.filter fun x => p x || q x) := by
  induction xs with
  | nil => exact .nil
  | cons x rest ih =>
    by_cases first : p x = true
    · simpa [first, apart x first] using ih
    · by_cases second : q x = true
      · simpa [first, second] using List.perm_middle.trans (ih.cons x)
      · simpa [first, second] using ih

/-- What is selected passes from the rows left over to the rows counted. -/
theorem perm_filter_moves {p : R → Bool} {whole left counted : List R}
    (content : whole.Perm (left ++ counted)) (none : counted.filter p = []) :
    whole.Perm ((left.filter fun r => !p r) ++ (counted ++ whole.filter p)) := by
  have selected : (whole.filter p).Perm (left.filter p) := by
    simpa [none] using content.filter p
  have parted := List.filter_append_perm p left
  refine content.trans ((parted.symm.append_right _).trans ?_)
  refine List.perm_append_comm.append_right _ |>.trans ?_
  rw [List.append_assoc]
  exact (List.perm_append_comm.trans (selected.symm.append_left _)).append_left _

theorem sum_filter_or {p q : R → Bool} (apart : ∀ r, p r = true → q r = false) (state : R → S)
    (block : List R) :
    ((block.filter fun r => p r || q r).map state).sum =
      ((block.filter p).map state).sum + ((block.filter q).map state).sum := by
  rw [← ((filter_or_perm apart block).map state).sum_eq, List.map_append, List.sum_append]

/-- The states of distinct keys add up to those of the rows they group. -/
theorem sum_grouped [DecidableEq K] (key : R → K) (state : R → S) (block : List R) {keys : List K}
    (distinct : keys.Nodup) :
    (keys.map fun k => ((block.filter fun r => key r = k).map state).sum).sum =
      ((block.filter fun r => key r ∈ keys).map state).sum := by
  induction keys with
  | nil => simp
  | cons k rest ih =>
    obtain ⟨fresh, distinct⟩ := List.nodup_cons.mp distinct
    have apart : ∀ r, decide (key r = k) = true → decide (key r ∈ rest) = false := by
      intro r here
      obtain rfl := of_decide_eq_true here
      exact decide_eq_false fresh
    rw [List.map_cons, List.sum_cons, ih distinct, ← sum_filter_or apart]
    simp only [List.mem_cons, Bool.decide_or]

theorem total_group [DecidableEq K] (key : R → K) (state : R → S) (block : List R) :
    total selected (group key state block) =
      ((block.filter fun r => selected (key r)).map state).sum := by
  have distinct : ((block.map key).dedup.filter selected).Nodup := (List.nodup_dedup _).filter _
  simp only [total, group, List.filter_map, List.map_map, Function.comp_def]
  rw [sum_grouped key state block distinct]
  congr 2
  refine List.filter_congr ?_
  intro r member
  simp [List.mem_map_of_mem member]

/-- Rows grouped block by block add up to the rows grouped at once. -/
theorem total_groups [DecidableEq K] (key : R → K) (state : R → S) (blocks : List (List R)) :
    (blocks.map fun block => total selected (group key state block)).sum =
      ((blocks.flatten.filter fun r => selected (key r)).map state).sum := by
  induction blocks with
  | nil => rfl
  | cons block rest ih =>
    rw [List.map_cons, List.sum_cons, ih, total_group, List.flatten_cons, List.filter_append,
      List.map_append, List.sum_append]

theorem keys_group [DecidableEq K] (key : R → K) (state : R → S) (block : List R) (k : K) :
    k ∈ (group key state block).map Prod.fst ↔ k ∈ block.map key := by
  simp [group]

/-- Whatever the blocks and the merges were, a sum is the sum of what was written. -/
theorem holds_total {write : R → Table K S} {blocks : List R} (held : Holds write blocks table) :
    total selected table = (blocks.map fun block => total selected (write block)).sum := by
  induction held with
  | empty => rfl
  | insert _ ih => rw [total_append, ih, List.map_append, List.sum_append, List.map_singleton,
      List.sum_singleton]
  | merge _ step ih => rw [total_merge step, ih]

theorem holds_keys {write : R → Table K S} {blocks : List R} (held : Holds write blocks table)
    (k : K) : k ∈ table.map Prod.fst ↔ ∃ block ∈ blocks, k ∈ (write block).map Prod.fst := by
  induction held with
  | empty => simp
  | insert _ ih => simp only [List.map_append, List.mem_append, ih, List.mem_singleton, or_and_right,
      exists_or, exists_eq_left]
  | merge _ step ih => rw [keys_merge step, ih]

theorem total_regroup [DecidableEq L] (coarsen : K → L) (selected : L → Bool) (block : Table K S) :
    total selected (regroup coarsen block) = total (fun k => selected (coarsen k)) block :=
  total_group _ _ block

/-- Two tables written from the same blocks, one of them regrouped, agree on every
sum that the coarser keys can name, whatever was merged when. -/
theorem holds_regroup [DecidableEq L] {coarsen : K → L} {write : R → Table K S} {blocks : List R}
    {coarse : Table L S} (held : Holds write blocks table)
    (regrouped : Holds (fun block => regroup coarsen (write block)) blocks coarse)
    (selected : L → Bool) : total selected coarse = total (fun k => selected (coarsen k)) table := by
  simp only [holds_total held, holds_total regrouped, total_regroup]

theorem total_among [DecidableEq K] {keys : List K} (distinct : keys.Nodup) (table : Table K S) :
    total (fun k => decide (k ∈ keys)) table =
      (keys.map fun key => total (fun k => decide (k = key)) table).sum :=
  (sum_grouped Prod.fst Prod.snd table distinct).symm

theorem total_congr {other : K → Bool} (same : ∀ entry ∈ table, selected entry.1 = other entry.1) :
    total selected table = total other table := by
  simp only [total, List.filter_congr same]

theorem holds_merging {write : R → Table K S} {blocks : List R} (held : Holds write blocks table)
    {merged : Table K S} (steps : Relation.ReflTransGen Merge table merged) :
    Holds write blocks merged := by
  induction steps with
  | refl => exact held
  | tail _ step ih => exact ih.merge step

theorem holds_append {write : R → Table K S} {blocks : List R} (held : Holds write blocks table)
    (more : List R) : Holds write (blocks ++ more) (table ++ more.flatMap write) := by
  induction more generalizing blocks table with
  | nil => simpa using held
  | cons block rest ih => simpa using ih held.insert

/-- The states of the rows through a map that keeps sums. -/
def mapStates {T : Type} [AddCommMonoid T] (f : S →+ T) (table : Table K S) : Table K T :=
  table.map fun entry => (entry.1, f entry.2)

theorem total_mapStates {T : Type} [AddCommMonoid T] (f : S →+ T) (table : Table K S) :
    total selected (mapStates f table) = f (total selected table) := by
  simp only [total, mapStates, List.filter_map, List.map_map, map_list_sum, Function.comp_def]

def AllIn (kind : AddSubmonoid S) (table : Table K S) : Prop := ∀ entry ∈ table, entry.2 ∈ kind

theorem AllIn.append {kind : AddSubmonoid S} {first second : Table K S} (left : AllIn kind first)
    (right : AllIn kind second) : AllIn kind (first ++ second) := by
  intro entry member
  exact (List.mem_append.mp member).elim (left entry) (right entry)

theorem AllIn.subset {kind : AddSubmonoid S} {less : Table K S} (all : AllIn kind table)
    (within : less ⊆ table) : AllIn kind less :=
  fun entry member => all entry (within member)

theorem AllIn.group [DecidableEq K] {kind : AddSubmonoid S} (key : R → K) {state : R → S}
    {block : List R} (each : ∀ row, state row ∈ kind) : AllIn kind (group key state block) := by
  intro entry member
  obtain ⟨_, _, rfl⟩ := List.mem_map.mp member
  refine kind.list_sum_mem ?_
  intro made among
  obtain ⟨row, _, rfl⟩ := List.mem_map.mp among
  exact each row

theorem AllIn.merge {kind : AddSubmonoid S} {before after : Table K S} (all : AllIn kind before)
    (step : Merge before after) : AllIn kind after := by
  cases step with
  | @rows rest k s t found merged =>
    have there {entry : K × S} (among : entry ∈ (k, s) :: (k, t) :: rest) : entry.2 ∈ kind :=
      all entry (found.mem_iff.mpr among)
    intro entry member
    cases merged.mem_iff.mp member with
    | head => exact kind.add_mem (@there (k, s) (by simp)) (@there (k, t) (by simp))
    | tail _ among => exact there (.tail _ (.tail _ among))

theorem AllIn.merging {kind : AddSubmonoid S} {merged : Table K S} (all : AllIn kind table)
    (steps : Relation.ReflTransGen Merge table merged) : AllIn kind merged := by
  induction steps with
  | refl => exact all
  | tail _ step ih => exact ih.merge step

theorem AllIn.total_mem {kind : AddSubmonoid S} (all : AllIn kind table) :
    total selected table ∈ kind := by
  refine kind.list_sum_mem ?_
  intro state member
  obtain ⟨entry, among, rfl⟩ := List.mem_map.mp member
  exact all entry (List.mem_of_mem_filter among)

end Foundation.MergingTable
