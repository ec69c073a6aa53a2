import Mathlib.Algebra.BigOperators.Group.List.Lemmas
import Mathlib.Algebra.GroupWithZero.Nat
import Mathlib.Data.List.Sort
import TelemetryEngine.Foundation.MergingTable

/-! `SELECT key, aggregate GROUP BY key ORDER BY key`. The result is determined by which
keys occur and by the aggregate of each key's rows. Over a table of mergeable states it is
the same as over the rows the states were made of. -/
namespace Foundation.Grouping
open MergingTable
variable {R Q K A : Type} [LinearOrder K]

def grouped (key : R → K) (aggregate : List R → A) (rows : List R) : List (K × A) :=
  ((rows.map key).dedup.insertionSort (· ≤ ·)).map fun k =>
    (k, aggregate (rows.filter fun r => key r = k))

variable {key : R → K} {otherKey : Q → K} {aggregate : List R → A} {otherAggregate : List Q → A}
  {rows : List R} {others : List Q}

theorem sorted_dedup_congr {xs ys : List K} (same : ∀ k, k ∈ xs ↔ k ∈ ys) :
    xs.dedup.insertionSort (· ≤ ·) = ys.dedup.insertionSort (· ≤ ·) := by
  have perm : xs.dedup.Perm ys.dedup :=
    (List.perm_ext_iff_of_nodup (List.nodup_dedup _) (List.nodup_dedup _)).mpr
      fun k => by simp only [List.mem_dedup, same]
  refine List.Perm.eq_of_pairwise' (List.pairwise_insertionSort _ _)
    (List.pairwise_insertionSort _ _) ?_
  exact (List.perm_insertionSort _ _).trans (perm.trans (List.perm_insertionSort _ _).symm)

theorem mem_keys {k : K} :
    k ∈ (rows.map key).dedup.insertionSort (· ≤ ·) ↔ k ∈ rows.map key := by
  rw [List.mem_insertionSort, List.mem_dedup]

theorem mem_grouped {k : K} {a : A} : (k, a) ∈ grouped key aggregate rows ↔
    k ∈ rows.map key ∧ aggregate (rows.filter fun r => key r = k) = a := by
  rw [grouped, List.mem_map]
  constructor
  · rintro ⟨found, member, same⟩
    obtain ⟨rfl, rfl⟩ := Prod.mk.inj same
    exact ⟨mem_keys.mp member, rfl⟩
  · rintro ⟨member, rfl⟩
    exact ⟨k, mem_keys.mpr member, rfl⟩

/-- A condition on the key drops whole groups. -/
theorem mem_grouped_filter {shown : K → Bool} {k : K} {a : A} :
    (k, a) ∈ grouped key aggregate (rows.filter fun r => shown (key r)) ↔
      shown k ∧ k ∈ rows.map key ∧ aggregate (rows.filter fun r => key r = k) = a := by
  have occurs : k ∈ (rows.filter fun r => shown (key r)).map key ↔ shown k ∧ k ∈ rows.map key := by
    simp only [List.mem_map, List.mem_filter]
    constructor
    · rintro ⟨r, ⟨member, inView⟩, rfl⟩
      exact ⟨inView, r, member, rfl⟩
    · rintro ⟨inView, r, member, rfl⟩
      exact ⟨r, ⟨member, inView⟩, rfl⟩
  rw [mem_grouped, occurs, and_assoc]
  refine and_congr_right fun inView => and_congr_right fun _ => ?_
  rw [List.filter_filter]
  have same : (fun r => decide (key r = k) && shown (key r)) = fun r => decide (key r = k) := by
    funext r
    by_cases at_ : key r = k
    · simp [at_, inView]
    · simp [at_]
  rw [same]

/-- Two groupings agree where the same keys occur with the same aggregates. -/
theorem grouped_congr (keys : ∀ k, k ∈ rows.map key ↔ k ∈ others.map otherKey)
    (values : ∀ k ∈ rows.map key, aggregate (rows.filter fun r => key r = k) =
      otherAggregate (others.filter fun r => otherKey r = k)) :
    grouped key aggregate rows = grouped otherKey otherAggregate others := by
  rw [grouped, grouped, ← sorted_dedup_congr keys]
  refine List.map_congr_left fun k member => ?_
  rw [values k (mem_keys.mp member)]

theorem grouped_perm (blind : ∀ xs ys : List R, xs.Perm ys → aggregate xs = aggregate ys)
    {shuffled : List R} (perm : rows.Perm shuffled) :
    grouped key aggregate rows = grouped key aggregate shuffled :=
  grouped_congr (fun _ => (perm.map key).mem_iff) fun _ _ => blind _ _ (perm.filter _)

theorem filter_among {p among : R → Bool} (inside : ∀ r ∈ rows, p r = true → among r = true) :
    rows.filter p = (rows.filter among).filter p := by
  rw [List.filter_filter]
  refine List.filter_congr fun r member => ?_
  cases picked : p r with
  | false => rfl
  | true => rw [inside r member picked]; rfl

/-- A group is determined by rows that all its rows are among. -/
theorem mem_grouped_congr (blind : ∀ xs ys : List R, xs.Perm ys → aggregate xs = aggregate ys)
    {among : R → Bool} {more : List R} (same : (rows.filter among).Perm (more.filter among))
    {k : K} (inside : ∀ r, key r = k → among r = true) {a : A} :
    (k, a) ∈ grouped key aggregate rows ↔ (k, a) ∈ grouped key aggregate more := by
  have group (some : List R) := @filter_among R some (fun r => key r = k) among
    fun r _ here => inside r (of_decide_eq_true here)
  have occurs (some : List R) : k ∈ some.map key ↔ (some.filter fun r => key r = k) ≠ [] := by
    simp [List.filter_eq_nil_iff]
  have perm : (rows.filter fun r => key r = k).Perm (more.filter fun r => key r = k) := by
    rw [group rows, group more]
    exact same.filter _
  rw [mem_grouped, mem_grouped, occurs, occurs, blind _ _ perm, ne_eq, ne_eq,
    ← List.length_eq_zero_iff, ← List.length_eq_zero_iff, perm.length_eq]

/-- A grouping of images groups what they are images of. -/
theorem grouped_map (key : R → K) (aggregate : List R → A) (f : Q → R) (others : List Q) :
    grouped key aggregate (others.map f) =
      grouped (fun q => key (f q)) (fun qs => aggregate (qs.map f)) others := by
  refine grouped_congr (fun k => by rw [List.map_map]; rfl) fun k _ => ?_
  rw [List.filter_map]
  rfl

theorem grouped_length : (grouped key aggregate rows).length = (rows.map key).dedup.length := by
  rw [grouped, List.length_map, List.length_insertionSort]

theorem grouped_length_sum (key : R → K) (rows : List R) :
    ((grouped key List.length rows).map Prod.snd).sum = rows.length := by
  have counts (k : K) : (rows.filter fun r => key r = k).length = (rows.map key).count k := by
    rw [List.count_eq_countP, List.countP_map, List.countP_eq_length_filter]
    rfl
  simp only [grouped, List.map_map, Function.comp_def, counts]
  rw [((List.perm_insertionSort _ _).map _).sum_eq, List.sum_map_count_dedup_eq_length,
    List.length_map]

/-- Counting by two cases that exclude each other. -/
theorem countP_cases {p first second : R → Bool} (split : ∀ r ∈ rows, p r = (first r || second r))
    (apart : ∀ r ∈ rows, first r = true → second r = false) :
    rows.countP p = rows.countP first + rows.countP second := by
  induction rows with
  | nil => rfl
  | cons r rest ih =>
    have ih := ih (fun r member => split r (List.mem_cons_of_mem _ member))
      fun r member => apart r (List.mem_cons_of_mem _ member)
    rw [List.countP_cons, List.countP_cons, List.countP_cons, ih, split r List.mem_cons_self]
    cases one : first r with
    | false => simp only [Bool.false_or, Bool.false_eq_true, if_false]; omega
    | true =>
      rw [apart r List.mem_cons_self one]
      simp only [Bool.true_or, if_true, Bool.false_eq_true, if_false]
      omega

/-- Keys come once each, in order, and only those of some row. -/
theorem grouped_keys :
    ((grouped key aggregate rows).map Prod.fst).Pairwise (· < ·) ∧
      ∀ k, k ∈ (grouped key aggregate rows).map Prod.fst ↔ k ∈ rows.map key := by
  have keys : (grouped key aggregate rows).map Prod.fst =
      (rows.map key).dedup.insertionSort (· ≤ ·) := by
    simp [grouped, Function.comp_def]
  rw [keys]
  refine ⟨?_, fun k => mem_keys⟩
  have sorted := List.pairwise_insertionSort (· ≤ ·) (rows.map key).dedup
  have distinct : ((rows.map key).dedup.insertionSort (· ≤ ·)).Nodup :=
    (List.perm_insertionSort _ _).nodup_iff.mpr (List.nodup_dedup _)
  exact (sorted.and distinct).imp fun both => lt_of_le_of_ne both.1 both.2

/-- `ORDER BY size DESC` -/
theorem sorted_desc {A : Type} (size : A → ℕ) (xs : List A) :
    (xs.insertionSort fun a b => size b ≤ size a).Pairwise fun a b => size b ≤ size a := by
  have total : Std.Total fun a b : A => size b ≤ size a := ⟨fun a b => Nat.le_total _ _⟩
  have ordered : IsTrans A fun a b => size b ≤ size a := ⟨fun _ _ _ ab bc => bc.trans ab⟩
  exact List.pairwise_insertionSort _ xs

/-- `LIMIT n`: what is left out stands behind all that is listed. -/
theorem mem_take_or {A : Type} {ordered : A → A → Prop} {xs : List A} (sorted : xs.Pairwise ordered)
    {x : A} (member : x ∈ xs) (n : ℕ) :
    x ∈ xs.take n ∨ (xs.take n).length = n ∧ ∀ y ∈ xs.take n, ordered y x := by
  rw [← List.take_append_drop n xs, List.pairwise_append] at sorted
  rw [← List.take_append_drop n xs, List.mem_append] at member
  rcases member with listed | later
  · exact .inl listed
  · have long := List.length_pos_of_mem later
    rw [List.length_drop] at long
    refine .inr ⟨?_, fun y listed => sorted.2.2 y listed x later⟩
    rw [List.length_take]
    omega

/-! ### Labelled rows -/

section
variable {I L M : Type} [DecidableEq L] [AddCommMonoid M] {items : List I} {label : I → L}

theorem sum_single (distinct : (items.map label).Nodup) {item : I} (member : item ∈ items)
    (value : I → M) (chosen : I → Bool) :
    ((items.filter chosen).map fun i => (if label item = label i then 1 else 0) • value i).sum =
      if chosen item then value item else 0 := by
  classical
  rw [List.sum_map_eq_nsmul_single item, if_pos rfl, one_nsmul]
  · cases picked : chosen item with
    | false =>
      rw [List.count_eq_zero.mpr (by simp [picked]), zero_nsmul]
      rfl
    | true =>
      rw [List.count_filter picked, List.count_eq_one_of_mem distinct.of_map member, one_nsmul,
        if_pos rfl]
  · intro other unlike among
    have apart : label item ≠ label other := fun same =>
      unlike (List.inj_on_of_nodup_map distinct member (List.mem_of_mem_filter among) same).symm
    rw [if_neg apart, zero_nsmul]

/-- Rows that are each worth what the item of their label is add up to the items, each as
often as its label occurs. -/
theorem sum_by_label (distinct : (items.map label).Nodup) {id : R → L} {worth : R → M}
    {value : I → M} {selected : R → Bool} {chosen : I → Bool}
    (known : ∀ r ∈ rows, ∃ i ∈ items,
      id r = label i ∧ selected r = chosen i ∧ worth r = value i) :
    ((rows.filter selected).map worth).sum =
      ((items.filter chosen).map fun i => rows.countP (fun r => id r = label i) • value i).sum := by
  induction rows with
  | nil => simp
  | cons r rest ih =>
    obtain ⟨item, member, same, picked, worth_eq⟩ := known r List.mem_cons_self
    have later := ih fun r member => known r (List.mem_cons_of_mem _ member)
    simp only [List.countP_cons, decide_eq_true_eq, same, add_nsmul, List.sum_map_add]
    rw [← later, sum_single distinct member, List.filter_cons, picked]
    cases chosen item with
    | false => simp
    | true => simp [worth_eq, add_comm]

end

/-! ### Over merging tables -/

section
variable {B L S : Type} [AddCommMonoid S]

def entries (key : B → R → L) (state : B → R → S) (rows : B → List R) (block : B) : Table L S :=
  (rows block).map fun r => (key block r, state block r)

theorem total_entries (key : B → R → L) (state : B → R → S) (rows : B → List R) (block : B)
    (selected : L → Bool) : total selected (entries key state rows block) =
      (((rows block).filter fun r => selected (key block r)).map (state block)).sum := by
  simp only [total, entries, List.filter_map, List.map_map, Function.comp_def]

variable [DecidableEq L] {key : B → R → L} {state : B → R → S} {rows : B → List R}
  {blocks : List B} {table : Table L S}

theorem holds_entries
    (held : Holds (fun block => group (key block) (state block) (rows block)) blocks table)
    (selected : L → Bool) :
    total selected table = total selected (blocks.flatMap (entries key state rows)) := by
  rw [holds_total held]
  clear held
  induction blocks with
  | nil => rfl
  | cons block rest ih =>
    rw [List.map_cons, List.sum_cons, ih, List.flatMap_cons, total_append, total_group,
      total_entries]

theorem holds_entry_keys
    (held : Holds (fun block => group (key block) (state block) (rows block)) blocks table) (k : L) :
    k ∈ table.map Prod.fst ↔ k ∈ (blocks.flatMap (entries key state rows)).map Prod.fst := by
  rw [holds_keys held, List.map_flatMap, List.mem_flatMap]
  simp only [keys_group, entries, List.map_map, Function.comp_def]

/-- A query that filters and groups by the keys and reads the merged states. -/
def panel (selected : L → Bool) (column : L → K) (read : S → A) (table : Table L S) : List (K × A) :=
  grouped (fun entry => column entry.1) (fun group => read (group.map Prod.snd).sum)
    (table.filter fun entry => selected entry.1)

/-- It sees the rows, and neither blocks nor merges. -/
theorem holds_panel
    (held : Holds (fun block => group (key block) (state block) (rows block)) blocks table)
    (selected : L → Bool) (column : L → K) (read : S → A) :
    panel selected column read table =
      panel selected column read (blocks.flatMap (entries key state rows)) := by
  have among (some : Table L S) (k : K) :
      k ∈ (some.filter fun entry => selected entry.1).map (fun entry => column entry.1) ↔
        ∃ l ∈ some.map Prod.fst, selected l = true ∧ column l = k := by
    simp only [List.mem_map, List.mem_filter]
    constructor
    · rintro ⟨entry, ⟨member, met⟩, same⟩
      exact ⟨entry.1, ⟨entry, member, rfl⟩, met, same⟩
    · rintro ⟨_, ⟨entry, member, rfl⟩, met, same⟩
      exact ⟨entry, ⟨member, met⟩, same⟩
  refine grouped_congr (fun k => ?_) fun k _ => ?_
  · rw [among, among]
    simp only [holds_entry_keys held]
  · simp only [List.filter_filter]
    exact congrArg read (holds_entries held fun l => decide (column l = k) && selected l)

end

end Foundation.Grouping
