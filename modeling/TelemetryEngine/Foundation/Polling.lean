import Mathlib.Algebra.BigOperators.Group.List.Basic
import Mathlib.Algebra.Order.Monoid.Defs

/-! A loop that polls. Each poll takes its own time, some of them yield something, and
what was yielded is kept in order. Two neighbours of what was kept are as far apart as
the polls from the one to the other took, and soon after any instant there is a poll. -/
namespace Foundation.Polling
variable {α β τ : Type}

/-- Of the polls, `first` and `next` yielded something, and those between them nothing. -/
def Follows (yields : α → Option β) (polls : List α) (first : α) (idle : List α) (next : α) : Prop :=
  (∃ front back, polls = front ++ first :: (idle ++ next :: back)) ∧
    (yields first).isSome ∧ (yields next).isSome ∧ ∀ poll ∈ idle, yields poll = none

section
variable {yields : α → Option β} {poll first next : α} {polls idle : List α}

theorem Follows.cons (follows : Follows yields polls first idle next) :
    Follows yields (poll :: polls) first idle next := by
  obtain ⟨⟨front, back, rfl⟩, rest⟩ := follows
  exact ⟨⟨poll :: front, back, rfl⟩, rest⟩

/-- The first of the two is the head, or they follow each other further on. -/
theorem Follows.uncons (follows : Follows yields (poll :: polls) first idle next) :
    (first = poll ∧ ∃ back, polls = idle ++ next :: back) ∨
      Follows yields polls first idle next := by
  obtain ⟨⟨front, back, split⟩, rest⟩ := follows
  cases front with
  | nil =>
    obtain ⟨same, onward⟩ := List.cons.inj split
    exact .inl ⟨same.symm, back, onward⟩
  | cons _ front =>
    obtain ⟨_, onward⟩ := List.cons.inj split
    exact .inr ⟨⟨front, back, onward⟩, rest⟩

theorem filterMap_head {idle back : List α} (none : ∀ poll ∈ idle, yields poll = none)
    (some : yields next = some b) :
    (idle ++ next :: back).filterMap yields = b :: back.filterMap yields := by
  rw [List.filterMap_append, List.filterMap_eq_nil_iff.mpr none, List.filterMap_cons_some some,
    List.nil_append]

theorem neighbours_iff {a b : β} :
    (a, b) ∈ (polls.filterMap yields).zip (polls.filterMap yields).tail ↔
      ∃ first idle next, Follows yields polls first idle next ∧
        yields first = some a ∧ yields next = some b := by
  induction polls with
  | nil => simp [Follows]
  | cons poll polls ih =>
    cases yielded : yields poll with
    | none =>
      rw [List.filterMap_cons_none yielded, ih]
      constructor
      · rintro ⟨first, idle, next, follows, ends⟩
        exact ⟨first, idle, next, follows.cons, ends⟩
      · rintro ⟨first, idle, next, follows, here, there⟩
        rcases follows.uncons with ⟨rfl, _⟩ | later
        · simp [yielded] at here
        · exact ⟨first, idle, next, later, here, there⟩
    | some c =>
      rw [List.filterMap_cons_some yielded, List.tail_cons]
      constructor
      · intro member
        cases kept : polls.filterMap yields with
        | nil => simp [kept] at member
        | cons d rest =>
          rw [kept, List.zip_cons_cons, List.mem_cons] at member
          rcases member with same | later
          · obtain ⟨rfl, rfl⟩ := Prod.mk.inj same
            obtain ⟨idle, next, back, split, none, some, _⟩ := List.filterMap_eq_cons_iff.mp kept
            exact ⟨poll, idle, next, ⟨⟨[], back, by simp [split]⟩, by simp [yielded], by simp [some],
              none⟩, yielded, some⟩
          · obtain ⟨first, idle, next, follows, ends⟩ := ih.mp (by rwa [kept])
            exact ⟨first, idle, next, follows.cons, ends⟩
      · rintro ⟨first, idle, next, follows, here, there⟩
        have none := follows.2.2.2
        rcases follows.uncons with ⟨rfl, back, rfl⟩ | later
        · rw [filterMap_head none there, List.zip_cons_cons]
          obtain rfl : c = a := Option.some.inj (yielded.symm.trans here)
          exact List.mem_cons_self
        · have member := ih.mpr ⟨first, idle, next, later, here, there⟩
          cases kept : polls.filterMap yields with
          | nil => simp [kept] at member
          | cons d rest =>
            rw [kept] at member
            exact List.mem_cons_of_mem _ member

end

theorem find_le [Preorder τ] {at_ : β → τ} {xs : List β} {p : β → Bool} {found x : β}
    (sorted : xs.Pairwise fun a b => at_ a ≤ at_ b) (finds : xs.find? p = some found)
    (member : x ∈ xs) (holds : p x = true) : at_ found ≤ at_ x := by
  obtain ⟨-, front, back, rfl, before⟩ := List.find?_eq_some_iff_append.mp finds
  rcases List.mem_append.mp member with early | later
  · have fails := before x early
    simp [holds] at fails
  · rcases List.mem_cons.mp later with rfl | later
    · exact le_rfl
    · exact (List.pairwise_cons.mp (List.pairwise_append.mp sorted).2.1).1 x later

variable [AddCommMonoid τ]

/-- The polls, each with the time it begins at. -/
def begun (takes : α → τ) : τ → List α → List (τ × α)
  | _, [] => []
  | t, poll :: rest => (t, poll) :: begun takes (t + takes poll) rest

theorem begun_made {takes : α → τ} {t : τ} {polls : List α} {poll : τ × α}
    (member : poll ∈ begun takes t polls) : poll.2 ∈ polls := by
  induction polls generalizing t with
  | nil => simp [begun] at member
  | cons first polls ih =>
    rcases List.mem_cons.mp member with rfl | later
    · exact List.mem_cons_self
    · exact List.mem_cons_of_mem first (ih later)

theorem begun_append (takes : α → τ) (t : τ) (polls later : List α) :
    begun takes t (polls ++ later) =
      begun takes t polls ++ begun takes (t + (polls.map takes).sum) later := by
  induction polls generalizing t with
  | nil => simp [begun]
  | cons poll rest ih => simp [begun, ih, add_assoc]

theorem length_begun (takes : α → τ) (t : τ) (polls : List α) :
    (begun takes t polls).length = polls.length := by
  induction polls generalizing t with
  | nil => rfl
  | cons poll rest ih => rw [begun, List.length_cons, ih, List.length_cons]

/-- Between two polls there are as many others as there are, at most. -/
theorem Follows.length_le {yields : α → Option β} {first next : α} {polls idle : List α}
    (follows : Follows yields polls first idle next) : idle.length + 2 ≤ polls.length := by
  obtain ⟨⟨front, back, rfl⟩, -⟩ := follows
  simp only [List.length_append, List.length_cons]
  omega

theorem Follows.idle_le {yields : α → Option β} {first next : α} {polls idle : List α}
    (follows : Follows yields polls first idle next) :
    idle.length ≤ polls.countP fun poll => (yields poll).isNone := by
  obtain ⟨⟨front, back, rfl⟩, _, _, none⟩ := follows
  have all : idle.countP (fun poll => (yields poll).isNone) = idle.length :=
    List.countP_eq_length.mpr fun poll member => by simp [none poll member]
  rw [List.countP_append, List.countP_cons, List.countP_append, all]
  omega

/-- A poll begins when those before it have taken their time. -/
theorem begun_at {takes : α → τ} {t : τ} {polls : List α} {front back : List (τ × α)} {next : τ × α}
    (split : begun takes t polls = front ++ next :: back) :
    next.1 = t + (front.map fun poll => takes poll.2).sum ∧
      ∃ rest, back = begun takes (next.1 + takes next.2) rest := by
  induction front generalizing t polls with
  | nil =>
    cases polls with
    | nil => simp [begun] at split
    | cons poll polls =>
      rw [begun, List.nil_append, List.cons.injEq] at split
      obtain ⟨rfl, rfl⟩ := split
      exact ⟨by simp, polls, rfl⟩
  | cons _ front ih =>
    cases polls with
    | nil => simp [begun] at split
    | cons poll polls =>
      rw [begun, List.cons_append, List.cons.injEq] at split
      obtain ⟨rfl, split⟩ := split
      obtain ⟨start, onward⟩ := ih split
      refine ⟨?_, onward⟩
      rw [start, List.map_cons, List.sum_cons, add_assoc]

theorem begun_apart {takes : α → τ} {t : τ} {polls : List α} {front idle back : List (τ × α)}
    {first next : τ × α} (split : begun takes t polls = front ++ first :: (idle ++ next :: back)) :
    next.1 = first.1 + ((first :: idle).map fun poll => takes poll.2).sum := by
  obtain ⟨_, rest, onward⟩ := begun_at split
  rw [(begun_at onward.symm).1, List.map_cons, List.sum_cons, add_assoc]

/-! ### In order -/

theorem begun_sorted [PartialOrder τ] [IsOrderedAddMonoid τ] {takes : α → τ}
    (nonneg : ∀ poll, 0 ≤ takes poll) (t : τ) (polls : List α) :
    (begun takes t polls).Pairwise (fun first next => first.1 ≤ next.1) ∧
      ∀ poll ∈ begun takes t polls, t ≤ poll.1 := by
  induction polls generalizing t with
  | nil => exact ⟨.nil, by simp [begun]⟩
  | cons poll rest ih =>
    obtain ⟨sorted, above⟩ := ih (t + takes poll)
    have later : ∀ next ∈ begun takes (t + takes poll) rest, t ≤ next.1 := fun next member =>
      (le_add_of_nonneg_right (nonneg poll)).trans (above next member)
    exact ⟨.cons later sorted, List.forall_mem_cons.mpr ⟨le_rfl, later⟩⟩

/-- Of polls that are close together, from an instant's past into its future, one comes soon
after the instant. -/
theorem exists_soon [LinearOrder τ] [IsOrderedAddMonoid τ] {at_ : β → τ} {gap instant : τ}
    (nonneg : 0 ≤ gap) {first : β} {rest : List β}
    (close : ∀ pair ∈ (first :: rest).zip rest, at_ pair.2 ≤ at_ pair.1 + gap)
    (begins : at_ first ≤ instant) {last : β} (member : last ∈ first :: rest)
    (ends : instant ≤ at_ last) :
    ∃ x ∈ first :: rest, instant ≤ at_ x ∧ at_ x ≤ instant + gap := by
  induction rest generalizing first with
  | nil =>
    obtain rfl := List.mem_singleton.mp member
    exact ⟨last, member, ends, begins.trans (le_add_of_nonneg_right nonneg)⟩
  | cons second rest ih =>
    rw [List.zip_cons_cons, List.forall_mem_cons] at close
    rcases le_or_gt (at_ second) instant with early | late
    · have among : last ∈ second :: rest ∨ at_ last ≤ instant := by
        rcases List.mem_cons.mp member with rfl | later
        · exact .inr begins
        · exact .inl later
      rcases among with later | passed
      · obtain ⟨x, inside, soon⟩ := ih close.2 early later
        exact ⟨x, .tail _ inside, soon⟩
      · exact ⟨last, member, ends, passed.trans (le_add_of_nonneg_right nonneg)⟩
    · exact ⟨second, .tail _ (.head _), late.le, close.1.trans (add_le_add_left begins gap)⟩

end Foundation.Polling
