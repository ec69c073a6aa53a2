import TelemetryEngine.Foundation.Counters

/-! Cumulative counters, differenced. Of the readings some are chosen, and each is shown as
its rise since the chosen one before, zero where it fell. A rise is what was counted in
between, less what a restart threw away. -/
namespace Foundation.Counters
variable {α ι : Type} [AddCommMonoid α]

/-- The event belongs to the first stretch, if one ends. -/
def extend (event : Event α ι) : List (List (Event α ι)) → List (List (Event α ι))
  | [] => []
  | first :: rest => (event :: first) :: rest

/-- The stretches of the timeline that end with a chosen reading. -/
def stretches (chosen : ι → Bool) : List (Event α ι) → List (List (Event α ι))
  | [] => []
  | .add count :: rest => extend (.add count) (stretches chosen rest)
  | .reset :: rest => extend .reset (stretches chosen rest)
  | .read note :: rest =>
    if chosen note then [.read note] :: stretches chosen rest
    else extend (.read note) (stretches chosen rest)

def standings : α → List (List (Event α ι)) → List α
  | _, [] => []
  | now, stretch :: rest => value now stretch :: standings (value now stretch) rest

theorem standings_extend (now : α) (event : Event α ι) (rest : List (List (Event α ι))) :
    standings now (extend event rest) = standings (value now [event]) rest := by
  cases rest with
  | nil => rfl
  | cons first rest => cases event <;> rfl

/-- Of the chosen readings nothing is seen but where the stretches end. -/
theorem readings_chosen (chosen : ι → Bool) (now : α) (events : List (Event α ι)) :
    ((readings now events).filter fun reading => chosen reading.1).map Prod.snd =
      standings now (stretches chosen events) := by
  induction events generalizing now with
  | nil => rfl
  | cons event rest ih =>
    cases event with
    | add count => rw [stretches, standings_extend, readings, ih, value, value]
    | reset => rw [stretches, standings_extend, readings, ih, value, value]
    | read note =>
      rw [readings, stretches, List.filter_cons]
      cases chosen note with
      | true => rw [if_pos rfl, if_pos rfl, List.map_cons, ih, standings, value, value]
      | false => rw [if_neg Bool.false_ne_true, if_neg Bool.false_ne_true, standings_extend, ih,
          value, value]

omit [AddCommMonoid α] in
theorem extend_flatten {event : Event α ι} {spans : List (List (Event α ι))}
    {rest : List (Event α ι)} (within : spans.flatten <+: rest) :
    (extend event spans).flatten <+: event :: rest := by
  cases spans with
  | nil => exact List.nil_prefix
  | cons first more => exact List.cons_prefix_cons.mpr ⟨rfl, within⟩

omit [AddCommMonoid α] in
/-- Events after the last chosen reading are in no stretch, and all others in one. -/
theorem flatten_stretches (chosen : ι → Bool) (events : List (Event α ι)) :
    (stretches chosen events).flatten <+: events := by
  induction events with
  | nil => exact List.nil_prefix
  | cons event rest ih =>
    cases event with
    | add count => exact extend_flatten ih
    | reset => exact extend_flatten ih
    | read note =>
      rw [stretches]
      cases chosen note with
      | true => exact List.cons_prefix_cons.mpr ⟨rfl, ih⟩
      | false => exact extend_flatten ih

/-- To stop early is to read a shorter timeline. -/
theorem readings_stopped {now : α} {events : List (Event α ι)} {taken : List (ι × α)}
    (isPrefix : taken <+: readings now events) :
    ∃ ran, ran <+: events ∧ readings now ran = taken := by
  induction events generalizing now taken with
  | nil => exact ⟨[], List.nil_prefix, (List.prefix_nil.mp isPrefix).symm⟩
  | cons event rest ih =>
    cases event with
    | add count =>
      obtain ⟨ran, within, same⟩ := ih isPrefix
      exact ⟨.add count :: ran, List.cons_prefix_cons.mpr ⟨rfl, within⟩, same⟩
    | reset =>
      obtain ⟨ran, within, same⟩ := ih isPrefix
      exact ⟨.reset :: ran, List.cons_prefix_cons.mpr ⟨rfl, within⟩, same⟩
    | read note =>
      cases taken with
      | nil => exact ⟨[], List.nil_prefix, rfl⟩
      | cons reading taken =>
        obtain ⟨rfl, later⟩ := List.cons_prefix_cons.mp isPrefix
        obtain ⟨ran, within, same⟩ := ih later
        exact ⟨.read note :: ran, List.cons_prefix_cons.mpr ⟨rfl, within⟩, by rw [readings, same]⟩

/-- Each number less the one before, or zero. -/
def differences : ℕ → List ℕ → List ℕ
  | _, [] => []
  | previous, x :: rest => (x - previous) :: differences x rest

def kept (f : α →+ ℕ) : α → List (List (Event α ι)) → List ℕ
  | _, [] => []
  | now, stretch :: rest =>
    (f (added stretch) - ((lost now stretch).map f).sum) :: kept f (value now stretch) rest

theorem differences_standings (f : α →+ ℕ) (now : α) (spans : List (List (Event α ι))) :
    differences (f now) ((standings now spans).map f) = kept f now spans := by
  induction spans generalizing now with
  | nil => rfl
  | cons stretch rest ih =>
    have balance := map_value_add_lost f now stretch
    rw [standings, List.map_cons, differences, ih, kept]
    congr 1
    omega

/-- A difference never shows more than was counted. -/
theorem kept_le (f : α →+ ℕ) (now : α) (spans : List (List (Event α ι))) :
    List.Forall₂ (fun shown stretch => shown ≤ f (added stretch)) (kept f now spans) spans := by
  induction spans generalizing now with
  | nil => exact .nil
  | cons stretch rest ih => exact .cons (Nat.sub_le _ _) (ih _)

theorem lost_append (now : α) (first second : List (Event α ι)) :
    lost now (first ++ second) = lost now first ++ lost (value now first) second := by
  induction first generalizing now with
  | nil => rfl
  | cons event rest ih =>
    cases event with
    | add count => rw [List.cons_append, lost, lost, value, ih]
    | reset => rw [List.cons_append, lost, lost, value, ih, List.cons_append]
    | read note => rw [List.cons_append, lost, lost, value, ih]

/-- It shows all of it unless a restart threw some away. -/
theorem kept_eq_added (f : α →+ ℕ) {now : α} {spans : List (List (Event α ι))}
    (harmless : ∀ gone ∈ lost now spans.flatten, f gone = 0) :
    kept f now spans = spans.map fun stretch => f (added stretch) := by
  induction spans generalizing now with
  | nil => rfl
  | cons stretch rest ih =>
    rw [List.flatten_cons, lost_append, List.forall_mem_append] at harmless
    obtain ⟨here, later⟩ := harmless
    have nothing : ((lost now stretch).map f).sum = 0 := by
      rw [List.sum_eq_zero_iff]
      exact List.forall_mem_map.mpr here
    rw [kept, ih later, nothing, Nat.sub_zero, List.map_cons]

end Foundation.Counters
