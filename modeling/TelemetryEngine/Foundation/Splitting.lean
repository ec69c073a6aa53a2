import Mathlib.Data.List.Infix

/-! Lists cut at the elements a predicate selects: what a piece is made of, where it
stands, and which parts of the list are sure to lie in one piece. -/
namespace Foundation.Splitting
variable {A B : Type} {p q : A → Bool} {xs piece run : List A}

theorem exists_pieces (p : A → Bool) (xs : List A) :
    ∃ first others, xs.splitOnP p = first :: others :=
  List.exists_cons_of_ne_nil (List.splitOnP_ne_nil p xs)

theorem splitOnP_cut {x : A} (cut : p x = true) : (x :: xs).splitOnP p = [] :: xs.splitOnP p := by
  rw [List.splitOnP_cons_eq_if_modifyHead, if_pos cut]

theorem splitOnP_keep {x : A} {first : List A} {others : List (List A)} (keep : p x = false)
    (found : xs.splitOnP p = first :: others) :
    (x :: xs).splitOnP p = (x :: first) :: others := by
  rw [List.splitOnP_cons_eq_if_modifyHead, if_neg (by simp [keep]), found, List.modifyHead_cons]

/-- Induction along the cuts. -/
theorem cut_induction (p : A → Bool) {motive : List A → Prop}
    (whole : ∀ xs, (∀ x ∈ xs, p x = false) → motive xs)
    (cut : ∀ first cut later, (∀ x ∈ first, p x = false) → p cut = true → motive later →
      motive (first ++ cut :: later)) (xs : List A) : motive xs := by
  -- the piece that is being read
  suffices general : ∀ first, (∀ x ∈ first, p x = false) → motive (first ++ xs) from general [] (by simp)
  induction xs with
  | nil =>
    intro first uncut
    rw [List.append_nil]
    exact whole first uncut
  | cons x rest ih =>
    intro first uncut
    cases here : p x with
    | true => exact cut first x rest uncut here (ih [] (by simp))
    | false =>
      have longer := ih (first ++ [x]) (List.forall_mem_append.mpr ⟨uncut, by simpa using here⟩)
      rwa [List.append_assoc] at longer

theorem splitOnP_map (f : A → B) (p : B → Bool) (xs : List A) :
    (xs.map f).splitOnP p = (xs.splitOnP (p ∘ f)).map (List.map f) := by
  induction xs with
  | nil => rfl
  | cons x rest ih =>
    obtain ⟨first, others, found⟩ := exists_pieces (p ∘ f) rest
    rw [found, List.map_cons] at ih
    cases here : p (f x) with
    | true =>
      have cut : (p ∘ f) x = true := here
      rw [List.map_cons, splitOnP_cut here, splitOnP_cut cut, ih, found]
      rfl
    | false =>
      have keep : (p ∘ f) x = false := here
      rw [List.map_cons, splitOnP_keep here ih, splitOnP_keep keep found]
      rfl

theorem splitOnP_finer (finer : ∀ x, p x = true → q x = true) (xs : List A) :
    xs.splitOnP q = (xs.splitOnP p).flatMap (List.splitOnP q) := by
  induction xs using cut_induction p with
  | whole xs uncut => rw [List.splitOnP_eq_singleton uncut, List.flatMap_singleton]
  | cut first cut later uncut here ih =>
    rw [List.splitOnP_append_cons_of_forall_mem uncut cut here, List.flatMap_cons, ← ih,
      List.splitOnP_append_cons _ _ (finer cut here)]

theorem splitOnP_filter (keeps : ∀ x, p x = true → q x = true) (xs : List A) :
    (xs.filter q).splitOnP p = (xs.splitOnP p).map (List.filter q) := by
  induction xs using cut_induction p with
  | whole xs uncut =>
    rw [List.splitOnP_eq_singleton uncut, List.splitOnP_eq_singleton]
    · rfl
    · exact fun x member => uncut x (List.mem_of_mem_filter member)
  | cut first cut later uncut here ih =>
    rw [List.splitOnP_append_cons_of_forall_mem uncut cut here, List.filter_append,
      List.filter_cons_of_pos (keeps cut here), List.splitOnP_append_cons_of_forall_mem _ cut here, ih]
    · rfl
    · exact fun x member => uncut x (List.mem_of_mem_filter member)

theorem uncut_of_mem (member : piece ∈ xs.splitOnP p) : ∀ x ∈ piece, p x = false := by
  induction xs using cut_induction p with
  | whole xs uncut =>
    rw [List.splitOnP_eq_singleton uncut, List.mem_singleton] at member
    rwa [member]
  | cut first cut later uncut here ih =>
    rw [List.splitOnP_append_cons_of_forall_mem uncut cut here] at member
    cases member with
    | head => exact uncut
    | tail _ among => exact ih among

theorem forall_pieces {good : A → Prop} :
    (∀ piece ∈ xs.splitOnP p, ∀ x ∈ piece, good x) ↔ ∀ x ∈ xs, p x = true ∨ good x := by
  induction xs using cut_induction p with
  | whole xs uncut =>
    rw [List.splitOnP_eq_singleton uncut]
    simp +contextual [uncut]
  | cut first cut later uncut here ih =>
    rw [List.splitOnP_append_cons_of_forall_mem uncut cut here, List.forall_mem_cons, ih]
    simp +contextual [or_imp, forall_and, uncut, here]

/-- A piece stands between two cuts, or at an end. -/
theorem stands_of_mem (member : piece ∈ xs.splitOnP p) : ∃ before after, xs = before ++ piece ++ after ∧
    (before = [] ∨ ∃ earlier cut, p cut = true ∧ before = earlier ++ [cut]) ∧
    (after = [] ∨ ∃ cut later, p cut = true ∧ after = cut :: later) := by
  induction xs using cut_induction p with
  | whole xs uncut =>
    rw [List.splitOnP_eq_singleton uncut, List.mem_singleton] at member
    exact ⟨[], [], by simp [member], .inl rfl, .inl rfl⟩
  | cut first cut later uncut here ih =>
    rw [List.splitOnP_append_cons_of_forall_mem uncut cut here] at member
    cases member with
    | head => exact ⟨[], cut :: later, rfl, .inl rfl, .inr ⟨cut, later, here, rfl⟩⟩
    | tail _ among =>
      obtain ⟨before, after, rfl, starts, ends⟩ := ih among
      refine ⟨first ++ cut :: before, after, by simp, .inr ?_, ends⟩
      obtain rfl | ⟨earlier, last, cuts, rfl⟩ := starts
      · exact ⟨first, cut, here, rfl⟩
      · exact ⟨first ++ cut :: earlier, last, cuts, by simp⟩

theorem infix_of_mem (member : piece ∈ xs.splitOnP p) : piece <:+: xs := by
  obtain ⟨before, after, rfl, _, _⟩ := stands_of_mem member
  exact ⟨before, after, rfl⟩

theorem prefix_piece (uncut : ∀ x ∈ run, p x = false) (starts : run <+: xs) :
    ∃ first others, xs.splitOnP p = first :: others ∧ run <+: first := by
  induction run generalizing xs with
  | nil =>
    obtain ⟨first, others, found⟩ := exists_pieces p xs
    exact ⟨first, others, found, List.nil_prefix⟩
  | cons x rest ih =>
    obtain ⟨after, rfl⟩ := starts
    obtain ⟨first, others, found, within⟩ :=
      ih (fun y member => uncut y (List.mem_cons_of_mem x member)) (List.prefix_append rest after)
    exact ⟨x :: first, others, splitOnP_keep (uncut x List.mem_cons_self) found,
      List.cons_prefix_cons.mpr ⟨rfl, within⟩⟩

/-- What no cut goes through lies in one piece. -/
theorem run_in_piece (uncut : ∀ x ∈ run, p x = false) (within : run <:+: xs) :
    ∃ piece ∈ xs.splitOnP p, run <:+: piece := by
  induction xs with
  | nil => exact ⟨[], List.mem_singleton_self _, within⟩
  | cons x rest ih =>
    cases List.infix_cons_iff.mp within with
    | inl starts =>
      obtain ⟨first, others, found, inside⟩ := prefix_piece uncut starts
      exact ⟨first, found ▸ List.mem_cons_self, inside.isInfix⟩
    | inr later =>
      obtain ⟨piece, member, inside⟩ := ih later
      cases here : p x with
      | true => exact ⟨piece, splitOnP_cut here ▸ List.mem_cons_of_mem _ member, inside⟩
      | false =>
        obtain ⟨first, others, found⟩ := exists_pieces p rest
        rw [found] at member
        rw [splitOnP_keep here found]
        cases member with
        | head => exact ⟨x :: piece, List.mem_cons_self, inside.trans (List.suffix_cons x piece).isInfix⟩
        | tail _ among => exact ⟨piece, List.mem_cons_of_mem _ among, inside⟩

theorem last_in_piece {x : A} (keep : p x = false) (xs : List A) :
    ∃ front, front ++ [x] ∈ (xs ++ [x]).splitOnP p := by
  induction xs using cut_induction p with
  | whole xs uncut =>
    rw [List.splitOnP_eq_singleton]
    · exact ⟨xs, List.mem_singleton_self _⟩
    · exact List.forall_mem_append.mpr ⟨uncut, by simpa using keep⟩
  | cut first cut later uncut here ih =>
    obtain ⟨front, member⟩ := ih
    refine ⟨front, ?_⟩
    rw [List.append_assoc, List.cons_append, List.splitOnP_append_cons_of_forall_mem uncut cut here]
    exact List.mem_cons_of_mem _ member

end Foundation.Splitting
