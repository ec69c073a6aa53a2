import Mathlib.Data.List.DropRight

/-! Python's `splitlines` and `rsplit`. Many more characters end a line than the line feed. -/
namespace Foundation.TextLines

def isLineBreak (c : Char) : Bool :=
  10 ≤ c.toNat && c.toNat ≤ 13 || 0x1C ≤ c.toNat && c.toNat ≤ 0x1E || c.toNat = 0x85 ||
    c.toNat = 0x2028 || c.toNat = 0x2029

/-- The lines of a text, of which the first continues `line`. A carriage return before a
line feed is one break with it. -/
def linesFrom (line : List Char) : List Char → List (List Char)
  | [] => if line = [] then [] else [line]
  | c :: rest =>
    if c = '\r' ∧ rest.head? = some '\n' then linesFrom line rest
    else if isLineBreak c then line :: linesFrom [] rest
    else linesFrom (line ++ [c]) rest

/-- `str.splitlines` -/
def splitLines (text : List Char) : List (List Char) := linesFrom [] text

/-- The last piece of `text.rsplit(sep, 1)` where there are two. -/
def afterLast (sep : Char) (text : List Char) : Option (List Char) :=
  if sep ∈ text then some (text.rtakeWhile (· ≠ sep)) else none

theorem linesFrom_unbroken {text : List Char} (line : List Char)
    (unbroken : ∀ c ∈ text, isLineBreak c = false) :
    linesFrom line (text ++ ['\n']) = [line ++ text] := by
  induction text generalizing line with
  | nil => simp [linesFrom, isLineBreak]
  | cons c rest ih =>
    have here : isLineBreak c = false := unbroken c (by simp)
    have noReturn : ¬ (c = '\r' ∧ (rest ++ ['\n']).head? = some '\n') := by
      rintro ⟨rfl, _⟩
      contradiction
    rw [List.cons_append, linesFrom, if_neg noReturn, here, if_neg Bool.false_ne_true,
      ih _ fun d member => unbroken d (by simp [member]), List.append_assoc, List.singleton_append]

theorem splitLines_unbroken {text : List Char} (unbroken : ∀ c ∈ text, isLineBreak c = false) :
    splitLines (text ++ ['\n']) = [text] :=
  linesFrom_unbroken [] unbroken

theorem linesFrom_append (line front back : List Char) :
    linesFrom line (front ++ '\n' :: back) = linesFrom line (front ++ ['\n']) ++ splitLines back := by
  induction front generalizing line with
  | nil => simp [linesFrom, isLineBreak, splitLines]
  | cons c rest ih =>
    have head : (rest ++ '\n' :: back).head? = (rest ++ ['\n']).head? := by
      cases rest <;> rfl
    simp only [List.cons_append, linesFrom, head]
    split_ifs
    · exact ih line
    · rw [ih, List.cons_append]
    · exact ih _

/-- A line feed ends whatever came before it. -/
theorem splitLines_append (front back : List Char) :
    splitLines (front ++ '\n' :: back) = splitLines (front ++ ['\n']) ++ splitLines back :=
  linesFrom_append [] front back

theorem afterLast_of_not_mem {sep : Char} {text : List Char} (absent : sep ∉ text) :
    afterLast sep text = none :=
  if_neg absent

theorem afterLast_append {sep : Char} (front : List Char) {back : List Char} (absent : sep ∉ back) :
    afterLast sep (front ++ sep :: back) = some back := by
  have other : ∀ c ∈ back.reverse, decide (c ≠ sep) = true := by
    intro c member
    have different : c ≠ sep := fun same => absent (by simpa [same] using member)
    simpa using different
  rw [afterLast, if_pos (by simp), List.rtakeWhile, List.reverse_append, List.reverse_cons,
    List.append_assoc, List.takeWhile_append_of_pos other, List.singleton_append,
    List.takeWhile_cons_of_neg (by simp), List.append_nil, List.reverse_reverse]

theorem exists_last {sep : Char} {text : List Char} (member : sep ∈ text) :
    ∃ front back, text = front ++ sep :: back ∧ sep ∉ back := by
  obtain ⟨back, front, same, absent⟩ := List.eq_append_cons_of_mem (List.mem_reverse.mpr member)
  refine ⟨front.reverse, back.reverse, ?_, by simpa using absent⟩
  rw [← List.reverse_reverse text, same]
  simp

end Foundation.TextLines
