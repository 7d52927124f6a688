/-!
# Counting

A search ends because something is left to find, and less of it after each step. What is left is
counted as the items of a list with a property; `countP_lt` is the step of all such arguments.
-/

namespace Thesaurus

/-- If every counted item was counted before and some item no longer is, the count is smaller. -/
theorem countP_lt {α : Type} {before after : α → Bool} {list : List α} {item : α}
    (kept : ∀ x ∈ list, after x = true → before x = true) (mem : item ∈ list)
    (counted : before item = true) (dropped : after item = false) :
    list.countP after < list.countP before := by
  induction list with
  | nil => cases mem
  | cons first rest ih =>
    have tail := fun x inside => kept x (List.mem_cons_of_mem _ inside)
    have le : rest.countP after ≤ rest.countP before := List.countP_mono_left tail
    simp only [List.countP_cons]
    rcases List.mem_cons.mp mem with rfl | mem
    · simp only [counted, dropped, if_true, Bool.false_eq_true, if_false]
      omega
    · have lt := ih tail mem
      have head := kept first List.mem_cons_self
      have one : (if after first = true then 1 else 0)
          ≤ (if before first = true then 1 else 0) := by
        split
        · rename_i h
          exact Nat.le_of_eq (if_pos (head h)).symm
        · exact Nat.zero_le _
      omega

end Thesaurus
