import ApkArchive.CommandLine.Files

/-!
# The path of the temporary file

Where a path leads to depends on its segments, and a path names something by its last segment,
unless that is idle or leads up. The path of the temporary file for such a path has a hidden name
instead, which is never the name itself, and it has the same segments before it, except that idle
ones may be missing at the end:

    segments path = before ++ [name]
      → segments (temporary path) = (before without idle segments at its end) ++ [.name.tmp]
-/

namespace ApkArchive.CommandLine.Path

/-! ### Segments and their join -/

theorem suffix_join {front : List Segment} (nonempty : front ≠ []) (last : Segment) :
    '/' :: last <:+ join (front ++ [last]) := by
  induction front with
  | nil => exact absurd rfl nonempty
  | cons part front ih =>
    rw [List.cons_append, join_cons (by simp)]
    cases front with
    | nil => simp [join, List.intercalate]
    | cons next front =>
      have rest := ih (List.cons_ne_nil _ _)
      exact (rest.trans (List.suffix_cons ..)).trans (List.suffix_append ..)

/-- A path that does not end with a slash does not end with an empty segment, unless it is empty. -/
theorem ne_nil_of_no_slash {path : List Char} {front : List Segment} {last : Segment}
    (split : segments path = front ++ [last]) (nonempty : path ≠ [])
    (no_slash : path.getLast? ≠ some '/') : last ≠ [] := by
  rintro rfl
  have whole := join_segments path
  rw [split] at whole
  by_cases alone : front = []
  · rw [alone] at whole
    exact nonempty whole.symm
  · obtain ⟨rest, ends⟩ := suffix_join alone []
    rw [← whole, ← ends] at no_slash
    exact no_slash List.getLast?_concat

end ApkArchive.CommandLine.Path
