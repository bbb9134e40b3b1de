import Mathlib.Data.List.DropRight

/-!
# File paths

`clean`, `join` and `base` of slash-separated paths, over any alphabet with a separator and
a dot. Cleaning goes through the elements of a path from left to right: empty ones and `.`
are dropped, and `..` takes the element before it away if there is one that is not itself
`..`; at the root it is dropped, otherwise it stays.

A name without separators that is not `.` or `..` is never touched by that, so it comes
back as the last element of a path it was joined to (`base_join`).
-/
namespace SlashPath

variable {α : Type}

/-- What can stand in front of an element of a path: nothing, or something that ends with
the separator. -/
def Lead (sep : α) (front : List α) : Prop := front = [] ∨ ∃ q, front = q ++ [sep]

/-- Joined with separators, the last element stands behind a lead. -/
theorem intercalate_concat (sep : α) (front : List (List α)) (name : List α) :
    ∃ lead, Lead sep lead ∧ [sep].intercalate (front ++ [name]) = lead ++ name := by
  induction front with
  | nil => exact ⟨[], Or.inl rfl, by simp [List.intercalate]⟩
  | cons c front ih =>
    obtain ⟨lead, is, rest⟩ := ih
    refine ⟨c ++ [sep] ++ lead, Or.inr ?_, ?_⟩
    · rcases is with rfl | ⟨q, rfl⟩
      · exact ⟨c, by simp⟩
      · exact ⟨c ++ [sep] ++ q, by simp⟩
    · rw [List.cons_append, List.intercalate_cons_of_ne_nil (by simp), rest]
      simp

variable [DecidableEq α] (sep dot : α)

/-- One more element behind those already clean. -/
def push (rooted : Bool) (out : List (List α)) (element : List α) : List (List α) :=
  if element = [] ∨ element = [dot] then out
  else if element = [dot, dot] then
    if out = [] ∨ out.getLast? = some [dot, dot] then
      if rooted then out else out ++ [element]
    else out.dropLast
  else out ++ [element]

/-- The elements that are left, with separators between them. -/
def cleanBody (rooted : Bool) (path : List α) : List α :=
  [sep].intercalate ((path.splitOn sep).foldl (push dot rooted) [])

def clean (path : List α) : List α :=
  if path = [] then [dot]
  else if path.head? = some sep then sep :: cleanBody sep dot true path
  else if cleanBody sep dot false path = [] then [dot]
  else cleanBody sep dot false path

/-- Two elements; empty ones in front are ignored. -/
def join (dir name : List α) : List α :=
  if dir ≠ [] then clean sep dot (dir ++ sep :: name)
  else if name ≠ [] then clean sep dot name
  else []

/-- The last element, without the separators behind it. -/
def base (path : List α) : List α :=
  if path = [] then [dot]
  else
    let path := path.rdropWhile fun c => decide (c = sep)
    if path = [] then [sep] else path.rtakeWhile fun c => decide (c ≠ sep)

/-- An element that stands for a file: it is kept as it is. -/
structure Plain (name : List α) : Prop where
  nonempty : name ≠ []
  notDot : name ≠ [dot]
  notDotDot : name ≠ [dot, dot]
  noSep : sep ∉ name

variable {sep dot}

theorem push_plain (rooted : Bool) (out : List (List α)) (name : List α)
    (plain : Plain sep dot name) : push dot rooted out name = out ++ [name] := by
  rw [push, if_neg (by simp [plain.nonempty, plain.notDot]), if_neg plain.notDotDot]

theorem cleanBody_concat (rooted : Bool) (dir name : List α) (plain : Plain sep dot name) :
    ∃ lead, Lead sep lead ∧ cleanBody sep dot rooted (dir ++ sep :: name) = lead ++ name := by
  have elements : (dir ++ sep :: name).splitOn sep = dir.splitOn sep ++ [name] := by
    rw [List.splitOn_append_cons_self, List.splitOn_eq_singleton plain.noSep]
  rw [cleanBody, elements, List.foldl_append, List.foldl_cons, List.foldl_nil,
    push_plain rooted _ name plain]
  exact intercalate_concat sep _ name

theorem clean_plain (name : List α) (plain : Plain sep dot name) : clean sep dot name = name := by
  have body : cleanBody sep dot false name = name := by
    rw [cleanBody, List.splitOn_eq_singleton plain.noSep, List.foldl_cons, List.foldl_nil,
      push_plain false _ name plain]
    simp [List.intercalate]
  have notRooted : name.head? ≠ some sep := fun first => plain.noSep (List.mem_of_head? first)
  rw [clean, if_neg plain.nonempty, if_neg notRooted, body, if_neg plain.nonempty]

/-- A path joined from a directory and a name: the name stands behind a lead. -/
theorem join_concat (dir name : List α) (plain : Plain sep dot name) :
    ∃ lead, Lead sep lead ∧ join sep dot dir name = lead ++ name := by
  by_cases empty : dir = []
  · refine ⟨[], Or.inl rfl, ?_⟩
    rw [join, if_neg (not_not.mpr empty), if_pos plain.nonempty, clean_plain name plain,
      List.nil_append]
  rw [join, if_pos empty, clean, if_neg (by simp)]
  by_cases rooted : (dir ++ sep :: name).head? = some sep
  · obtain ⟨lead, is, body⟩ := cleanBody_concat true dir name plain
    rw [if_pos rooted, body]
    refine ⟨sep :: lead, Or.inr ?_, rfl⟩
    rcases is with rfl | ⟨q, rfl⟩
    · exact ⟨[], rfl⟩
    · exact ⟨sep :: q, rfl⟩
  · obtain ⟨lead, is, body⟩ := cleanBody_concat false dir name plain
    rw [if_neg rooted, body, if_neg (by simp [plain.nonempty])]
    exact ⟨lead, is, rfl⟩

/-- The last element of what ends with a name behind a lead. -/
theorem base_lead (lead name : List α) (is : Lead sep lead) (some_ : name ≠ [])
    (noSep : sep ∉ name) : base sep dot (lead ++ name) = name := by
  have tail : (lead ++ name).rdropWhile (fun c => decide (c = sep)) = lead ++ name := by
    rw [List.rdropWhile_eq_self_iff]
    intro nonempty
    rw [List.getLast_append_of_ne_nil nonempty some_]
    simpa using fun same : name.getLast some_ = sep => noSep (same ▸ List.getLast_mem some_)
  have element : (lead ++ name).rtakeWhile (fun c => decide (c ≠ sep)) = name := by
    have inside : ∀ c ∈ name.reverse, decide (c ≠ sep) = true := by
      intro c member
      simpa using fun same : c = sep => noSep (same ▸ List.mem_reverse.mp member)
    rw [List.rtakeWhile, List.reverse_append, List.takeWhile_append_of_pos inside]
    rcases is with rfl | ⟨q, rfl⟩
    · simp
    · simp
  rw [base, if_neg (by simp [some_])]
  dsimp only
  rw [tail, if_neg (by simp [some_]), element]

/-- The name of a file comes back as the base of its path. -/
theorem base_join (dir name : List α) (plain : Plain sep dot name) :
    base sep dot (join sep dot dir name) = name := by
  obtain ⟨lead, is, path⟩ := join_concat dir name plain
  rw [path, base_lead lead name is plain.nonempty plain.noSep]

end SlashPath
