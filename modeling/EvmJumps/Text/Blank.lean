namespace EvmJumps.Text

/-- The 25 code points with the property White_Space. -/
def isBlank (c : Char) : Bool :=
  let n := c.toNat
  (9 ≤ n && n ≤ 13) || n == 0x20 || n == 0x85 || n == 0xa0 || n == 0x1680 ||
    (0x2000 ≤ n && n ≤ 0x200a) || n == 0x2028 || n == 0x2029 || n == 0x202f ||
    n == 0x205f || n == 0x3000

def trimLeft (s : List Char) : List Char :=
  s.dropWhile isBlank

def trim (s : List Char) : List Char :=
  (trimLeft (trimLeft s).reverse).reverse

theorem trimLeft_blanks {w : List Char} (blank : ∀ c ∈ w, isBlank c) (s : List Char) :
    trimLeft (w ++ s) = trimLeft s := by
  induction w with
  | nil => rfl
  | cons c w ih =>
    have hc : isBlank c = true := blank c (by simp)
    simpa [trimLeft, hc] using ih (fun d hd => blank d (by simp [hd]))

theorem exists_trimLeft (s : List Char) : ∃ w, (∀ c ∈ w, isBlank c) ∧ s = w ++ trimLeft s :=
  ⟨s.takeWhile isBlank, List.all_eq_true.mp List.all_takeWhile,
    List.takeWhile_append_dropWhile.symm⟩

theorem trimLeft_of_head {s : List Char} (solid : ∀ c ∈ s.head?, isBlank c = false) :
    trimLeft s = s := by
  cases s with
  | nil => rfl
  | cons c s => simp [trimLeft, solid c (by simp)]

/-- Blanks around a text with solid ends are what trimming removes. -/
theorem trim_padded {before s after : List Char} (left : ∀ c ∈ before, isBlank c)
    (right : ∀ c ∈ after, isBlank c) (head : ∀ c ∈ s.head?, isBlank c = false)
    (last : ∀ c ∈ s.getLast?, isBlank c = false) :
    trim (before ++ s ++ after) = s := by
  have rightReversed : ∀ c ∈ after.reverse, isBlank c := by simpa using right
  cases s with
  | nil =>
    have after_blank : trimLeft after = [] := by simpa [trimLeft] using trimLeft_blanks right []
    rw [trim, List.append_assoc, trimLeft_blanks left, List.nil_append, after_blank]
    rfl
  | cons c s =>
    have solid : isBlank c = false := head c (by simp)
    have lastReversed : ∀ d ∈ (c :: s).reverse.head?, isBlank d = false := by
      rw [List.head?_reverse]
      exact last
    have headKept : trimLeft (c :: s ++ after) = c :: s ++ after :=
      trimLeft_of_head (by simp [solid])
    rw [trim, List.append_assoc, trimLeft_blanks left, headKept, List.reverse_append,
      trimLeft_blanks rightReversed, trimLeft_of_head lastReversed, List.reverse_reverse]

theorem exists_trim_append (s : List Char) :
    ∃ after, (∀ c ∈ after, isBlank c) ∧ trimLeft s = trim s ++ after := by
  obtain ⟨after, right, rest⟩ := exists_trimLeft (trimLeft s).reverse
  refine ⟨after.reverse, by simpa using right, ?_⟩
  rw [trim, ← List.reverse_append, ← rest, List.reverse_reverse]

/-- Trimming takes blanks off the ends and nothing else. -/
theorem exists_trim (s : List Char) : ∃ before after, (∀ c ∈ before, isBlank c) ∧
    (∀ c ∈ after, isBlank c) ∧ s = before ++ trim s ++ after := by
  obtain ⟨before, left, split⟩ := exists_trimLeft s
  obtain ⟨after, right, body⟩ := exists_trim_append s
  refine ⟨before, after, left, right, ?_⟩
  rw [List.append_assoc, ← body]
  exact split

/-- The text between the blanks at the two ends of another: blanks are all that was taken off, and
no blank is left at an end. -/
structure Trimmed (s body : List Char) : Prop where
  padded : ∃ before after, (∀ c ∈ before, isBlank c) ∧ (∀ c ∈ after, isBlank c) ∧
    s = before ++ body ++ after
  head : ∀ c ∈ body.head?, isBlank c = false
  last : ∀ c ∈ body.getLast?, isBlank c = false

theorem head_trimLeft (s : List Char) : ∀ c ∈ (trimLeft s).head?, isBlank c = false := by
  intro c first
  have solid := List.head?_dropWhile_not isBlank s
  rw [trimLeft, Option.mem_def] at first
  rw [first] at solid
  exact solid

theorem last_trim (s : List Char) : ∀ c ∈ (trim s).getLast?, isBlank c = false := by
  rw [trim, List.getLast?_reverse]
  exact head_trimLeft _

theorem trimmed_iff {s body : List Char} : Trimmed s body ↔ body = trim s := by
  constructor
  · rintro ⟨⟨before, after, left, right, rfl⟩, head, last⟩
    exact (trim_padded left right head last).symm
  · rintro rfl
    refine ⟨exists_trim s, ?_, last_trim s⟩
    obtain ⟨after, _, body⟩ := exists_trim_append s
    intro c first
    apply head_trimLeft s
    rw [body, List.head?_append, Option.mem_def.mp first]
    rfl

end EvmJumps.Text
