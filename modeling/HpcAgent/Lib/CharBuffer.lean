import HpcAgent.Lib.Scan

/-!
# Character buffers

A `char` array is the list of its characters, and a pointer into it is a
position. `CharBuffer.write` is the assignment of a run of characters
(`memcpy`, `memmove`, `read`, or a single store), which keeps the size of the
array as long as the run ends inside it. The string at a position and
`strchr` end at the first NUL.
-/

namespace CharBuffer

/-- The terminating NUL. -/
def nul : Char := Char.ofNat 0

/-- A run of characters stored at a position. -/
def write (pos : ℕ) (l buf : List Char) : List Char :=
  buf.take pos ++ l ++ buf.drop (pos + l.length)

/-- The string at a position. -/
def stringAt (pos : ℕ) (buf : List Char) : CString :=
  (buf.drop pos).takeWhile (fun x => x != nul)

/-- `strchr` on the string at a position: the position of the character. -/
def strchr (c : Char) (pos : ℕ) (buf : List Char) : Option ℕ :=
  ((stringAt pos buf).idxOf? c).map (pos + ·)

/-- A run that ends inside the array keeps its size. -/
theorem length_write {pos : ℕ} {l buf : List Char} (h : pos + l.length ≤ buf.length) :
    (write pos l buf).length = buf.length := by
  unfold write
  rw [List.length_append, List.length_append, List.length_take, List.length_drop]
  omega

/-- A run stored behind a part of the array. -/
theorem write_append (a l m b : List Char) (h : m.length = l.length) :
    write a.length l (a ++ (m ++ b)) = a ++ (l ++ b) := by
  unfold write
  rw [List.take_left, ← h, ← List.drop_drop, List.drop_left, List.drop_left, List.append_assoc]

/-- What stands in front of a run stays. -/
theorem take_write {pos : ℕ} (l : List Char) {buf : List Char} (h : pos ≤ buf.length) :
    (write pos l buf).take (pos + l.length) = buf.take pos ++ l := by
  have hlen : (buf.take pos ++ l).length = pos + l.length := by
    rw [List.length_append, List.length_take, min_eq_left h]
  unfold write
  rw [← hlen, List.take_left]

/-- The string in front of a NUL. -/
theorem stringAt_append (a b : List Char) {w : CString} (h : nul ∉ w) :
    stringAt a.length (a ++ (w ++ nul :: b)) = w := by
  unfold stringAt
  rw [List.drop_left, List.takeWhile_append_of_pos (fun x hx => ?_),
    List.takeWhile_cons_of_neg (by simp), List.append_nil]
  simpa using fun heq : x = nul => h (heq ▸ hx)

/-- `strchr` finds a place inside the array. -/
theorem lt_of_strchr {c : Char} {pos p : ℕ} {buf : List Char} (h : strchr c pos buf = some p) :
    p < buf.length := by
  obtain ⟨i, hi, rfl⟩ := Option.map_eq_some_iff.mp h
  have hlt : i < (stringAt pos buf).length := by
    obtain ⟨hlt, -⟩ := List.idxOf?_eq_some_iff.mp hi
    exact hlt
  have hle : (stringAt pos buf).length ≤ (buf.drop pos).length :=
    (List.takeWhile_sublist _).length_le
  rw [List.length_drop] at hle
  omega

/-- `strchr` does not find what is not there. -/
theorem strchr_eq_none (a b : List Char) {w : CString} {c : Char} (h : nul ∉ w)
    (hc : c ∉ w) : strchr c a.length (a ++ (w ++ nul :: b)) = none := by
  unfold strchr
  rw [stringAt_append a b h, List.idxOf?_eq_none_iff.mpr hc]
  rfl

/-- `strchr` finds the first occurrence. -/
theorem strchr_eq_some (a b : List Char) {w m : CString} {c : Char}
    (h : nul ∉ w ++ c :: m) (hc : c ∉ w) :
    strchr c a.length (a ++ ((w ++ c :: m) ++ nul :: b)) = some (a.length + w.length) := by
  unfold strchr
  rw [stringAt_append a b h]
  have hidx : (w ++ c :: m).idxOf? c = some w.length := by
    induction w with
    | nil => simp [List.idxOf?_cons]
    | cons x w ih =>
      have hx : x ≠ c := fun heq => hc (heq ▸ List.mem_cons_self)
      have ih := ih (fun hmem => h (List.mem_cons_of_mem x hmem))
        (fun hmem => hc (List.mem_cons_of_mem x hmem))
      simp [List.idxOf?_cons, hx, ih]
  rw [hidx]
  rfl

end CharBuffer
