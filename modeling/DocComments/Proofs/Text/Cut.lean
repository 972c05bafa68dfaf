import DocComments.Text.Offset

/-!
# Cuts

A text can be cut at a byte offset that lies on a character boundary, and at several of them in
order. A statement about `takeBytes`, `dropBytes` and `slice` at boundaries is best proved on the
pieces of such a cut: `exists_cut` gives the pieces, and the lemmas about appended texts compute
what the cutting functions make of them.
-/

set_option autoImplicit false

namespace DocComments

namespace Text

/-! ## Boundaries -/

/-- An offset is on a boundary if some piece in front has exactly that many bytes. -/
theorem isBoundary_iff {n : Nat} {t : Text} :
    isBoundary n t = true ↔ ∃ front back, t = front ++ back ∧ byteSize front = n := by
  constructor
  · intro h
    exact ⟨takeBytes n t, dropBytes n t, (takeBytes_append_dropBytes n t).symm,
      byteSize_takeBytes h⟩
  · rintro ⟨front, back, rfl, rfl⟩
    rw [isBoundary, takeBytes_byteSize_append, beq_self_eq_true]

theorem isBoundary_zero (t : Text) : isBoundary 0 t = true :=
  isBoundary_iff.mpr ⟨[], t, rfl, rfl⟩

/-- A boundary lies within the text. -/
theorem le_byteSize_of_isBoundary {n : Nat} {t : Text} (h : isBoundary n t = true) :
    n ≤ byteSize t := by
  obtain ⟨front, back, rfl, rfl⟩ := isBoundary_iff.mp h
  rw [byteSize_append]
  exact Nat.le_add_right _ _

/-- Only the empty text has no bytes. -/
theorem eq_nil_of_byteSize_eq_zero {t : Text} (h : byteSize t = 0) : t = [] := by
  cases t with
  | nil => rfl
  | cons c t =>
    have := c.utf8Size_pos
    rw [byteSize_cons] at h
    omega

/-! ## Cutting appended texts -/

@[simp] theorem takeBytes_zero (t : Text) : takeBytes 0 t = [] := takeBytes_byteSize_append [] t

@[simp] theorem dropBytes_zero (t : Text) : dropBytes 0 t = t := dropBytes_byteSize_append [] t

/-- A cut behind the front part cuts the back part. -/
@[simp] theorem takeBytes_add_append (s t : Text) (n : Nat) :
    takeBytes (byteSize s + n) (s ++ t) = s ++ takeBytes n t := by
  induction s with
  | nil => simp
  | cons c s ih =>
    have hle : c.utf8Size ≤ c.utf8Size + byteSize s + n := by omega
    have hsub : c.utf8Size + byteSize s + n - c.utf8Size = byteSize s + n := by omega
    rw [byteSize_cons, List.cons_append, takeBytes, if_pos hle, hsub, ih, List.cons_append]

@[simp] theorem dropBytes_add_append (s t : Text) (n : Nat) :
    dropBytes (byteSize s + n) (s ++ t) = dropBytes n t := by
  induction s with
  | nil => simp
  | cons c s ih =>
    have hle : c.utf8Size ≤ c.utf8Size + byteSize s + n := by omega
    have hsub : c.utf8Size + byteSize s + n - c.utf8Size = byteSize s + n := by omega
    rw [byteSize_cons, List.cons_append, dropBytes, if_pos hle, hsub, ih]

/-! ## Cuts at two boundaries -/

/-- Two boundaries in order cut a text into three pieces. -/
theorem exists_cut {m n : Nat} {t : Text} (hmn : m ≤ n) (hm : isBoundary m t = true)
    (hn : isBoundary n t = true) :
    ∃ a b c, t = a ++ (b ++ c) ∧ byteSize a = m ∧ byteSize a + byteSize b = n := by
  obtain ⟨a, r, rfl, rfl⟩ := isBoundary_iff.mp hm
  obtain ⟨f, c, hfc, rfl⟩ := isBoundary_iff.mp hn
  rcases List.append_eq_append_iff.mp hfc with ⟨b, rfl, rfl⟩ | ⟨b, rfl, rfl⟩
  · exact ⟨a, b, c, rfl, rfl, (byteSize_append a b).symm⟩
  · -- the second piece in front is no longer in bytes, so that nothing is between the two
    have hb : b = [] := eq_nil_of_byteSize_eq_zero (by rw [byteSize_append] at hmn; omega)
    subst hb
    exact ⟨f, [], r, by simp, by simp, by simp⟩

/-- What follows a piece in front does not matter to a cut within it. -/
theorem takeBytes_takeBytes_append {m n : Nat} {t : Text} (hmn : m ≤ n)
    (hm : isBoundary m t = true) (hn : isBoundary n t = true) (s : Text) :
    takeBytes m (takeBytes n t ++ s) = takeBytes m t := by
  obtain ⟨a, b, c, rfl, rfl, rfl⟩ := exists_cut hmn hm hn
  rw [takeBytes_add_append, takeBytes_byteSize_append, takeBytes_byteSize_append, List.append_assoc,
    takeBytes_byteSize_append]

/-- Behind a piece in front stands what was put there. -/
theorem dropBytes_takeBytes_append {n : Nat} {t : Text} (hn : isBoundary n t = true) (s : Text) :
    dropBytes n (takeBytes n t ++ s) = s := by
  have h := dropBytes_byteSize_append (takeBytes n t) s
  rwa [byteSize_takeBytes hn] at h

end Text

namespace ByteRange

/-- The text of a range between two pieces. -/
theorem slice_of_cut (a b c : Text) :
    slice ⟨Text.byteSize a, Text.byteSize a + Text.byteSize b⟩ (a ++ (b ++ c)) = b := by
  simp [slice]

/-- An empty range has no text. -/
@[simp] theorem slice_self (n : Nat) (t : Text) : slice ⟨n, n⟩ t = [] := by simp [slice]

/-- A piece in front and the piece up to a later boundary make up a longer piece in front. -/
theorem takeBytes_append_slice {m n : Nat} {t : Text} (hmn : m ≤ n)
    (hm : Text.isBoundary m t = true) (hn : Text.isBoundary n t = true) :
    Text.takeBytes m t ++ slice ⟨m, n⟩ t = Text.takeBytes n t := by
  obtain ⟨a, b, c, rfl, rfl, rfl⟩ := Text.exists_cut hmn hm hn
  rw [slice_of_cut, Text.takeBytes_byteSize_append, Text.takeBytes_add_append,
    Text.takeBytes_byteSize_append]

/-- The piece up to a later boundary and the piece behind it make up a longer piece behind. -/
theorem slice_append_dropBytes {m n : Nat} {t : Text} (hmn : m ≤ n)
    (hm : Text.isBoundary m t = true) (hn : Text.isBoundary n t = true) :
    slice ⟨m, n⟩ t ++ Text.dropBytes n t = Text.dropBytes m t := by
  obtain ⟨a, b, c, rfl, rfl, rfl⟩ := Text.exists_cut hmn hm hn
  rw [slice_of_cut, Text.dropBytes_byteSize_append, Text.dropBytes_add_append,
    Text.dropBytes_byteSize_append]

/-- Two pieces one behind the other make up one piece. -/
theorem slice_append_slice {l m n : Nat} {t : Text} (hlm : l ≤ m) (hmn : m ≤ n)
    (hl : Text.isBoundary l t = true) (hm : Text.isBoundary m t = true)
    (hn : Text.isBoundary n t = true) :
    slice ⟨l, m⟩ t ++ slice ⟨m, n⟩ t = slice ⟨l, n⟩ t := by
  have hfront := takeBytes_append_slice (Nat.le_trans hlm hmn) hl hn
  rw [← takeBytes_append_slice hmn hm hn, ← takeBytes_append_slice hlm hl hm,
    List.append_assoc] at hfront
  exact (List.append_cancel_left hfront).symm

/-- The range cannot be cut out of the text: it is reversed, ends behind the text or has an end
that is no character boundary. -/
def Misplaced (r : ByteRange) (t : Text) : Prop :=
  r.stop < r.start ∨ Text.byteSize t < r.stop ∨
    ¬ (∃ front back, t = front ++ back ∧ Text.byteSize front = r.start) ∨
    ¬ (∃ front back, t = front ++ back ∧ Text.byteSize front = r.stop)

theorem fits_iff {r : ByteRange} {t : Text} :
    r.fits t = true ↔ r.start ≤ r.stop ∧ Text.isBoundary r.start t = true ∧
      Text.isBoundary r.stop t = true := by
  rw [fits, Bool.and_eq_true, Bool.and_eq_true, decide_eq_true_eq, and_assoc]

/-- A range fits a text unless it is misplaced. -/
theorem fits_iff_not_misplaced {r : ByteRange} {t : Text} :
    r.fits t = true ↔ ¬ r.Misplaced t := by
  rw [fits_iff, Misplaced, ← Text.isBoundary_iff, ← Text.isBoundary_iff]
  constructor
  · rintro ⟨hle, hstart, hstop⟩
    have := Text.le_byteSize_of_isBoundary hstop
    rintro (h | h | h | h)
    · omega
    · omega
    · exact h hstart
    · exact h hstop
  · intro h
    simp only [not_or, Classical.not_not] at h
    exact ⟨by omega, h.2.2⟩

theorem fits_eq_false_iff {r : ByteRange} {t : Text} : r.fits t = false ↔ r.Misplaced t := by
  rw [← Bool.not_eq_true, fits_iff_not_misplaced, Classical.not_not]

end ByteRange

end DocComments
