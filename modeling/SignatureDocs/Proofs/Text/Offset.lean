import Mathlib
import SignatureDocs.Text.Offset

/-!
Offsets and the texts behind them. `dropBytes? cs n` is the text of `cs` from offset `n` on, so the offset falls
between two characters of `cs` exactly if there is such a text.
-/
namespace SignatureDocs.Text

@[simp] theorem byteLength_nil : byteLength [] = 0 := rfl

@[simp] theorem byteLength_cons (c : Char) (cs : List Char) :
    byteLength (c :: cs) = c.utf8Size + byteLength cs := rfl

@[simp] theorem byteLength_append (xs ys : List Char) :
    byteLength (xs ++ ys) = byteLength xs + byteLength ys := by
  induction xs with
  | nil => rw [List.nil_append, byteLength_nil, Nat.zero_add]
  | cons c xs ih => rw [List.cons_append, byteLength_cons, ih, byteLength_cons, Nat.add_assoc]

theorem byteLength_pos {cs : List Char} (h : cs ≠ []) : 0 < byteLength cs := by
  cases cs with
  | nil => exact absurd rfl h
  | cons c cs =>
    have hc := c.utf8Size_pos
    rw [byteLength_cons]
    omega

theorem dropBytes?_zero (cs : List Char) : dropBytes? cs 0 = some cs := by
  cases cs <;> rfl

theorem dropBytes?_cons (c : Char) (cs : List Char) (n : Nat) :
    dropBytes? (c :: cs) (c.utf8Size + n) = dropBytes? cs n := by
  have hc := c.utf8Size_pos
  obtain ⟨k, hk⟩ : ∃ k, c.utf8Size + n = k + 1 := ⟨c.utf8Size + n - 1, by omega⟩
  rw [hk, dropBytes?, if_pos (by omega)]
  congr 1
  omega

theorem takeBytes?_cons (c : Char) (cs : List Char) (n : Nat) :
    takeBytes? (c :: cs) (c.utf8Size + n) = (takeBytes? cs n).map (c :: ·) := by
  have hc := c.utf8Size_pos
  obtain ⟨k, hk⟩ : ∃ k, c.utf8Size + n = k + 1 := ⟨c.utf8Size + n - 1, by omega⟩
  rw [hk, takeBytes?, if_pos (by omega)]
  congr 2
  omega

theorem dropBytes?_append (xs cs : List Char) (n : Nat) :
    dropBytes? (xs ++ cs) (byteLength xs + n) = dropBytes? cs n := by
  induction xs with
  | nil => simp
  | cons c xs ih =>
    rw [List.cons_append, byteLength_cons, Nat.add_assoc, dropBytes?_cons, ih]

theorem takeBytes?_append (xs cs : List Char) :
    takeBytes? (xs ++ cs) (byteLength xs) = some xs := by
  induction xs with
  | nil => cases cs <;> rfl
  | cons c xs ih =>
    rw [List.cons_append, byteLength_cons, takeBytes?_cons, ih]
    rfl

/-- What is behind an offset is what remains when the characters before it are gone. -/
theorem dropBytes?_eq_some_iff {cs rest : List Char} {n : Nat} :
    dropBytes? cs n = some rest ↔ ∃ xs, cs = xs ++ rest ∧ byteLength xs = n := by
  constructor
  · intro h
    fun_induction dropBytes? cs n with
    | case1 cs =>
      obtain rfl := Option.some.inj h
      exact ⟨[], rfl, rfl⟩
    | case2 => simp at h
    | case3 c cs n hle ih =>
      obtain ⟨xs, hxs, hlen⟩ := ih h
      refine ⟨c :: xs, by rw [hxs]; rfl, ?_⟩
      rw [byteLength_cons]
      omega
    | case4 => simp at h
  · rintro ⟨xs, rfl, rfl⟩
    simpa [dropBytes?_zero] using dropBytes?_append xs rest 0

/-- What is before an offset has as many bytes as the offset says. -/
theorem takeBytes?_eq_some {cs xs : List Char} {n : Nat} (h : takeBytes? cs n = some xs) :
    ∃ rest, cs = xs ++ rest ∧ byteLength xs = n := by
  fun_induction takeBytes? cs n generalizing xs with
  | case1 cs =>
    obtain rfl := Option.some.inj h
    exact ⟨cs, rfl, rfl⟩
  | case2 => cases h
  | case3 c cs n hle ih =>
    obtain ⟨ys, hys, rfl⟩ := Option.map_eq_some_iff.1 h
    obtain ⟨rest, hrest, hlen⟩ := ih hys
    refine ⟨rest, by rw [hrest, List.cons_append], ?_⟩
    rw [byteLength_cons]
    omega
  | case4 => cases h

/-- Going on from an offset over a piece of text. -/
theorem dropBytes?_add {cs xs rest : List Char} {n : Nat} (h : dropBytes? cs n = some (xs ++ rest)) :
    dropBytes? cs (n + byteLength xs) = some rest := by
  obtain ⟨ys, hys, hlen⟩ := dropBytes?_eq_some_iff.mp h
  apply dropBytes?_eq_some_iff.mpr
  exact ⟨ys ++ xs, by rw [hys, List.append_assoc], by rw [byteLength_append, hlen]⟩

theorem dropBytes?_le {cs rest : List Char} {n : Nat} (h : dropBytes? cs n = some rest) :
    n ≤ byteLength cs := by
  obtain ⟨xs, rfl, rfl⟩ := dropBytes?_eq_some_iff.mp h
  rw [byteLength_append]
  omega

/-- Between two offsets of a text, the later of which is reached from the earlier over whole characters. -/
theorem dropBytes?_between {cs us vs : List Char} {m n : Nat} (hm : dropBytes? cs m = some us)
    (hn : dropBytes? cs n = some vs) (hle : m ≤ n) :
    ∃ xs, us = xs ++ vs ∧ byteLength xs = n - m := by
  obtain ⟨as, ha, hla⟩ := dropBytes?_eq_some_iff.mp hm
  obtain ⟨bs, hb, hlb⟩ := dropBytes?_eq_some_iff.mp hn
  have hsame : as ++ us = bs ++ vs := ha.symm.trans hb
  rcases List.append_eq_append_iff.mp hsame with ⟨xs, hbs, hus⟩ | ⟨xs, has, hvs⟩
  · refine ⟨xs, hus, ?_⟩
    rw [hbs, byteLength_append] at hlb
    omega
  · -- the earlier offset cannot lie behind the later one, so nothing is between them
    have hxs : xs = [] := by
      by_contra hne
      have hpos := byteLength_pos hne
      rw [has, byteLength_append] at hla
      omega
    subst hxs
    refine ⟨[], by simpa using hvs.symm, ?_⟩
    simp only [List.append_nil] at has
    rw [has] at hla
    simp only [byteLength_nil]
    omega

/-- A piece of text is cut out where both its ends fall between characters. -/
theorem slice?_eq_some {cs xs rest : List Char} {m : Nat} (h : dropBytes? cs m = some (xs ++ rest)) :
    slice? cs ⟨m, m + byteLength xs⟩ = some xs := by
  have hle : m ≤ m + byteLength xs := Nat.le_add_right _ _
  simp only [slice?, if_pos hle, h, Option.bind_some, Nat.add_sub_cancel_left]
  exact takeBytes?_append xs rest

theorem slice?_isSome {cs : List Char} {m n : Nat} (hm : (dropBytes? cs m).isSome)
    (hn : (dropBytes? cs n).isSome) (hle : m ≤ n) : (slice? cs ⟨m, n⟩).isSome := by
  obtain ⟨us, hus⟩ := Option.isSome_iff_exists.mp hm
  obtain ⟨vs, hvs⟩ := Option.isSome_iff_exists.mp hn
  obtain ⟨xs, rfl, hlen⟩ := dropBytes?_between hus hvs hle
  have hn' : n = m + byteLength xs := by omega
  rw [hn', slice?_eq_some hus]
  rfl

end SignatureDocs.Text
