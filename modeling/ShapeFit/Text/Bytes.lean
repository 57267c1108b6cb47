/-!
# ShapeFit.Text.Bytes

Byte offsets into a text of characters.

Positions are counted in the bytes of the UTF-8 form. An offset can point past
the end or into a character; `splitAtByte` refuses both, and
`splitAtByte_eq_some_iff` says that it finds every other split.
-/

namespace ShapeFit.Text

/-- The number of bytes of a text in UTF-8. -/
def byteSize : List Char → Nat
  | [] => 0
  | c :: cs => c.utf8Size + byteSize cs

theorem byteSize_append (l r : List Char) : byteSize (l ++ r) = byteSize l + byteSize r := by
  induction l with
  | nil => simp [byteSize]
  | cons c cs ih => simp [byteSize, ih, Nat.add_assoc]

/-- A string takes as many bytes as its characters. -/
theorem utf8ByteSize_eq_byteSize (s : String) : s.utf8ByteSize = byteSize s.toList := by
  have ofList (cs : List Char) : (String.ofList cs).utf8ByteSize = byteSize cs := by
    induction cs with
    | nil => rfl
    | cons c cs ih =>
      rw [show String.ofList (c :: cs) = String.singleton c ++ String.ofList cs from
        String.toList_injective (by simp), String.utf8ByteSize_append, ih,
        String.utf8ByteSize_singleton, byteSize]
  simpa using ofList s.toList

/-- Splits a text at a byte offset. There is no split past the end of the text
and none inside a character. -/
def splitAtByte : List Char → Nat → Option (List Char × List Char)
  | cs, 0 => some ([], cs)
  | [], _ + 1 => none
  | c :: cs, n + 1 =>
    if c.utf8Size ≤ n + 1 then
      (splitAtByte cs (n + 1 - c.utf8Size)).map fun (l, r) => (c :: l, r)
    else none

/-- The splits are the ways to cut the text in two whose first part has the
given number of bytes. -/
theorem splitAtByte_eq_some_iff {cs l r : List Char} {n : Nat} :
    splitAtByte cs n = some (l, r) ↔ l ++ r = cs ∧ byteSize l = n := by
  induction cs generalizing l r n with
  | nil => cases n <;> cases l <;> simp [splitAtByte, byteSize, eq_comm]
  | cons c cs ih =>
    have hc := Char.utf8Size_pos c
    cases n with
    | zero =>
      cases l with
      | nil => simp [splitAtByte, byteSize, eq_comm]
      | cons d l =>
        have hd := Char.utf8Size_pos d
        simp [splitAtByte, byteSize]
        omega
    | succ n =>
      cases l with
      | nil => by_cases h : c.utf8Size ≤ n + 1 <;> simp [splitAtByte, byteSize, h]
      | cons d l =>
        by_cases h : c.utf8Size ≤ n + 1
        · simp only [splitAtByte, if_pos h, Option.map_eq_some_iff, Prod.exists, Prod.mk.injEq,
            List.cons.injEq, ih, List.cons_append, byteSize]
          constructor
          · rintro ⟨l', r', ⟨happ, hsize⟩, ⟨rfl, rfl⟩, rfl⟩
            exact ⟨⟨rfl, happ⟩, by omega⟩
          · rintro ⟨⟨rfl, happ⟩, hsize⟩
            exact ⟨l, r, ⟨happ, by omega⟩, ⟨rfl, rfl⟩, rfl⟩
        · simp only [splitAtByte, if_neg h, List.cons_append, List.cons.injEq, byteSize]
          constructor
          · intro hn; cases hn
          · rintro ⟨⟨rfl, -⟩, hsize⟩; omega

end ShapeFit.Text
