import CilSketch.Text.Slice
import Mathlib.Data.String.Basic

/-!
Parts of a text. A part is what stands between something before and something after it, and its
offsets are the sizes of these. Cutting the text at the offsets gives the part back, and it stays
the part there when the text grows at its end.
-/

set_option autoImplicit false

namespace CilSketch

open String (utf8Len)

theorem dropBytes_add_utf8Size (c : Char) (count : Nat) (rest : List Char) :
    dropBytes (count + c.utf8Size) (c :: rest) = dropBytes count rest := by
  obtain ⟨more, positive⟩ := Nat.exists_eq_add_of_lt c.utf8Size_pos
  have total : count + c.utf8Size = count + more + 1 := by omega
  rw [total, dropBytes, if_pos (by omega)]
  congr 1
  omega

theorem takeBytes_add_utf8Size (c : Char) (count : Nat) (rest : List Char) :
    takeBytes (count + c.utf8Size) (c :: rest) = (takeBytes count rest).map (c :: ·) := by
  obtain ⟨more, positive⟩ := Nat.exists_eq_add_of_lt c.utf8Size_pos
  have total : count + c.utf8Size = count + more + 1 := by omega
  rw [total, takeBytes, if_pos (by omega)]
  congr 2
  omega

theorem dropBytes_utf8Len (front rest : List Char) :
    dropBytes (utf8Len front) (front ++ rest) = some rest := by
  induction front with
  | nil => cases rest <;> rfl
  | cons c front ih => rw [String.utf8Len_cons, List.cons_append, dropBytes_add_utf8Size, ih]

theorem takeBytes_utf8Len (front rest : List Char) :
    takeBytes (utf8Len front) (front ++ rest) = some front := by
  induction front with
  | nil => cases rest <;> rfl
  | cons c front ih =>
    rw [String.utf8Len_cons, List.cons_append, takeBytes_add_utf8Size, ih, Option.map_some]

/-- The part of a text between two offsets. -/
def IsPart (text : String) (start stop : Nat) (part : String) : Prop :=
  ∃ front back, text = front ++ part ++ back ∧ start = front.utf8ByteSize ∧
    stop = (front ++ part).utf8ByteSize

namespace IsPart

variable {text part : String} {start stop : Nat}

theorem slice?_eq (isPart : IsPart text start stop part) :
    slice? text start stop = some part := by
  obtain ⟨front, back, rfl, rfl, rfl⟩ := isPart
  have stops : (front ++ part).utf8ByteSize - front.utf8ByteSize = utf8Len part.toList := by
    rw [String.utf8ByteSize_append, String.utf8Len_toList]
    omega
  rw [slice?, if_pos (by simp), stops, ← String.utf8Len_toList front, String.append_assoc,
    String.toList_append, dropBytes_utf8Len, Option.bind_some, String.toList_append,
    takeBytes_utf8Len, Option.map_some, String.ofList_toList]

theorem append (isPart : IsPart text start stop part) (more : String) :
    IsPart (text ++ more) start stop part := by
  obtain ⟨front, back, rfl, starts, stops⟩ := isPart
  exact ⟨front, back ++ more, by rw [String.append_assoc], starts, stops⟩

theorem start_le_stop (isPart : IsPart text start stop part) : start ≤ stop := by
  obtain ⟨front, back, -, rfl, rfl⟩ := isPart
  rw [String.utf8ByteSize_append]
  exact Nat.le_add_right _ _

theorem isValid_start (isPart : IsPart text start stop part) :
    String.Pos.Raw.IsValid text ⟨start⟩ := by
  obtain ⟨front, back, rfl, rfl, -⟩ := isPart
  rw [String.append_assoc]
  exact String.Pos.Raw.isValid_rawEndPos.append_right _

theorem isValid_stop (isPart : IsPart text start stop part) :
    String.Pos.Raw.IsValid text ⟨stop⟩ := by
  obtain ⟨front, back, rfl, -, rfl⟩ := isPart
  exact String.Pos.Raw.isValid_rawEndPos.append_right _

end IsPart

end CilSketch
